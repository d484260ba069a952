import OverlaySaver.Cosave

/-!
# What a load makes of what a save wrote

`reloadRecord` is the record a load builds from a saved one: the path is cut to its
16-bit length and gets a NUL behind it, and the record starts out as not applied. A load
of a saved payload stores the reloaded records in the order in which they were written; the
last entry that resolves to a key decides what is stored there.
-/

namespace OverlaySaver
open ByteStream

def reloadOverlay (o : RMOverlay) : RMOverlay :=
  let n := UInt16.ofNat o.texturePath.length
  ⟨o.alpha, o.color, n, o.texturePath.take n.toNat ++ [0]⟩

def reloadRecord (r : ActorRecord) : ActorRecord :=
  { r.mapLists (List.map reloadOverlay) with alreadyApplied := false }

structure ListsFit (r : ActorRecord) : Prop where
  length_le : ∀ p, (r.list p).length ≤ 255

structure PathsFit (r : ActorRecord) : Prop where
  length_le : ∀ p, ∀ o ∈ r.list p, o.texturePath.length ≤ 65535

theorem default_listsFit : ListsFit {} :=
  ⟨fun p => by rw [ActorRecord.default_list]; exact Nat.zero_le 255⟩

@[simp] theorem reloadRecord_list (r : ActorRecord) (p : Part) :
    (reloadRecord r).list p = (r.list p).map reloadOverlay := by
  cases p <;> rfl

theorem reloadRecord_listsFit {r : ActorRecord} (h : ListsFit r) : ListsFit (reloadRecord r) :=
  ⟨fun p => by simpa using h.length_le p⟩

theorem reloadOverlay_path {o : RMOverlay} (h : o.texturePath.length ≤ 65535) :
    (reloadOverlay o).texturePath = o.texturePath ++ [0] := by
  have hn : (UInt16.ofNat o.texturePath.length).toNat = o.texturePath.length := by
    simp only [UInt16.toNat_ofNat']
    omega
  simp only [reloadOverlay, hn, List.take_length]

theorem reloadOverlay_look {o : RMOverlay} (h : o.texturePath.length ≤ 65535) :
    (reloadOverlay o).look = o.look := by
  have hp := reloadOverlay_path h
  simp only [RMOverlay.look, hp, CStr.ofString_append_nul]
  rfl

theorem reloadRecord_looks {r : ActorRecord} (h : PathsFit r) :
    (reloadRecord r).looks = r.looks := by
  funext p
  simp only [ActorRecord.looks, reloadRecord_list, List.map_map]
  exact List.map_congr_left fun o ho => reloadOverlay_look (h.length_le p o ho)

section Decode

theorem readOverlay_saveOverlay (o : RMOverlay) (rest : Bytes) :
    readOverlay (saveOverlay o ++ rest) = (reloadOverlay o, rest) := by
  have hl : (UInt16.ofNat o.texturePath.length).toNat ≤ o.texturePath.length := by
    simp only [UInt16.toNat_ofNat']
    exact Nat.mod_le _ _
  have hp : readInto (List.replicate (UInt16.ofNat o.texturePath.length).toNat 0)
      (o.texturePath.take (UInt16.ofNat o.texturePath.length).toNat ++ rest) =
        (o.texturePath.take (UInt16.ofNat o.texturePath.length).toNat, rest) :=
    readInto_append (by rw [List.length_take_of_le hl, List.length_replicate]) rest
  simp only [readOverlay, saveOverlay, List.append_assoc, Word.read_encode, hp, reloadOverlay]

theorem toNat_ofNat_of_le_255 {n : ℕ} (h : n ≤ 255) : (UInt8.ofNat n).toNat = n := by
  simp only [UInt8.toNat_ofNat']
  omega

theorem readEntry_saveEntry {r : ActorRecord} (h : ListsFit r) (junk a : FormID) (rest : Bytes) :
    readEntry junk (saveEntry a r ++ rest) = (⟨a, reloadRecord r⟩, rest) := by
  have hr := readMany_flatMap readOverlay_saveOverlay
  have hh := toNat_ofNat_of_le_255 (h.length_le .head)
  have hn := toNat_ofNat_of_le_255 (h.length_le .hand)
  have hb := toNat_ofNat_of_le_255 (h.length_le .body)
  have hf := toNat_ofNat_of_le_255 (h.length_le .feet)
  simp only [ActorRecord.list] at hh hn hb hf
  simp only [readEntry, saveEntry, List.append_assoc, Word.read_encode, hh, hn, hb, hf, hr]
  rfl

def Entry.bytes (e : Entry) : Bytes := saveEntry e.formID e.data

def Entry.reload (e : Entry) : Entry := ⟨e.formID, reloadRecord e.data⟩

theorem loadEntries_bytes (c : LoadCall) (i : ℕ) {es : List Entry}
    (hfit : ∀ e ∈ es, ListsFit e.data) (s : ActorData) (rest : Bytes) :
    loadEntries c i es.length s (es.flatMap Entry.bytes ++ rest) =
      ((es.map Entry.reload).foldl (storeEntry c) s, rest) := by
  induction es generalizing s with
  | nil => rfl
  | cons e es ih =>
    rw [List.length_cons, loadEntries, List.flatMap_cons, List.append_assoc, Entry.bytes,
      readEntry_saveEntry (hfit e List.mem_cons_self), List.map_cons, List.foldl_cons]
    exact ih (fun e' he' => hfit e' (List.mem_cons_of_mem e he')) _

/-- The entries that a save writes one after the other. -/
def storedEntries (s : ActorData) (order : List FormID) : List Entry :=
  order.filterMap fun a => (s.lookup a).map fun r => ⟨a, r⟩

/-- The same entries as a load reads them back. -/
def savedEntries (s : ActorData) (order : List FormID) : List Entry :=
  (storedEntries s order).map Entry.reload

theorem mem_storedEntries {s : ActorData} {order : List FormID} {e : Entry} :
    e ∈ storedEntries s order ↔ ∃ a ∈ order, ∃ r, s.lookup a = some r ∧ e = ⟨a, r⟩ := by
  simp [storedEntries, eq_comm]

theorem storedEntries_cons_of_lookup {s : ActorData} {a : FormID} {r : ActorRecord}
    (h : s.lookup a = some r) (order : List FormID) :
    storedEntries s (a :: order) = ⟨a, r⟩ :: storedEntries s order := by
  simp [storedEntries, h]

variable {s : ActorData} {order : List FormID}

theorem storedEntries_length (hmem : ∀ a ∈ order, a ∈ s) :
    (storedEntries s order).length = order.length := by
  induction order with
  | nil => rfl
  | cons a order ih =>
    obtain ⟨r, hr⟩ := Finmap.mem_iff.mp (hmem a List.mem_cons_self)
    rw [storedEntries_cons_of_lookup hr, List.length_cons, List.length_cons,
      ih fun b hb => hmem b (List.mem_cons_of_mem a hb)]

theorem storedEntries_bytes (hmem : ∀ a ∈ order, a ∈ s) :
    (storedEntries s order).flatMap Entry.bytes =
      order.flatMap fun a => (entryBytes s a).getD [] := by
  induction order with
  | nil => rfl
  | cons a order ih =>
    obtain ⟨r, hr⟩ := Finmap.mem_iff.mp (hmem a List.mem_cons_self)
    have he : (entryBytes s a).getD [] = Entry.bytes ⟨a, r⟩ := by
      rw [entryBytes, hr, Option.map_some, Option.getD_some, Entry.bytes]
    rw [storedEntries_cons_of_lookup hr, List.flatMap_cons, List.flatMap_cons, he,
      ih fun b hb => hmem b (List.mem_cons_of_mem a hb)]

theorem loadActorData_bytes (c : LoadCall) (i : ℕ) {r : CosaveRecord} {es : List Entry}
    {rest : Bytes} (htype : r.type = actorDataRecord) (hversion : 1 ≤ r.version)
    (hsize : es.length < 2 ^ 32) (hfit : ∀ e ∈ es, ListsFit e.data)
    (hdata : r.data = u32.encode (UInt32.ofNat es.length) ++ (es.flatMap Entry.bytes ++ rest))
    (s : ActorData) :
    loadActorData c i s r = ((es.map Entry.reload).foldl (storeEntry c) s, rest) := by
  have hv : ¬ r.version < 1 := UInt32.not_lt.mpr hversion
  have hn : (UInt32.ofNat es.length).toNat = es.length := by
    rw [UInt32.toNat_ofNat']
    exact Nat.mod_eq_of_lt hsize
  have hl := loadEntries_bytes c i hfit s rest
  rw [loadActorData, if_neg (not_not_intro htype), if_neg hv, hdata]
  simp only [Word.read_encode, hn, hl]
  split_ifs with hz
  · have h0 : es = [] := by
      have hle : (UInt32.ofNat es.length).toNat ≤ 0 := hz
      exact List.length_eq_zero_iff.mp (by omega)
    rw [h0]
    rfl
  · rfl

theorem saveActorData_eq (hord : Enumerates order s) :
    saveActorData s order = u32.encode (UInt32.ofNat (storedEntries s order).length) ++
      (storedEntries s order).flatMap Entry.bytes := by
  have hmem : ∀ a ∈ order, a ∈ s := fun a ha => (hord.mem_iff a).mp ha
  rw [storedEntries_length hmem, storedEntries_bytes hmem, hord.length_eq, saveActorData]

theorem loadActorData_saveActorData (hord : Enumerates order s) (hsize : s.keys.card < 2 ^ 32)
    (hfit : AllRecords ListsFit s) (c : LoadCall) (i : ℕ) (init : ActorData) (rest : Bytes) :
    loadActorData c i init
        ⟨actorDataRecord, overlayStructVersion, saveActorData s order ++ rest⟩ =
      ((savedEntries s order).foldl (storeEntry c) init, rest) := by
  have hv : 1 ≤ overlayStructVersion := by decide
  have hlen : (storedEntries s order).length < 2 ^ 32 := by
    rw [storedEntries_length fun a ha => (hord.mem_iff a).mp ha, hord.length_eq]
    exact hsize
  have hlists : ∀ e ∈ storedEntries s order, ListsFit e.data := by
    intro e he
    obtain ⟨a, -, r, hr, rfl⟩ := mem_storedEntries.mp he
    exact hfit a r hr
  refine loadActorData_bytes c i rfl hv hlen hlists ?_ init
  rw [saveActorData_eq hord, List.append_assoc]

end Decode

section LastEntry
variable (c : LoadCall)

def lastFor (k : FormID) (es : List Entry) : Option ActorRecord :=
  (es.filter fun e => c.resolveFormID e.formID = some k).getLast?.map Entry.data

theorem lastFor_append_singleton (k : FormID) (es : List Entry) (e : Entry) :
    lastFor c k (es ++ [e]) =
      if c.resolveFormID e.formID = some k then some e.data else lastFor c k es := by
  by_cases h : c.resolveFormID e.formID = some k <;> simp [lastFor, h]

theorem lastFor_eq_none_iff {k : FormID} {es : List Entry} :
    lastFor c k es = none ↔ ∀ e ∈ es, c.resolveFormID e.formID ≠ some k := by
  simp [lastFor]

theorem exists_of_lastFor_eq_some {k : FormID} {es : List Entry} {r : ActorRecord}
    (h : lastFor c k es = some r) :
    ∃ e ∈ es, c.resolveFormID e.formID = some k ∧ e.data = r := by
  obtain ⟨e, he, rfl⟩ := Option.map_eq_some_iff.mp h
  have hm := List.mem_filter.mp (List.mem_of_getLast? he)
  exact ⟨e, hm.1, by simpa using hm.2, rfl⟩

theorem lookup_storeEntry (s : ActorData) (e : Entry) (k : FormID) :
    (storeEntry c s e).lookup k =
      if c.resolveFormID e.formID = some k then
        (if c.lookupByID k then some e.data else none)
      else s.lookup k := by
  rw [storeEntry]
  cases hr : c.resolveFormID e.formID with
  | none => simp
  | some id =>
    by_cases hk : id = k
    · subst hk
      by_cases hf : c.lookupByID id <;> simp [hf, lookup_erase_ite]
    · have hk' : k ≠ id := fun h => hk h.symm
      by_cases hf : c.lookupByID id <;>
        simp [hf, hk, hk', lookup_erase_ite]

theorem lookup_foldl_storeEntry (es : List Entry) (s : ActorData) (k : FormID) :
    (es.foldl (storeEntry c) s).lookup k =
      match lastFor c k es with
      | some r => if c.lookupByID k then some r else none
      | none => s.lookup k := by
  induction es using List.reverseRecOn with
  | nil => rfl
  | append_singleton es e ih =>
    rw [List.foldl_append, List.foldl_cons, List.foldl_nil, lookup_storeEntry,
      lastFor_append_singleton, ih]
    by_cases h : c.resolveFormID e.formID = some k <;> simp [h]

theorem keys_storeEntry_card_le (s : ActorData) (e : Entry) :
    (storeEntry c s e).keys.card ≤ s.keys.card + 1 := by
  rw [storeEntry]
  split
  · split_ifs
    · exact keys_insert_card_le _ _ _
    · exact (keys_erase_card_le _ _).trans (Nat.le_succ _)
  · exact Nat.le_succ _

theorem keys_foldl_storeEntry_card_le (es : List Entry) (s : ActorData) :
    (es.foldl (storeEntry c) s).keys.card ≤ s.keys.card + es.length := by
  induction es generalizing s with
  | nil => exact Nat.le_refl _
  | cons e es ih =>
    have hs := keys_storeEntry_card_le c s e
    have hr := ih (storeEntry c s e)
    simp only [List.foldl_cons, List.length_cons]
    omega

end LastEntry

section Loaded
variable {P : ActorRecord → Prop} (c : LoadCall)

theorem allRecords_storeEntry {s : ActorData} {e : Entry} (hs : AllRecords P s) (he : P e.data) :
    AllRecords P (storeEntry c s e) := by
  intro a r hr
  rw [lookup_storeEntry] at hr
  split_ifs at hr
  · exact Option.some.inj hr ▸ he
  · exact hs a r hr

variable (hread : ∀ junk bs, P (readEntry junk bs).1.data)
include hread

theorem allRecords_loadEntries (i n : ℕ) {s : ActorData} (hs : AllRecords P s) (bs : Bytes) :
    AllRecords P (loadEntries c i n s bs).1 := by
  induction n generalizing s bs with
  | zero => exact hs
  | succ n ih => exact ih (allRecords_storeEntry c hs (hread _ bs)) _

theorem allRecords_loadActorData (i : ℕ) {s : ActorData} (hs : AllRecords P s)
    (r : CosaveRecord) : AllRecords P (loadActorData c i s r).1 := by
  rw [loadActorData]
  dsimp only
  split_ifs
  · exact hs
  · exact hs
  · exact hs
  · exact allRecords_loadEntries c hread i _ hs _

theorem allRecords_loadRecords (i : ℕ) {s : ActorData} (hs : AllRecords P s)
    (rs : List CosaveRecord) : AllRecords P (loadRecords c i s rs) := by
  induction rs generalizing i s with
  | nil => exact hs
  | cons r rs ih => exact ih (i + 1) (allRecords_loadActorData c hread i hs r)

theorem allRecords_loaded (cosave : List CosaveRecord) :
    AllRecords P (loadRecords c 0 ∅ cosave) := by
  apply allRecords_loadRecords c hread
  intro a r hr
  rw [Finmap.lookup_empty] at hr
  cases hr

end Loaded

section RoundTrip

def LoadCall.Injective (c : LoadCall) : Prop :=
  ∀ a b k, c.resolveFormID a = some k → c.resolveFormID b = some k → a = b

def savedCosave (s : ActorData) (order : List FormID) : List CosaveRecord :=
  [⟨actorDataRecord, overlayStructVersion, saveActorData s order⟩]

theorem mem_savedEntries {s : ActorData} {order : List FormID} {e : Entry} :
    e ∈ savedEntries s order ↔
      ∃ a ∈ order, ∃ r, s.lookup a = some r ∧ e = ⟨a, reloadRecord r⟩ := by
  simp [savedEntries, mem_storedEntries, Entry.reload, eq_comm, and_assoc]

theorem savedEntries_length_le (s : ActorData) (order : List FormID) :
    (savedEntries s order).length ≤ order.length := by
  rw [savedEntries, List.length_map]
  exact List.length_filterMap_le _ _

variable {s : ActorData} {order : List FormID} {c : LoadCall}

theorem lastFor_savedEntries (hord : Enumerates order s) (hinj : c.Injective) {a k : FormID}
    {r : ActorRecord} (hr : s.lookup a = some r) (hk : c.resolveFormID a = some k) :
    lastFor c k (savedEntries s order) = some (reloadRecord r) := by
  have hmem : (⟨a, reloadRecord r⟩ : Entry) ∈ savedEntries s order :=
    mem_savedEntries.mpr ⟨a, (hord.mem_iff a).mpr (Finmap.mem_of_lookup_eq_some hr), r, hr, rfl⟩
  cases hlast : lastFor c k (savedEntries s order) with
  | none => exact absurd hk (lastFor_eq_none_iff c |>.mp hlast _ hmem)
  | some x =>
    obtain ⟨e, he, hek, rfl⟩ := exists_of_lastFor_eq_some c hlast
    obtain ⟨b, _, r', hr', rfl⟩ := mem_savedEntries.mp he
    obtain rfl := hinj a b k hk hek
    rw [hr] at hr'
    rw [Option.some.inj hr']

theorem onGameLoaded_savedCosave (hord : Enumerates order s) (hsize : s.keys.card < 2 ^ 32)
    (hfit : AllRecords ListsFit s) (c : LoadCall) (w : World) :
    (onGameLoaded c (savedCosave s order) w).actorData =
      (savedEntries s order).foldl (storeEntry c) ∅ := by
  have h := loadActorData_saveActorData hord hsize hfit c 0 ∅ []
  rw [List.append_nil] at h
  simp only [onGameLoaded, savedCosave, loadRecords, h]

theorem lookup_loaded_iff (hord : Enumerates order s) (hsize : s.keys.card < 2 ^ 32)
    (hfit : AllRecords ListsFit s) (hinj : c.Injective) (w : World) {k : FormID} {x : ActorRecord} :
    (onGameLoaded c (savedCosave s order) w).actorData.lookup k = some x ↔
      ∃ a r, s.lookup a = some r ∧ c.resolveFormID a = some k ∧ c.lookupByID k = true ∧
        x = reloadRecord r := by
  rw [onGameLoaded_savedCosave hord hsize hfit, lookup_foldl_storeEntry]
  constructor
  · intro h
    cases hlast : lastFor c k (savedEntries s order) with
    | none => simp [hlast] at h
    | some y =>
      simp only [hlast] at h
      split_ifs at h with hf
      obtain ⟨e, he, hek, hey⟩ := exists_of_lastFor_eq_some c hlast
      obtain ⟨a, _, r, hr, rfl⟩ := mem_savedEntries.mp he
      exact ⟨a, r, hr, hek, hf, (Option.some.inj h).symm.trans hey.symm⟩
  · intro h'
    obtain ⟨a, r, hr, hk, hf, rfl⟩ := h'
    simp only [lastFor_savedEntries hord hinj hr hk, if_pos hf]

theorem loaded_order_irrelevant {order' : List FormID} (hord : Enumerates order s)
    (hord' : Enumerates order' s) (hsize : s.keys.card < 2 ^ 32) (hfit : AllRecords ListsFit s)
    (hinj : c.Injective) (w : World) :
    (onGameLoaded c (savedCosave s order') w).actorData =
      (onGameLoaded c (savedCosave s order) w).actorData := by
  refine Finmap.ext_lookup fun k => Option.ext fun x => ?_
  rw [lookup_loaded_iff hord hsize hfit hinj, lookup_loaded_iff hord' hsize hfit hinj]

theorem mem_loaded_iff (hord : Enumerates order s) (hsize : s.keys.card < 2 ^ 32)
    (hfit : AllRecords ListsFit s) (hinj : c.Injective) (w : World) (k : FormID) :
    k ∈ (onGameLoaded c (savedCosave s order) w).actorData ↔
      ∃ a ∈ s, c.resolveFormID a = some k ∧ c.lookupByID k = true := by
  have hl := fun x => lookup_loaded_iff hord hsize hfit hinj w (k := k) (x := x)
  generalize (onGameLoaded c (savedCosave s order) w).actorData = loaded at hl ⊢
  constructor
  · intro hk
    obtain ⟨x, hx⟩ := Finmap.mem_iff.mp hk
    obtain ⟨a, r, hr, hres, hf, _⟩ := (hl x).mp hx
    exact ⟨a, Finmap.mem_of_lookup_eq_some hr, hres, hf⟩
  · intro h
    obtain ⟨a, ha, hres, hf⟩ := h
    obtain ⟨r, hr⟩ := Finmap.mem_iff.mp ha
    exact Finmap.mem_of_lookup_eq_some ((hl _).mpr ⟨a, r, hr, hres, hf, rfl⟩)

/-- The ACTD payload is consumed to its last byte and gives back, under the resolved
FormIDs of the actors that are found, the four lists that were saved. -/
theorem cosave_round_trip (hord : Enumerates order s) (hsize : s.keys.card < 2 ^ 32)
    (hlists : AllRecords ListsFit s) (hpaths : AllRecords PathsFit s) (hinj : c.Injective)
    (w : World) :
    (∀ i init rest, (loadActorData c i init
      ⟨actorDataRecord, overlayStructVersion, saveActorData s order ++ rest⟩).2 = rest) ∧
    (∀ k, k ∈ (onGameLoaded c (savedCosave s order) w).actorData ↔
      ∃ a ∈ s, c.resolveFormID a = some k ∧ c.lookupByID k = true) ∧
    (∀ a r k, s.lookup a = some r → c.resolveFormID a = some k → c.lookupByID k = true →
      ∃ r', (onGameLoaded c (savedCosave s order) w).actorData.lookup k = some r' ∧
        r'.looks = r.looks ∧ r'.alreadyApplied = false) ∧
    (∀ order', Enumerates order' s →
      (onGameLoaded c (savedCosave s order') w).actorData =
        (onGameLoaded c (savedCosave s order) w).actorData) := by
  refine ⟨fun i init rest => ?_, mem_loaded_iff hord hsize hlists hinj w,
    fun a r k hr hk hf => ?_,
    fun order' hord' => loaded_order_irrelevant hord hord' hsize hlists hinj w⟩
  · rw [loadActorData_saveActorData hord hsize hlists]
  · have hx := (lookup_loaded_iff hord hsize hlists hinj w).mpr ⟨a, r, hr, hk, hf, rfl⟩
    exact ⟨reloadRecord r, hx, reloadRecord_looks (hpaths a r hr), rfl⟩

def oneOverlay : ActorRecord := { vHead := [⟨0x3f000000, 0xff0000, 1, [97]⟩] }

theorem oneOverlay_fits : ListsFit oneOverlay ∧ PathsFit oneOverlay :=
  ⟨⟨fun p => by cases p <;> decide⟩, ⟨fun p => by cases p <;> decide⟩⟩

def everyoneFound : LoadCall := ⟨some, fun _ => true, fun _ _ => 0⟩

theorem everyoneFound_injective : everyoneFound.Injective := by
  intro a b k ha hb
  exact (Option.some.inj ha).trans (Option.some.inj hb).symm

theorem cosave_round_trip_one_actor :
    let w : World := ⟨∅, fun _ _ _ _ _ => none, []⟩
    let cosave := savedCosave (oneActor 20 oneOverlay) [20]
    ∃ r', (onGameLoaded everyoneFound cosave w).actorData.lookup 20 = some r' ∧
      r'.looks = oneOverlay.looks ∧ r'.alreadyApplied = false :=
  (cosave_round_trip (enumerates_oneActor 20 oneOverlay) (keys_oneActor_card_lt 20 oneOverlay)
    (forall_oneActor 20 oneOverlay oneOverlay_fits.1)
    (forall_oneActor 20 oneOverlay oneOverlay_fits.2) everyoneFound_injective _).2.2.1
      20 oneOverlay 20 (by simp) rfl rfl

end RoundTrip

section Resave

/-- One load of what was saved without a recapture, in a game that finds every actor. -/
inductive Reload (s : ActorData) : ActorData → Prop
  | intro {order : List FormID} {c : LoadCall} (w : World) (hord : Enumerates order s)
      (hres : ∀ a, c.resolveFormID a = some a) (hfound : ∀ a, c.lookupByID a = true) :
      Reload s (onGameLoaded c (savedCosave s order) w).actorData

def pathLengths (s : ActorData) (a : FormID) (p : Part) : Option (List ℕ) :=
  (s.lookup a).map fun r => (r.list p).map fun o => o.texturePath.length

/-- Any number of saves and loads without a recapture writes the bytes of the first save,
and no stored path grows or shrinks. -/
def ResaveStable (s : ActorData) : Prop :=
  ∀ s', Relation.ReflTransGen Reload s s' → ∀ a,
    entryBytes s' a = entryBytes s a ∧ ∀ p, pathLengths s' a p = pathLengths s a p

theorem Reload.lookup {s s' : ActorData} (h : Reload s s') (hsize : s.keys.card < 2 ^ 32)
    (hfit : AllRecords ListsFit s) (a : FormID) : s'.lookup a = (s.lookup a).map reloadRecord := by
  obtain ⟨w, hord, hres, hfound⟩ := h
  rename_i order c
  have hinj : c.Injective := by
    intro a b k ha hb
    rw [hres] at ha hb
    exact (Option.some.inj ha).trans (Option.some.inj hb).symm
  refine Option.ext fun x => ?_
  rw [lookup_loaded_iff hord hsize hfit hinj w]
  simp only [hres, hfound, true_and, Option.some.injEq, Option.map_eq_some_iff]
  constructor
  · intro h'
    obtain ⟨b, r, hr, rfl, rfl⟩ := h'
    exact ⟨r, hr, rfl⟩
  · intro h'
    obtain ⟨r, hr, rfl⟩ := h'
    exact ⟨a, r, hr, rfl, rfl⟩

theorem exists_reload (s : ActorData) : ∃ s', Reload s s' := by
  obtain ⟨order, hord⟩ := exists_enumerates s
  exact ⟨_, Reload.intro ⟨∅, fun _ _ _ _ _ => none, []⟩ hord (c := everyoneFound)
    (fun _ => rfl) (fun _ => rfl)⟩

theorem saveEntry_injective {a b : FormID} {r r' : ActorRecord} (hr : ListsFit r)
    (hr' : ListsFit r') (h : saveEntry a r = saveEntry b r') :
    reloadRecord r = reloadRecord r' := by
  have hd := readEntry_saveEntry hr 0 a []
  rw [h, readEntry_saveEntry hr' 0 b []] at hd
  simp only [Prod.mk.injEq, Entry.mk.injEq] at hd
  exact hd.1.2.symm

theorem saveEntry_congr {r r' : ActorRecord} (h : ∀ p, r.list p = r'.list p) (a : FormID) :
    saveEntry a r = saveEntry a r' := by
  have hh := h .head
  have hn := h .hand
  have hb := h .body
  have hf := h .feet
  simp only [ActorRecord.list] at hh hn hb hf
  simp only [saveEntry, hh, hn, hb, hf]

theorem reloadOverlay_texStrLen (o : RMOverlay) :
    (reloadOverlay o).texStrLen.toNat = o.texturePath.length % 65536 := UInt16.toNat_ofNat'

theorem reloadOverlay_path_length (o : RMOverlay) :
    (reloadOverlay o).texturePath.length = o.texturePath.length % 65536 + 1 := by
  have hn : (UInt16.ofNat o.texturePath.length).toNat = o.texturePath.length % 65536 :=
    UInt16.toNat_ofNat'
  simp only [reloadOverlay, hn, List.length_append, List.length_take, List.length_singleton]
  have hle := Nat.mod_le o.texturePath.length 65536
  omega

theorem reloadOverlay_reloadOverlay_ne (o : RMOverlay) :
    reloadOverlay (reloadOverlay o) ≠ reloadOverlay o := by
  intro h
  have hlen := congrArg (fun o => o.texStrLen.toNat) h
  simp only [reloadOverlay_texStrLen, reloadOverlay_path_length] at hlen
  omega

theorem lists_empty_of_resaveStable {s : ActorData} (hsize : s.keys.card < 2 ^ 32)
    (hfit : AllRecords ListsFit s) (h : ResaveStable s) {a : FormID} {r : ActorRecord}
    (hr : s.lookup a = some r) (p : Part) : r.list p = [] := by
  obtain ⟨s', hs'⟩ := exists_reload s
  have hb := (h s' (Relation.ReflTransGen.single hs') a).1
  have hl := hfit a r hr
  simp only [entryBytes, hs'.lookup hsize hfit, hr, Option.map_some, Option.some.injEq] at hb
  have he := congrArg (fun r => r.list p) (saveEntry_injective (reloadRecord_listsFit hl) hl hb)
  simp only [reloadRecord_list, List.map_map] at he
  refine List.eq_nil_iff_forall_not_mem.mpr fun o ho => ?_
  exact reloadOverlay_reloadOverlay_ne o (List.map_eq_map_iff.mp he o ho)

theorem card_keys_le (s : ActorData) : s.keys.card ≤ 2 ^ 32 := by
  have h := Finset.card_le_card_of_injOn (s := s.keys) (t := Finset.range (2 ^ 32)) UInt32.toNat
    (fun a _ => Finset.mem_coe.mpr (Finset.mem_range.mpr a.toNat_lt))
    (fun a _ b _ hab => UInt32.toNat_inj.mp hab)
  rwa [Finset.card_range] at h

theorem loaded_of_full {s : ActorData} (h : s.keys.card = 2 ^ 32) (order : List FormID)
    (c : LoadCall) (w : World) : (onGameLoaded c (savedCosave s order) w).actorData = ∅ := by
  have hz : UInt32.ofNat s.keys.card = 0 := by rw [h]; rfl
  have hv : ¬ overlayStructVersion < 1 := by decide
  simp [onGameLoaded, savedCosave, loadRecords, loadActorData, hv, saveActorData, hz]

theorem card_lt_of_resaveStable {s : ActorData} (h : ResaveStable s) : s.keys.card < 2 ^ 32 := by
  by_contra hge
  have hfull : s.keys.card = 2 ^ 32 := le_antisymm (card_keys_le s) (not_lt.mp hge)
  obtain ⟨a, ha⟩ := Finset.card_pos.mp (by omega : 0 < s.keys.card)
  obtain ⟨r, hr⟩ := Finmap.mem_iff.mp (Finmap.mem_keys.mp ha)
  obtain ⟨s', hs'⟩ := exists_reload s
  have hb := (h s' (Relation.ReflTransGen.single hs') a).1
  obtain ⟨w, hord, _, _⟩ := hs'
  rw [loaded_of_full hfull] at hb
  simp [entryBytes, hr] at hb

structure AllEmpty (s s' : ActorData) : Prop where
  same : ∀ a, a ∈ s' ↔ a ∈ s
  empty : ∀ a r, s'.lookup a = some r → ∀ p, r.list p = []

theorem AllEmpty.fits {s s' : ActorData} (h : AllEmpty s s') : AllRecords ListsFit s' :=
  fun a r hr => ⟨fun p => by rw [h.empty a r hr p]; exact Nat.zero_le _⟩

theorem AllEmpty.reload {s s' s'' : ActorData} (h : AllEmpty s s') (hsize : s.keys.card < 2 ^ 32)
    (hr : Reload s' s'') : AllEmpty s s'' := by
  have hk : s'.keys = s.keys := Finset.ext fun a => by
    rw [Finmap.mem_keys, Finmap.mem_keys, h.same]
  have hl := hr.lookup (hk ▸ hsize) h.fits
  refine ⟨fun a => ?_, fun a r hra p => ?_⟩
  · rw [← h.same, ← Finmap.lookup_isSome, hl, Option.isSome_map, Finmap.lookup_isSome]
  · rw [hl] at hra
    obtain ⟨r', hr', rfl⟩ := Option.map_eq_some_iff.mp hra
    rw [reloadRecord_list, h.empty a r' hr' p, List.map_nil]

theorem resaveStable_of_empty {s : ActorData} (hsize : s.keys.card < 2 ^ 32)
    (hempty : ∀ a r, s.lookup a = some r → ∀ p, r.list p = []) : ResaveStable s := by
  intro s' hs' a
  have h : AllEmpty s s' := by
    induction hs' with
    | refl => exact ⟨fun _ => Iff.rfl, hempty⟩
    | tail _ hlast ih => exact ih.reload hsize hlast
  cases hr : s.lookup a with
  | none =>
    have hn : s'.lookup a = none :=
      Finmap.lookup_eq_none.mpr fun ha => Finmap.lookup_eq_none.mp hr ((h.same a).mp ha)
    simp [entryBytes, pathLengths, hr, hn]
  | some r =>
    obtain ⟨r', hr'⟩ := Finmap.mem_iff.mp ((h.same a).mpr (Finmap.mem_of_lookup_eq_some hr))
    have hl : ∀ p, r'.list p = r.list p := fun p => by
      rw [h.empty a r' hr' p, hempty a r hr p]
    simp [entryBytes, pathLengths, hr, hr', hl, saveEntry_congr hl]

/-- Saving what was loaded gives the bytes of the first save back just for the stores
without a single overlay: each load leaves one more NUL in every path. -/
theorem resave_stable_iff {s : ActorData} (hlists : AllRecords ListsFit s) :
    ResaveStable s ↔
      s.keys.card < 2 ^ 32 ∧ ∀ a r, s.lookup a = some r → ∀ p, r.list p = [] := by
  constructor
  · intro h
    have hsize := card_lt_of_resaveStable h
    exact ⟨hsize, fun a r hr p => lists_empty_of_resaveStable hsize hlists h hr p⟩
  · intro h'
    obtain ⟨hsize, hempty⟩ := h'
    exact resaveStable_of_empty hsize hempty

theorem resave_stable_iff_no_overlay : ResaveStable (oneActor 20 {}) :=
  (resave_stable_iff (forall_oneActor 20 {} default_listsFit)).mpr
    ⟨keys_oneActor_card_lt 20 {}, forall_oneActor 20 {} ActorRecord.default_list⟩

theorem resave_one_overlay_not_stable :
    ListsFit oneOverlay ∧ PathsFit oneOverlay ∧ ¬ ResaveStable (oneActor 20 oneOverlay) := by
  refine ⟨oneOverlay_fits.1, oneOverlay_fits.2, fun h => ?_⟩
  have he := lists_empty_of_resaveStable (keys_oneActor_card_lt 20 oneOverlay)
    (forall_oneActor 20 oneOverlay oneOverlay_fits.1) h (lookup_oneActor 20 20 oneOverlay) .head
  simp [oneOverlay, ActorRecord.list] at he

end Resave

end OverlaySaver
