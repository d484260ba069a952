import OverlaySaver.CosaveRoundTrip

/-!
# Loading any well-formed cosave

`Payload` is the format of an `ACTD` record as a relation between bytes and entries, and
`Decodes` extends it to a sequence of records, of which those of another type or of version 0
say nothing. Whatever FormIDs repeat or collide, the load keeps the last entry for each key.
-/

namespace OverlaySaver
open ByteStream

structure Entry.Fits (e : Entry) : Prop where
  lists : ListsFit e.data
  paths : PathsFit e.data

/-- A count, that many entries, and whatever stands after them. -/
structure Payload (bs : Bytes) (es : List Entry) : Prop where
  count_lt : es.length < 2 ^ 32
  fits : ∀ e ∈ es, e.Fits
  bytes : ∃ rest, bs = u32.encode (UInt32.ofNat es.length) ++ (es.flatMap Entry.bytes ++ rest)

inductive Decodes : List CosaveRecord → List Entry → Prop
  | nil : Decodes [] []
  | actd {r : CosaveRecord} {rs : List CosaveRecord} {es es' : List Entry}
      (htype : r.type = actorDataRecord) (hversion : 1 ≤ r.version) (hdata : Payload r.data es)
      (hrest : Decodes rs es') : Decodes (r :: rs) (es ++ es')
  | ignored {r : CosaveRecord} {rs : List CosaveRecord} {es : List Entry}
      (h : r.type ≠ actorDataRecord ∨ r.version < 1) (hrest : Decodes rs es) :
      Decodes (r :: rs) es

theorem Decodes.fits {cosave : List CosaveRecord} {es : List Entry} (h : Decodes cosave es) :
    ∀ e ∈ es, e.Fits := by
  induction h with
  | nil => exact fun e he => absurd he List.not_mem_nil
  | actd _ _ hdata _ ih =>
    intro e he
    rcases List.mem_append.mp he with he | he
    · exact hdata.fits e he
    · exact ih e he
  | ignored _ _ ih => exact ih

theorem decodes_savedCosave {s : ActorData} {order : List FormID} (hord : Enumerates order s)
    (hsize : s.keys.card < 2 ^ 32) (hlists : AllRecords ListsFit s)
    (hpaths : AllRecords PathsFit s) : Decodes (savedCosave s order) (storedEntries s order) := by
  have hlen : (storedEntries s order).length < 2 ^ 32 := by
    rw [storedEntries_length fun a ha => (hord.mem_iff a).mp ha, hord.length_eq]
    exact hsize
  have hfits : ∀ e ∈ storedEntries s order, e.Fits := by
    intro e he
    obtain ⟨a, -, r, hr, rfl⟩ := mem_storedEntries.mp he
    exact ⟨hlists a r hr, hpaths a r hr⟩
  have hversion : 1 ≤ overlayStructVersion := by decide
  have hdata : Payload (saveActorData s order) (storedEntries s order) :=
    ⟨hlen, hfits, [], by rw [saveActorData_eq hord, List.append_nil]⟩
  have h := Decodes.actd (r := ⟨actorDataRecord, overlayStructVersion, saveActorData s order⟩)
    rfl hversion hdata Decodes.nil
  rw [List.append_nil] at h
  exact h

section Load
variable (c : LoadCall)

def storeEntries (s : ActorData) (es : List Entry) : ActorData :=
  (es.map Entry.reload).foldl (storeEntry c) s

theorem storeEntries_append (s : ActorData) (es es' : List Entry) :
    storeEntries c s (es ++ es') = storeEntries c (storeEntries c s es) es' := by
  rw [storeEntries, List.map_append, List.foldl_append]
  rfl

theorem loadActorData_payload (i : ℕ) {r : CosaveRecord} {es : List Entry}
    (htype : r.type = actorDataRecord) (hversion : 1 ≤ r.version) (hdata : Payload r.data es)
    (s : ActorData) : (loadActorData c i s r).1 = storeEntries c s es := by
  obtain ⟨rest, hbytes⟩ := hdata.bytes
  have hlists : ∀ e ∈ es, ListsFit e.data := fun e he => (hdata.fits e he).lists
  rw [loadActorData_bytes c i htype hversion hdata.count_lt hlists hbytes, storeEntries]

theorem loadActorData_ignored (i : ℕ) {r : CosaveRecord}
    (h : r.type ≠ actorDataRecord ∨ r.version < 1) (s : ActorData) :
    (loadActorData c i s r).1 = s := by
  rw [loadActorData]
  rcases h with h | h
  · rw [if_pos h]
  · split_ifs <;> rfl

theorem loadRecords_of_decodes {cosave : List CosaveRecord} {es : List Entry}
    (h : Decodes cosave es) (i : ℕ) (s : ActorData) :
    loadRecords c i s cosave = storeEntries c s es := by
  induction h generalizing i s with
  | nil => rfl
  | actd htype hversion hdata _ ih =>
    rw [loadRecords, loadActorData_payload c i htype hversion hdata, ih, storeEntries_append]
  | ignored hr _ ih => rw [loadRecords, loadActorData_ignored c i hr, ih]

def LastEntry (k : FormID) (es : List Entry) (e : Entry) : Prop :=
  ∃ pre post, es = pre ++ e :: post ∧ c.resolveFormID e.formID = some k ∧
    ∀ e' ∈ post, c.resolveFormID e'.formID ≠ some k

theorem exists_lastEntry {k : FormID} {es : List Entry} {r : ActorRecord}
    (h : lastFor c k es = some r) : ∃ e, LastEntry c k es e ∧ e.data = r := by
  induction es using List.reverseRecOn with
  | nil => cases h
  | append_singleton es e ih =>
    rw [lastFor_append_singleton] at h
    split_ifs at h with hk
    · exact ⟨e, ⟨es, [], rfl, hk, fun _ he => absurd he List.not_mem_nil⟩, Option.some.inj h⟩
    · obtain ⟨e', ⟨pre, post, rfl, hres, hpost⟩, hdata⟩ := ih h
      refine ⟨e', ⟨pre, post ++ [e], List.append_assoc _ _ _, hres, fun x hx => ?_⟩, hdata⟩
      rcases List.mem_append.mp hx with hx | hx
      · exact hpost x hx
      · rw [List.mem_singleton.mp hx]
        exact hk

theorem lastFor_reload (k : FormID) (es : List Entry) :
    lastFor c k (es.map Entry.reload) = (lastFor c k es).map reloadRecord := by
  have hcomp : (fun e : Entry => decide (c.resolveFormID e.formID = some k)) ∘ Entry.reload =
      fun e => decide (c.resolveFormID e.formID = some k) := rfl
  rw [lastFor, List.filter_map, hcomp, List.getLast?_map, Option.map_map, lastFor, Option.map_map]
  rfl

theorem lookup_storeEntries (es : List Entry) (k : FormID) :
    (storeEntries c ∅ es).lookup k =
      if c.lookupByID k then (lastFor c k es).map reloadRecord else none := by
  rw [storeEntries, lookup_foldl_storeEntry, lastFor_reload]
  cases lastFor c k es with
  | none =>
    rw [Option.map_none, Finmap.lookup_empty]
    split_ifs <;> rfl
  | some r => rfl

theorem mem_storeEntries {es : List Entry} {k : FormID} :
    k ∈ storeEntries c ∅ es ↔
      c.lookupByID k = true ∧ ∃ e ∈ es, c.resolveFormID e.formID = some k := by
  rw [← Finmap.lookup_isSome, lookup_storeEntries]
  cases hlast : lastFor c k es with
  | none =>
    have hnone := (lastFor_eq_none_iff c).mp hlast
    simpa using fun _ e he => hnone e he
  | some r =>
    obtain ⟨e, he, hek, -⟩ := exists_of_lastFor_eq_some c hlast
    simpa using fun _ => ⟨e, he, hek⟩

theorem lastEntry_of_lookup {es : List Entry} (hfits : ∀ e ∈ es, e.Fits) {k : FormID}
    {r : ActorRecord} (hr : (storeEntries c ∅ es).lookup k = some r) :
    ∃ e, LastEntry c k es e ∧ r.looks = e.data.looks ∧ r.alreadyApplied = false := by
  rw [lookup_storeEntries] at hr
  split_ifs at hr
  obtain ⟨x, hx, rfl⟩ := Option.map_eq_some_iff.mp hr
  obtain ⟨e, hlast, rfl⟩ := exists_lastEntry c hx
  obtain ⟨pre, post, he, -⟩ := id hlast
  have hmem : e ∈ es := by simp [he]
  exact ⟨e, hlast, reloadRecord_looks (hfits e hmem).paths, rfl⟩

end Load

section LastWins
variable (c : LoadCall) {cosave : List CosaveRecord} {es : List Entry}

theorem decodes_filter (h : Decodes cosave es) :
    Decodes (cosave.filter fun r => r.type = actorDataRecord ∧ 1 ≤ r.version) es := by
  induction h with
  | nil => exact Decodes.nil
  | actd htype hversion hdata _ ih =>
    rw [List.filter_cons_of_pos (by simp [htype, hversion])]
    exact Decodes.actd htype hversion hdata ih
  | ignored hr _ ih =>
    rw [List.filter_cons_of_neg]
    · exact ih
    · rcases hr with hr | hr
      · simp [hr]
      · simp [UInt32.not_le.mpr hr]

/-- A load keeps, for each key that is found, the last entry that resolves to it, and nothing
else. The erase for an actor that is not found never meets a record. -/
theorem load_keeps_last_entry (h : Decodes cosave es) (w : World) :
    let loaded := (onGameLoaded c cosave w).actorData
    (∀ k, k ∈ loaded ↔ c.lookupByID k = true ∧ ∃ e ∈ es, c.resolveFormID e.formID = some k) ∧
    (∀ k r, loaded.lookup k = some r →
      ∃ e, LastEntry c k es e ∧ r.looks = e.data.looks ∧ r.alreadyApplied = false) ∧
    (∀ w', (onGameLoaded c cosave w').actorData = loaded) ∧
    (onGameLoaded c (cosave.filter fun r => r.type = actorDataRecord ∧ 1 ≤ r.version) w).actorData =
      loaded ∧
    loaded = (es.map Entry.reload).foldl (storeEntry c) ∅ ∧
    (∀ pre e post, es = pre ++ e :: post → ∀ k, c.resolveFormID e.formID = some k →
      c.lookupByID k = false → k ∉ (pre.map Entry.reload).foldl (storeEntry c) ∅) := by
  intro loaded
  have hloaded : loaded = storeEntries c ∅ es := loadRecords_of_decodes c h 0 ∅
  refine ⟨fun k => ?_, fun k r hr => ?_, fun w' => rfl, ?_, hloaded, fun pre e post _ k _ hf => ?_⟩
  · rw [hloaded]
    exact mem_storeEntries c
  · rw [hloaded] at hr
    exact lastEntry_of_lookup c h.fits hr
  · exact (loadRecords_of_decodes c (decodes_filter h) 0 ∅).trans hloaded.symm
  · intro hk
    have hfound := ((mem_storeEntries c).mp hk).1
    rw [hf] at hfound
    cases hfound

theorem LastEntry.eq_of_last (es : List Entry) {k : FormID} {e e' : Entry}
    (h : LastEntry c k (es ++ [e']) e) (hk : c.resolveFormID e'.formID = some k) : e = e' := by
  obtain ⟨pre, post, he, -, hpost⟩ := h
  rcases List.eq_nil_or_concat post with rfl | ⟨post', x, rfl⟩
  · exact (List.cons.inj (List.append_inj' he rfl).2).1.symm
  · rw [List.concat_eq_append, ← List.cons_append, ← List.append_assoc] at he
    have hx := (List.cons.inj (List.append_inj' he rfl).2).1
    exact absurd hk (hpost e' (by simp [hx]))

theorem load_keeps_last_entry_repeated :
    let payload := u32.encode 2 ++ (saveEntry 20 {} ++ saveEntry 20 oneOverlay)
    let cosave : List CosaveRecord := [⟨actorDataRecord, 1, payload⟩, ⟨0, 1, [7]⟩]
    ∃ r, (onGameLoaded everyoneFound cosave ⟨∅, fun _ _ _ _ _ => none, []⟩).actorData.lookup 20 =
      some r ∧ r.looks = oneOverlay.looks ∧ r.alreadyApplied = false := by
  intro payload cosave
  have hdata : Payload payload [⟨20, {}⟩, ⟨20, oneOverlay⟩] := by
    refine ⟨by simp, fun e he => ?_, [], by simp [payload, Entry.bytes]⟩
    rcases List.mem_pair.mp he with rfl | rfl
    · exact ⟨default_listsFit, ⟨fun p o ho => absurd ho (by simp)⟩⟩
    · exact ⟨oneOverlay_fits.1, oneOverlay_fits.2⟩
  have hversion : (1 : UInt32) ≤ 1 := le_refl 1
  have htype : (0 : UInt32) ≠ actorDataRecord := by decide
  have h : Decodes cosave ([⟨20, {}⟩, ⟨20, oneOverlay⟩] ++ []) :=
    Decodes.actd rfl hversion hdata (.ignored (Or.inl htype) .nil)
  obtain ⟨hmem, hlast, -⟩ := load_keeps_last_entry everyoneFound h ⟨∅, fun _ _ _ _ _ => none, []⟩
  obtain ⟨r, hr⟩ := Finmap.mem_iff.mp ((hmem 20).mpr ⟨rfl, _, List.mem_cons_self, rfl⟩)
  obtain ⟨e, he, hlooks, hflag⟩ := hlast 20 r hr
  obtain rfl := LastEntry.eq_of_last everyoneFound [⟨20, {}⟩] he rfl
  exact ⟨r, hr, hlooks, hflag⟩

end LastWins

end OverlaySaver
