import OverlaySaver.CosaveRoundTrip

/-!
# Payloads that end early

`readOverlay?` and `readEntry?` read strictly: they fail when bytes are missing. A load
runs through the entries that lie inside the payload and then makes up the entries the
payload ran out for: the first from what is left of it, the others from nothing but the
value `ActorRefID` happens to hold. The load is harmless exactly when the made-up
entries change nothing.
-/

namespace OverlaySaver
open ByteStream

def readOverlay? (bs : Bytes) : Option (RMOverlay × Bytes) :=
  (u32.read? bs).bind fun alpha =>
    (u32.read? alpha.2).bind fun color =>
      (u16.read? color.2).bind fun texStrLen =>
        (split? texStrLen.1.toNat texStrLen.2).bind fun path =>
          some (⟨alpha.1, color.1, texStrLen.1, path.1 ++ [0]⟩, path.2)

def readEntry? (bs : Bytes) : Option (Entry × Bytes) :=
  (u32.read? bs).bind fun actorRefID =>
    (u8.read? actorRefID.2).bind fun numOfHeadOvl =>
      (u8.read? numOfHeadOvl.2).bind fun numOfHandsOvl =>
        (u8.read? numOfHandsOvl.2).bind fun numOfBodydOvl =>
          (u8.read? numOfBodydOvl.2).bind fun numOfFeetOvl =>
            (readMany? readOverlay? numOfHeadOvl.1.toNat numOfFeetOvl.2).bind fun vHead =>
              (readMany? readOverlay? numOfHandsOvl.1.toNat vHead.2).bind fun vHand =>
                (readMany? readOverlay? numOfBodydOvl.1.toNat vHand.2).bind fun vBody =>
                  (readMany? readOverlay? numOfFeetOvl.1.toNat vBody.2).bind fun vFeet =>
                    some (⟨actorRefID.1, ⟨vHead.1, vHand.1, vBody.1, vFeet.1, false⟩⟩, vFeet.2)

theorem readOverlay_clamps : Clamps readOverlay readOverlay? := by
  have hpath : ∀ n, Clamps (readInto (List.replicate n 0)) (split? n) := fun n => by
    simpa using Clamps.bytes (List.replicate n 0)
  exact (Clamps.word u32 _).bind fun alpha => (Clamps.word u32 _).bind fun color =>
    (Clamps.word u16 _).bind fun texStrLen => (hpath texStrLen.toNat).bind fun path =>
      Clamps.pure (⟨alpha, color, texStrLen, path ++ [0]⟩ : RMOverlay)

theorem readEntry_clamps (junk : UInt32) : Clamps (readEntry junk) readEntry? :=
  (Clamps.word u32 junk).bind fun actorRefID => (Clamps.word u8 0).bind fun numOfHeadOvl =>
    (Clamps.word u8 0).bind fun numOfHandsOvl => (Clamps.word u8 0).bind fun numOfBodydOvl =>
      (Clamps.word u8 0).bind fun numOfFeetOvl =>
        (readOverlay_clamps.many numOfHeadOvl.toNat).bind fun vHead =>
          (readOverlay_clamps.many numOfHandsOvl.toNat).bind fun vHand =>
            (readOverlay_clamps.many numOfBodydOvl.toNat).bind fun vBody =>
              (readOverlay_clamps.many numOfFeetOvl.toNat).bind fun vFeet =>
                Clamps.pure (⟨actorRefID, ⟨vHead, vHand, vBody, vFeet, false⟩⟩ : Entry)

theorem readEntry_nil (junk : UInt32) : readEntry junk [] = (⟨junk, {}⟩, []) := by
  have hz : (0 : UInt8).toNat = 0 := rfl
  simp only [readEntry, Word.read_nil, hz, readMany]

def completeEntries : ℕ → Bytes → List Entry
  | 0, _ => []
  | n + 1, bs =>
    match readEntry? bs with
    | some e => e.1 :: completeEntries n e.2
    | none => []

def pastEnd (junk : ℕ → UInt32) : ℕ → List Entry
  | 0 => []
  | n + 1 => ⟨junk (n + 1), {}⟩ :: pastEnd junk n

def cutEntries (junk : ℕ → UInt32) : ℕ → Bytes → List Entry
  | 0, _ => []
  | n + 1, bs =>
    match readEntry? bs with
    | some e => cutEntries junk n e.2
    | none => (readEntry (junk (n + 1)) bs).1 :: pastEnd junk n

section Payload
variable (c : LoadCall) (i : ℕ)

theorem loadEntries_nil (n : ℕ) (s : ActorData) :
    loadEntries c i n s [] = ((pastEnd (c.junk i) n).foldl (storeEntry c) s, []) := by
  induction n generalizing s with
  | zero => rfl
  | succ n ih => rw [loadEntries, readEntry_nil, ih, pastEnd, List.foldl_cons]

theorem loadEntries_eq (n : ℕ) (s : ActorData) (bs : Bytes) :
    (loadEntries c i n s bs).1 =
      (completeEntries n bs ++ cutEntries (c.junk i) n bs).foldl (storeEntry c) s := by
  induction n generalizing s bs with
  | zero => rfl
  | succ n ih =>
    have hclamps := readEntry_clamps (c.junk i (n + 1))
    cases he : readEntry? bs with
    | some e =>
      simp only [loadEntries, completeEntries, cutEntries, he, hclamps.some he, ih,
        List.cons_append, List.foldl_cons]
    | none =>
      simp only [loadEntries, completeEntries, cutEntries, he, hclamps.none he, loadEntries_nil,
        List.nil_append, List.foldl_cons]

def announced (bs : Bytes) : ℕ × Bytes := ((u32.read 0 bs).1.toNat, (u32.read 0 bs).2)

def completeOf (bs : Bytes) : List Entry := completeEntries (announced bs).1 (announced bs).2

def cutOf (bs : Bytes) : List Entry :=
  cutEntries (c.junk i) (announced bs).1 (announced bs).2

theorem loadActorData_eq {v : UInt32} (hv : 1 ≤ v) (s : ActorData) (bs : Bytes) :
    (loadActorData c i s ⟨actorDataRecord, v, bs⟩).1 =
      (completeOf bs ++ cutOf c i bs).foldl (storeEntry c) s := by
  have hv' : ¬ v < 1 := UInt32.not_lt.mpr hv
  rw [completeOf, cutOf, ← loadEntries_eq]
  simp only [loadActorData, ne_eq, not_true_eq_false, ↓reduceIte, if_neg hv', announced]
  split_ifs with hz
  · have h0 : (u32.read 0 bs).1.toNat = 0 := Nat.le_zero.mp hz
    rw [h0, loadEntries]
  · rfl

end Payload

section Intact
variable (c : LoadCall)

/-- Each record in the store is the one from before or a complete entry's, an entry whose
actor is not found takes its key out, and what was decoded stays decoded. -/
structure Intact (s : ActorData) (complete : List Entry) (s' : ActorData) : Prop where
  kept_or_entry : ∀ k, s'.lookup k = s.lookup k ∨
    ∃ e ∈ complete, c.resolveFormID e.formID = some k ∧
      s'.lookup k = if c.lookupByID k then some e.data else none
  decoded_stays : ∀ k r, lastFor c k complete = some r → c.lookupByID k = true →
    s'.lookup k = some r

/-- At each key the last made-up entry counts. If the key is found, what it writes is the record
that the last complete entry left there, or else the store from before, lists and flag alike;
if not, a complete entry has taken the key out or it was not there. -/
def CutHarmless (s : ActorData) (complete cut : List Entry) : Prop :=
  ∀ k r, lastFor c k cut = some r →
    if c.lookupByID k then (lastFor c k complete).or (s.lookup k) = some r
    else (lastFor c k complete).isSome ∨ s.lookup k = none

theorem lookup_foldl_append (s : ActorData) (complete cut : List Entry) (k : FormID) :
    ((complete ++ cut).foldl (storeEntry c) s).lookup k =
      match lastFor c k cut, lastFor c k complete with
      | some r, _ => if c.lookupByID k then some r else none
      | none, some r => if c.lookupByID k then some r else none
      | none, none => s.lookup k := by
  rw [List.foldl_append, lookup_foldl_storeEntry, lookup_foldl_storeEntry]
  cases lastFor c k cut <;> cases lastFor c k complete <;> rfl

theorem cutHarmless_of_intact {s : ActorData} {complete cut : List Entry}
    (h : Intact c s complete ((complete ++ cut).foldl (storeEntry c) s)) :
    CutHarmless c s complete cut := by
  intro k r hr
  have hl := lookup_foldl_append c s complete cut k
  simp only [hr] at hl
  have hkept := h.kept_or_entry k
  split_ifs with hf
  · rw [if_pos hf] at hl
    cases hlast : lastFor c k complete with
    | some x => rw [Option.some_or, ← h.decoded_stays k x hlast hf, hl]
    | none =>
      rcases hkept with hkept | ⟨e, he, hek, _⟩
      · rw [Option.none_or, ← hkept, hl]
      · exact absurd hek (lastFor_eq_none_iff c |>.mp hlast e he)
  · rw [if_neg hf] at hl
    cases hlast : lastFor c k complete with
    | some x => exact Or.inl rfl
    | none =>
      rcases hkept with hkept | ⟨e, he, hek, _⟩
      · exact Or.inr (hkept.symm.trans hl)
      · exact absurd hek (lastFor_eq_none_iff c |>.mp hlast e he)

theorem intact_of_cutHarmless {s : ActorData} {complete cut : List Entry}
    (h : CutHarmless c s complete cut) :
    Intact c s complete ((complete ++ cut).foldl (storeEntry c) s) := by
  have hl := lookup_foldl_append c s complete cut
  constructor
  · intro k
    cases hlast : lastFor c k complete with
    | some x =>
      obtain ⟨e, he, hek, rfl⟩ := exists_of_lastFor_eq_some c hlast
      refine Or.inr ⟨e, he, hek, ?_⟩
      cases hcut : lastFor c k cut with
      | none => rw [hl, hcut, hlast]
      | some r =>
        have hk := h k r hcut
        rw [hl, hcut]
        by_cases hf : c.lookupByID k
        · simp only [hf, ↓reduceIte, hlast, Option.some_or, Option.some.injEq] at hk ⊢
          exact hk.symm
        · simp only [hf, Bool.false_eq_true, ↓reduceIte]
    | none =>
      refine Or.inl ?_
      cases hcut : lastFor c k cut with
      | none => rw [hl, hcut, hlast]
      | some r =>
        have hk := h k r hcut
        rw [hl, hcut]
        by_cases hf : c.lookupByID k
        · simp only [hf, ↓reduceIte, hlast, Option.none_or] at hk ⊢
          exact hk.symm
        · simp only [hf, Bool.false_eq_true, ↓reduceIte, hlast, Option.isSome_none,
            false_or] at hk ⊢
          exact hk.symm
  · intro k x hlast hf
    cases hcut : lastFor c k cut with
    | none => simp only [hl, hcut, hlast, if_pos hf]
    | some r =>
      have hk := h k r hcut
      simp only [hf, ↓reduceIte, hlast, Option.some_or] at hk
      simp only [hl, hcut, if_pos hf, hk]

/-- A load leaves the store intact exactly when the entries it makes up past the end of
the payload take no effect. -/
theorem malformed_cosave_intact_iff (i : ℕ) {v : UInt32} (hv : 1 ≤ v) (s : ActorData)
    (bs : Bytes) :
    Intact c s (completeOf bs) (loadActorData c i s ⟨actorDataRecord, v, bs⟩).1 ↔
      CutHarmless c s (completeOf bs) (cutOf c i bs) := by
  rw [loadActorData_eq c i hv]
  exact ⟨cutHarmless_of_intact c, intact_of_cutHarmless c⟩

def cutPayload : Bytes := u32.encode 2 ++ saveEntry 20 oneOverlay

example : completeOf cutPayload = [⟨20, reloadRecord oneOverlay⟩] := rfl

/-- The game of `everyoneFound` with the FormID `a` left in `ActorRefID`. -/
def leftOver (a : FormID) : LoadCall := { everyoneFound with junk := fun _ _ => a }

theorem cutOf_cutPayload : cutOf c 0 cutPayload = [⟨c.junk 0 1, {}⟩] := by
  have h : cutOf c 0 cutPayload = [(readEntry (c.junk 0 1) []).1] := rfl
  rw [h, readEntry_nil]

theorem malformed_cosave_intact_unresolved :
    let c : LoadCall := { leftOver 0 with resolveFormID := fun a => if a = 0 then none else some a }
    Intact c ∅ (completeOf cutPayload)
      (loadActorData c 0 ∅ ⟨actorDataRecord, overlayStructVersion, cutPayload⟩).1 := by
  intro c
  refine (malformed_cosave_intact_iff c 0 (by decide) ∅ cutPayload).mpr fun k r hr => ?_
  rw [cutOf_cutPayload] at hr
  obtain ⟨e, he, hek, _⟩ := exists_of_lastFor_eq_some c hr
  rw [List.mem_singleton.mp he] at hek
  cases hek

theorem malformed_cosave_replaces_decoded :
    (loadActorData (leftOver 20) 0 ∅
        ⟨actorDataRecord, overlayStructVersion, cutPayload⟩).1.lookup 20 = some {} ∧
      ¬ Intact (leftOver 20) ∅ (completeOf cutPayload)
        (loadActorData (leftOver 20) 0 ∅ ⟨actorDataRecord, overlayStructVersion, cutPayload⟩).1 := by
  have hl : (loadActorData (leftOver 20) 0 ∅
      ⟨actorDataRecord, overlayStructVersion, cutPayload⟩).1.lookup 20 = some {} := by
    rw [loadActorData_eq (leftOver 20) 0 (by decide), lookup_foldl_append, cutOf_cutPayload]
    rfl
  refine ⟨hl, fun h => ?_⟩
  have hd := h.decoded_stays 20 (reloadRecord oneOverlay) rfl rfl
  rw [hl] at hd
  exact absurd (Option.some.inj hd) (by decide)

end Intact

end OverlaySaver
