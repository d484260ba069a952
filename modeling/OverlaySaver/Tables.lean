import OverlaySaver.ActorView

/-!
# The override table after apply, clear and flip

Applying a record puts three overrides on the first nodes of each body part and leaves every
other node alone. Clearing takes everything off the nodes below the head's slot count, on
all four body parts, whatever the part's own count is. A second flip takes the first back.
-/

namespace OverlaySaver
open Compaction

variable (E : Session)

def OnSlots (n : Part → ℕ) (a b : FormID) (f : Bool) (m : NodeName) : Prop :=
  ∃ p, ∃ i < n p, b = a ∧ f = E.sex a ∧ m = nodeName p i

theorem onSlots_nodeName {n : Part → ℕ} {a : FormID} {p : Part} {i : ℕ} :
    OnSlots E n a a (E.sex a) (nodeName p i) ↔ i < n p := by
  constructor
  · intro h
    obtain ⟨q, j, hj, -, -, hm⟩ := h
    obtain ⟨rfl, rfl⟩ := nodeName_inj.mp hm
    exact hj
  · exact fun hi => ⟨p, i, hi, rfl, rfl, rfl⟩

def ActorRecord.applied (r : ActorRecord) : ActorRecord := { r with alreadyApplied := true }

theorem ActorRecord.applied_list (r : ActorRecord) (p : Part) : r.applied.list p = r.list p := by
  cases p <;> rfl

section Apply

structure Carries (v : Node) (o : RMOverlay) : Prop where
  texture : v OverlayLayers.kShaderTexture.toUInt16 0 =
    some (.string (CStr.ofString o.texturePath))
  alpha : v OverlayLayers.kShaderAlpha.toUInt16 (-1) = some (.float o.alpha)
  tint : v OverlayLayers.kShaderTintColor.toUInt16 (-1) = some (.int o.color.toInt32)
  no_other : ∀ k i, ¬ (k = OverlayLayers.kShaderTexture.toUInt16 ∧ i = 0) →
    ¬ (k = OverlayLayers.kShaderAlpha.toUInt16 ∧ i = -1) →
    ¬ (k = OverlayLayers.kShaderTintColor.toUInt16 ∧ i = -1) → v k i = none

theorem carries_write (o : RMOverlay) : Carries o.look.write o where
  texture := rfl
  alpha := rfl
  tint := rfl
  no_other k i htexture halpha htint := by
    rw [Look.write, if_neg htint, if_neg halpha, if_neg htexture]

def appliedSlots (r : ActorRecord) (p : Part) : ℕ := writtenSlots (E.slots p) (r.list p)

variable (t : Overrides) (a : FormID) (r : ActorRecord)

theorem applyRecord_on {p : Part} {i : ℕ} (hi : i < appliedSlots E r p) :
    ∃ o, (r.list p)[i]? = some o ∧
      applyRecord E t a r a (E.sex a) (nodeName p i) = o.look.write := by
  have hl : i < (r.list p).length := lt_of_lt_of_le hi (writtenSlots_le_length _ _)
  have ho := List.getElem?_eq_getElem hl
  exact ⟨_, ho, applyRecord_slot E t a r hi ho⟩

theorem applyRecord_off {b : FormID} {f : Bool} {m : NodeName}
    (h : ¬ OnSlots E (appliedSlots E r) a b f m) : applyRecord E t a r b f m = t b f m :=
  applyRecord_frame E t a r fun p i hi hc => h ⟨p, i, hi, hc⟩

theorem applyRecord_applied : applyRecord E t a r.applied = applyRecord E t a r := rfl

variable {a r} {w : World}

theorem applyOverlayFromList_of_lookup (hr : w.actorData.lookup a = some r) {force : Bool}
    (hrun : r.alreadyApplied = false ∨ force = true) :
    applyOverlayFromList E w a force =
      { w with
        actorData := w.actorData.insert a r.applied
        overrides := applyRecord E w.overrides a r } := by
  have hgate : ¬ (r.alreadyApplied && !force) = true := by
    rcases hrun with h | h <;> simp [h]
  rw [applyOverlayFromList, getData_eq_lookup, hr]
  exact if_neg hgate

theorem apply_writes_exactly (hr : getData w.actorData a = some r) {force : Bool}
    (hrun : r.alreadyApplied = false ∨ force = true) :
    let after := applyOverlayFromList E w a force
    let written := fun p => (min (E.slots p) (castInt (r.list p).length)).toNat
    (∀ p, ∀ i < written p, ∃ o, (r.list p)[i]? = some o ∧
      Carries (after.overrides a (E.sex a) (nodeName p i)) o) ∧
    (∀ b f m, ¬ OnSlots E written a b f m → after.overrides b f m = w.overrides b f m) ∧
    (∃ r', after.actorData.lookup a = some r' ∧ ∀ p, r'.list p = r.list p) ∧
    (∀ b, b ≠ a → after.actorData.lookup b = w.actorData.lookup b) ∧
    (∀ p, (r.list p).length < 2 ^ 31 → castInt (r.list p).length = (r.list p).length) := by
  intro after written
  rw [getData_eq_lookup] at hr
  have hwritten : written = appliedSlots E r := rfl
  have hafter : after = _ := applyOverlayFromList_of_lookup E hr hrun
  have hovr : after.overrides = applyRecord E w.overrides a r := congrArg World.overrides hafter
  have hdata : after.actorData = w.actorData.insert a r.applied :=
    congrArg World.actorData hafter
  rw [hwritten, hovr, hdata]
  refine ⟨fun p i hi => ?_, fun b f m hoff => applyRecord_off E w.overrides a r hoff,
    ⟨_, Finmap.lookup_insert _, r.applied_list⟩, fun b hb => Finmap.lookup_insert_of_ne _ hb,
    fun p hp => castInt_of_lt hp⟩
  obtain ⟨o, ho, hwrite⟩ := applyRecord_on E w.overrides a r hi
  exact ⟨o, ho, hwrite ▸ carries_write o⟩

theorem apply_writes_exactly_one_slot :
    let w : World := ⟨oneActor 20 oneOverlay, fun _ _ _ _ _ => none, []⟩
    let after := applyOverlayFromList (plainSession 1) w 20 false
    ∃ o, (oneOverlay.list .head)[0]? = some o ∧
      Carries (after.overrides 20 false (nodeName .head 0)) o := by
  intro w after
  have hr : getData w.actorData 20 = some oneOverlay := by
    rw [getData_eq_lookup, lookup_oneActor, if_pos rfl]
  exact (apply_writes_exactly (plainSession 1) hr (Or.inl rfl)).1 .head 0 (by decide)

theorem applied_overrides_of_castInt_le {l : List RMOverlay} (hl : castInt l.length ≤ 0)
    (t : Overrides) (a : FormID) :
    (applyOverlayFromList E ⟨oneActor a { vHead := l }, t, []⟩ a true).overrides = t := by
  have hr : (oneActor a { vHead := l }).lookup a = some { vHead := l } := by
    rw [lookup_oneActor, if_pos rfl]
  have hnone : ∀ p, appliedSlots E { vHead := l } p = 0 := by
    intro p
    have hle := writtenSlots_le_length (E.slots p) (({ vHead := l } : ActorRecord).list p)
    cases p with
    | head =>
      have hmin : min (E.slots .head) (castInt l.length) ≤ 0 := (min_le_right _ _).trans hl
      rw [appliedSlots, writtenSlots, ActorRecord.list]
      exact Int.toNat_of_nonpos hmin
    | hand | body | feet => exact Nat.le_zero.mp hle
  rw [applyOverlayFromList_of_lookup E hr (Or.inr rfl)]
  funext b f m
  refine applyRecord_off E t a { vHead := l } ?_
  intro h
  obtain ⟨p, i, hi, -⟩ := h
  rw [hnone p] at hi
  exact Nat.not_lt_zero i hi

theorem apply_oversized_list_writes_nothing :
    let l := List.replicate (2 ^ 31) ({ texturePath := [97] } : RMOverlay)
    let w : World := ⟨oneActor 20 { vHead := l }, fun _ _ _ _ _ => none, []⟩
    let after := applyOverlayFromList (plainSession 1) w 20 true
    (0 : ℤ) < min ((plainSession 1).slots .head) l.length ∧
      after.overrides 20 false (nodeName .head 0) = fun _ _ => none := by
  intro l w after
  have hlen : l.length = 2 ^ 31 := List.length_replicate
  have hcast : castInt l.length = -2 ^ 31 := by
    rw [hlen]
    decide
  have hsame := applied_overrides_of_castInt_le (plainSession 1) (l := l)
    (by rw [hcast]; decide) (fun _ _ _ _ _ => none) 20
  refine ⟨by rw [hlen]; decide, ?_⟩
  exact congrArg (fun t : Overrides => t 20 false (nodeName .head 0)) hsame

end Apply

section Flip
variable (t : Overrides) {a : FormID} {r : ActorRecord} {w : World}

theorem clearOverlays_off (a : FormID) {b : FormID} {f : Bool} {m : NodeName}
    (h : ¬ OnSlots E (fun _ => E.iHead.toNat) a b f m) : clearOverlays E t a b f m = t b f m :=
  clearOverlays_frame E t a fun p i hi hc => h ⟨p, i, hi, hc⟩

theorem appliedSlots_reverse (r : ActorRecord) :
    appliedSlots E (r.mapLists List.reverse) = appliedSlots E r := by
  funext p
  rw [appliedSlots, appliedSlots, ActorRecord.mapLists_list, writtenSlots, writtenSlots,
    List.length_reverse]

theorem reverse_reverse_record (r : ActorRecord) :
    (r.mapLists List.reverse).mapLists List.reverse = r := by
  refine ActorRecord.ext_list (fun p => ?_) rfl
  rw [ActorRecord.mapLists_list, ActorRecord.mapLists_list, List.reverse_reverse]

theorem flip_of_lookup (hr : w.actorData.lookup a = some r) :
    flipStoredOverlaysAndReapply E w a =
      { w with
        actorData := w.actorData.insert a (r.mapLists List.reverse).applied
        overrides := applyRecord E (clearOverlays E w.overrides a) a
          (r.mapLists List.reverse) } := by
  rw [flipStoredOverlaysAndReapply, getData_eq_lookup, hr]
  dsimp only
  rw [applyOverlayFromList_of_lookup E (Finmap.lookup_insert _) (Or.inr rfl), Finmap.insert_insert]

theorem applyRecord_after_flip (r : ActorRecord) :
    applyRecord E (clearOverlays E (applyRecord E (clearOverlays E t a) a
      (r.mapLists List.reverse)) a) a r = applyRecord E (clearOverlays E t a) a r := by
  funext b f m
  refine applyRecord_agree E _ a r _ fun hunwritten => ?_
  have hoff : ¬ OnSlots E (appliedSlots E (r.mapLists List.reverse)) a b f m := by
    rw [appliedSlots_reverse]
    intro h
    obtain ⟨p, i, hi, hc⟩ := h
    exact hunwritten p i hi hc
  refine clearOverlays_agree E _ a t fun huncleared => ?_
  rw [applyRecord_off E _ a _ hoff, clearOverlays_frame E t a huncleared]

theorem two_flips_of_lookup (hr : w.actorData.lookup a = some r) :
    flipStoredOverlaysAndReapply E (flipStoredOverlaysAndReapply E w a) a =
      { w with
        actorData := w.actorData.insert a r.applied
        overrides := applyRecord E (clearOverlays E w.overrides a) a r } := by
  have hflipped := flip_of_lookup E hr
  have hr' : (flipStoredOverlaysAndReapply E w a).actorData.lookup a =
      some (r.mapLists List.reverse).applied := by
    rw [hflipped]
    exact Finmap.lookup_insert _
  have hback : (r.mapLists List.reverse).applied.mapLists List.reverse = r.applied :=
    congrArg ActorRecord.applied (reverse_reverse_record r)
  refine (flip_of_lookup E hr').trans ?_
  rw [hflipped, hback]
  dsimp only
  rw [Finmap.insert_insert, applyRecord_applied, applyRecord_after_flip]
  rfl

/-- Flipping an actor twice is clearing it and applying its record: the lists are back in
their order and no node remembers the lists in between. -/
theorem two_flips_cancel (hr : getData w.actorData a = some r) :
    let flipped := flipStoredOverlaysAndReapply E w a
    let twice := flipStoredOverlaysAndReapply E flipped a
    twice = applyOverlayFromList E (cmdClear E w a) a true ∧
      ∃ r', twice.actorData.lookup a = some r' ∧ ∀ p, r'.list p = r.list p := by
  intro flipped twice
  rw [getData_eq_lookup] at hr
  have htwice : twice = _ := two_flips_of_lookup E hr
  have hcleared : (cmdClear E w a).actorData.lookup a = some r := hr
  rw [htwice]
  refine ⟨?_, _, Finmap.lookup_insert _, r.applied_list⟩
  rw [applyOverlayFromList_of_lookup E hcleared (Or.inr rfl)]
  rfl

theorem two_flips_cancel_long_list :
    let r : ActorRecord := { vHead := [{ texturePath := [97] }, { texturePath := [98] }] }
    let w : World := ⟨oneActor 20 r, fun _ _ _ _ _ => none, []⟩
    let flipped := flipStoredOverlaysAndReapply (plainSession 1) w 20
    flipStoredOverlaysAndReapply (plainSession 1) flipped 20 =
      applyOverlayFromList (plainSession 1) (cmdClear (plainSession 1) w 20) 20 true := by
  intro r w flipped
  have hr : getData w.actorData 20 = some r := by
    rw [getData_eq_lookup, lookup_oneActor, if_pos rfl]
  exact (two_flips_cancel (plainSession 1) hr).1

end Flip

section Clear
variable (w : World) (a : FormID)

structure ClearsExactly : Prop where
  cleared : ∀ p, ∀ i < (E.slots p).toNat,
    (cmdClear E w a).overrides a (E.sex a) (nodeName p i) = fun _ _ => none
  captured : ∀ r, (buildOverlayList E (cmdClear E w a) a).actorData.lookup a = some r →
    ∀ p, r.list p = []
  frame : ∀ b f m, ¬ OnSlots E (fun p => (E.slots p).toNat) a b f m →
    (cmdClear E w a).overrides b f m = w.overrides b f m

variable {E w a}

theorem clearsExactly_of_unused
    (h : ∀ p i, Xor (i < E.iHead.toNat) (i < (E.slots p).toNat) →
      w.overrides a (E.sex a) (nodeName p i) = fun _ _ => none) : ClearsExactly E w a := by
  have hcleared : ∀ p, ∀ i < (E.slots p).toNat,
      (cmdClear E w a).overrides a (E.sex a) (nodeName p i) = fun _ _ => none := by
    intro p i hi
    by_cases hh : i < E.iHead.toNat
    · exact clearOverlays_slot E w.overrides a hh
    · refine (clearOverlays_off E w.overrides a ?_).trans (h p i (Or.inr ⟨hi, hh⟩))
      rw [onSlots_nodeName]
      exact hh
  refine ⟨hcleared, fun r hr p => ?_, fun b f m hoff => ?_⟩
  · rw [lookup_buildOverlayList, if_pos rfl] at hr
    obtain ⟨r', -, rfl⟩ := Option.map_eq_some_iff.mp hr
    rw [captureRecord_list, shown, compact_eq_nil_iff]
    intro i hi
    rw [slotView, hcleared p i hi, readNode_empty]
  · by_cases hon : OnSlots E (fun _ => E.iHead.toNat) a b f m
    · obtain ⟨p, i, hi, rfl, rfl, rfl⟩ := hon
      rw [onSlots_nodeName] at hoff
      rw [h p i (Or.inl ⟨hi, hoff⟩)]
      exact clearOverlays_slot E w.overrides b hi
    · exact clearOverlays_off E w.overrides a hon

theorem unused_of_clearsExactly (h : ClearsExactly E w a) {p : Part} {i : ℕ}
    (hi : Xor (i < E.iHead.toNat) (i < (E.slots p).toNat)) :
    w.overrides a (E.sex a) (nodeName p i) = fun _ _ => none := by
  rcases hi with ⟨hhead, hown⟩ | ⟨hown, hhead⟩
  · have hoff : ¬ OnSlots E (fun p => (E.slots p).toNat) a a (E.sex a) (nodeName p i) := by
      rw [onSlots_nodeName]
      exact hown
    exact (h.frame _ _ _ hoff).symm.trans (clearOverlays_slot E w.overrides a hhead)
  · have hoff : ¬ OnSlots E (fun _ => E.iHead.toNat) a a (E.sex a) (nodeName p i) := by
      rw [onSlots_nodeName]
      exact hhead
    exact (clearOverlays_off E w.overrides a hoff).symm.trans (h.cleared p i hown)

/-- All four parts are cleared up to the head's slot count. That clears every slot and
nothing else exactly when no node between the two counts of its part is in use. -/
theorem clear_exact_iff :
    ClearsExactly E w a ↔ ∀ p i, Xor (i < E.iHead.toNat) (i < (E.slots p).toNat) →
      w.overrides a (E.sex a) (nodeName p i) = fun _ _ => none :=
  ⟨fun h _ _ hi => unused_of_clearsExactly h hi, clearsExactly_of_unused⟩

theorem clear_leaves_second_body_slot :
    ¬ ClearsExactly { plainSession 1 with iBody := 2 }
      ⟨∅, onNode .body 1 (Look.write ⟨0x3f800000, 0xffffff, CStr.ofString [97]⟩), []⟩ 20 := by
  intro h
  have hunused := unused_of_clearsExactly h (p := .body) (i := 1)
    (Or.inr ⟨Nat.one_lt_two, Nat.lt_irrefl 1⟩)
  have hnone := (onNode_self .body 1 _).symm.trans hunused
  cases congrFun (congrFun hnone OverlayLayers.kShaderTexture.toUInt16) 0

end Clear

end OverlaySaver
