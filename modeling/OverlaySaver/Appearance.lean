import OverlaySaver.Tables

/-!
# What re-applying a capture makes of an overlay

A capture asks for the texture, the alpha and the tint of a slot and an application writes
all three. What the getters return where an override is absent is written back as if it had been
there.
-/

namespace OverlaySaver
open Compaction

variable (E : Session)

/-- The slot counts are values of the type `int`. -/
def IntSlots : Prop := ∀ p, -2 ^ 31 ≤ E.slots p ∧ E.slots p < 2 ^ 31

/-- The overrides that were present report the values they had; an alpha or a tint that was
absent is still absent or has the value an `RMOverlay` declares. -/
structure KeepsLook (v v' : Node) : Prop where
  texture : ∀ x, v OverlayLayers.kShaderTexture.toUInt16 0 = some x →
    v' OverlayLayers.kShaderTexture.toUInt16 0 = some x
  alpha : ∀ x, v OverlayLayers.kShaderAlpha.toUInt16 (-1) = some x →
    v' OverlayLayers.kShaderAlpha.toUInt16 (-1) = some x
  alpha_absent : v OverlayLayers.kShaderAlpha.toUInt16 (-1) = none →
    v' OverlayLayers.kShaderAlpha.toUInt16 (-1) = none ∨
      v' OverlayLayers.kShaderAlpha.toUInt16 (-1) = some (.float ({} : RMOverlay).alpha)
  tint : ∀ x, v OverlayLayers.kShaderTintColor.toUInt16 (-1) = some x →
    v' OverlayLayers.kShaderTintColor.toUInt16 (-1) = some x
  tint_absent : v OverlayLayers.kShaderTintColor.toUInt16 (-1) = none →
    v' OverlayLayers.kShaderTintColor.toUInt16 (-1) = none ∨
      v' OverlayLayers.kShaderTintColor.toUInt16 (-1) =
        some (.int ({} : RMOverlay).color.toInt32)

structure FullySet (v : Node) : Prop where
  texture : ∃ s, v OverlayLayers.kShaderTexture.toUInt16 0 = some (.string s) ∧
    E.fixedString s = s
  alpha : ∃ f, v OverlayLayers.kShaderAlpha.toUInt16 (-1) = some (.float f)
  tint : ∃ i, v OverlayLayers.kShaderTintColor.toUInt16 (-1) = some (.int i)

section Node
variable {E} {v : Node} {o : RMOverlay}

theorem readNode_look (h : readNode E v = some o) :
    o.look = ⟨nodeAlpha E v, (nodeColor E v).toUInt32, nodeTexture E v⟩ := by
  simp only [readNode] at h
  split_ifs at h
  rw [← Option.some.inj h, RMOverlay.look, CStr.ofString_bytes]

theorem texture_present (h : readNode E v = some o) :
    ∃ x, v OverlayLayers.kShaderTexture.toUInt16 0 = some x := by
  cases hx : v OverlayLayers.kShaderTexture.toUInt16 0 with
  | some x => exact ⟨x, rfl⟩
  | none =>
    have hempty : (nodeTexture E v).bytes = [] := by
      rw [nodeTexture, hx]
      exact List.length_eq_zero_iff.mp (fixedString_bytes_length E CStr.empty)
    have hfree : freeTexture (nodeTexture E v) = true := by
      rw [freeTexture, hempty]
      rfl
    rw [readNode, if_pos hfree] at h
    cases h

theorem keepsLook_of_fullySet (h : readNode E v = some o) (hset : FullySet E v) :
    KeepsLook v o.look.write := by
  obtain ⟨s, hs, hpool⟩ := hset.texture
  obtain ⟨f, hf⟩ := hset.alpha
  obtain ⟨i, hi⟩ := hset.tint
  have htexture : nodeTexture E v = s := by
    rw [nodeTexture, hs]
    exact hpool
  have halpha : nodeAlpha E v = f := by
    rw [nodeAlpha, hf]
    rfl
  have htint : nodeColor E v = i := by
    rw [nodeColor, hi]
    rfl
  rw [readNode_look h, htexture, halpha, htint]
  refine ⟨fun x hx => ?_, fun x hx => ?_, fun hn => ?_, fun x hx => ?_, fun hn => ?_⟩
  · rw [← hx, hs]
    rfl
  · rw [← hx, hf]
    rfl
  · rw [hf] at hn
    cases hn
  · rw [← hx, hi]
    exact congrArg (fun c => some (Variant.int c)) (Int32.toInt32_toUInt32 i)
  · rw [hi] at hn
    cases hn

theorem fullySet_of_keepsLook (h : readNode E v = some o) (hkeeps : KeepsLook v o.look.write) :
    FullySet E v := by
  have hlook := readNode_look h
  rw [hlook] at hkeeps
  refine ⟨?_, ?_, ?_⟩
  · obtain ⟨x, hx⟩ := texture_present h
    have hsame : some (Variant.string (nodeTexture E v)) = some x := hkeeps.texture x hx
    refine ⟨nodeTexture E v, hx.trans hsame.symm, nodeTexture_pooled E v⟩
  · cases hx : v OverlayLayers.kShaderAlpha.toUInt16 (-1) with
    | some x =>
      have hsame : some (Variant.float (nodeAlpha E v)) = some x := hkeeps.alpha x hx
      exact ⟨nodeAlpha E v, hsame.symm⟩
    | none =>
      -- An alpha that is absent is read as 0 and written back as an override of 0.
      have hzero : nodeAlpha E v = 0 := by
        rw [nodeAlpha, hx]
      rcases hkeeps.alpha_absent hx with hn | hn
      · cases hn
      · have hone : some (Variant.float (nodeAlpha E v)) = some (.float 0x3f800000) := hn
        rw [hzero] at hone
        exact absurd hone (by decide)
  · cases hx : v OverlayLayers.kShaderTintColor.toUInt16 (-1) with
    | some x =>
      have hsame : some (Variant.int (nodeColor E v).toUInt32.toInt32) = some x :=
        hkeeps.tint x hx
      exact ⟨_, hsame.symm⟩
    | none =>
      have hzero : nodeColor E v = 0 := by
        rw [nodeColor, hx]
      rcases hkeeps.tint_absent hx with hn | hn
      · cases hn
      · have hwhite : some (Variant.int (nodeColor E v).toUInt32.toInt32) =
            some (.int (0xffffff : UInt32).toInt32) := hn
        rw [hzero] at hwhite
        exact absurd hwhite (by decide)

end Node

section Reapply
variable {E} {w : World} {a : FormID}

theorem shown_getElem?_of_filled {t : Overrides} {p : Part}
    (hfilled : FilledPrefix (slotView E t a p) (E.slots p).toNat) {i : ℕ}
    (hi : i < (E.slots p).toNat) {o : RMOverlay} (ho : slotView E t a p i = some o) :
    (shown E t a p)[i]? = some o := by
  obtain ⟨k, hk, hf⟩ := hfilled
  have hik : i < k := (hf i hi).mp (by rw [ho, Option.isSome_some])
  have hcompact := compact_getElem?_of_filled fun j hj => (hf j (by omega)).mpr hj
  rw [shown, compact_of_filledPrefix hk hf, hcompact.2 i hik, ho]

theorem reapplied_node (hint : IntSlots E) (hreg : a ∈ w.actorData) {p : Part}
    (hfilled : FilledPrefix (slotView E w.overrides a p) (E.slots p).toNat) {i : ℕ}
    (hi : i < (E.slots p).toNat) {o : RMOverlay} (ho : slotView E w.overrides a p i = some o) :
    (applyOverlayFromList E (buildOverlayList E w a) a true).overrides a (E.sex a)
      (nodeName p i) = o.look.write := by
  obtain ⟨r, hr⟩ := Finmap.mem_iff.mp hreg
  have hbuilt : (buildOverlayList E w a).actorData.lookup a =
      some (captureRecord E w.overrides a r) := by
    rw [lookup_buildOverlayList, if_pos rfl, hr, Option.map_some]
  have hget := shown_getElem?_of_filled hfilled hi ho
  have hlen := shown_length_le E w.overrides a p
  have hlt := (List.getElem?_eq_some_iff.mp hget).1
  have hslots := (hint p).2
  have hwritten : i < writtenSlots (E.slots p) (shown E w.overrides a p) := by
    rw [writtenSlots_eq_length (by omega) hlen]
    exact hlt
  rw [applyOverlayFromList_of_lookup E hbuilt (Or.inr rfl)]
  apply applyRecord_slot
  · rw [captureRecord_list]
    exact hwritten
  · rw [captureRecord_list]
    exact hget

/-- Where the occupied slots have no gap, capturing and applying keeps the look of every
overlay exactly when each of them has all three overrides: an alpha or a tint that is absent
comes back as 0, not as the value an overlay starts with. -/
theorem reapply_keeps_look_iff (hint : IntSlots E) (hreg : a ∈ w.actorData)
    (hfilled : ∀ p, FilledPrefix (slotView E w.overrides a p) (E.slots p).toNat) :
    let after := applyOverlayFromList E (buildOverlayList E w a) a true
    (∀ p, ∀ i < (E.slots p).toNat, (slotView E w.overrides a p i).isSome →
      KeepsLook (w.overrides a (E.sex a) (nodeName p i))
        (after.overrides a (E.sex a) (nodeName p i))) ↔
    ∀ p, ∀ i < (E.slots p).toNat, (slotView E w.overrides a p i).isSome →
      FullySet E (w.overrides a (E.sex a) (nodeName p i)) := by
  intro after
  constructor
  · intro h p i hi hocc
    obtain ⟨o, ho⟩ := Option.isSome_iff_exists.mp hocc
    have hkeeps := h p i hi hocc
    rw [reapplied_node hint hreg (hfilled p) hi ho] at hkeeps
    exact fullySet_of_keepsLook ho hkeeps
  · intro h p i hi hocc
    obtain ⟨o, ho⟩ := Option.isSome_iff_exists.mp hocc
    rw [reapplied_node hint hreg (hfilled p) hi ho]
    exact keepsLook_of_fullySet ho (h p i hi hocc)

theorem filledPrefix_onNode {v : Node} (hv : (readNode (plainSession 1) v).isSome) (q : Part) :
    FilledPrefix (slotView (plainSession 1) (onNode .head 0 v) 20 q) 1 := by
  refine ⟨if q = .head then 1 else 0, by split_ifs <;> omega, fun i hi => ?_⟩
  obtain rfl : i = 0 := by omega
  rw [slotView_onNode]
  by_cases hq : q = .head <;> simp [hq, hv]

theorem intSlots_plainSession_one : IntSlots (plainSession 1) := by
  intro p
  cases p <;> exact ⟨by decide, by decide⟩

theorem reapply_keeps_look_full_overlay :
    let E := plainSession 1
    let v := Look.write ⟨0x3f000000, 0xff0000, CStr.ofString [97]⟩
    let w : World := ⟨oneActor 20 {}, onNode .head 0 v, []⟩
    let after := applyOverlayFromList E (buildOverlayList E w 20) 20 true
    KeepsLook v (after.overrides 20 false (nodeName .head 0)) := by
  intro E v w after
  have hreg : 20 ∈ w.actorData := Finmap.mem_of_lookup_eq_some (lookup_oneActor 20 20 {})
  have hfilled : ∀ p, FilledPrefix (slotView E w.overrides 20 p) (E.slots p).toNat := by
    intro p
    cases p <;> exact filledPrefix_onNode rfl _
  have hnode : w.overrides 20 false (nodeName .head 0) = v := onNode_self .head 0 v
  have hset : FullySet E v := ⟨⟨CStr.ofString [97], rfl, rfl⟩, ⟨_, rfl⟩, ⟨_, rfl⟩⟩
  have hall : ∀ p, ∀ i < (E.slots p).toNat, (slotView E w.overrides 20 p i).isSome →
      FullySet E (w.overrides 20 (E.sex 20) (nodeName p i)) := by
    intro p i _ hocc
    have hview : slotView E w.overrides 20 p i = if p = .head ∧ i = 0 then readNode E v else none :=
      slotView_onNode 1 .head p 0 i v
    rw [hview] at hocc
    split_ifs at hocc with hc
    · obtain ⟨rfl, rfl⟩ := hc
      exact hnode.symm ▸ hset
    · cases hocc
  have hkeeps := (reapply_keeps_look_iff intSlots_plainSession_one hreg hfilled).mpr hall
    .head 0 Nat.one_pos rfl
  exact hnode ▸ hkeeps

theorem reapply_hides_bare_texture :
    let E := plainSession 1
    let v : Node := fun k i =>
      if k = OverlayLayers.kShaderTexture.toUInt16 ∧ i = 0 then
        some (.string (CStr.ofString [97]))
      else none
    let w : World := ⟨oneActor 20 {}, onNode .head 0 v, []⟩
    let after := applyOverlayFromList E (buildOverlayList E w 20) 20 true
    (∀ p, FilledPrefix (slotView E w.overrides 20 p) (E.slots p).toNat) ∧
      (slotView E w.overrides 20 .head 0).isSome ∧
      after.overrides 20 false (nodeName .head 0) OverlayLayers.kShaderAlpha.toUInt16 (-1) =
        some (.float 0) ∧
      ¬ KeepsLook v (after.overrides 20 false (nodeName .head 0)) := by
  intro E v w after
  have hreg : 20 ∈ w.actorData := Finmap.mem_of_lookup_eq_some (lookup_oneActor 20 20 {})
  have hfilled : ∀ p, FilledPrefix (slotView E w.overrides 20 p) (E.slots p).toNat := by
    intro p
    cases p <;> exact filledPrefix_onNode rfl _
  have hread : readNode E v = some ⟨0, 0, 1, [97]⟩ := rfl
  have hview : slotView E w.overrides 20 .head 0 = some ⟨0, 0, 1, [97]⟩ := hread
  have hafter : after.overrides 20 false (nodeName .head 0) = _ :=
    reapplied_node intSlots_plainSession_one hreg (hfilled .head) Nat.one_pos hview
  refine ⟨hfilled, by rw [hview, Option.isSome_some], by rw [hafter]; rfl, fun hkeeps => ?_⟩
  rw [hafter] at hkeeps
  obtain ⟨f, hf⟩ := (fullySet_of_keepsLook hread hkeeps).alpha
  cases hf

end Reapply

end OverlaySaver
