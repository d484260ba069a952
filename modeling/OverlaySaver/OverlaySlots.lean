import OverlaySaver.Racemenu
import OverlaySaver.Compaction

/-!
# What the overlay manager does, slot by slot

`readNode` is what a capture sees on one node and `Look.write` the three overrides an
application leaves there. Capturing a body part compacts the slots, and applying lists
refills them: the manager's loops are the two operations of `Compaction` on the
slots of a body part, and they touch nothing else.
-/

namespace OverlaySaver
open Compaction

abbrev Node := UInt16 → UInt8 → Option Variant

variable (E : Session)

def nodeTexture (v : Node) : CStr :=
  match v OverlayLayers.kShaderTexture.toUInt16 0 with
  | some result => E.fixedString (result.getString E)
  | none => E.fixedString CStr.empty

def nodeAlpha (v : Node) : UInt32 :=
  match v OverlayLayers.kShaderAlpha.toUInt16 (-1) with
  | some result => result.getFloat E
  | none => 0

def nodeColor (v : Node) : Int32 :=
  match v OverlayLayers.kShaderTintColor.toUInt16 (-1) with
  | some result => result.getInt E
  | none => 0

def freeTexture (tex : CStr) : Bool :=
  tex.bytes.isEmpty || containsInvariantStr tex.bytes defaultTexture

def readNode (v : Node) : Option RMOverlay :=
  let tex := nodeTexture E v
  if freeTexture tex then none
  else some ⟨nodeAlpha E v, (nodeColor E v).toUInt32, UInt16.ofNat tex.bytes.length, tex.bytes⟩

def Look.write (o : Look) : Node := fun k i =>
  if k = OverlayLayers.kShaderTintColor.toUInt16 ∧ i = -1 then some (.int o.color.toInt32)
  else if k = OverlayLayers.kShaderAlpha.toUInt16 ∧ i = -1 then some (.float o.alpha)
  else if k = OverlayLayers.kShaderTexture.toUInt16 ∧ i = 0 then some (.string o.path)
  else none

def slotView (t : Overrides) (a : FormID) (p : Part) (i : ℕ) : Option RMOverlay :=
  readNode E (t a (E.sex a) (nodeName p i))

def shown (t : Overrides) (a : FormID) (p : Part) : List RMOverlay :=
  compact (slotView E t a p) (E.slots p).toNat

def shownLooks (t : Overrides) (a : FormID) (p : Part) : List Look :=
  (shown E t a p).map RMOverlay.look

section NodeNames

theorem toDigits_injective {i j : ℕ} (h : Nat.toDigits 10 i = Nat.toDigits 10 j) : i = j := by
  rw [← Nat.ofDigitChars_toDigits (b := 10) (n := i) (by decide) (by decide), h,
    Nat.ofDigitChars_toDigits (by decide) (by decide)]

theorem nodeName_head (i : ℕ) :
    nodeName .head i = "Face [Ovl".toList ++ (Nat.toDigits 10 i ++ [']']) := rfl

theorem nodeName_hand (i : ℕ) :
    nodeName .hand i = "Hands [Ovl".toList ++ (Nat.toDigits 10 i ++ [']']) := rfl

theorem nodeName_body (i : ℕ) :
    nodeName .body i = "Body [Ovl".toList ++ (Nat.toDigits 10 i ++ [']']) := rfl

theorem nodeName_feet (i : ℕ) :
    nodeName .feet i = "Feet [Ovl".toList ++ (Nat.toDigits 10 i ++ [']']) := rfl

theorem nodeName_inj {p q : Part} {i j : ℕ} :
    nodeName p i = nodeName q j ↔ p = q ∧ i = j := by
  constructor
  · intro h
    cases p <;> cases q <;>
      simp only [nodeName_head, nodeName_hand, nodeName_body, nodeName_feet] at h
    case head.head | hand.hand | body.body | feet.feet =>
      have hd := List.append_cancel_right (List.append_cancel_left h)
      exact ⟨rfl, toDigits_injective hd⟩
    all_goals simp at h
  · intro h'
    obtain ⟨rfl, rfl⟩ := h'
    rfl

end NodeNames

section Capture

theorem buildOvlListForSlot_eq (t : Overrides) (a : FormID) (n : ℤ) (p : Part)
    (l : List RMOverlay) :
    buildOvlListForSlot E t a n p.pattern l = l ++ compact (slotView E t a p) n.toNat := by
  rw [← foldl_range_toList, buildOvlListForSlot]
  congr 1
  funext l i
  rw [slotView, readNode]
  split_ifs with h
  · exact (if_pos h).trans (List.append_nil l).symm
  · exact if_neg h

theorem captureRecord_list (t : Overrides) (a : FormID) (r : ActorRecord) (p : Part) :
    (captureRecord E t a r).list p = shown E t a p := by
  cases p
  · exact buildOvlListForSlot_eq E t a E.iHead .head []
  · exact buildOvlListForSlot_eq E t a E.iHand .hand []
  · exact buildOvlListForSlot_eq E t a E.iBody .body []
  · exact buildOvlListForSlot_eq E t a E.iFeet .feet []

theorem captureRecord_looks (t : Overrides) (a : FormID) (r : ActorRecord) :
    (captureRecord E t a r).looks = shownLooks E t a := by
  funext p
  rw [ActorRecord.looks, captureRecord_list, shownLooks]

theorem shown_length_le (t : Overrides) (a : FormID) (p : Part) :
    ((shown E t a p).length : ℤ) ≤ max (E.slots p) 0 := by
  have h := compact_length_le (slotView E t a p) (E.slots p).toNat
  rw [shown]
  omega

theorem fixedString_bytes_length (s : CStr) : (E.fixedString s).bytes.length = s.bytes.length := by
  simpa using congrArg List.length (E.fixedString_tolower s)

theorem readNode_empty {E : Session} : readNode E (fun _ _ => none) = none := by
  have he : (nodeTexture E fun _ _ => none).bytes = [] :=
    List.length_eq_zero_iff.mp (fixedString_bytes_length E CStr.empty)
  have hf : freeTexture (nodeTexture E fun _ _ => none) = true := by
    rw [freeTexture, he]
    rfl
  rw [readNode, if_pos hf]

end Capture

section Apply

theorem nodeTexture_pooled (v : Node) : E.fixedString (nodeTexture E v) = nodeTexture E v := by
  rw [nodeTexture]
  split <;> exact E.fixedString_idem _

@[simp] theorem nodeTexture_write (o : Look) : nodeTexture E o.write = E.fixedString o.path := rfl

@[simp] theorem nodeAlpha_write (o : Look) : nodeAlpha E o.write = o.alpha := rfl

@[simp] theorem nodeColor_write (o : Look) : nodeColor E o.write = o.color.toInt32 := rfl

theorem readNode_write {v : Node} {o : RMOverlay} (h : readNode E v = some o) :
    readNode E o.look.write = some o := by
  simp only [readNode] at h
  split_ifs at h with hfree
  obtain rfl := Option.some.inj h
  simp only [readNode, RMOverlay.look, nodeTexture_write, nodeAlpha_write, nodeColor_write,
    CStr.ofString_bytes, nodeTexture_pooled, Int32.toInt32_toUInt32, if_neg hfree]

/-- The slots an application writes: `int` arithmetic, as in the loop bound. -/
def writtenSlots (n : ℤ) (l : List RMOverlay) : ℕ := (min n (castInt l.length)).toNat

theorem castInt_of_lt {n : ℕ} (h : n < 2 ^ 31) : castInt n = n :=
  Int.bmod_eq_of_le (by omega) (by omega)

theorem castInt_le (n : ℕ) : castInt n ≤ n := by
  by_cases h : n < 2 ^ 31
  · exact Int.le_of_eq (castInt_of_lt h)
  · have hb : castInt n < (2 ^ 32 + 1) / 2 := Int.bmod_lt (by omega)
    omega

theorem writtenSlots_le_length (n : ℤ) (l : List RMOverlay) : writtenSlots n l ≤ l.length := by
  have h := castInt_le l.length
  rw [writtenSlots]
  omega

theorem writtenSlots_eq_length {n : ℤ} {l : List RMOverlay} (hl : l.length < 2 ^ 31)
    (hn : (l.length : ℤ) ≤ max n 0) : writtenSlots n l = l.length := by
  rw [writtenSlots]
  rw [castInt_of_lt hl]
  omega

variable (t : Overrides) (a : FormID)

def writeSlot (t : Overrides) (p : Part) (l : List RMOverlay) (i : ℕ) : Overrides :=
  fun b f n =>
    if b = a ∧ f = E.sex a ∧ n = nodeName p i then (l[i]?.map fun o => o.look.write).getD fun _ _ => none
    else t b f n

theorem applyStoredOverlayOnBodyPart_eq (n : ℤ) (p : Part) (l : List RMOverlay) :
    applyStoredOverlayOnBodyPart E t a n p.pattern l =
      (List.range (writtenSlots n l)).foldl (fun t i => writeSlot E a t p l i) t := by
  rw [applyStoredOverlayOnBodyPart]
  split_ifs with hl
  · have hz : writtenSlots n l = 0 := by
      have h := writtenSlots_le_length n l
      have h0 : l.length = 0 := by rw [List.isEmpty_iff.mp hl, List.length_nil]
      omega
    rw [hz]
    rfl
  · refine congrArg (fun f => List.foldl f t (List.range (writtenSlots n l))) ?_
    funext t i b f m
    by_cases hc : b = a ∧ f = E.sex a ∧ m = nodeName p i
    · obtain ⟨rfl, rfl, rfl⟩ := hc
      simp only [writeSlot, and_self, ↓reduceIte]
      cases l[i]? with
      | none => funext k j; simp [removeAllNodeOverridesByNode, nodeName]
      | some o =>
        funext k j
        simp [addNodeOverride, removeAllNodeOverridesByNode, nodeName, Look.write, RMOverlay.look]
    · simp only [writeSlot, if_neg hc]
      cases l[i]? with
      | none => funext k j; exact if_neg hc
      | some o =>
        funext k j
        have hk : ∀ q : Prop, ¬ (b = a ∧ f = E.sex a ∧ m = format p.pattern i ∧ q) :=
          fun q h => hc ⟨h.1, h.2.1, h.2.2.1⟩
        simp only [addNodeOverride, if_neg (hk _), removeAllNodeOverridesByNode]
        exact if_neg hc

abbrev cellOf (t : Overrides) (c : FormID × Bool × NodeName) : Node := t c.1 c.2.1 c.2.2

theorem applyStoredOverlayOnBodyPart_frame {n : ℤ} {p : Part} {l : List RMOverlay} {b : FormID}
    {f : Bool} {m : NodeName}
    (h : ∀ i < writtenSlots n l, ¬ (b = a ∧ f = E.sex a ∧ m = nodeName p i)) :
    applyStoredOverlayOnBodyPart E t a n p.pattern l b f m = t b f m := by
  rw [applyStoredOverlayOnBodyPart_eq]
  exact foldl_range_frame cellOf _ (k := (b, f, m)) (fun t i hi => if_neg (h i hi)) t

theorem applyStoredOverlayOnBodyPart_slot {n : ℤ} {p : Part} {l : List RMOverlay} {i : ℕ}
    {o : RMOverlay} (hi : i < writtenSlots n l) (ho : l[i]? = some o) :
    applyStoredOverlayOnBodyPart E t a n p.pattern l a (E.sex a) (nodeName p i) =
      o.look.write := by
  rw [applyStoredOverlayOnBodyPart_eq]
  refine foldl_range_at cellOf _ (k := (a, E.sex a, nodeName p i)) hi (fun t => ?_)
    (fun t j _ hne => if_neg fun hc => hne (nodeName_inj.mp hc.2.2).2.symm) t
  simp [cellOf, writeSlot, ho]

variable (r : ActorRecord)

theorem applyRecord_eq_foldl :
    applyRecord E t a r = [Part.head, .hand, .body, .feet].foldl (fun t p =>
      applyStoredOverlayOnBodyPart E t a (E.slots p) p.pattern (r.list p)) t := rfl

theorem foldl_apply_frame {b : FormID} {f : Bool} {m : NodeName} (ps : List Part)
    (h : ∀ p ∈ ps, ∀ i < writtenSlots (E.slots p) (r.list p),
      ¬ (b = a ∧ f = E.sex a ∧ m = nodeName p i)) :
    ps.foldl (fun t p =>
      applyStoredOverlayOnBodyPart E t a (E.slots p) p.pattern (r.list p)) t b f m =
        t b f m := by
  induction ps generalizing t with
  | nil => rfl
  | cons p ps ih =>
    rw [List.foldl_cons, ih _ fun q hq => h q (List.mem_cons_of_mem p hq)]
    exact applyStoredOverlayOnBodyPart_frame E t a (h p List.mem_cons_self)

theorem applyRecord_frame {b : FormID} {f : Bool} {m : NodeName}
    (h : ∀ p, ∀ i < writtenSlots (E.slots p) (r.list p),
      ¬ (b = a ∧ f = E.sex a ∧ m = nodeName p i)) :
    applyRecord E t a r b f m = t b f m := by
  rw [applyRecord_eq_foldl]
  exact foldl_apply_frame E t a r _ fun p _ => h p

theorem applyRecord_slot {p : Part} {i : ℕ} {o : RMOverlay}
    (hi : i < writtenSlots (E.slots p) (r.list p)) (ho : (r.list p)[i]? = some o) :
    applyRecord E t a r a (E.sex a) (nodeName p i) = o.look.write := by
  rw [applyRecord_eq_foldl]
  have hsplit : ∃ pre post, [Part.head, .hand, .body, .feet] = pre ++ p :: post ∧ p ∉ post := by
    cases p
    · exact ⟨[], _, rfl, by decide⟩
    · exact ⟨[.head], _, rfl, by decide⟩
    · exact ⟨[.head, .hand], _, rfl, by decide⟩
    · exact ⟨[.head, .hand, .body], _, rfl, by decide⟩
  obtain ⟨pre, post, he, hp⟩ := hsplit
  rw [he, List.foldl_append, List.foldl_cons, foldl_apply_frame]
  · exact applyStoredOverlayOnBodyPart_slot E _ a hi ho
  · intro q hq j _ hc
    exact hp ((nodeName_inj.mp hc.2.2).1 ▸ hq)

theorem applyRecord_of_ne {b : FormID} (h : b ≠ a) : applyRecord E t a r b = t b := by
  funext f m
  exact applyRecord_frame E t a r fun p i _ hc => h hc.1

theorem applyRecord_agree (t' : Overrides) {b : FormID} {f : Bool} {m : NodeName}
    (h : (∀ p, ∀ i < writtenSlots (E.slots p) (r.list p),
      ¬ (b = a ∧ f = E.sex a ∧ m = nodeName p i)) → t b f m = t' b f m) :
    applyRecord E t a r b f m = applyRecord E t' a r b f m := by
  by_cases hoff : ∀ p, ∀ i < writtenSlots (E.slots p) (r.list p),
      ¬ (b = a ∧ f = E.sex a ∧ m = nodeName p i)
  · rw [applyRecord_frame E t a r hoff, applyRecord_frame E t' a r hoff, h hoff]
  · simp only [not_forall, not_not] at hoff
    obtain ⟨p, i, hi, rfl, rfl, rfl⟩ := hoff
    have hl : i < (r.list p).length := lt_of_lt_of_le hi (writtenSlots_le_length _ _)
    have ho := List.getElem?_eq_getElem hl
    rw [applyRecord_slot E t b r hi ho, applyRecord_slot E t' b r hi ho]

theorem applyRecord_congr (t' : Overrides) (h : t a = t' a) :
    applyRecord E t a r a = applyRecord E t' a r a :=
  funext fun _ => funext fun _ => applyRecord_agree E t a r t' fun _ => by rw [h]

theorem slotView_applyRecord {p : Part} {l : List RMOverlay}
    (hlooks : r.looks p = l.map RMOverlay.look) (hread : ∀ o ∈ l, ∃ v, readNode E v = some o)
    (hlen : writtenSlots (E.slots p) (r.list p) = l.length) :
    slotView E (applyRecord E t a r) a p = refill l (slotView E t a p) := by
  funext i
  by_cases hi : i < l.length
  · have hr : i < (r.list p).length := by
      have hl := congrArg List.length hlooks
      simp only [ActorRecord.looks, List.length_map] at hl
      omega
    have hlook : (r.list p)[i].look = l[i].look := by
      have hg := congrArg (fun ls => ls[i]?) hlooks
      simpa [ActorRecord.looks, hr, hi] using hg
    obtain ⟨v, hv⟩ := hread l[i] (List.getElem_mem hi)
    rw [refill_of_lt _ hi, List.getElem?_eq_getElem hi, slotView,
      applyRecord_slot E t a r (hlen.symm ▸ hi) (List.getElem?_eq_getElem hr), hlook]
    exact readNode_write E hv
  · rw [refill_of_le _ (by omega), slotView, slotView, applyRecord_frame]
    intro q j hj hc
    obtain ⟨rfl, rfl⟩ := nodeName_inj.mp hc.2.2
    omega

end Apply

section Clear
variable (t : Overrides) (a : FormID)

theorem clearBodyPart_frame {n : ℤ} {p : Part} {b : FormID} {f : Bool} {m : NodeName}
    (h : ∀ i < n.toNat, ¬ (b = a ∧ f = E.sex a ∧ m = nodeName p i)) :
    clearBodyPart E t a n p.pattern b f m = t b f m :=
  foldl_range_frame cellOf _ (k := (b, f, m))
    (fun _ i hi => funext fun _ => funext fun _ => if_neg (h i hi)) t

theorem clearBodyPart_slot {n : ℤ} {p : Part} {i : ℕ} (hi : i < n.toNat) :
    clearBodyPart E t a n p.pattern a (E.sex a) (nodeName p i) = fun _ _ => none :=
  foldl_range_at cellOf _ (k := (a, E.sex a, nodeName p i)) hi
    (fun _ => funext fun _ => funext fun _ => if_pos ⟨rfl, rfl, rfl⟩)
    (fun _ _ _ hne => funext fun _ => funext fun _ =>
      if_neg fun hc => hne (nodeName_inj.mp hc.2.2).2.symm) t

theorem clearOverlays_frame {b : FormID} {f : Bool} {m : NodeName}
    (h : ∀ p, ∀ i < E.iHead.toNat, ¬ (b = a ∧ f = E.sex a ∧ m = nodeName p i)) :
    clearOverlays E t a b f m = t b f m := by
  have hf := fun p t => clearBodyPart_frame E t a (h p)
  simp only [clearOverlays]
  exact (hf .feet _).trans ((hf .body _).trans ((hf .hand _).trans (hf .head t)))

theorem clearOverlays_slot {p : Part} {i : ℕ} (hi : i < E.iHead.toNat) :
    clearOverlays E t a a (E.sex a) (nodeName p i) = fun _ _ => none := by
  have hs := fun p t => clearBodyPart_slot E t a (p := p) hi
  have hf : ∀ q t, q ≠ p → clearBodyPart E t a E.iHead q.pattern a (E.sex a) (nodeName p i) =
      t a (E.sex a) (nodeName p i) := fun q t hne =>
    clearBodyPart_frame E t a fun j _ hc => hne (nodeName_inj.mp hc.2.2).1.symm
  simp only [clearOverlays]
  cases p with
  | head =>
    exact (hf .feet _ (by decide)).trans
      ((hf .body _ (by decide)).trans ((hf .hand _ (by decide)).trans (hs .head t)))
  | hand =>
    exact (hf .feet _ (by decide)).trans ((hf .body _ (by decide)).trans (hs .hand _))
  | body => exact (hf .feet _ (by decide)).trans (hs .body _)
  | feet => exact hs .feet _

theorem clearOverlays_of_ne {b : FormID} (h : b ≠ a) : clearOverlays E t a b = t b := by
  funext f m
  exact clearOverlays_frame E t a fun p i _ hc => h hc.1

theorem clearOverlays_agree (t' : Overrides) {b : FormID} {f : Bool} {m : NodeName}
    (h : (∀ p, ∀ i < E.iHead.toNat, ¬ (b = a ∧ f = E.sex a ∧ m = nodeName p i)) →
      t b f m = t' b f m) :
    clearOverlays E t a b f m = clearOverlays E t' a b f m := by
  by_cases hoff : ∀ p, ∀ i < E.iHead.toNat, ¬ (b = a ∧ f = E.sex a ∧ m = nodeName p i)
  · rw [clearOverlays_frame E t a hoff, clearOverlays_frame E t' a hoff, h hoff]
  · simp only [not_forall, not_not] at hoff
    obtain ⟨p, i, hi, rfl, rfl, rfl⟩ := hoff
    rw [clearOverlays_slot E t b hi, clearOverlays_slot E t' b hi]

theorem clearOverlays_congr (t' : Overrides) (h : t a = t' a) :
    clearOverlays E t a a = clearOverlays E t' a a :=
  funext fun _ => funext fun _ => clearOverlays_agree E t a t' fun _ => by rw [h]

end Clear

theorem slotView_congr (t t' : Overrides) {a : FormID} (h : t a = t' a) (p : Part) :
    slotView E t a p = slotView E t' a p := by
  funext i
  rw [slotView, slotView, h]

theorem shown_congr (t t' : Overrides) {a : FormID} (h : t a = t' a) :
    shown E t a = shown E t' a := by
  funext p
  rw [shown, shown, slotView_congr E t t' h]

theorem captureRecord_congr (t t' : Overrides) {a : FormID} (h : t a = t' a) (r : ActorRecord) :
    captureRecord E t a r = captureRecord E t' a r :=
  ActorRecord.ext_list (fun p => by simp only [captureRecord_list, shown_congr E t t' h]) rfl

end OverlaySaver
