import OverlaySaver.Tables

/-!
# What the plugin is for

A wardrobe keeps an outfit for each actor: what its overlays look like, part by part, and
whether they were put on. It knows nothing of bytes, string lengths or override keys beyond the
nodes of an actor's own overlay slots, and a save of it is a list of outfits.
-/

namespace OverlaySaver
open Compaction

structure Outfit where
  looks : Part → List Look
  applied : Bool := false

structure Closet where
  outfit : Option Outfit
  slots : Part → ℕ → Node

def bareNode : Node := fun _ _ => none

variable (E : Session)

def lookOf (v : Node) : Option Look := (readNode E v).map RMOverlay.look

def Wearable (o : Look) : Prop := lookOf E o.write = some o

namespace Closet
variable (k : Closet)

def seen (p : Part) : List Look := compact (fun i => lookOf E (k.slots p i)) (E.slots p).toNat

def capture : Closet := { k with outfit := k.outfit.map fun o => { o with looks := k.seen E } }

def register : Closet :=
  match k.outfit with
  | some _ => k
  | none => { k with outfit := some ⟨k.seen E, false⟩ }

def dress (looks : Part → List Look) : Closet :=
  { k with slots := fun p =>
      overwrite (((looks p).take (E.slots p).toNat).map Look.write) (k.slots p) }

-- Up to the slot count of the head, on every part.
def undress : Closet :=
  { k with slots := fun p => overwrite (List.replicate E.iHead.toNat bareNode) (k.slots p) }

def putOn (force : Bool) : Closet :=
  match k.outfit with
  | none => k
  | some o =>
    if o.applied && !force then k
    else { k.dress E o.looks with outfit := some { o with applied := true } }

def flip : Closet :=
  match k.outfit with
  | none => k
  | some o =>
    putOn E { k.undress E with
      outfit := some { o with looks := fun p => (o.looks p).reverse } } true

def act : Callback → Closet
  | .help => k
  | .register => k.register E
  | .apply => k.putOn E true
  | .update => k.capture E
  | .erase => { k with outfit := none }
  | .flip => k.flip E
  | .clear => k.undress E
  | .reset3d => k

end Closet

abbrev Saved := List (FormID × (Part → List Look))

structure Wardrobe where
  closets : FormID → Closet
  tasks : List FormID := []
  saves : List Saved := []

/-- The events of a playthrough. A load is of one of its own saves, by number. -/
inductive PlayEvent
  | load (l : LoadCall) (i : ℕ)
  | save (c : SaveCall)
  | revert
  | load3D (actor : FormID)
  | task (actor : FormID)
  | console (cmd : Callback) (selected : Option FormID)
  | skee (t : Overrides)

namespace Wardrobe

def remembered (l : LoadCall) (s : Saved) (a : FormID) : Option Outfit :=
  if l.lookupByID a then
    (s.filter fun e => l.resolveFormID e.1 = some a).getLast?.map fun e => ⟨e.2, false⟩
  else none

def written (c : SaveCall) (closets : FormID → Closet) : Saved :=
  if c.openRecord then
    c.order.filterMap fun a => (closets a).outfit.map fun o => (a, o.looks)
  else []

variable (w : Wardrobe)

def captured (c : SaveCall) (a : FormID) : Closet :=
  if c.lookupByID a then (w.closets a).capture E else w.closets a

def change (a : FormID) (k : Closet) : Wardrobe :=
  { w with closets := Function.update w.closets a k }

def step : PlayEvent → Wardrobe
  | .load l i =>
    { w with closets := fun a => { w.closets a with outfit := remembered l (w.saves.getD i []) a } }
  | .save c =>
    { w with
      closets := w.captured E c
      saves := w.saves ++ [written c (w.captured E c)] }
  | .revert => { w with closets := fun a => { w.closets a with outfit := none } }
  | .load3D a => { w with tasks := w.tasks ++ [a] }
  | .task a =>
    if a ∈ w.tasks then
      ({ w with tasks := w.tasks.erase a } : Wardrobe).change a ((w.closets a).putOn E false)
    else w
  | .console cmd (some a) => w.change a ((w.closets a).act E cmd)
  | .console _ none => w
  | .skee t =>
    { w with closets := fun a =>
        { w.closets a with slots := fun p i => t a (E.sex a) (nodeName p i) } }

theorem change_self (a : FormID) (k : Closet) : (w.change a k).closets a = k :=
  Function.update_self _ _ _

theorem change_of_ne {a b : FormID} (h : b ≠ a) (k : Closet) :
    (w.change a k).closets b = w.closets b := Function.update_of_ne h _ _

end Wardrobe

section Looks
variable {E}

theorem wearable_iff {o : Look} :
    Wearable E o ↔ freeTexture o.path = false ∧ E.fixedString o.path = o.path := by
  rw [Wearable, lookOf, readNode, nodeTexture_write, nodeAlpha_write, nodeColor_write]
  constructor
  · intro h
    split_ifs at h with hfree
    · cases h
    · have hpath : E.fixedString o.path = o.path := by
        have hl := congrArg Look.path (Option.some.inj h)
        rwa [RMOverlay.look, CStr.ofString_bytes] at hl
      rw [hpath] at hfree
      exact ⟨Bool.eq_false_iff.mpr hfree, hpath⟩
  · intro h
    obtain ⟨hfree, hpath⟩ := h
    rw [hpath, if_neg (Bool.eq_false_iff.mp hfree), Option.map_some, RMOverlay.look,
      CStr.ofString_bytes, UInt32.toUInt32_toInt32]

theorem wearable_of_lookOf {v : Node} {o : Look} (h : lookOf E v = some o) : Wearable E o := by
  obtain ⟨x, hx, rfl⟩ := Option.map_eq_some_iff.mp h
  rw [Wearable, lookOf, readNode_write E hx, Option.map_some]

theorem wearable_of_mem_seen {k : Closet} {p : Part} {o : Look} (h : o ∈ k.seen E p) :
    Wearable E o := by
  obtain ⟨i, -, hi⟩ := mem_compact.mp h
  exact wearable_of_lookOf hi

theorem lookOf_bareNode : lookOf E bareNode = none := by
  have hread : readNode E bareNode = none := readNode_empty
  rw [lookOf, hread, Option.map_none]

end Looks

section Dressed
variable {E} {k : Closet} {looks : Part → List Look} {p : Part}

theorem seen_dress : (k.dress E looks).seen E p =
    ((looks p).take (E.slots p).toNat).filterMap (fun o => lookOf E o.write) ++
      compact (fun i => lookOf E (k.slots p ((looks p).length + i)))
        ((E.slots p).toNat - (looks p).length) := by
  have hslots : (fun i => lookOf E ((k.dress E looks).slots p i)) =
      overwrite (((looks p).take (E.slots p).toNat).map fun o => lookOf E o.write)
        (fun i => lookOf E (k.slots p i)) := by
    funext i
    refine (overwrite_map (lookOf E) _ _ i).trans ?_
    rw [List.map_map]
    rfl
  have hle : (((looks p).take (E.slots p).toNat).map fun o => lookOf E o.write).length ≤
      (E.slots p).toNat := by
    rw [List.length_map, List.length_take]
    exact Nat.min_le_left _ _
  rw [Closet.seen, hslots, compact_overwrite _ hle, List.filterMap_map, List.length_map,
    List.length_take]
  rcases Nat.le_total (looks p).length (E.slots p).toNat with h | h
  · rw [Nat.min_eq_right h]
    rfl
  · rw [Nat.min_eq_left h, Nat.sub_self, Nat.sub_eq_zero_of_le h]
    rfl

theorem filterMap_wearable {l : List Look} (h : ∀ o ∈ l, Wearable E o) :
    l.filterMap (fun o => lookOf E o.write) = l := by
  conv_rhs => rw [← List.filterMap_some (l := l)]
  exact List.filterMap_congr h

theorem seen_dress_eq_iff : (k.dress E looks).seen E p = looks p ↔
    (looks p).length ≤ (E.slots p).toNat ∧ (∀ o ∈ looks p, Wearable E o) ∧
      ∀ i, (looks p).length ≤ i → i < (E.slots p).toNat → lookOf E (k.slots p i) = none := by
  constructor
  · intro h
    have hlen : (looks p).length ≤ (E.slots p).toNat := by
      rw [← h]
      exact compact_length_le _ _
    have hwear : ∀ o ∈ looks p, Wearable E o := fun o ho => wearable_of_mem_seen (h ▸ ho)
    refine ⟨hlen, hwear, fun i hle hlt => ?_⟩
    rw [seen_dress, List.take_of_length_le hlen, filterMap_wearable hwear,
      List.append_right_eq_self, compact_eq_nil_iff] at h
    have hnone := h (i - (looks p).length) (by omega)
    rwa [Nat.add_sub_cancel' hle] at hnone
  · intro h
    obtain ⟨hlen, hwear, hfree⟩ := h
    have hrest : compact (fun i => lookOf E (k.slots p ((looks p).length + i)))
        ((E.slots p).toNat - (looks p).length) = [] :=
      compact_eq_nil_iff.mpr fun i hi => hfree _ (by omega) (by omega)
    rw [seen_dress, List.take_of_length_le hlen, filterMap_wearable hwear, hrest,
      List.append_nil]

theorem lookOf_undress {i : ℕ} : lookOf E ((k.undress E).slots p i) =
    if i < E.iHead.toNat then none else lookOf E (k.slots p i) := by
  rw [Closet.undress]
  dsimp only
  split_ifs with hi
  · rw [overwrite_of_getElem? _ (List.getElem?_replicate_of_lt hi), lookOf_bareNode]
  · rw [overwrite_of_le _ (by rw [List.length_replicate]; omega)]

end Dressed

section Neat
variable {k : Closet} {looks : Part → List Look}

/-- There is a slot for each of the looks, each is wearable, and the slots after them show
nothing. -/
def Closet.Room (k : Closet) (looks : Part → List Look) : Prop := ∀ p,
  (looks p).length ≤ (E.slots p).toNat ∧ (∀ o ∈ looks p, Wearable E o) ∧
    ∀ i, (looks p).length ≤ i → i < (E.slots p).toNat → lookOf E (k.slots p i) = none

/-- The occupied slots have no gap, there is room for the outfit, and an outfit that was put on
is what is seen. -/
structure Closet.Neat (k : Closet) : Prop where
  packed : ∀ p, FilledPrefix (fun i => lookOf E (k.slots p i)) (E.slots p).toNat
  room : ∀ o, k.outfit = some o → k.Room E o.looks
  shows : ∀ o, k.outfit = some o → o.applied = true → ∀ p, k.seen E p = o.looks p

structure Closet.Displays (looks : Part → List Look) (k : Closet) : Prop where
  neat : k.Neat E
  outfit : k.outfit = some ⟨looks, true⟩

variable {E}

theorem room_iff_seen_dress :
    k.Room E looks ↔ ∀ p, (k.dress E looks).seen E p = looks p :=
  forall_congr' fun _ => seen_dress_eq_iff.symm

theorem Closet.Room.reverse (h : k.Room E looks) :
    (k.undress E).Room E fun p => (looks p).reverse := by
  intro p
  obtain ⟨hlen, hwear, hfree⟩ := h p
  refine ⟨by rwa [List.length_reverse], fun o ho => hwear o (List.mem_reverse.mp ho), ?_⟩
  intro i hle hlt
  rw [List.length_reverse] at hle
  rw [lookOf_undress]
  split_ifs
  · rfl
  · exact hfree i hle hlt

theorem slots_dress_of_le {p : Part} {i : ℕ} (h : (looks p).length ≤ i) :
    (k.dress E looks).slots p i = k.slots p i := by
  refine overwrite_of_le _ ?_
  rw [List.length_map, List.length_take]
  omega

theorem Closet.Room.dress (h : k.Room E looks) : (k.dress E looks).Room E looks := by
  intro p
  obtain ⟨hlen, hwear, hfree⟩ := h p
  refine ⟨hlen, hwear, fun i hle hlt => ?_⟩
  rw [slots_dress_of_le hle]
  exact hfree i hle hlt

theorem Closet.Room.packed (h : k.Room E looks) (p : Part) :
    FilledPrefix (fun i => lookOf E ((k.dress E looks).slots p i)) (E.slots p).toNat := by
  obtain ⟨hlen, hwear, -⟩ := h p
  refine ⟨(looks p).length, hlen, fun i hi => ?_⟩
  dsimp only
  by_cases hlt : i < (looks p).length
  · have hlook : (((looks p).take (E.slots p).toNat).map Look.write)[i]? =
        some (looks p)[i].write := by
      rw [List.getElem?_map, List.getElem?_take_of_lt hi, List.getElem?_eq_getElem hlt,
        Option.map_some]
    have hslot : (k.dress E looks).slots p i = (looks p)[i].write :=
      overwrite_of_getElem? _ hlook
    have hseen : lookOf E (looks p)[i].write = some (looks p)[i] :=
      hwear _ (List.getElem_mem hlt)
    rw [hslot, hseen]
    exact iff_of_true rfl hlt
  · rw [(h.dress p).2.2 i (by omega) hi]
    exact iff_of_false (by simp) hlt

/-- Putting looks on where there is room for them leaves a neat closet, whatever it was before. -/
theorem Closet.Room.neat (h : k.Room E looks) (applied : Bool) :
    Closet.Neat E { k.dress E looks with outfit := some ⟨looks, applied⟩ } where
  packed := h.packed
  room _ ho := Option.some.inj ho ▸ h.dress
  shows _ ho _ := Option.some.inj ho ▸ room_iff_seen_dress.mp h

theorem room_seen (h : ∀ p, FilledPrefix (fun i => lookOf E (k.slots p i)) (E.slots p).toNat) :
    k.Room E (k.seen E) := by
  intro p
  refine ⟨compact_length_le _ _, fun o ho => wearable_of_mem_seen ho, fun i hle hlt => ?_⟩
  obtain ⟨n, hn, hf⟩ := h p
  have hlen : (k.seen E p).length = n := by
    rw [Closet.seen, compact_of_filledPrefix hn hf]
    exact (compact_getElem?_of_filled fun j hj => (hf j (by omega)).mpr hj).1
  have hnone := (hf i hlt).not.mpr (by omega)
  simpa using hnone

namespace Closet.Neat

theorem capture (h : k.Neat E) : (k.capture E).Neat E := by
  refine ⟨h.packed, fun o ho => ?_, fun o ho _ => ?_⟩
  · obtain ⟨o', -, rfl⟩ := Option.map_eq_some_iff.mp ho
    exact room_seen h.packed
  · obtain ⟨o', -, rfl⟩ := Option.map_eq_some_iff.mp ho
    exact fun p => rfl

theorem register (h : k.Neat E) : (k.register E).Neat E := by
  rw [Closet.register]
  split
  · exact h
  · refine ⟨h.packed, fun o ho => ?_, fun o ho _ => ?_⟩
    · exact Option.some.inj ho ▸ room_seen h.packed
    · exact Option.some.inj ho ▸ fun p => rfl

theorem putOn (h : k.Neat E) (force : Bool) : (k.putOn E force).Neat E := by
  rw [Closet.putOn]
  split
  · exact h
  · rename_i o ho
    split_ifs
    · exact h
    · exact (h.room o ho).neat true

theorem flip (h : k.Neat E) : (k.flip E).Neat E := by
  rw [Closet.flip]
  split
  · exact h
  · rename_i o ho
    have hroom := (h.room o ho).reverse
    simp only [Closet.putOn, Bool.not_true, Bool.and_false, Bool.false_eq_true, ↓reduceIte]
    exact hroom.neat true

theorem forget (h : k.Neat E) : Closet.Neat E { k with outfit := none } :=
  ⟨h.packed, fun _ ho => (nomatch ho), fun _ ho => (nomatch ho)⟩

theorem remembered (h : k.Neat E) {outfit : Option Outfit}
    (hroom : ∀ o, outfit = some o → k.Room E o.looks ∧ o.applied = false) :
    Closet.Neat E { k with outfit := outfit } := by
  refine ⟨h.packed, fun o ho => (hroom o ho).1, fun o ho happlied => ?_⟩
  rw [(hroom o ho).2] at happlied
  cases happlied

theorem act (h : k.Neat E) {cmd : Callback} (hcmd : cmd ≠ .clear) : (k.act E cmd).Neat E := by
  cases cmd with
  | help | reset3d => exact h
  | register => exact h.register
  | apply => exact h.putOn true
  | update => exact h.capture
  | erase => exact h.forget
  | flip => exact h.flip
  | clear => exact absurd rfl hcmd

end Closet.Neat

namespace Closet.Displays

theorem seen_eq (h : k.Displays E looks) : k.seen E = looks :=
  funext (h.neat.shows _ h.outfit rfl)

theorem capture (h : k.Displays E looks) : (k.capture E).Displays E looks := by
  refine ⟨h.neat.capture, ?_⟩
  rw [Closet.capture, h.outfit, Option.map_some, h.seen_eq]

theorem putOn (h : k.Displays E looks) (force : Bool) :
    (k.putOn E force).Displays E looks := by
  refine ⟨h.neat.putOn force, ?_⟩
  rw [Closet.putOn, h.outfit]
  dsimp only
  split_ifs
  · exact h.outfit
  · rfl

theorem act (h : k.Displays E looks) {cmd : Callback}
    (hcmd : cmd ≠ .erase ∧ cmd ≠ .flip ∧ cmd ≠ .clear) : (k.act E cmd).Displays E looks := by
  cases cmd with
  | help | reset3d => exact h
  | register =>
    rw [Closet.act, Closet.register, h.outfit]
    exact h
  | apply => exact h.putOn true
  | update => exact h.capture
  | erase => exact absurd rfl hcmd.1
  | flip => exact absurd rfl hcmd.2.1
  | clear => exact absurd rfl hcmd.2.2

end Closet.Displays

theorem Closet.Room.displays (h : k.Room E looks) :
    Closet.Displays E looks { k.dress E looks with outfit := some ⟨looks, true⟩ } :=
  ⟨h.neat true, rfl⟩

end Neat

end OverlaySaver
