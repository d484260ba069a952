import OverlaySaver.Skee
import Mathlib.Data.Finmap

/-!
# The actor store

`actorData` is the unordered map of the serialization singleton: a finite map without an
order of its own. A save walks it in some order, which `Enumerates` says is complete and
free of repetition. `Look` is what an overlay means to a player: its alpha, its colour
and the C string of its texture path.
-/

namespace OverlaySaver
open ByteStream (Bytes)

structure RMOverlay where
  alpha : UInt32 := 0x3f800000
  color : UInt32 := 0xffffff
  texStrLen : UInt16 := 0
  texturePath : Bytes := []
deriving DecidableEq

structure ActorRecord where
  vHead : List RMOverlay := []
  vHand : List RMOverlay := []
  vBody : List RMOverlay := []
  vFeet : List RMOverlay := []
  alreadyApplied : Bool := false
deriving DecidableEq

abbrev ActorData := Finmap fun _ : FormID => ActorRecord

def getData (s : ActorData) (a : FormID) : Option ActorRecord :=
  if a ∈ s then s.lookup a else none

/-- `try_emplace`: a record that is there stays. -/
def addNew (s : ActorData) (a : FormID) : ActorData :=
  if a ∈ s then s else s.insert a {}

def erase (s : ActorData) (a : FormID) : ActorData := Finmap.erase a s

structure World where
  actorData : ActorData
  overrides : Overrides
  tasks : List FormID := []

@[simp] theorem getData_eq_lookup (s : ActorData) (a : FormID) : getData s a = s.lookup a := by
  rw [getData]
  split_ifs with h
  · rfl
  · exact (Finmap.lookup_eq_none.mpr h).symm

theorem lookup_insert_ite (s : ActorData) (a b : FormID) (r : ActorRecord) :
    (s.insert a r).lookup b = if b = a then some r else s.lookup b := by
  split_ifs with h
  · rw [h, Finmap.lookup_insert]
  · exact Finmap.lookup_insert_of_ne s h

theorem lookup_erase_ite (s : ActorData) (a b : FormID) :
    (erase s a).lookup b = if b = a then none else s.lookup b := by
  split_ifs with h
  · rw [h, erase, Finmap.lookup_erase]
  · exact Finmap.lookup_erase_ne h

inductive Part
  | head
  | hand
  | body
  | feet
deriving DecidableEq

namespace ActorRecord

def list (r : ActorRecord) : Part → List RMOverlay
  | .head => r.vHead
  | .hand => r.vHand
  | .body => r.vBody
  | .feet => r.vFeet

theorem ext_list {r s : ActorRecord} (h : ∀ p, r.list p = s.list p)
    (ha : r.alreadyApplied = s.alreadyApplied) : r = s := by
  obtain ⟨_, _, _, _, _⟩ := r
  obtain ⟨_, _, _, _, _⟩ := s
  have hd := h .head
  have hh := h .hand
  have hb := h .body
  have hf := h .feet
  simp only [list] at hd hh hb hf ha
  rw [hd, hh, hb, hf, ha]

def mapLists (f : List RMOverlay → List RMOverlay) (r : ActorRecord) : ActorRecord :=
  { r with vHead := f r.vHead, vHand := f r.vHand, vBody := f r.vBody, vFeet := f r.vFeet }

@[simp] theorem mapLists_list (f : List RMOverlay → List RMOverlay) (r : ActorRecord)
    (p : Part) : (r.mapLists f).list p = f (r.list p) := by
  cases p <;> rfl

@[simp] theorem default_list (p : Part) : ({} : ActorRecord).list p = [] := by
  cases p <;> rfl

end ActorRecord

@[ext] structure Look where
  alpha : UInt32
  color : UInt32
  path : CStr
deriving DecidableEq

def RMOverlay.look (o : RMOverlay) : Look := ⟨o.alpha, o.color, CStr.ofString o.texturePath⟩

def ActorRecord.looks (r : ActorRecord) (p : Part) : List Look := (r.list p).map RMOverlay.look

def AllRecords (P : ActorRecord → Prop) (s : ActorData) : Prop := ∀ a r, s.lookup a = some r → P r

structure Enumerates (order : List FormID) (s : ActorData) : Prop where
  nodup : order.Nodup
  mem_iff : ∀ a, a ∈ order ↔ a ∈ s

namespace Enumerates
variable {order : List FormID} {s : ActorData}

theorem toFinset_eq (h : Enumerates order s) : order.toFinset = s.keys := by
  ext a
  rw [List.mem_toFinset, h.mem_iff, Finmap.mem_keys]

theorem length_eq (h : Enumerates order s) : order.length = s.keys.card := by
  rw [← h.toFinset_eq, List.toFinset_card_of_nodup h.nodup]

theorem of_keys_eq {s' : ActorData} (h : Enumerates order s) (hk : ∀ a, a ∈ s' ↔ a ∈ s) :
    Enumerates order s' :=
  ⟨h.nodup, fun a => (h.mem_iff a).trans (hk a).symm⟩

end Enumerates

theorem exists_enumerates (s : ActorData) : ∃ order, Enumerates order s :=
  ⟨s.keys.toList, s.keys.nodup_toList, fun a => by rw [Finset.mem_toList, Finmap.mem_keys]⟩

theorem keys_insert_card_le (s : ActorData) (a : FormID) (r : ActorRecord) :
    (s.insert a r).keys.card ≤ s.keys.card + 1 := by
  have hk : (s.insert a r).keys = insert a s.keys := by
    ext b
    simp [Finmap.mem_keys, Finmap.mem_insert]
  rw [hk]
  exact Finset.card_insert_le a s.keys

theorem keys_erase_card_le (s : ActorData) (a : FormID) :
    (erase s a).keys.card ≤ s.keys.card := by
  rw [erase, Finmap.keys_erase]
  exact Finset.card_erase_le

section SingleActor

def oneActor (a : FormID) (r : ActorRecord) : ActorData := Finmap.insert a r ∅

variable (a b : FormID) (r : ActorRecord)

@[simp] theorem lookup_oneActor :
    (oneActor a r).lookup b = if b = a then some r else none := by
  rw [oneActor, lookup_insert_ite, Finmap.lookup_empty]

theorem forall_oneActor {P : ActorRecord → Prop} (h : P r) : AllRecords P (oneActor a r) := by
  intro b r' hr'
  rw [lookup_oneActor] at hr'
  split_ifs at hr' with hb
  exact Option.some.inj hr' ▸ h

theorem enumerates_oneActor : Enumerates [a] (oneActor a r) := by
  refine ⟨List.nodup_singleton a, fun b => ?_⟩
  rw [← Finmap.lookup_isSome, lookup_oneActor]
  by_cases h : b = a <;> simp [h]

theorem keys_oneActor_card_lt : (oneActor a r).keys.card < 2 ^ 32 := by
  rw [← (enumerates_oneActor a r).length_eq, List.length_singleton]
  omega

end SingleActor

end OverlaySaver
