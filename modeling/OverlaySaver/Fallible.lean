import OverlaySaver.Transition
import Mathlib.Logic.Relation

/-!
# Machines with steps that can fail

A step that gives `none` is one the machine must not take. An invariant under which every
step succeeds makes each reachable state safe. With events, a machine that fails exactly where
a condition on state and event fails is the total machine along that condition.
-/

namespace Fallible
variable {σ ε : Type*}

section Closed
variable (step : σ → Option σ)

def Reaches : σ → σ → Prop := Relation.ReflTransGen fun s s' => step s = some s'

def Safe (s : σ) : Prop := ∀ s', Reaches step s s' → (step s').isSome

variable {step} {I : σ → Prop}

theorem Reaches.head {s s' s'' : σ} (h : step s = some s') (hr : Reaches step s' s'') :
    Reaches step s s'' := Relation.ReflTransGen.head h hr

theorem invariant_of_reaches (h : ∀ s, I s → ∃ s', step s = some s' ∧ I s') {s s' : σ} (hs : I s)
    (hr : Reaches step s s') : I s' := by
  induction hr with
  | refl => exact hs
  | tail _ hstep ih =>
    obtain ⟨t, ht, hI⟩ := h _ ih
    rw [hstep] at ht
    exact Option.some.inj ht ▸ hI

theorem safe_of_invariant (h : ∀ s, I s → ∃ s', step s = some s' ∧ I s') {s : σ} (hs : I s) :
    Safe step s := by
  intro s' hr
  obtain ⟨t, ht, -⟩ := h s' (invariant_of_reaches h hs hr)
  rw [ht, Option.isSome_some]

end Closed

section Guarded
variable {α β : Type*}

def Guarded (m : Option α) (ok : Prop) (x : α) : Prop := ∀ y, m = some y ↔ ok ∧ x = y

/-- A call through a pointer that may be null. -/
def call (present : Bool) (x : α) : Option α := if present then some x else none

theorem Guarded.isSome {m : Option α} {ok : Prop} {x : α} (h : Guarded m ok x) :
    m.isSome ↔ ok := by
  rw [Option.isSome_iff_exists]
  constructor
  · intro h'
    obtain ⟨y, hy⟩ := h'
    exact ((h y).mp hy).1
  · exact fun hok => ⟨x, (h x).mpr ⟨hok, rfl⟩⟩

theorem Guarded.congr {m : Option α} {ok ok' : Prop} {x : α} (h : Guarded m ok x)
    (hok : ok ↔ ok') : Guarded m ok' x := fun y => by rw [h y, hok]

theorem Guarded.pure (x : α) : Guarded (some x) True x := fun y => by
  rw [true_and, Option.some_inj]

theorem Guarded.call (present : Bool) (x : α) :
    Guarded (Fallible.call present x) (present = true) x := by
  intro y
  rw [Fallible.call]
  cases present <;> simp

theorem Guarded.bind {m : Option α} {f : α → Option β} {ok ok' : Prop} {x : α} {z : β}
    (hm : Guarded m ok x) (hf : Guarded (f x) ok' z) : Guarded (m.bind f) (ok ∧ ok') z := by
  intro y
  rw [Option.bind_eq_some_iff]
  constructor
  · intro h
    obtain ⟨x', hx', hy⟩ := h
    obtain ⟨hok, rfl⟩ := (hm x').mp hx'
    obtain ⟨hok', hz⟩ := (hf y).mp hy
    exact ⟨⟨hok, hok'⟩, hz⟩
  · intro h
    obtain ⟨⟨hok, hok'⟩, hz⟩ := h
    exact ⟨x, (hm x).mpr ⟨hok, rfl⟩, (hf y).mpr ⟨hok', hz⟩⟩

theorem Guarded.seq {m : Option α} {f : α → Option β} {ok : Prop} {x : α} {z : β}
    (hm : Guarded m ok x) (hf : Guarded (f x) ok z) : Guarded (m.bind f) ok z :=
  (hm.bind hf).congr and_self_iff

theorem Guarded.bind_some {m : Option α} {ok : Prop} {x : α} (h : Guarded m ok x) (f : α → β) :
    Guarded (m.bind fun y => some (f y)) ok (f x) :=
  (h.bind (f := fun y => some (f y)) (Guarded.pure (f x))).congr (iff_of_eq (and_true ok))

theorem Guarded.map {m : Option α} {ok : Prop} {x : α} (h : Guarded m ok x) (f : α → β) :
    Guarded (m.map f) ok (f x) := by
  intro y
  rw [Option.map_eq_some_iff]
  constructor
  · intro h'
    obtain ⟨x', hx', rfl⟩ := h'
    obtain ⟨hok, rfl⟩ := (h x').mp hx'
    exact ⟨hok, rfl⟩
  · intro h'
    obtain ⟨hok, rfl⟩ := h'
    exact ⟨x, (h x).mpr ⟨hok, rfl⟩, rfl⟩

open Transition in
theorem Guarded.foldlM {step? : σ → ε → Option σ} {step : σ → ε → σ} {ok : σ → ε → Prop}
    (h : ∀ s e, Guarded (step? s e) (ok s e) (step s e)) (s : σ) (es : List ε) :
    Guarded (es.foldlM step? s) (Along step ok s es) (run step s es) := by
  induction es generalizing s with
  | nil => exact Guarded.pure s
  | cons e es ih => exact (h s e).bind (ih (step s e))

theorem along_const_iff {step : σ → ε → σ} {ok : Prop} (s : σ) (es : List ε) :
    Transition.Along step (fun _ _ => ok) s es ↔ (es ≠ [] → ok) := by
  induction es generalizing s with
  | nil => exact iff_of_true trivial fun h => absurd rfl h
  | cons e es ih =>
    rw [Transition.Along, ih]
    constructor
    · exact fun h _ => h.1
    · exact fun h => ⟨h (List.cons_ne_nil e es), fun _ => h (List.cons_ne_nil e es)⟩

end Guarded

end Fallible
