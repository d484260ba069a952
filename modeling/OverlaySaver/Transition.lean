import Mathlib.Data.List.Basic
import Mathlib.Tactic.Common

/-!
# Runs of a deterministic machine

`run` takes the events in order and `Along` says that every event meets a condition
in the state it is taken in. The invariant rule, the simulation rule, the projection rule and
the latch rule are stated once, over an arbitrary state and event type.
-/

namespace Transition
variable {σ ε : Type*} (step : σ → ε → σ)

def run (s : σ) (es : List ε) : σ := es.foldl step s

@[simp] theorem run_nil (s : σ) : run step s [] = s := rfl

@[simp] theorem run_cons (s : σ) (e : ε) (es : List ε) :
    run step s (e :: es) = run step (step s e) es := rfl

/-- Every event of the run meets `Q` in the state it is taken in. -/
def Along (Q : σ → ε → Prop) : σ → List ε → Prop
  | _, [] => True
  | s, e :: es => Q s e ∧ Along Q (step s e) es

theorem Along.invariant {Q : σ → ε → Prop} {I : σ → Prop}
    (h : ∀ s e, Q s e → I s → I (step s e)) {s : σ} {es : List ε}
    (hq : Along step Q s es) (hs : I s) : I (run step s es) := by
  induction es generalizing s with
  | nil => exact hs
  | cons e es ih => exact ih hq.2 (h s e hq.1 hs)

theorem Along.split {Q : σ → ε → Prop} {s : σ} {pre post : List ε}
    (h : Along step Q s (pre ++ post)) :
    Along step Q s pre ∧ Along step Q (run step s pre) post := by
  induction pre generalizing s with
  | nil => exact ⟨trivial, h⟩
  | cons e pre ih =>
    obtain ⟨hpre, hpost⟩ := ih h.2
    exact ⟨⟨h.1, hpre⟩, hpost⟩

theorem run_replicate_of_fixed {e : ε} {s : σ} (h : step s e = s) (n : ℕ) :
    run step s (List.replicate n e) = s := by
  induction n with
  | zero => rfl
  | succ n ih => rw [List.replicate_succ, run_cons, h, ih]

theorem run_replicate {e : ε} {s : σ} (h : step (step s e) e = step s e) (n : ℕ) :
    run step s (List.replicate n e) = if n = 0 then s else step s e := by
  cases n with
  | zero => rfl
  | succ n =>
    rw [if_neg (Nat.succ_ne_zero n), List.replicate_succ, run_cons,
      run_replicate_of_fixed step h]

section Simulation
variable {τ : Type*} {step' : τ → ε → τ} {R : σ → τ → Prop} {ok : σ → ε → Prop}

theorem Along.simulation (h : ∀ s t e, ok s e → R s t → R (step s e) (step' t e)) {s : σ} {t : τ}
    {es : List ε} (hes : Along step ok s es) (hst : R s t) :
    R (run step s es) (run step' t es) := by
  induction es generalizing s t with
  | nil => exact hst
  | cons e es ih => exact ih hes.2 (h s t e hes.1 hst)

end Simulation

section Projection
variable {τ ω : Type*} {step' : τ → ω → τ} (proj : σ → τ) {view : ε → Option ω}
  {ok : σ → ε → Prop}

/-- If the events in view drive a part of the state by a machine of its own and the others
leave it alone, a run of the whole is on that part the run of the events in view. -/
theorem proj_run
    (h : ∀ s e, ok s e → proj (step s e) = (view e).elim (proj s) (step' (proj s))) {s : σ}
    {es : List ε} (hes : Along step ok s es) :
    proj (run step s es) = run step' (proj s) (es.filterMap view) := by
  induction es generalizing s with
  | nil => rfl
  | cons e es ih =>
    have hs := h s e hes.1
    rw [run_cons, ih hes.2, hs]
    cases he : view e with
    | none => rw [List.filterMap_cons_none he]; rfl
    | some o => rw [List.filterMap_cons_some he]; rfl

end Projection

section Latch
variable (flag : σ → Prop) {quiet fires : σ → ε → Prop} [∀ s e, Decidable (fires s e)]

def count (fires : σ → ε → Prop) [∀ s e, Decidable (fires s e)] : σ → List ε → ℕ
  | _, [] => 0
  | s, e :: es => (if fires s e then 1 else 0) + count fires (step s e) es

theorem count_eq_zero_of_latch (hkeep : ∀ s e, quiet s e → flag s → flag (step s e))
    (hexcl : ∀ s e, flag s → ¬ fires s e) {s : σ} {es : List ε} (hs : flag s)
    (hes : Along step quiet s es) : count step fires s es = 0 := by
  induction es generalizing s with
  | nil => rfl
  | cons e es ih =>
    rw [count, if_neg (hexcl s e hs), ih (hkeep s e hes.1 hs) hes.2]

theorem count_le_one_of_latch (hkeep : ∀ s e, quiet s e → flag s → flag (step s e))
    (hexcl : ∀ s e, flag s → ¬ fires s e)
    (hset : ∀ s e, quiet s e → fires s e → flag (step s e)) {s : σ} {es : List ε}
    (hes : Along step quiet s es) : count step fires s es ≤ 1 := by
  induction es generalizing s with
  | nil => exact Nat.zero_le 1
  | cons e es ih =>
    rw [count]
    by_cases hf : fires s e
    · have hz := count_eq_zero_of_latch step flag hkeep hexcl (hset s e hes.1 hf) hes.2
      exact Nat.le_of_eq (by rw [if_pos hf, hz])
    · rw [if_neg hf, Nat.zero_add]
      exact ih hes.2

end Latch

end Transition
