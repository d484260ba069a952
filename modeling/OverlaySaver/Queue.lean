import OverlaySaver.ActorView
import Mathlib.Data.List.Perm.Basic

/-!
# The task queue

The `Load3D` hook queues a task for its actor and the game runs the tasks when it likes. No
task is lost or run twice, and how the hooks and the tasks are scheduled makes no difference:
once the queue is empty each actor that was queued has had one unforced application.
-/

namespace OverlaySaver
open Transition

def hooked : Event → Option FormID
  | .load3D a => some a
  | _ => none

def ran : Event → Option FormID
  | .task a => some a
  | _ => none

variable {E : Session} {w : World} {es : List Event}

theorem tasks_conserved (hes : Along (step E) Possible w es) :
    ((run (step E) w es).tasks ++ es.filterMap ran).Perm (w.tasks ++ es.filterMap hooked) := by
  induction es generalizing w with
  | nil => exact List.Perm.refl _
  | cons e es ih =>
    have hrest := ih hes.2
    rw [step_tasks] at hrest
    cases e with
    | load3D a =>
      rw [List.append_assoc] at hrest
      exact hrest
    | task a =>
      have hqueued : w.tasks.Perm (a :: w.tasks.erase a) := List.perm_cons_erase hes.1
      have hran := List.perm_middle.trans (hrest.cons a)
      exact hran.trans (hqueued.symm.append_right _)
    | load | save | revert | console | skee => exact hrest

namespace ActorView
variable (E) (a : FormID) (v : ActorView)

theorem apply_of_applied {v : ActorView} (h : ∀ r, v.record = some r → r.alreadyApplied = true) :
    apply E a v false = v := by
  rw [apply]
  split
  · rfl
  · rename_i r hr
    rw [h r hr]
    rfl

theorem apply_apply : apply E a (apply E a v false) false = apply E a v false := by
  refine apply_of_applied E a fun r hr => ?_
  obtain ⟨record, overrides⟩ := v
  cases record with
  | none => cases hr
  | some r' =>
    rw [apply] at hr
    dsimp only at hr
    split_ifs at hr with hflag
    · rw [← Option.some.inj hr]
      simpa using hflag
    · rw [← Option.some.inj hr]

end ActorView

section Schedules

def Scheduling : Event → Prop
  | .load3D _ => True
  | .task _ => True
  | _ => False

theorem seenBy_scheduling (h : ∀ e ∈ es, Scheduling e) (a : FormID) :
    es.filterMap (seenBy a) = List.replicate ((es.filterMap ran).count a) .task := by
  induction es with
  | nil => rfl
  | cons e es ih =>
    have hrest := ih fun e' he' => h e' (List.mem_cons_of_mem e he')
    have he := h e List.mem_cons_self
    cases e with
    | load3D b => exact hrest
    | task b =>
      by_cases hb : b = a
      · subst hb
        simp [seenBy, ran, hrest, List.replicate_succ]
      · simp [seenBy, ran, hrest, hb]
    | load | save | revert | console | skee => exact he.elim

theorem count_ran_eq_zero_iff (hes : Along (step E) Possible w es)
    (hdone : (run (step E) w es).tasks = []) (a : FormID) :
    (es.filterMap ran).count a = 0 ↔ a ∉ w.tasks ++ es.filterMap hooked := by
  have hperm := tasks_conserved hes
  rw [hdone, List.nil_append] at hperm
  rw [hperm.count_eq, List.count_eq_zero]

theorem view_scheduled (hes : Along (step E) Possible w es) (hq : ∀ e ∈ es, Scheduling e)
    (hdone : (run (step E) w es).tasks = []) (a : FormID) :
    (run (step E) w es).view a =
      if a ∈ w.tasks ++ es.filterMap hooked then ActorView.apply E a (w.view a) false
      else w.view a := by
  have hidem := ActorView.apply_apply E a (w.view a)
  rw [view_run E hes, seenBy_scheduling hq, run_replicate (ActorView.step E a) (e := .task) hidem]
  by_cases ha : a ∈ w.tasks ++ es.filterMap hooked
  · have hran := (count_ran_eq_zero_iff hes hdone a).not.mpr (not_not_intro ha)
    rw [if_neg hran, if_pos ha]
    rfl
  · rw [if_pos ((count_ran_eq_zero_iff hes hdone a).mpr ha), if_neg ha]

theorem World.ext_view {w w' : World} (hv : ∀ a, w.view a = w'.view a)
    (ht : w.tasks = w'.tasks) : w = w' := by
  obtain ⟨data, overrides, tasks⟩ := w
  obtain ⟨data', overrides', tasks'⟩ := w'
  obtain rfl : data = data' := Finmap.ext_lookup fun a => congrArg ActorView.record (hv a)
  obtain rfl : overrides = overrides' := funext fun a => congrArg ActorView.overrides (hv a)
  obtain rfl : tasks = tasks' := ht
  rfl

/-- Two schedules of hooks and tasks that empty the queue and hook the same actors, however
often and in whatever order, end in the same state: each actor that was queued has had one unforced
application and nothing else has changed. -/
theorem schedules_agree {es' : List Event} (hes : Along (step E) Possible w es)
    (hes' : Along (step E) Possible w es') (hq : ∀ e ∈ es, Scheduling e)
    (hq' : ∀ e ∈ es', Scheduling e) (hdone : (run (step E) w es).tasks = [])
    (hdone' : (run (step E) w es').tasks = [])
    (hsame : ∀ a, a ∈ es.filterMap hooked ↔ a ∈ es'.filterMap hooked) :
    run (step E) w es = run (step E) w es' ∧
      ∀ a, (run (step E) w es).view a =
        if a ∈ w.tasks ++ es.filterMap hooked then ActorView.apply E a (w.view a) false
        else w.view a := by
  have hview := view_scheduled hes hq hdone
  refine ⟨World.ext_view (fun a => ?_) (hdone.trans hdone'.symm), hview⟩
  rw [hview, view_scheduled hes' hq' hdone']
  simp only [List.mem_append, hsame]

theorem schedules_agree_hook_twice :
    let E := plainSession 1
    let w : World := ⟨oneActor 20 oneOverlay, fun _ _ _ _ _ => none, []⟩
    run (step E) w [.load3D 20, .task 20, .load3D 20, .task 20] =
      run (step E) w [.load3D 20, .task 20] := by
  intro E w
  have hq : ∀ e ∈ [Event.load3D 20, .task 20, .load3D 20, .task 20], Scheduling e := by
    intro e he
    simp only [List.mem_cons, List.not_mem_nil, or_false] at he
    rcases he with rfl | rfl | rfl | rfl <;> trivial
  have hes : Along (step E) Possible w [.load3D 20, .task 20, .load3D 20, .task 20] := by
    refine ⟨trivial, List.mem_cons_self, trivial, ?_, trivial⟩
    simp only [Possible, step_tasks]
    decide
  have hes' : Along (step E) Possible w [.load3D 20, .task 20] :=
    ⟨trivial, List.mem_cons_self, trivial⟩
  have hq' : ∀ e ∈ [Event.load3D 20, .task 20], Scheduling e :=
    fun e he => hq e (List.mem_append_left [Event.load3D 20, .task 20] he)
  refine (schedules_agree hes hes' hq hq' ?_ ?_ fun a => ?_).1
  · simp only [run_cons, run_nil, step_tasks]
    decide
  · simp only [run_cons, run_nil, step_tasks]
    decide
  · simp [hooked, eq_comm]

end Schedules

end OverlaySaver
