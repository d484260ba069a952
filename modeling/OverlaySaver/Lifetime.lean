import OverlaySaver.ActorView

/-!
# The lifetime of a record

A record comes from a load or from `register` and goes with `erase`, a revert or the next
load. In between its flag is a latch: once set it stays set, an unforced application that
passes it sets it, and so do `apply` and `flip`.
-/

namespace OverlaySaver
open Transition ByteStream

/-- The events that end the lifetime of the actor's record. -/
def Removes (a : FormID) : Event → Prop
  | .load _ _ => True
  | .revert => True
  | .console .erase selected => selected = some a
  | _ => False

def autoApplies (a : FormID) (w : World) : Event → Bool
  | .task b =>
    b == a && w.tasks.contains b && (w.actorData.lookup b).any fun r => !r.alreadyApplied
  | _ => false

def autoApplications (E : Session) (a : FormID) (w : World) (es : List Event) : ℕ :=
  count (step E) (fun w e => autoApplies a w e = true) w es

section Loaded
variable (c : LoadCall)

theorem unapplied_onGameLoaded (cosave : List CosaveRecord) (w : World) :
    AllRecords (fun r => r.alreadyApplied = false) (onGameLoaded c cosave w).actorData :=
  allRecords_loaded c (fun _ _ => rfl) cosave

end Loaded

variable (E : Session)

namespace ActorView
variable (a : FormID)

def Applied (v : ActorView) : Prop := ∃ r, v.record = some r ∧ r.alreadyApplied = true

theorem applied_apply {v : ActorView} {r : ActorRecord} (h : v.record = some r) (force : Bool) :
    (apply E a v force).Applied := by
  rw [apply, h]
  dsimp only
  split_ifs with hr
  · exact ⟨r, h, (Bool.and_eq_true_iff.mp hr).1⟩
  · exact ⟨_, rfl, rfl⟩

theorem applied_flip {v : ActorView} {r : ActorRecord} (h : v.record = some r) :
    (flip E a v).Applied := by
  rw [flip, h]
  exact applied_apply E a rfl true

theorem applied_capture {v : ActorView} (h : v.Applied) : (capture E a v).Applied := by
  obtain ⟨r, hr, ha⟩ := h
  refine ⟨captureRecord E v.table a r, ?_, ha⟩
  rw [capture, hr]
  rfl

def Keeps : Move → Prop
  | .load _ => False
  | .console .erase => False
  | _ => True

theorem applied_step {v : ActorView} {m : Move} (hm : Keeps m) (h : v.Applied) :
    (step E a v m).Applied := by
  obtain ⟨r, hr, ha⟩ := id h
  cases m with
  | load r => exact hm.elim
  | save found =>
    cases found with
    | false => exact h
    | true => exact applied_capture E a h
  | task => exact applied_apply E a hr false
  | console cmd =>
    cases cmd with
    | help | reset3d => exact h
    | register =>
      rw [step, register, hr]
      exact h
    | apply => exact applied_apply E a hr true
    | update => exact applied_capture E a h
    | erase => exact hm.elim
    | flip => exact applied_flip E a hr
    | clear => exact ⟨r, hr, ha⟩
  | skee t => exact ⟨r, hr, ha⟩

end ActorView

section Lifetime
variable (a : FormID)

theorem keeps_of_seen {e : Event} {m : Move} (he : ¬ Removes a e) (hm : seenBy a e = some m) :
    ActorView.Keeps m := by
  cases e with
  | load c cosave => exact (he trivial).elim
  | save c => cases hm; trivial
  | revert => exact (he trivial).elim
  | load3D b => cases hm
  | task b =>
    rw [seenBy] at hm
    split_ifs at hm
    cases hm
    trivial
  | console cmd selected =>
    rw [seenBy] at hm
    split_ifs at hm with hs
    cases hm
    cases cmd with
    | erase => exact (he hs).elim
    | _ => trivial
  | skee t => cases hm; trivial

theorem applied_stays {w : World} {e : Event} (hq : Possible w e ∧ ¬ Removes a e)
    (h : (w.view a).Applied) : ((step E w e).view a).Applied := by
  rw [view_step E hq.1 a]
  cases hm : seenBy a e with
  | none => exact h
  | some m => exact ActorView.applied_step E a (keeps_of_seen a hq.2 hm) h

theorem autoApplies_iff {w : World} {e : Event} :
    autoApplies a w e = true ↔
      e = .task a ∧ a ∈ w.tasks ∧ ∃ r, w.actorData.lookup a = some r ∧ r.alreadyApplied = false := by
  cases e with
  | task b =>
    simp only [autoApplies, Bool.and_eq_true, beq_iff_eq, List.contains_iff_mem,
      Option.any_eq_true, Bool.not_eq_true', Event.task.injEq, and_assoc]
    constructor
    · intro h
      obtain ⟨rfl, hb, hr⟩ := h
      exact ⟨rfl, hb, hr⟩
    · intro h
      obtain ⟨rfl, hb, hr⟩ := h
      exact ⟨rfl, hb, hr⟩
  | _ => simp [autoApplies]

theorem not_autoApplies_of_applied {w : World} (e : Event) (h : (w.view a).Applied) :
    ¬ autoApplies a w e = true := by
  intro hf
  obtain ⟨_, _, r, hr, hn⟩ := (autoApplies_iff a).mp hf
  obtain ⟨r', hr', ha⟩ := h
  rw [World.view, hr] at hr'
  obtain rfl := Option.some.inj hr'
  rw [hn] at ha
  cases ha

theorem applied_of_autoApplies {w : World} {e : Event} (hp : Possible w e)
    (h : autoApplies a w e = true) : ((step E w e).view a).Applied := by
  obtain ⟨rfl, _, r, hr, _⟩ := (autoApplies_iff a).mp h
  rw [view_step E hp a, seenBy, if_pos rfl]
  exact ActorView.applied_apply E a hr false

theorem runTask_of_not_autoApplies {w : World} (h : ¬ autoApplies a w (.task a) = true) :
    (runTask E w a).actorData = w.actorData ∧ (runTask E w a).overrides = w.overrides := by
  rw [autoApplies_iff] at h
  rw [runTask]
  split_ifs with hq
  · rw [applyOverlayFromList, getData_eq_lookup]
    dsimp only
    cases hr : w.actorData.lookup a with
    | none => exact ⟨rfl, rfl⟩
    | some r =>
      have ha : r.alreadyApplied = true := by
        by_contra hn
        exact h ⟨rfl, hq, r, hr, Bool.eq_false_iff.mpr hn⟩
      simp [ha]
  · exact ⟨rfl, rfl⟩

theorem register_fresh {w : World} (h : w.actorData.lookup a = none) :
    ∃ r, (step E w (.console .register (some a))).actorData.lookup a = some r ∧
      r.alreadyApplied = false := by
  have hn : (w.view a).record = none := h
  have hv := view_cmdRegister E w a a
  rw [if_pos rfl, ActorView.register, hn] at hv
  exact ⟨_, congrArg ActorView.record hv, rfl⟩

theorem erase_removes (w : World) :
    (step E w (.console .erase (some a))).actorData.lookup a = none := by
  have hv := congrArg ActorView.record (view_cmdErase w a a)
  rw [if_pos rfl] at hv
  exact hv

/-- In the lifetime of one record at most one unforced application gets past the check,
none after `apply` or `flip` reached the record, and a record that is created anew starts
out as not applied. -/
theorem one_automatic_application :
    (∀ w es, Along (step E) (fun w e => Possible w e ∧ ¬ Removes a e) w es →
      autoApplications E a w es ≤ 1) ∧
    (∀ w cmd es, cmd = Callback.apply ∨ cmd = Callback.flip → (w.actorData.lookup a).isSome →
      Along (step E) (fun w e => Possible w e ∧ ¬ Removes a e)
        (step E w (.console cmd (some a))) es →
      autoApplications E a (step E w (.console cmd (some a))) es = 0) ∧
    (∀ w, ¬ autoApplies a w (.task a) = true →
      (step E w (.task a)).actorData = w.actorData ∧
        (step E w (.task a)).overrides = w.overrides) ∧
    (∀ c cosave w r, (step E w (.load c cosave)).actorData.lookup a = some r →
      r.alreadyApplied = false) ∧
    (∀ w, (step E w (.console .erase (some a))).actorData.lookup a = none) ∧
    (∀ w, w.actorData.lookup a = none →
      ∃ r, (step E w (.console .register (some a))).actorData.lookup a = some r ∧
        r.alreadyApplied = false) := by
  refine ⟨fun w es hes => ?_, fun w cmd es hcmd hr hes => ?_,
    fun w h => runTask_of_not_autoApplies E a h,
    fun c cosave w r hr => unapplied_onGameLoaded c cosave w a r hr,
    erase_removes E a, fun w h => register_fresh E a h⟩
  · exact count_le_one_of_latch (step E) (fun w => (w.view a).Applied)
      (fun w e hq hf => applied_stays E a hq hf)
      (fun w e hf => not_autoApplies_of_applied a e hf)
      (fun w e hq hf => applied_of_autoApplies E a hq.1 hf) hes
  · obtain ⟨r, hr⟩ := Option.isSome_iff_exists.mp hr
    have hp : Possible w (.console cmd (some a)) := trivial
    have hflag : ((step E w (.console cmd (some a))).view a).Applied := by
      rw [view_step E hp a, seenBy, if_pos rfl]
      rcases hcmd with rfl | rfl
      · exact ActorView.applied_apply E a hr true
      · exact ActorView.applied_flip E a hr
    exact count_eq_zero_of_latch (step E) (fun w => (w.view a).Applied)
      (fun w e hq hf => applied_stays E a hq hf)
      (fun w e hf => not_autoApplies_of_applied a e hf) hflag hes

theorem one_automatic_application_two_tasks :
    let w : World := ⟨oneActor 20 oneOverlay, fun _ _ _ _ _ => none, [20, 20]⟩
    autoApplies 20 w (.task 20) = true ∧
      autoApplications (plainSession 1) 20 w [.task 20, .task 20] ≤ 1 := by
  intro w
  have hq : 20 ∈ w.tasks := List.mem_cons_self
  have hq' : Possible (step (plainSession 1) w (.task 20)) (.task 20) := by
    rw [Possible, step_task_tasks]
    exact List.mem_cons_self
  have hes : Along (step (plainSession 1)) (fun w e => Possible w e ∧ ¬ Removes 20 e) w
      [.task 20, .task 20] := ⟨⟨hq, id⟩, ⟨hq', id⟩, trivial⟩
  refine ⟨?_, (one_automatic_application (plainSession 1) 20).1 w _ hes⟩
  rw [autoApplies_iff]
  exact ⟨rfl, hq, oneOverlay, lookup_oneActor 20 20 oneOverlay, rfl⟩

end Lifetime

end OverlaySaver
