import OverlaySaver.Cosave
import OverlaySaver.OverlaySlots
import OverlaySaver.Transition

/-!
# The plugin as a state machine

The events are the callbacks the game makes: the three cosave callbacks, the `Load3D` hook,
the tasks it has queued, and the console commands on the reference that is selected. The
override table belongs to SKEE, so it may also change between two callbacks. A save keeps
the cosave it writes apart from the state.
-/

namespace OverlaySaver
open Transition

/-- The callbacks of `ConsoleManager::Init`, in its order. -/
inductive Callback
  | help
  | register
  | apply
  | update
  | erase
  | flip
  | clear
  | reset3d
deriving DecidableEq

inductive Event
  | load (c : LoadCall) (cosave : List CosaveRecord)
  | save (c : SaveCall)
  | revert
  | load3D (actor : FormID)
  | task (actor : FormID)
  | console (cmd : Callback) (selected : Option FormID)
  | skee (t : Overrides)

variable (E : Session)

section Commands
variable (w : World) (a : FormID)

def cmdRegister : World :=
  if (getData w.actorData a).isSome then w
  else buildOverlayList E { w with actorData := addNew w.actorData a } a

def cmdReApply : World :=
  if (getData w.actorData a).isSome then applyOverlayFromList E w a true else w

def cmdUpdate : World :=
  if (getData w.actorData a).isSome then buildOverlayList E w a else w

def cmdErase : World :=
  if (getData w.actorData a).isSome then { w with actorData := erase w.actorData a } else w

def cmdFlip : World :=
  if (getData w.actorData a).isSome then flipStoredOverlaysAndReapply E w a else w

-- The only command that does not ask whether the actor is in the store.
def cmdClear : World := { w with overrides := clearOverlays E w.overrides a }

-- The 3D reset comes back as a `load3D` event.
def cmdReset3D : World := w

def runCallback : Callback → World
  | .help => w
  | .register => cmdRegister E w a
  | .apply => cmdReApply E w a
  | .update => cmdUpdate E w a
  | .erase => cmdErase w a
  | .flip => cmdFlip E w a
  | .clear => cmdClear E w a
  | .reset3d => cmdReset3D w

end Commands

def runTask (w : World) (a : FormID) : World :=
  if a ∈ w.tasks then applyOverlayFromList E { w with tasks := w.tasks.erase a } a false else w

def step (w : World) : Event → World
  | .load c cosave => onGameLoaded c cosave w
  | .save c => (onGameSaved E c w).1
  | .revert => onRevert w
  | .load3D a => { w with tasks := w.tasks ++ [a] }
  | .task a => runTask E w a
  | .console cmd (some a) => runCallback E w a cmd
  | .console _ none => w
  | .skee t => { w with overrides := t }

def Possible (w : World) : Event → Prop
  | .save c => Enumerates c.order w.actorData
  | .task a => a ∈ w.tasks
  | _ => True

section Lookups
variable (w : World) (a b : FormID)

theorem lookup_buildOverlayList :
    (buildOverlayList E w a).actorData.lookup b =
      if b = a then (w.actorData.lookup a).map (captureRecord E w.overrides a)
      else w.actorData.lookup b := by
  rw [buildOverlayList, getData_eq_lookup]
  split
  · rename_i hr
    split_ifs with h
    · rw [h, hr, Option.map_none]
    · rfl
  · rename_i r hr
    rw [lookup_insert_ite, hr, Option.map_some]

theorem mem_buildOverlayList :
    b ∈ (buildOverlayList E w a).actorData ↔ b ∈ w.actorData := by
  rw [← Finmap.lookup_isSome, lookup_buildOverlayList, ← Finmap.lookup_isSome]
  split_ifs with h
  · rw [Option.isSome_map, h]
  · rfl

@[simp] theorem buildOverlayList_overrides :
    (buildOverlayList E w a).overrides = w.overrides := by
  rw [buildOverlayList]
  split <;> rfl

@[simp] theorem applyOverlayFromList_tasks (force : Bool) :
    (applyOverlayFromList E w a force).tasks = w.tasks := by
  rw [applyOverlayFromList]
  split
  · rfl
  · split_ifs <;> rfl

theorem lookup_applyOverlayFromList_of_ne {a b : FormID} (h : b ≠ a) (force : Bool) :
    (applyOverlayFromList E w a force).actorData.lookup b = w.actorData.lookup b := by
  rw [applyOverlayFromList]
  split
  · rfl
  · split_ifs
    · rfl
    · exact Finmap.lookup_insert_of_ne _ h

theorem overrides_applyOverlayFromList_of_ne {a b : FormID} (h : b ≠ a) (force : Bool) :
    (applyOverlayFromList E w a force).overrides b = w.overrides b := by
  rw [applyOverlayFromList]
  split
  · rfl
  · split_ifs
    · rfl
    · exact applyRecord_of_ne E w.overrides a _ h

theorem step_task {w : World} {a : FormID} (h : a ∈ w.tasks) :
    step E w (.task a) =
      applyOverlayFromList E { w with tasks := w.tasks.erase a } a false := if_pos h

theorem step_task_tasks : (step E w (.task a)).tasks = w.tasks.erase a := by
  by_cases h : a ∈ w.tasks
  · rw [step_task E h, applyOverlayFromList_tasks]
  · rw [List.erase_of_not_mem h]
    exact congrArg World.tasks (if_neg h)

end Lookups

section Tasks
variable (w : World)

@[simp] theorem buildOverlayList_tasks (a : FormID) :
    (buildOverlayList E w a).tasks = w.tasks := by
  rw [buildOverlayList]
  split <;> rfl

@[simp] theorem flipStoredOverlaysAndReapply_tasks (a : FormID) :
    (flipStoredOverlaysAndReapply E w a).tasks = w.tasks := by
  rw [flipStoredOverlaysAndReapply]
  split
  · rfl
  · exact applyOverlayFromList_tasks _ _ _ _

@[simp] theorem runCallback_tasks (a : FormID) (cmd : Callback) :
    (runCallback E w a cmd).tasks = w.tasks := by
  cases cmd with
  | help | reset3d | clear => rfl
  | register =>
    simp only [runCallback, cmdRegister]
    split_ifs <;> simp
  | apply | update | erase | flip =>
    simp only [runCallback, cmdReApply, cmdUpdate, cmdErase, cmdFlip]
    split_ifs <;> simp

@[simp] theorem rebuildAll_tasks (c : SaveCall) : (rebuildAll E c w).tasks = w.tasks := by
  rw [rebuildAll]
  induction c.order generalizing w with
  | nil => rfl
  | cons a order ih =>
    rw [List.foldl_cons, ih]
    split_ifs <;> simp

theorem step_tasks (e : Event) : (step E w e).tasks =
    match e with
    | .load3D a => w.tasks ++ [a]
    | .task a => w.tasks.erase a
    | _ => w.tasks := by
  cases e with
  | load | revert | load3D | skee => rfl
  | save c => exact rebuildAll_tasks E w c
  | task a => exact step_task_tasks E w a
  | console cmd selected =>
    cases selected with
    | none => rfl
    | some a => exact runCallback_tasks E w a cmd

end Tasks

end OverlaySaver
