import OverlaySaver.Startup
import OverlaySaver.Dispatch
import OverlaySaver.Formatting
import Mathlib.Data.Set.Basic

/-!
# What the console says

The callbacks once more, with the chain from the selected reference to the actor, the lines they
print and the 3D resets they ask for. The lines name the actor and its FormID without ambiguity,
whatever the actor is called, and they say which actors are in the store.
-/

namespace OverlaySaver
open ByteStream (Bytes)
open Formatting

structure ActorRef where
  formID : FormID
  displayFullName : CStr

/-- `GetSelectedRef`: none, a reference that is not an actor, or an actor. -/
inductive SelectedRef
  | none
  | other
  | actor (a : ActorRef)

def SelectedRef.targetActor : SelectedRef → Option ActorRef
  | .actor a => some a
  | _ => Option.none

structure Reply where
  world : World
  printed : List Bytes := []
  reset3D : List FormID := []

/-- A pattern that does not fit its arguments is logged and nothing is printed. -/
def cprint (fmt : String) (args : List Arg) : List Bytes := (vformat fmt.toList args).toList

def ActorRef.args (a : ActorRef) : List Arg := [.text a.displayFullName.bytes, .word a.formID]

section Callbacks
variable (E : Session) (w : World) (sel : SelectedRef)

def withTarget (reply : ActorRef → Reply) : Reply :=
  match sel.targetActor with
  | some a => reply a
  | none => { world := w }

def replyRegister : Reply := withTarget w sel fun a =>
  if (getData w.actorData a.formID).isSome then
    { world := w, printed := cprint "OverlaySaver: Actor {} ({:X}) Already Exists in Map" a.args }
  else
    { world := buildOverlayList E { w with actorData := addNew w.actorData a.formID } a.formID
      printed := cprint "OverlaySaver: Registered {} ({:X})" a.args }

/-- The callbacks that ask for a record, run the manager or the store and say so. -/
def replyRegistered (act : World → FormID → World) (fmt : String) : Reply :=
  withTarget w sel fun a =>
    if (getData w.actorData a.formID).isSome then
      { world := act w a.formID, printed := cprint fmt a.args }
    else { world := w }

def replyReApply : Reply :=
  replyRegistered w sel (fun w a => applyOverlayFromList E w a true)
    "OverlaySaver: Applied Saved {} ({:X})"

def replyUpdate : Reply :=
  replyRegistered w sel (buildOverlayList E) "OverlaySaver: Built List {} ({:X})"

def replyErase : Reply :=
  replyRegistered w sel (fun w a => { w with actorData := erase w.actorData a })
    "OverlaySaver: Erased CosaveData from {} ({:X})"

def replyFlip : Reply :=
  replyRegistered w sel (flipStoredOverlaysAndReapply E)
    "OverlaySaver: Flipped Ovl order of {} ({:X})"

def replyClear : Reply := withTarget w sel fun a =>
  { world := { w with overrides := clearOverlays E w.overrides a.formID }
    printed := cprint "OverlaySaver: ClearOverlays {} ({:X})" a.args }

def replyReset3D : Reply := withTarget w sel fun a =>
  if (getData w.actorData a.formID).isSome then { world := w, reset3D := [a.formID] }
  else { world := w }

def runReply (commands : RegisteredCommands Callback) : Callback → Reply
  | .help => { world := w, printed := cmdHelp commands }
  | .register => replyRegister E w sel
  | .apply => replyReApply E w sel
  | .update => replyUpdate E w sel
  | .erase => replyErase w sel
  | .flip => replyFlip E w sel
  | .clear => replyClear E w sel
  | .reset3d => replyReset3D w sel

end Callbacks

section World
variable (E : Session) (w : World) (sel : SelectedRef)

theorem runReply_world (commands : RegisteredCommands Callback) (cmd : Callback) :
    (runReply E w sel commands cmd).world =
      step E w (.console cmd (sel.targetActor.map ActorRef.formID)) := by
  cases hsel : sel.targetActor with
  | none => cases cmd <;> simp [runReply, replyRegister, replyReApply, replyUpdate, replyErase,
      replyFlip, replyClear, replyReset3D, replyRegistered, withTarget, hsel, step]
  | some a =>
    simp only [Option.map_some, step]
    cases cmd <;> simp only [runReply, replyRegister, replyReApply, replyUpdate, replyErase,
      replyFlip, replyClear, replyReset3D, replyRegistered, withTarget, hsel, runCallback,
      cmdRegister, cmdReApply, cmdUpdate, cmdErase, cmdFlip, cmdClear, cmdReset3D] <;>
      split_ifs <;> rfl

end World

section Texts

def named (pre : String) (a : ActorRef) (post : String) : Bytes :=
  ascii pre ++ (a.displayFullName.bytes ++ ([32, 40] ++ (hex a.formID ++ ([41] ++ ascii post))))

theorem cprint_named {fmt pre post : String} (a : ActorRef)
    (hfmt : fmt.toList = pre.toList ++ ("{} ({:X})".toList ++ post.toList))
    (hpre : Plain pre.toList) (hpost : Plain post.toList) :
    cprint fmt a.args = [named pre a post] := by
  rw [cprint, hfmt, ActorRef.args, vformat_named hpre hpost]
  rfl

theorem registered_line (a : ActorRef) : cprint "OverlaySaver: Registered {} ({:X})" a.args =
    [named "OverlaySaver: Registered " a ""] := cprint_named a (by decide) (by decide) (by decide)

theorem erased_line (a : ActorRef) :
    cprint "OverlaySaver: Erased CosaveData from {} ({:X})" a.args =
      [named "OverlaySaver: Erased CosaveData from " a ""] :=
  cprint_named a (by decide) (by decide) (by decide)

theorem named_ne {pre post : String} {a : ActorRef} {line : Bytes} (n : ℕ)
    (hlen : n ≤ (ascii pre).length) (h : (ascii pre).take n ≠ line.take n) :
    line ≠ named pre a post := by
  intro he
  refine h ?_
  rw [he, named, List.take_append_of_le_length hlen]

theorem take_named {pre post : String} {a : ActorRef} {n : ℕ} (hlen : n ≤ (ascii pre).length) :
    (named pre a post).take n = (ascii pre).take n := by
  rw [named, List.take_append_of_le_length hlen]

theorem named_inj {pre post : String} {a b : ActorRef} (h : named pre a post = named pre b post) :
    a = b := by
  obtain ⟨id, name⟩ := a
  obtain ⟨id', name'⟩ := b
  obtain ⟨hname, rfl⟩ := named_text_injective _ (List.append_cancel_left h)
  obtain rfl : name = name' := CStr.ext hname
  rfl

end Texts

section Replay

/-- The store's actors after a line was printed: `register` adds the actor it names and `erase`
takes it out. -/
def replay (s : Set FormID) (line : Bytes) : Set FormID :=
  { k | (∃ a : ActorRef, a.formID = k ∧ line = named "OverlaySaver: Registered " a "") ∨
    k ∈ s ∧ ¬ ∃ a : ActorRef, a.formID = k ∧
      line = named "OverlaySaver: Erased CosaveData from " a "" }

def Silent (line : Bytes) : Prop :=
  line.take 15 ≠ ascii "OverlaySaver: R" ∧ line.take 15 ≠ ascii "OverlaySaver: E"

instance (line : Bytes) : Decidable (Silent line) := inferInstanceAs (Decidable (_ ∧ _))

theorem replay_silent {line : Bytes} (h : Silent line) (s : Set FormID) : replay s line = s := by
  have hregistered : ∀ a : ActorRef, line ≠ named "OverlaySaver: Registered " a "" :=
    fun a => named_ne 15 (by decide) fun he => h.1 (he.symm.trans (by decide))
  have herased : ∀ a : ActorRef, line ≠ named "OverlaySaver: Erased CosaveData from " a "" :=
    fun a => named_ne 15 (by decide) fun he => h.2 (he.symm.trans (by decide))
  ext k
  simp [replay, hregistered, herased]

theorem replay_registered (a : ActorRef) (s : Set FormID) :
    replay s (named "OverlaySaver: Registered " a "") = insert a.formID s := by
  have herased : ∀ b : ActorRef, named "OverlaySaver: Registered " a "" ≠
      named "OverlaySaver: Erased CosaveData from " b "" := by
    intro b
    refine named_ne 15 (by decide) ?_
    rw [take_named (by decide)]
    decide
  ext k
  simp only [replay, Set.mem_ofPred_eq, Set.mem_insert_iff, herased, and_false, exists_false,
    not_false_eq_true, and_true]
  refine or_congr_left ⟨fun h => ?_, fun h => ⟨a, h.symm, rfl⟩⟩
  obtain ⟨b, rfl, hb⟩ := h
  rw [named_inj hb]

theorem replay_erased (a : ActorRef) (s : Set FormID) :
    replay s (named "OverlaySaver: Erased CosaveData from " a "") = s \ {a.formID} := by
  have hregistered : ∀ b : ActorRef, named "OverlaySaver: Erased CosaveData from " a "" ≠
      named "OverlaySaver: Registered " b "" := by
    intro b
    refine named_ne 15 (by decide) ?_
    rw [take_named (by decide)]
    decide
  ext k
  simp only [replay, Set.mem_ofPred_eq, Set.mem_sdiff, Set.mem_singleton_iff, hregistered,
    and_false, exists_false, false_or]
  refine and_congr_right fun _ => not_congr ⟨fun h => ?_, fun h => ⟨a, h.symm, rfl⟩⟩
  obtain ⟨b, rfl, hb⟩ := h
  rw [named_inj hb]

theorem foldl_replay_silent {lines : List Bytes} (h : ∀ line ∈ lines, Silent line)
    (s : Set FormID) : lines.foldl replay s = s := by
  induction lines with
  | nil => rfl
  | cons line lines ih =>
    obtain ⟨hline, hlines⟩ := List.forall_mem_cons.mp h
    rw [List.foldl_cons, replay_silent hline, ih hlines]

theorem silent_named {pre post : String} (a : ActorRef) (hlen : 15 ≤ (ascii pre).length)
    (h : Silent (ascii pre)) : Silent (named pre a post) := by
  rw [Silent, take_named hlen]
  exact h

theorem silent_cmdHelp (commands : RegisteredCommands Callback) :
    ∀ line ∈ cmdHelp commands, Silent line := by
  intro line hline
  rcases List.mem_cons.mp hline with rfl | hline
  · decide
  · obtain ⟨c, -, rfl⟩ := List.mem_map.mp hline
    have hstart : ∀ rest : Bytes, Silent (ascii "* " ++ rest) := by
      intro rest
      constructor <;> intro h <;> exact absurd (congrArg List.head? h) (by simp [ascii])
    simp only [List.append_assoc]
    exact hstart _

theorem silent_commandNotFound : Silent commandNotFound := by decide

end Replay

section Stored
variable (E : Session) (w : World) (a : FormID)

def stored (w : World) : Set FormID := { k | k ∈ w.actorData }

theorem stored_insert {r r' : ActorRecord} (h : w.actorData.lookup a = some r') :
    stored { w with actorData := w.actorData.insert a r } = stored w := by
  ext k
  have ha : a ∈ w.actorData := Finmap.mem_of_lookup_eq_some h
  simp only [stored, Set.mem_ofPred_eq, Finmap.mem_insert]
  exact or_iff_right_of_imp fun hk => hk ▸ ha

theorem stored_buildOverlayList : stored (buildOverlayList E w a) = stored w :=
  Set.ext fun k => mem_buildOverlayList E w a k

theorem stored_applyOverlayFromList (force : Bool) :
    stored (applyOverlayFromList E w a force) = stored w := by
  rw [applyOverlayFromList, getData_eq_lookup]
  split
  · rfl
  · rename_i r hr
    split_ifs
    · rfl
    · exact stored_insert w a hr

theorem stored_flip : stored (flipStoredOverlaysAndReapply E w a) = stored w := by
  rw [flipStoredOverlaysAndReapply, getData_eq_lookup]
  split
  · rfl
  · rename_i r hr
    rw [stored_applyOverlayFromList]
    exact stored_insert { w with overrides := clearOverlays E w.overrides a } a hr

theorem stored_addNew : stored { w with actorData := addNew w.actorData a } =
    insert a (stored w) := by
  ext k
  simp only [stored, Set.mem_ofPred_eq, Set.mem_insert_iff, addNew]
  split_ifs with h
  · exact (or_iff_right_of_imp fun hk => hk ▸ h).symm
  · exact Finmap.mem_insert

theorem stored_erase : stored { w with actorData := erase w.actorData a } =
    stored w \ {a} := by
  ext k
  simp only [stored, Set.mem_ofPred_eq, Set.mem_sdiff, Set.mem_singleton_iff, erase,
    Finmap.mem_erase]
  exact and_comm

end Stored

section Tracks
variable {E : Session} {w : World} {sel : SelectedRef}

def Tracks (w : World) (reply : Reply) : Prop :=
  stored reply.world = reply.printed.foldl replay (stored w)

theorem tracks_withTarget {reply : ActorRef → Reply} (h : ∀ a, Tracks w (reply a)) :
    Tracks w (withTarget w sel reply) := by
  rw [withTarget]
  split
  · exact h _
  · rfl

theorem tracks_of_silent {reply : Reply} (hstored : stored reply.world = stored w)
    (h : ∀ line ∈ reply.printed, Silent line) : Tracks w reply := by
  rw [Tracks, foldl_replay_silent h, hstored]

theorem silent_cprint (fmt pre post : String) (a : ActorRef)
    (hfmt : fmt.toList = pre.toList ++ ("{} ({:X})".toList ++ post.toList))
    (hpre : Plain pre.toList) (hpost : Plain post.toList) (hlen : 15 ≤ (ascii pre).length)
    (h : Silent (ascii pre)) : ∀ line ∈ cprint fmt a.args, Silent line := by
  rw [cprint_named a hfmt hpre hpost]
  intro line hline
  rw [List.mem_singleton.mp hline]
  exact silent_named a hlen h

theorem tracks_replyRegistered (fmt pre : String) {act : World → FormID → World}
    (hact : ∀ a, stored (act w a) = stored w)
    (hfmt : fmt.toList = pre.toList ++ ("{} ({:X})".toList ++ "".toList))
    (hpre : Plain pre.toList) (hlen : 15 ≤ (ascii pre).length) (h : Silent (ascii pre)) :
    Tracks w (replyRegistered w sel act fmt) := by
  refine tracks_withTarget fun a => ?_
  split_ifs
  · exact tracks_of_silent (hact a.formID) (silent_cprint fmt pre "" a hfmt hpre (by decide) hlen h)
  · rfl

theorem tracks_replyRegister : Tracks w (replyRegister E w sel) := by
  refine tracks_withTarget fun a => ?_
  split_ifs
  · exact tracks_of_silent rfl (silent_cprint "OverlaySaver: Actor {} ({:X}) Already Exists in Map"
      "OverlaySaver: Actor " " Already Exists in Map" a
      (by decide) (by decide) (by decide) (by decide) (by decide))
  · rw [Tracks, registered_line, List.foldl_cons, List.foldl_nil, replay_registered]
    exact (stored_buildOverlayList E _ a.formID).trans (stored_addNew w a.formID)

theorem tracks_replyErase : Tracks w (replyErase w sel) := by
  refine tracks_withTarget fun a => ?_
  split_ifs
  · rw [Tracks, erased_line, List.foldl_cons, List.foldl_nil, replay_erased]
    exact stored_erase w a.formID
  · rfl

theorem tracks_runReply (commands : RegisteredCommands Callback) (cmd : Callback) :
    Tracks w (runReply E w sel commands cmd) := by
  cases cmd with
  | help => exact tracks_of_silent rfl (silent_cmdHelp commands)
  | register => exact tracks_replyRegister
  | apply =>
    exact tracks_replyRegistered _ "OverlaySaver: Applied Saved "
      (fun a => stored_applyOverlayFromList E w a true) (by decide) (by decide) (by decide)
      (by decide)
  | update =>
    exact tracks_replyRegistered _ "OverlaySaver: Built List "
      (stored_buildOverlayList E w) (by decide) (by decide) (by decide) (by decide)
  | erase => exact tracks_replyErase
  | flip =>
    exact tracks_replyRegistered _ "OverlaySaver: Flipped Ovl order of "
      (stored_flip E w) (by decide) (by decide) (by decide) (by decide)
  | clear =>
    refine tracks_withTarget fun a => ?_
    exact tracks_of_silent rfl (silent_cprint "OverlaySaver: ClearOverlays {} ({:X})"
      "OverlaySaver: ClearOverlays " "" a
      (by decide) (by decide) (by decide) (by decide) (by decide))
  | reset3d =>
    refine tracks_withTarget fun a => ?_
    split_ifs <;> rfl

end Tracks

end OverlaySaver
