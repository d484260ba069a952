import OverlaySaver.Transcript

/-!
# The plugin in its host

What the game and SKSE bring to the plugin: messages, lines of the console with the reference
that is selected, and the other callbacks. The table of commands is filled by the first
`kPostPostLoad`; until then every line goes to the game, and from then on those that do not start
with the prefix.

`Plugin.step` is taken here: a run is one that the program survives, in which each step is what
`Plugin.step?` gives.
-/

namespace OverlaySaver
open ByteStream (Bytes)
open Transition Words

def NoCommand : Event → Prop
  | .console _ _ => False
  | _ => True

inductive HostEvent (Script Compiler CompilerName Ref : Type*)
  | message (type : MessageType) (x : Exchange)
  | typed (call : ConsoleCall Script Compiler CompilerName Ref) (selected : SelectedRef)
  | game (e : Event) (h : NoCommand e)

/-- The plugin with its command table, what it printed, the calls it passed on to the game's
own handler and the 3D resets it asked for. -/
structure Host (Script Compiler CompilerName Ref : Type*) where
  plugin : Plugin
  commands : RegisteredCommands Callback := []
  printed : List Bytes := []
  forwarded : List (ConsoleCall Script Compiler CompilerName Ref) := []
  reset3D : List FormID := []

def initConsole (commands : RegisteredCommands Callback) : RegisteredCommands Callback :=
  registerCommands initCalls commands

section Host
variable {Script Compiler CompilerName Ref : Type*} (text : Script → Bytes)

def replyTo (p : Plugin) (commands : RegisteredCommands Callback) (selected : SelectedRef)
    (processed : Processed Callback) : Reply :=
  match processed.ran with
  | some cmd => runReply p.session p.world selected commands cmd
  | none => { world := p.world }

namespace Host

def step (h : Host Script Compiler CompilerName Ref) :
    HostEvent Script Compiler CompilerName Ref → Host Script Compiler CompilerName Ref
  | .message .kPostPostLoad x =>
    { h with
      plugin := h.plugin.step (.message .kPostPostLoad x)
      commands := initConsole h.commands }
  | .message .other _ => h
  | .typed call selected =>
    let line := thunk text h.commands call
    let reply := replyTo h.plugin h.commands selected line.1
    { h with
      plugin := { h.plugin with world := reply.world }
      printed := h.printed ++ (line.1.printed ++ reply.printed)
      forwarded := h.forwarded ++ line.2
      reset3D := h.reset3D ++ reply.reset3D }
  | .game e _ => { h with plugin := h.plugin.step (.game e) }

end Host

namespace HostEvent

def Starts : HostEvent Script Compiler CompilerName Ref → Prop
  | .message .kPostPostLoad _ => True
  | _ => False

def heard (command : Bytes → Option Callback) :
    HostEvent Script Compiler CompilerName Ref → Option PluginEvent
  | .message type x => some (.message type x)
  | .typed call selected => (command (text call.script)).map fun cmd =>
      .game (.console cmd (selected.targetActor.map ActorRef.formID))
  | .game e _ => some (.game e)

def call? : HostEvent Script Compiler CompilerName Ref →
    Option (ConsoleCall Script Compiler CompilerName Ref)
  | .typed call _ => some call
  | _ => none

def Legible : HostEvent Script Compiler CompilerName Ref → Prop
  | .typed call _ => ∃ c ∈ text call.script, isspace c = false
  | _ => True

end HostEvent

end Host

section Runs
variable {Script Compiler CompilerName Ref : Type*} (text : Script → Bytes)
  {commands : RegisteredCommands Callback}
  {h : Host Script Compiler CompilerName Ref}
  {es : List (HostEvent Script Compiler CompilerName Ref)}

theorem initConsole_nil : initConsole [] = initCommands := rfl

theorem initConsole_initCommands : initConsole initCommands = initCommands :=
  registerCommands_registerAll (List.Subset.refl initCalls)

def HostEvent.Leaves (commands : RegisteredCommands Callback)
    (e : HostEvent Script Compiler CompilerName Ref) : Prop :=
  e.Starts → initConsole commands = commands

namespace Host

theorem commands_step (h : Host Script Compiler CompilerName Ref)
    {e : HostEvent Script Compiler CompilerName Ref} (he : e.Leaves h.commands) :
    (h.step text e).commands = h.commands := by
  cases e with
  | message type x =>
    cases type with
    | kPostPostLoad => exact he trivial
    | other => rfl
  | typed call selected => rfl
  | game e _ => rfl

theorem plugin_step (h : Host Script Compiler CompilerName Ref)
    (e : HostEvent Script Compiler CompilerName Ref) :
    (h.step text e).plugin = (e.heard text fun line => (process h.commands line).ran).elim
      h.plugin h.plugin.step := by
  cases e with
  | message type x => cases type <;> rfl
  | game e _ => rfl
  | typed call selected =>
    simp only [step, HostEvent.heard, thunk, replyTo]
    cases (process h.commands (text call.script)).ran with
    | none => rfl
    | some cmd =>
      rw [runReply_world]
      rfl

theorem forwarded_step (h : Host Script Compiler CompilerName Ref)
    (e : HostEvent Script Compiler CompilerName Ref) :
    (h.step text e).forwarded = h.forwarded ++
      e.call?.toList.filter fun call => !(process h.commands (text call.script)).handled := by
  cases e with
  | message type x => cases type <;> simp [step, HostEvent.call?]
  | game e _ => simp [step, HostEvent.call?]
  | typed call selected =>
    cases hp : (process h.commands (text call.script)).handled <;>
      simp [step, HostEvent.call?, thunk, hp]

theorem commands_along (hc : h.commands = commands) (hes : ∀ e ∈ es, e.Leaves commands) :
    Along (step text) (fun h _ => h.commands = commands) h es := by
  induction es generalizing h with
  | nil => trivial
  | cons e es ih =>
    obtain ⟨he, hes⟩ := List.forall_mem_cons.mp hes
    exact ⟨hc, ih ((commands_step text h (hc ▸ he)).trans hc) hes⟩

theorem commands_run (hc : h.commands = commands) (hes : ∀ e ∈ es, e.Leaves commands) :
    (run (step text) h es).commands = commands := by
  induction es generalizing h with
  | nil => exact hc
  | cons e es ih =>
    obtain ⟨he, hes⟩ := List.forall_mem_cons.mp hes
    exact ih ((commands_step text h (hc ▸ he)).trans hc) hes

theorem plugin_run (hc : h.commands = commands) (hes : ∀ e ∈ es, e.Leaves commands) :
    (run (step text) h es).plugin =
      run Plugin.step h.plugin
        (es.filterMap (HostEvent.heard text fun line => (process commands line).ran)) := by
  refine proj_run (step text) Host.plugin (fun h e hh => ?_) (commands_along text hc hes)
  rw [plugin_step text, hh]

theorem forwarded_run (hc : h.commands = commands) (hes : ∀ e ∈ es, e.Leaves commands) :
    (run (step text) h es).forwarded = h.forwarded ++
      (es.filterMap HostEvent.call?).filter fun call =>
        !(process commands (text call.script)).handled := by
  induction es generalizing h with
  | nil => exact (List.append_nil _).symm
  | cons e es ih =>
    obtain ⟨he, hes⟩ := List.forall_mem_cons.mp hes
    rw [run_cons, ih ((commands_step text h (hc ▸ he)).trans hc) hes, forwarded_step, hc,
      List.append_assoc, ← List.filter_append]
    cases hcall : e.call? with
    | none => rw [List.filterMap_cons_none hcall]; rfl
    | some call => rw [List.filterMap_cons_some hcall]; rfl

end Host

theorem leaves_nil {e : HostEvent Script Compiler CompilerName Ref} (he : ¬ e.Starts) :
    e.Leaves [] := fun hs => absurd hs he

theorem leaves_initCommands (e : HostEvent Script Compiler CompilerName Ref) :
    e.Leaves initCommands := fun _ => initConsole_initCommands

end Runs

section Lines

def ownCommand (line : Bytes) : Option Callback :=
  if (lineArgs line).head? = some defaultPreffix then
    (lineArgs line)[1]?.bind fun name =>
      (initCalls.find? fun c => c.name == name).map Registration.callback
  else none

theorem initCalls_ne_nil : initCalls ≠ [] := List.cons_ne_nil _ _

theorem process_initCommands_own {line : Bytes} (hown : OwnLine line) :
    (process initCommands line).handled = true ∧
      (process initCommands line).ran = ownCommand line := by
  rw [initCommands, ownCommand, if_pos (ownLine_iff.mp hown)]
  cases hname : (lineArgs line)[1]? with
  | none => rw [process_without_second initCalls_ne_nil hown hname]; exact ⟨rfl, rfl⟩
  | some name =>
    rw [Option.bind_some]
    cases hfind : initCalls.find? fun c => c.name == name with
    | some c => rw [process_registered initCalls_ne_nil hown hname hfind]; exact ⟨rfl, rfl⟩
    | none =>
      have hno : ∀ c ∈ initCalls, c.name ≠ name := by
        intro c hc he
        exact List.find?_eq_none.mp hfind c hc (beq_iff_eq.mpr he)
      rw [process_unregistered initCalls_ne_nil hown hname hno]
      exact ⟨rfl, rfl⟩

theorem ran_initCommands (line : Bytes) : (process initCommands line).ran = ownCommand line := by
  by_cases hown : OwnLine line
  · exact (process_initCommands_own hown).2
  · have hran : (process initCommands line).ran = none := by
      by_cases hc : ∃ c ∈ line, isspace c = false
      · rw [(transparent_of_nonspace hc).silent_of_foreign hown]
      · rw [process_of_blank initCommands_ne_nil (words_of_spaces (blank_of_not hc))]
    rw [hran, ownCommand, if_neg fun he => hown (ownLine_iff.mpr he)]

theorem handled_initCommands_iff {line : Bytes} (hc : ∃ c ∈ line, isspace c = false) :
    (process initCommands line).handled = true ↔
      (lineArgs line).head? = some defaultPreffix := by
  refine ⟨fun hh => ?_, fun hown => (process_initCommands_own (ownLine_iff.mpr hown)).1⟩
  exact ownLine_iff.mp ((transparent_of_nonspace hc).own_of_handled hh)

end Lines

section Whole
variable {Script Compiler CompilerName Ref : Type*} (text : Script → Bytes)
  {h : Host Script Compiler CompilerName Ref}
  {pre post : List (HostEvent Script Compiler CompilerName Ref)}

theorem started_commands (hnew : h.commands = []) (hpre : ∀ e ∈ pre, ¬ e.Starts)
    (x : Exchange) : (Host.step text (run (Host.step text) h pre)
      (.message .kPostPostLoad x)).commands = initCommands := by
  rw [Host.step, Host.commands_run text hnew fun e he => leaves_nil (hpre e he), initConsole_nil]

/-- The plugin in its host is the plugin of `Startup` on the events of the host, where a line
counts for nothing before the first `kPostPostLoad` and for the command it asks for after it. -/
theorem host_runs_plugin (hnew : h.commands = []) (hpre : ∀ e ∈ pre, ¬ e.Starts) (x : Exchange) :
    (run (Host.step text) h pre).plugin =
        run Plugin.step h.plugin (pre.filterMap (HostEvent.heard text fun _ => none)) ∧
      (run (Host.step text) h (pre ++ .message .kPostPostLoad x :: post)).plugin =
        run Plugin.step h.plugin (pre.filterMap (HostEvent.heard text fun _ => none) ++
          .message .kPostPostLoad x :: post.filterMap (HostEvent.heard text ownCommand)) := by
  have hleaves : ∀ e ∈ pre, e.Leaves [] := fun e he => leaves_nil (hpre e he)
  have hbefore : (run (Host.step text) h pre).plugin =
      run Plugin.step h.plugin (pre.filterMap (HostEvent.heard text fun _ => none)) :=
    Host.plugin_run text hnew hleaves
  refine ⟨hbefore, ?_⟩
  have hafter := Host.plugin_run text (started_commands text hnew hpre x)
    fun e (_ : e ∈ post) => leaves_initCommands e
  simp only [ran_initCommands] at hafter
  rw [run, List.foldl_append, run, List.foldl_append]
  refine hafter.trans ?_
  rw [Host.step, hbefore]
  rfl

theorem host_runs_plugin_clear_line :
    let h : Host Bytes Unit Unit Unit := { plugin := startPlugin }
    let sel : SelectedRef := .actor ⟨20, ⟨ascii "Lydia", by decide⟩⟩
    let x : Exchange := ⟨some ⟨true, true⟩, fun _ => 1⟩
    (run (Host.step id) h
        [.typed ⟨ascii "ovls clear", (), (), ()⟩ sel, .message .kPostPostLoad x,
          .typed ⟨ascii "OVLS  Clear now", (), (), ()⟩ sel]).plugin =
      run Plugin.step startPlugin
        [.message .kPostPostLoad x, .game (.console .clear (some 20))] := by
  intro h sel x
  have hpre : ∀ e ∈ [HostEvent.typed (⟨ascii "ovls clear", (), (), ()⟩ :
      ConsoleCall Bytes Unit Unit Unit) sel], ¬ e.Starts := by
    intro e he
    rw [List.mem_singleton.mp he]
    exact id
  have hclear : ownCommand (ascii "OVLS  Clear now") = some .clear := by decide
  refine (host_runs_plugin id (h := h) rfl hpre x).2.trans ?_
  simp only [List.filterMap_cons, List.filterMap_nil, HostEvent.heard, id_eq, hclear]
  rfl

theorem legible_call {e : HostEvent Script Compiler CompilerName Ref} (he : e.Legible text)
    {call : ConsoleCall Script Compiler CompilerName Ref} (hcall : e.call? = some call) :
    ∃ c ∈ text call.script, isspace c = false := by
  cases e with
  | message | game => cases hcall
  | typed call' selected =>
    obtain rfl := Option.some.inj hcall
    exact he

theorem game_gets_other_lines (hnew : h.commands = []) (hpre : ∀ e ∈ pre, ¬ e.Starts)
    (x : Exchange) (hpost : ∀ e ∈ post, e.Legible text) :
    (run (Host.step text) h (pre ++ .message .kPostPostLoad x :: post)).forwarded =
      h.forwarded ++ pre.filterMap HostEvent.call? ++
        (post.filterMap HostEvent.call?).filter fun call =>
          (lineArgs (text call.script)).head? ≠ some defaultPreffix := by
  have hleaves : ∀ e ∈ pre, e.Leaves [] := fun e he => leaves_nil (hpre e he)
  have hbefore : (run (Host.step text) h pre).forwarded =
      h.forwarded ++ pre.filterMap HostEvent.call? := by
    rw [Host.forwarded_run text hnew hleaves]
    exact congrArg _ (List.filter_eq_self.mpr fun call _ => rfl)
  have hafter := Host.forwarded_run text (started_commands text hnew hpre x)
    fun e (_ : e ∈ post) => leaves_initCommands e
  rw [run, List.foldl_append]
  refine hafter.trans ?_
  rw [Host.step, hbefore]
  refine congrArg _ (List.filter_congr fun call hcall => ?_)
  obtain ⟨e, he, hcall⟩ := List.mem_filterMap.mp hcall
  have hhandled := handled_initCommands_iff (legible_call text (hpost e he) hcall)
  rw [Bool.eq_iff_iff, Bool.not_eq_true', decide_eq_true_eq, ne_eq, ← hhandled,
    Bool.not_eq_true]

theorem game_gets_other_lines_tgm :
    let h : Host Bytes Unit Unit Unit := { plugin := startPlugin }
    let x : Exchange := ⟨some ⟨true, true⟩, fun _ => 1⟩
    (run (Host.step id) h
        [.typed ⟨ascii "ovls help", (), (), ()⟩ .none, .message .kPostPostLoad x,
          .typed ⟨ascii "ovls help", (), (), ()⟩ .none,
          .typed ⟨ascii "tgm", (), (), ()⟩ .none]).forwarded =
      [⟨ascii "ovls help", (), (), ()⟩, ⟨ascii "tgm", (), (), ()⟩] := by
  intro h x
  have hpre : ∀ e ∈ [HostEvent.typed (⟨ascii "ovls help", (), (), ()⟩ :
      ConsoleCall Bytes Unit Unit Unit) .none], ¬ e.Starts := by
    intro e he
    rw [List.mem_singleton.mp he]
    exact id
  have hpost : ∀ e ∈ [HostEvent.typed (⟨ascii "ovls help", (), (), ()⟩ :
      ConsoleCall Bytes Unit Unit Unit) .none, .typed ⟨ascii "tgm", (), (), ()⟩ .none],
      e.Legible id := by
    intro e he
    simp only [List.mem_cons, List.not_mem_nil, or_false] at he
    rcases he with rfl | rfl
    · exact ⟨111, by decide, by decide⟩
    · exact ⟨116, by decide, by decide⟩
  have hhelp : (lineArgs (ascii "ovls help")).head? = some defaultPreffix := by decide
  have htgm : (lineArgs (ascii "tgm")).head? ≠ some defaultPreffix := by decide
  refine (game_gets_other_lines id (h := h) rfl hpre x hpost).trans ?_
  simp [HostEvent.call?, hhelp, htgm, h]

end Whole

section Transcript
variable {Script Compiler CompilerName Ref : Type*} (text : Script → Bytes)
  {es : List (HostEvent Script Compiler CompilerName Ref)}

def HostEvent.KeepsStore : HostEvent Script Compiler CompilerName Ref → Prop
  | .game (.load _ _) _ => False
  | .game .revert _ => False
  | _ => True

theorem stored_rebuildAll (E : Session) (c : SaveCall) (w : World) :
    stored (rebuildAll E c w) = stored w := by
  rw [rebuildAll]
  induction c.order generalizing w with
  | nil => rfl
  | cons a order ih =>
    rw [List.foldl_cons, ih]
    split_ifs
    · exact stored_buildOverlayList E w a
    · rfl

theorem stored_step (E : Session) (w : World) {e : Event} (hno : NoCommand e)
    (hkeep : (HostEvent.game e hno : HostEvent Script Compiler CompilerName Ref).KeepsStore) :
    stored (OverlaySaver.step E w e) = stored w := by
  cases e with
  | load | revert => exact hkeep.elim
  | console => exact hno.elim
  | load3D | skee => rfl
  | save c => exact stored_rebuildAll E c w
  | task a =>
    rw [OverlaySaver.step, runTask]
    split_ifs
    · exact stored_applyOverlayFromList E _ a false
    · rfl

theorem silent_process (commands : RegisteredCommands Callback) (line : Bytes) :
    ∀ l ∈ (process commands line).printed, Silent l := by
  rw [process]
  split_ifs
  · simp
  · split
    · simp
    · split
      · exact silent_cmdHelp commands
      · split
        · split <;> simp
        · intro l hl
          rw [List.mem_singleton.mp hl]
          exact silent_commandNotFound

theorem transcript_step (h : Host Script Compiler CompilerName Ref)
    {e : HostEvent Script Compiler CompilerName Ref} (he : e.KeepsStore) :
    ∃ lines, (h.step text e).printed = h.printed ++ lines ∧
      stored (h.step text e).plugin.world = lines.foldl replay (stored h.plugin.world) := by
  cases e with
  | message type x => cases type <;> exact ⟨[], (List.append_nil _).symm, rfl⟩
  | game e hno =>
    exact ⟨[], (List.append_nil _).symm, stored_step h.plugin.session h.plugin.world hno he⟩
  | typed call selected =>
    refine ⟨_, rfl, ?_⟩
    have hline : (thunk text h.commands call).1.printed.foldl replay (stored h.plugin.world) =
        stored h.plugin.world := foldl_replay_silent (silent_process h.commands _) _
    have htracks : Tracks h.plugin.world (replyTo h.plugin h.commands selected
        (process h.commands (text call.script))) := by
      rw [replyTo]
      split
      · exact tracks_runReply h.commands _
      · rfl
    rw [List.foldl_append, hline]
    exact htracks

/-- What the console says is the history of the store: until a load or a revert, the lines that
are printed, read one after the other, lead from the actors stored before to those stored
after. -/
theorem transcript_tells_store (h : Host Script Compiler CompilerName Ref)
    (hes : ∀ e ∈ es, e.KeepsStore) :
    ∃ lines, (run (Host.step text) h es).printed = h.printed ++ lines ∧
      stored (run (Host.step text) h es).plugin.world =
        lines.foldl replay (stored h.plugin.world) := by
  induction es generalizing h with
  | nil => exact ⟨[], (List.append_nil _).symm, rfl⟩
  | cons e es ih =>
    obtain ⟨he, hes⟩ := List.forall_mem_cons.mp hes
    obtain ⟨first, hfirst, hstored⟩ := transcript_step text h he
    obtain ⟨rest, hrest, hlast⟩ := ih (h.step text e) hes
    refine ⟨first ++ rest, ?_, ?_⟩
    · rw [run_cons, hrest, hfirst, List.append_assoc]
    · rw [run_cons, hlast, hstored, List.foldl_append]

theorem transcript_tells_store_register_erase :
    let h : Host Bytes Unit Unit Unit := { plugin := startPlugin, commands := initCommands }
    let sel : SelectedRef := .actor ⟨20, ⟨ascii "Lydia", by decide⟩⟩
    let after := run (Host.step id) h
      [.typed ⟨ascii "ovls register", (), (), ()⟩ sel, .typed ⟨ascii "ovls erase", (), (), ()⟩ sel]
    ∃ lines, after.printed = [] ++ lines ∧
      stored after.plugin.world = lines.foldl replay (stored startPlugin.world) := by
  intro h sel after
  refine transcript_tells_store id h fun e he => ?_
  simp only [List.mem_cons, List.not_mem_nil, or_false] at he
  rcases he with rfl | rfl <;> trivial

end Transcript

end OverlaySaver
