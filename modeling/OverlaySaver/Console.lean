import OverlaySaver.Plugin
import OverlaySaver.Words

/-!
# The console hook

Every line typed in the game's console goes through `Thunk`. `Process` reads at most two
words off the line and says whether the plugin took it; if not, the game's own handler
gets it. `Processed` collects the answer, the callback that ran and what was printed.
-/

namespace OverlaySaver
open ByteStream (Bytes)
open Words

/-- `std::isspace` in the classic locale. -/
def isspace (c : UInt8) : Bool := c == 32 || (9 ≤ c && c ≤ 13)

def strTolower (s : Bytes) : Bytes := s.map tolower

section Trim
variable (s : Bytes)

/-- The `do`-`while` loop of `trim`: where `end` stops, or `none` if it is decremented
past the first character. -/
def trimEnd (start : ℕ) : ℕ → Option ℕ
  | 0 => none
  | e + 1 => if e ≠ start ∧ s[e]?.any isspace then trimEnd start e else some e

def trim : Option Bytes :=
  let start := (s.takeWhile isspace).length
  (trimEnd s start s.length).map fun e => (s.drop start).take (e + 1 - start)

end Trim

structure Command (κ : Type*) where
  callback : Option κ
  desc : Bytes

/-- `std::map`, in the order of its keys. -/
abbrev RegisteredCommands (κ : Type*) := List (Bytes × Command κ)

structure Processed (κ : Type*) where
  handled : Bool
  ran : Option κ := none
  printed : List Bytes := []
deriving DecidableEq

def defaultPreffix : Bytes := ascii "ovls"

section Process
variable {κ : Type*}

/-- `try_emplace`: the first command registered under a name stays. -/
def registerCommand (cmdName : Bytes) (callback : Option κ) (desc : Bytes) :
    RegisteredCommands κ → RegisteredCommands κ
  | [] => [(cmdName, ⟨callback, desc⟩)]
  | c :: commands =>
    if cmdName = c.1 then c :: commands
    else if cmdName < c.1 then (cmdName, ⟨callback, desc⟩) :: c :: commands
    else c :: registerCommand cmdName callback desc commands

structure Registration (κ : Type*) where
  name : Bytes
  callback : κ
  desc : Bytes

def registerCommands (calls : List (Registration κ)) (commands : RegisteredCommands κ) :
    RegisteredCommands κ :=
  calls.foldl (fun commands c => registerCommand c.name (some c.callback) c.desc commands) commands

def registerAll (calls : List (Registration κ)) : RegisteredCommands κ := registerCommands calls []

/-- The extraction loop with room for `n` more arguments; `none` is its `return false`. -/
def collectArgs : ℕ → List Bytes → Bytes → Option (List Bytes)
  | 0, args, _ => some args
  | n + 1, args, msg =>
    match extract? isspace msg with
    | none => some args
    | some tmpArg =>
      let args := args ++ [tmpArg.1]
      if args.head? ≠ some defaultPreffix then none else collectArgs n args tmpArg.2

def cmdHelp (commands : RegisteredCommands κ) : List Bytes :=
  ascii "--- List of available commands ---" :: commands.map fun c =>
    ascii "* " ++ defaultPreffix ++ ascii " " ++ c.1 ++ ascii " - " ++ c.2.desc ++ ascii " "

def commandNotFound : Bytes :=
  ascii "Command not found type " ++ defaultPreffix ++ ascii " help for a list of commands."

-- On a blank line `trim` leaves the string; what it yields there is taken to be empty.
def process (commands : RegisteredCommands κ) (a_msg : Bytes) : Processed κ :=
  if commands.isEmpty then { handled := false }
  else
    match collectArgs 2 [] ((trim (strTolower a_msg)).getD []) with
    | none => { handled := false }
    | some args =>
      match args[1]? with
      | none => { handled := true, printed := cmdHelp commands }
      | some name =>
        match commands.find? fun c => c.1 == name with
        | some c =>
          match c.2.callback with
          | some callback => { handled := true, ran := some callback }
          | none => { handled := false }
        | none => { handled := true, printed := [commandNotFound] }

structure ConsoleCall (Script Compiler CompilerName Ref : Type*) where
  script : Script
  compiler : Compiler
  name : CompilerName
  targetRef : Ref

variable {Script Compiler CompilerName Ref : Type*} (text : Script → Bytes)

def thunk (commands : RegisteredCommands κ)
    (call : ConsoleCall Script Compiler CompilerName Ref) :
    Processed κ × List (ConsoleCall Script Compiler CompilerName Ref) :=
  let p := process commands (text call.script)
  (p, if p.handled then [] else [call])

end Process

/-- The calls of `ConsoleManager::Init`. -/
def initCalls : List (Registration Callback) :=
  [⟨ascii "help", .help, ascii "Show this list"⟩,
    ⟨ascii "register", .register, ascii "Register the current crosshair actor"⟩,
    ⟨ascii "apply", .apply, ascii "Apply saved ovl data"⟩,
    ⟨ascii "update", .update, ascii "Update saved ovl data with current"⟩,
    ⟨ascii "erase", .erase, ascii "Remove actor from cosave"⟩,
    ⟨ascii "flip", .flip, ascii "Invert the order of overlays and reapply them"⟩,
    ⟨ascii "clear", .clear, ascii "Clear overlays from actor but keep storage"⟩,
    ⟨ascii "reset3d", .reset3d, ascii "Reset3D"⟩]

def initCommands : RegisteredCommands Callback := registerAll initCalls

section Trim

theorem trimEnd_spec (s : Bytes) {start n : ℕ} (h : start < n) :
    ∃ e, trimEnd s start n = some e ∧ start ≤ e ∧ e < n ∧
      ∀ i, e < i → i < n → s[i]?.any isspace := by
  induction n with
  | zero => omega
  | succ n ih =>
    rw [trimEnd]
    split_ifs with hn
    · obtain ⟨e, he, hle, hlt, hspaces⟩ := ih (by omega)
      refine ⟨e, he, hle, by omega, fun i hi hin => ?_⟩
      rcases Nat.lt_succ_iff_lt_or_eq.mp hin with hin | rfl
      · exact hspaces i hi hin
      · exact hn.2
    · exact ⟨n, rfl, by omega, by omega, fun i hi hin => by omega⟩

theorem trim_of_nonspace {s : Bytes} (h : ∃ c ∈ s, isspace c = false) :
    ∃ pre t post, s = pre ++ (t ++ post) ∧ (∀ c ∈ pre, isspace c) ∧ (∀ c ∈ post, isspace c) ∧
      trim s = some t := by
  have hprefix := List.takeWhile_prefix isspace (l := s)
  have hspaces : ∀ c ∈ s.takeWhile isspace, isspace c := fun c hc => List.mem_takeWhile_imp hc
  have htake : s.take (s.takeWhile isspace).length = s.takeWhile isspace :=
    (List.prefix_iff_eq_take.mp hprefix).symm
  obtain ⟨e, he, hle, hlt, hend⟩ := trimEnd_spec s (takeWhile_length_lt h)
  rw [trim, he]
  generalize (s.takeWhile isspace).length = start at htake hle
  refine ⟨s.takeWhile isspace, (s.drop start).take (e + 1 - start), s.drop (e + 1), ?_, hspaces,
    fun c hc => ?_, rfl⟩
  · have hd : s.drop (e + 1) = (s.drop start).drop (e + 1 - start) := by
      rw [List.drop_drop, Nat.add_sub_cancel' (by omega)]
    rw [hd, List.take_append_drop, ← htake, List.take_append_drop]
  · obtain ⟨i, hi, rfl⟩ := List.mem_iff_getElem.mp hc
    rw [List.length_drop] at hi
    have hs := hend (e + 1 + i) (by omega) (by omega)
    rw [List.getElem?_eq_getElem (by omega)] at hs
    rw [List.getElem_drop]
    exact hs

theorem trim_of_blank {s : Bytes} (h : ∀ c ∈ s, isspace c) : trim s = none := by
  have hstart : (s.takeWhile isspace).length = s.length := by
    rw [List.takeWhile_eq_self_iff.mpr h]
  have hloop : ∀ n ≤ s.length, trimEnd s s.length n = none := by
    intro n hn
    induction n with
    | zero => rfl
    | succ n ih =>
      have hs : s[n]?.any isspace := by
        rw [List.getElem?_eq_getElem (by omega)]
        exact h _ (List.getElem_mem _)
      rw [trimEnd, if_pos ⟨by omega, hs⟩]
      exact ih (by omega)
  rw [trim, hstart, hloop s.length (Nat.le_refl _), Option.map_none]

theorem words_trim (s : Bytes) : words isspace ((trim s).getD []) = words isspace s := by
  by_cases h : ∃ c ∈ s, isspace c = false
  · obtain ⟨pre, t, post, rfl, hpre, hpost, ht⟩ := trim_of_nonspace h
    rw [ht, Option.getD_some, words_spaces_append hpre, words_append_spaces hpost]
  · have hall : ∀ c ∈ s, isspace c := blank_of_not h
    rw [trim_of_blank hall, Option.getD_none, words_nil, words_of_spaces hall]

theorem isspace_tolower (c : UInt8) : isspace (tolower c) = isspace c := by
  have h : ∀ n < 256, isspace (tolower (UInt8.ofNat n)) = isspace (UInt8.ofNat n) := by
    decide +kernel
  simpa using h c.toNat c.toNat_lt

theorem words_msg (line : Bytes) :
    words isspace ((trim (strTolower line)).getD []) = (words isspace line).map strTolower := by
  rw [words_trim]
  exact words_map isspace_tolower line

end Trim

section Process
variable {κ : Type*} {commands : RegisteredCommands κ} {line : Bytes}

theorem collectArgs_of_blank {msg : Bytes} (h : words isspace msg = []) (n : ℕ)
    (args : List Bytes) : collectArgs n args msg = some args := by
  cases n with
  | zero => rfl
  | succ n =>
    cases he : extract? isspace msg with
    | none => rw [collectArgs, he]
    | some tmpArg =>
      rw [words_of_extract? he] at h
      cases h

theorem collectArgs_of_foreign {msg t : Bytes} (h : (words isspace msg).head? = some t)
    (ht : t ≠ defaultPreffix) (n : ℕ) : collectArgs (n + 1) [] msg = none := by
  cases he : extract? isspace msg with
  | none =>
    rw [words_of_spaces (extract?_eq_none_iff.mp he)] at h
    cases h
  | some tmpArg =>
    rw [words_of_extract? he, List.head?_cons] at h
    obtain rfl := Option.some.inj h
    simp [collectArgs, he, ht]

/-- The first word of the line is the prefix, in whatever letter case. -/
def OwnLine (line : Bytes) : Prop :=
  ∃ t, (words isspace line).head? = some t ∧ strTolower t = defaultPreffix

theorem process_of_blank (hne : commands ≠ []) (h : words isspace line = []) :
    process commands line = { handled := true, printed := cmdHelp commands } := by
  have hw : words isspace ((trim (strTolower line)).getD []) = [] := by
    rw [words_msg, h, List.map_nil]
  simp [process, hne, collectArgs_of_blank hw]

theorem process_of_foreign {t : Bytes} (h : (words isspace line).head? = some t)
    (ht : strTolower t ≠ defaultPreffix) : process commands line = { handled := false } := by
  have hw : (words isspace ((trim (strTolower line)).getD [])).head? = some (strTolower t) := by
    rw [words_msg, List.head?_map, h, Option.map_some]
  simp [process, collectArgs_of_foreign hw ht 1]

structure Transparent (commands : RegisteredCommands κ) (line : Bytes) : Prop where
  own_of_handled : (process commands line).handled = true → OwnLine line
  silent_of_foreign : ¬ OwnLine line → process commands line = { handled := false }
  forwarded_of_foreign : ¬ OwnLine line →
    ∀ (Script Compiler CompilerName Ref : Type) (text : Script → Bytes)
      (call : ConsoleCall Script Compiler CompilerName Ref), text call.script = line →
      (thunk text commands call).2 = [call]

theorem forwarded_of_unhandled {Script Compiler CompilerName Ref : Type} {text : Script → Bytes}
    {call : ConsoleCall Script Compiler CompilerName Ref}
    (h : (process commands (text call.script)).handled = false) :
    (thunk text commands call).2 = [call] := by
  simp [thunk, h]

theorem transparent_of_nonspace (h : ∃ c ∈ line, isspace c = false) :
    Transparent commands line := by
  have hforeign : ¬ OwnLine line → process commands line = { handled := false } := by
    intro hn
    cases hw : words isspace line with
    | nil =>
      obtain ⟨c, hc, hs⟩ := h
      rw [words_eq_nil_iff.mp hw c hc] at hs
      cases hs
    | cons t ts =>
      have ht : (words isspace line).head? = some t := by rw [hw, List.head?_cons]
      exact process_of_foreign ht fun hp => hn ⟨t, ht, hp⟩
  refine ⟨fun hh => ?_, hforeign, fun hn _ _ _ _ text call hline => ?_⟩
  · by_contra hn
    rw [hforeign hn] at hh
    cases hh
  · exact forwarded_of_unhandled (by rw [hline, hforeign hn])

theorem not_transparent_of_blank (hne : commands ≠ []) (h : ∀ c ∈ line, isspace c) :
    ¬ Transparent commands line := by
  intro ht
  have hw := words_of_spaces h
  obtain ⟨t, hhead, _⟩ := ht.own_of_handled (by rw [process_of_blank hne hw])
  rw [hw] at hhead
  cases hhead

/-- The hook leaves a line that is not its own to the game exactly when there is something
on the line: it answers a blank line with the help. -/
theorem console_hook_transparent_iff (hne : commands ≠ []) :
    Transparent commands line ↔ ∃ c ∈ line, isspace c = false := by
  constructor
  · intro ht
    by_contra hn
    exact not_transparent_of_blank hne (blank_of_not hn) ht
  · exact transparent_of_nonspace

theorem initCommands_ne_nil : initCommands ≠ [] := by decide

theorem console_hook_transparent_tgm : Transparent initCommands (ascii "tgm") :=
  (console_hook_transparent_iff initCommands_ne_nil).mpr ⟨116, by decide, by decide⟩

theorem console_hook_takes_blank_line :
    process initCommands (ascii "  ") =
        { handled := true, printed := cmdHelp initCommands } ∧
      ¬ Transparent initCommands (ascii "  ") := by
  have hblank : ∀ c ∈ ascii "  ", isspace c := List.all_eq_true.mp (by decide)
  exact ⟨process_of_blank initCommands_ne_nil (words_of_spaces hblank),
    not_transparent_of_blank initCommands_ne_nil hblank⟩

end Process

end OverlaySaver
