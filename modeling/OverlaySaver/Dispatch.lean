import OverlaySaver.Console

/-!
# Which command a line runs

The table of commands is kept in the order of its names and a name that is there keeps its
command, so the scan of `Process` finds what was registered first. A line of the plugin's own
is decided by its second word alone.
-/

namespace OverlaySaver
open ByteStream (Bytes)
open Words

section Table
variable {κ : Type*}

def Registration.entry (c : Registration κ) : Bytes × Command κ :=
  (c.name, ⟨some c.callback, c.desc⟩)

def Sorted (commands : RegisteredCommands κ) : Prop := commands.Pairwise fun c d => c.1 < d.1

variable (name : Bytes) (callback : Option κ) (desc : Bytes) {commands : RegisteredCommands κ}

theorem mem_registerCommand {c : Bytes × Command κ}
    (h : c ∈ registerCommand name callback desc commands) :
    c = (name, ⟨callback, desc⟩) ∨ c ∈ commands := by
  induction commands with
  | nil => exact Or.inl (List.mem_singleton.mp h)
  | cons d commands ih =>
    rw [registerCommand] at h
    split_ifs at h
    · exact Or.inr h
    · exact List.mem_cons.mp h
    · rcases List.mem_cons.mp h with rfl | h
      · exact Or.inr List.mem_cons_self
      · exact (ih h).imp_right (List.mem_cons_of_mem d)

theorem sorted_registerCommand (h : Sorted commands) :
    Sorted (registerCommand name callback desc commands) := by
  induction commands with
  | nil => exact List.pairwise_singleton _ _
  | cons d commands ih =>
    obtain ⟨hd, htail⟩ := List.pairwise_cons.mp h
    rw [registerCommand]
    split_ifs with heq hlt
    · exact h
    · refine List.pairwise_cons.mpr ⟨fun c hc => ?_, h⟩
      rcases List.mem_cons.mp hc with rfl | hc
      · exact hlt
      · exact List.lt_trans hlt (hd c hc)
    · refine List.pairwise_cons.mpr ⟨fun c hc => ?_, ih htail⟩
      rcases mem_registerCommand name callback desc hc with rfl | hc
      · exact Std.lt_of_le_of_ne hlt fun he => heq he.symm
      · exact hd c hc

theorem find?_eq_none_of_lt {name : Bytes} (h : ∀ c ∈ commands, name < c.1) :
    commands.find? (fun c => c.1 == name) = none := by
  rw [List.find?_eq_none]
  intro c hc he
  have hlt := h c hc
  rw [beq_iff_eq.mp he] at hlt
  exact List.lt_irrefl name hlt

theorem find?_registerCommand (h : Sorted commands) (m : Bytes) :
    (registerCommand name callback desc commands).find? (fun c => c.1 == m) =
      (commands.find? fun c => c.1 == m).or
        (if name = m then some (name, ⟨callback, desc⟩) else none) := by
  induction commands with
  | nil =>
    rw [registerCommand]
    by_cases hm : name = m <;> simp [hm]
  | cons d commands ih =>
    obtain ⟨hd, htail⟩ := List.pairwise_cons.mp h
    rw [registerCommand]
    by_cases heq : name = d.1
    · rw [if_pos heq, heq]
      by_cases hm : d.1 = m <;> simp [hm]
    · rw [if_neg heq]
      by_cases hlt : name < d.1
      · rw [if_pos hlt]
        by_cases hm : name = m
        · -- The name comes before every name of the table, so it was not in the table.
          have hnone : (d :: commands).find? (fun c => c.1 == m) = none := by
            refine find?_eq_none_of_lt fun c hc => ?_
            rcases List.mem_cons.mp hc with rfl | hc
            · exact hm ▸ hlt
            · exact hm ▸ List.lt_trans hlt (hd c hc)
          rw [hnone]
          simp [hm]
        · simp [hm]
      · rw [if_neg hlt]
        by_cases hdm : d.1 = m
        · simp [hdm]
        · simp [hdm, ih htail]

theorem sorted_registerAll (calls : List (Registration κ)) : Sorted (registerAll calls) := by
  induction calls using List.reverseRecOn with
  | nil => exact List.Pairwise.nil
  | append_singleton calls c ih =>
    rw [registerAll, registerCommands, List.foldl_append]
    exact sorted_registerCommand c.name (some c.callback) c.desc ih

/-- The scan of the table finds the command that was registered first under the name. -/
theorem find?_registerAll (calls : List (Registration κ)) (m : Bytes) :
    (registerAll calls).find? (fun c => c.1 == m) =
      (calls.find? fun c => c.name == m).map Registration.entry := by
  induction calls using List.reverseRecOn with
  | nil => rfl
  | append_singleton calls c ih =>
    have hfind := find?_registerCommand c.name (some c.callback) c.desc
      (sorted_registerAll calls) m
    rw [ih] at hfind
    rw [registerAll, registerCommands, List.foldl_append, List.find?_append]
    refine hfind.trans ?_
    by_cases hm : c.name = m
    · cases calls.find? fun c => c.name == m <;> simp [hm, Registration.entry]
    · cases calls.find? fun c => c.name == m <;> simp [hm]

theorem registerAll_ne_nil {calls : List (Registration κ)} (h : calls ≠ []) :
    registerAll calls ≠ [] := by
  intro hnil
  obtain ⟨c, calls, rfl⟩ := List.exists_cons_of_ne_nil h
  have hfind := find?_registerAll (c :: calls) c.name
  rw [hnil] at hfind
  simp at hfind

theorem registerCommand_of_mem (hs : Sorted commands)
    (h : ∃ c ∈ commands, c.1 = name) :
    registerCommand name callback desc commands = commands := by
  induction commands with
  | nil =>
    obtain ⟨c, hc, -⟩ := h
    cases hc
  | cons d commands ih =>
    obtain ⟨hd, htail⟩ := List.pairwise_cons.mp hs
    obtain ⟨c, hc, rfl⟩ := h
    rw [registerCommand]
    split_ifs with heq hlt
    · rfl
    · rcases List.mem_cons.mp hc with rfl | hc
      · exact absurd rfl heq
      · exact absurd (List.lt_trans hlt (hd c hc)) (List.lt_irrefl _)
    · rcases List.mem_cons.mp hc with rfl | hc
      · exact absurd rfl heq
      · rw [ih htail ⟨c, hc, rfl⟩]

theorem mem_registerAll_of_mem {calls : List (Registration κ)} {c : Registration κ}
    (h : c ∈ calls) : ∃ d ∈ registerAll calls, d.1 = c.name := by
  have hfind : ((registerAll calls).find? fun d => d.1 == c.name).isSome := by
    rw [find?_registerAll, Option.isSome_map, List.find?_isSome]
    exact ⟨c, h, beq_self_eq_true c.name⟩
  obtain ⟨d, hd, hname⟩ := List.find?_isSome.mp hfind
  exact ⟨d, hd, beq_iff_eq.mp hname⟩

theorem registerCommands_registerAll {calls calls' : List (Registration κ)} (h : calls' ⊆ calls) :
    registerCommands calls' (registerAll calls) = registerAll calls := by
  induction calls' with
  | nil => rfl
  | cons c calls' ih =>
    have hc : c ∈ calls := h List.mem_cons_self
    rw [registerCommands, List.foldl_cons, registerCommand_of_mem _ _ _ (sorted_registerAll calls)
      (mem_registerAll_of_mem hc)]
    exact ih fun d hd => h (List.mem_cons_of_mem c hd)

end Table

section Process
variable {κ : Type*} {commands : RegisteredCommands κ} {line : Bytes}

def lineArgs (line : Bytes) : List Bytes := (words isspace line).map strTolower

theorem words_of_lineArgs (line : Bytes) :
    words isspace ((trim (strTolower line)).getD []) = lineArgs line := words_msg line

theorem ownLine_iff : OwnLine line ↔ (lineArgs line).head? = some defaultPreffix := by
  rw [lineArgs, List.head?_map, Option.map_eq_some_iff]
  rfl

theorem collectArgs_last {msg : Bytes} {args : List Bytes}
    (hhead : args.head? = some defaultPreffix) :
    collectArgs 1 args msg = some (args ++ (words isspace msg).take 1) := by
  cases he : extract? isspace msg with
  | none =>
    rw [words_of_spaces (extract?_eq_none_iff.mp he), List.take_nil, List.append_nil]
    simp [collectArgs, he]
  | some arg =>
    rw [words_of_extract? he, List.take_succ_cons, List.take_zero]
    simp [collectArgs, he, hhead]

theorem collectArgs_own {msg : Bytes} (h : (words isspace msg).head? = some defaultPreffix) :
    collectArgs 2 [] msg = some ((words isspace msg).take 2) := by
  cases he : extract? isspace msg with
  | none =>
    rw [words_of_spaces (extract?_eq_none_iff.mp he)] at h
    cases h
  | some arg =>
    have hw := words_of_extract? he
    rw [hw, List.head?_cons] at h
    have hlast : collectArgs 1 [arg.1] arg.2 = _ := collectArgs_last h
    rw [hw, List.take_succ_cons]
    have harg : arg.1 = defaultPreffix := Option.some.inj h
    simp only [collectArgs, he, List.nil_append, List.head?_cons, harg, ne_eq, not_true_eq_false,
      ↓reduceIte] at hlast ⊢
    exact hlast

/-- A line of the plugin's own is decided by its first two arguments. -/
theorem process_own (hne : commands ≠ []) (hown : OwnLine line) :
    process commands line =
      match (lineArgs line)[1]? with
      | none => { handled := true, printed := cmdHelp commands }
      | some name =>
        match commands.find? fun c => c.1 == name with
        | some c =>
          match c.2.callback with
          | some callback => { handled := true, ran := some callback }
          | none => { handled := false }
        | none => { handled := true, printed := [commandNotFound] } := by
  have hargs := words_of_lineArgs line
  have hhead := ownLine_iff.mp hown
  rw [← hargs] at hhead
  have hcollect := collectArgs_own hhead
  rw [hargs] at hcollect
  have hsecond : ((lineArgs line).take 2)[1]? = (lineArgs line)[1]? :=
    List.getElem?_take_of_lt Nat.one_lt_two
  rw [process, if_neg (by simpa using hne), hcollect]
  dsimp only
  exact hsecond ▸ rfl

end Process

section Dispatch
variable {κ : Type*} {calls : List (Registration κ)} {line : Bytes}

section Lines
variable (hne : calls ≠ []) (hown : OwnLine line)
include hne hown

theorem process_registered {name : Bytes} (hname : (lineArgs line)[1]? = some name)
    {c : Registration κ} (hc : (calls.find? fun c => c.name == name) = some c) :
    process (registerAll calls) line = { handled := true, ran := some c.callback } := by
  rw [process_own (registerAll_ne_nil hne) hown, hname]
  dsimp only
  rw [find?_registerAll, hc]
  rfl

theorem process_without_second (hnone : (lineArgs line)[1]? = none) :
    process (registerAll calls) line =
      { handled := true, printed := cmdHelp (registerAll calls) } := by
  rw [process_own (registerAll_ne_nil hne) hown, hnone]

theorem process_unregistered {name : Bytes} (hname : (lineArgs line)[1]? = some name)
    (hno : ∀ c ∈ calls, c.name ≠ name) :
    process (registerAll calls) line = { handled := true, printed := [commandNotFound] } := by
  have hnone : (calls.find? fun c => c.name == name) = none := by
    rw [List.find?_eq_none]
    intro c hc he
    exact hno c hc (beq_iff_eq.mp he)
  rw [process_own (registerAll_ne_nil hne) hown, hname]
  dsimp only
  rw [find?_registerAll, hnone]
  rfl

theorem process_eq_of_take_two {line' : Bytes}
    (hsame : (lineArgs line').take 2 = (lineArgs line).take 2) :
    process (registerAll calls) line' = process (registerAll calls) line := by
  have hhead : ∀ l : Bytes, (lineArgs l).head? = ((lineArgs l).take 2).head? := fun l => by
    cases lineArgs l <;> rfl
  have hsecond : ∀ l : Bytes, (lineArgs l)[1]? = ((lineArgs l).take 2)[1]? := fun l =>
    (List.getElem?_take_of_lt Nat.one_lt_two).symm
  have hown' : OwnLine line' := by
    rw [ownLine_iff, hhead, hsame, ← hhead, ← ownLine_iff]
    exact hown
  have hcommands := registerAll_ne_nil hne
  rw [process_own hcommands hown, process_own hcommands hown', hsecond line', hsame,
    ← hsecond line]

end Lines

/-- Once a command is registered, a line that starts with the prefix runs the callback that
was registered first under its second word, or lists the help, or says that there is no such
command; what stands after the second word makes no difference. -/
theorem dispatch_exact (hne : calls ≠ []) (hown : OwnLine line) :
    let commands := registerAll calls
    (∀ name c, (lineArgs line)[1]? = some name →
      (calls.find? fun c => c.name == name) = some c →
      process commands line = { handled := true, ran := some c.callback }) ∧
    ((lineArgs line)[1]? = none →
      process commands line = { handled := true, printed := cmdHelp commands }) ∧
    (∀ name, (lineArgs line)[1]? = some name → (∀ c ∈ calls, c.name ≠ name) →
      process commands line = { handled := true, printed := [commandNotFound] }) ∧
    (∀ line', (lineArgs line').take 2 = (lineArgs line).take 2 →
      process commands line' = process commands line) :=
  ⟨fun _ _ hname hc => process_registered hne hown hname hc, process_without_second hne hown,
    fun _ hname hno => process_unregistered hne hown hname hno,
    fun _ hsame => process_eq_of_take_two hne hown hsame⟩

theorem dispatch_exact_clear :
    process initCommands (ascii " OVLS  Clear now") =
      { handled := true, ran := some Callback.clear } := by
  have hargs : lineArgs (ascii " OVLS  Clear now") =
      [defaultPreffix, ascii "clear", ascii "now"] := by decide
  have hown : OwnLine (ascii " OVLS  Clear now") := by
    rw [ownLine_iff, hargs]
    rfl
  have hname : (lineArgs (ascii " OVLS  Clear now"))[1]? = some (ascii "clear") := by
    rw [hargs]
    rfl
  rw [initCommands]
  exact (dispatch_exact (List.cons_ne_nil _ _) hown).1 _
    ⟨ascii "clear", Callback.clear, ascii "Clear overlays from actor but keep storage"⟩ hname rfl

theorem dispatch_without_commands :
    OwnLine (ascii "ovls") ∧
      process (registerAll ([] : List (Registration Callback))) (ascii "ovls") =
        { handled := false } := by
  refine ⟨ownLine_iff.mpr ?_, rfl⟩
  decide

end Dispatch

section Help
variable {κ : Type*} {commands : RegisteredCommands κ}

def Registration.helpLine (c : Registration κ) : Bytes :=
  ascii "* " ++ defaultPreffix ++ ascii " " ++ c.name ++ ascii " - " ++ c.desc ++ ascii " "

theorem find?_of_sorted (hs : Sorted commands) {d : Bytes × Command κ} (hd : d ∈ commands) :
    commands.find? (fun c => c.1 == d.1) = some d := by
  induction commands with
  | nil => cases hd
  | cons c commands ih =>
    obtain ⟨hc, htail⟩ := List.pairwise_cons.mp hs
    rcases List.mem_cons.mp hd with rfl | hd
    · exact List.find?_cons_of_pos (beq_self_eq_true d.1)
    · have hne : (c.1 == d.1) = false := by
        rw [beq_eq_false_iff_ne]
        intro he
        have hlt := hc d hd
        rw [he] at hlt
        exact List.lt_irrefl _ hlt
      simp only [List.find?_cons, hne]
      exact ih htail hd

theorem mem_registerAll {calls : List (Registration κ)} {d : Bytes × Command κ} :
    d ∈ registerAll calls ↔
      ∃ c, (calls.find? fun c => c.name == d.1) = some c ∧ c.entry = d := by
  rw [← Option.map_eq_some_iff, ← find?_registerAll]
  exact ⟨find?_of_sorted (sorted_registerAll calls), List.mem_of_find?_eq_some⟩

theorem exists_registrations (h : ∀ d ∈ commands, ∃ c : Registration κ, c.entry = d) :
    ∃ cs : List (Registration κ), commands = cs.map Registration.entry := by
  induction commands with
  | nil => exact ⟨[], rfl⟩
  | cons d commands ih =>
    obtain ⟨⟨c, hc⟩, hrest⟩ := List.forall_mem_cons.mp h
    obtain ⟨cs, hcs⟩ := ih hrest
    exact ⟨c :: cs, by rw [List.map_cons, hc, hcs]⟩

/-- The help has one line for each registered name, in the order of the names, with the
description that was registered first, in whatever order and however often the commands were
registered. -/
theorem help_lists_registered (calls : List (Registration κ)) :
    ∃ cs : List (Registration κ),
      cmdHelp (registerAll calls) =
          ascii "--- List of available commands ---" :: cs.map Registration.helpLine ∧
        (cs.Pairwise fun c d => c.name < d.name) ∧
        ∀ c, c ∈ cs ↔ (calls.find? fun d => d.name == c.name) = some c := by
  obtain ⟨cs, hcs⟩ := exists_registrations fun d hd => by
    obtain ⟨c, -, hc⟩ := mem_registerAll.mp hd
    exact ⟨c, hc⟩
  refine ⟨cs, ?_, ?_, fun c => ?_⟩
  · rw [cmdHelp, hcs, List.map_map]
    rfl
  · have hsorted := sorted_registerAll calls
    rw [hcs, Sorted, List.pairwise_map] at hsorted
    exact hsorted
  · have hinj : Function.Injective (Registration.entry (κ := κ)) := by
      intro c d he
      obtain ⟨name, callback, desc⟩ := c
      obtain ⟨name', callback', desc'⟩ := d
      simp only [Registration.entry, Prod.mk.injEq, Command.mk.injEq, Option.some.injEq] at he
      obtain ⟨rfl, rfl, rfl⟩ := he
      rfl
    rw [← List.mem_map_of_injective hinj, ← hcs, mem_registerAll]
    constructor
    · intro h
      obtain ⟨c', hfind, hc'⟩ := h
      obtain rfl := hinj hc'
      exact hfind
    · intro h
      exact ⟨c, h, rfl⟩

end Help

end OverlaySaver
