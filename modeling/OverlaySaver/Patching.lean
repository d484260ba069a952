import OverlaySaver.Transition
import Mathlib.Data.List.Nodup
import Mathlib.Logic.Function.Basic

/-!
# Hooks on entry points

An entry point leads to code or to the thunk of a hook, and a hook keeps what its entry point
led to when it was installed. Following the hooks from an entry point gives its chain, and a call
goes down the chain as far as the hooks hand it on. Over arbitrary sites, hooks and code, and
over whatever writes a thunk to a site.
-/

namespace Patching
open Transition
variable {S H C : Type*}

inductive Entry (H C : Type*)
  | code (c : C)
  | thunk (h : H)

structure Patched (S H C : Type*) where
  entry : S → Entry H C
  func : H → Option (Entry H C)

/-- From an entry through these hooks, in the order they are called, to the code. -/
def Leads (p : Patched S H C) : Entry H C → List H → C → Prop
  | e, [], c => e = .code c
  | e, h :: hs, c => e = .thunk h ∧ ∃ e', p.func h = some e' ∧ Leads p e' hs c

def top : List H → C → Entry H C
  | [], c => .code c
  | h :: _, _ => .thunk h

section Chains
variable {p p' : Patched S H C} {e : Entry H C} {h : H} {hs pre post : List H} {c : C}

theorem Leads.eq_top (hl : Leads p e hs c) : e = top hs c := by
  cases hs with
  | nil => exact hl
  | cons h hs => exact hl.1

theorem Leads.of_append (hl : Leads p e (pre ++ h :: post) c) :
    Leads p (.thunk h) (h :: post) c := by
  induction pre generalizing e with
  | nil =>
    obtain ⟨rfl, hrest⟩ := hl
    exact ⟨rfl, hrest⟩
  | cons h' pre ih =>
    obtain ⟨-, e', -, hrest⟩ := hl
    exact ih hrest

theorem Leads.mono (hfunc : ∀ h ∈ hs, ∀ e, p.func h = some e → p'.func h = some e)
    (hl : Leads p e hs c) : Leads p' e hs c := by
  induction hs generalizing e with
  | nil => exact hl
  | cons h hs ih =>
    obtain ⟨hhead, hfunc⟩ := List.forall_mem_cons.mp hfunc
    obtain ⟨rfl, e', he', hrest⟩ := hl
    exact ⟨rfl, e', hhead e' he', ih hfunc hrest⟩

end Chains

section Sites
variable [DecidableEq S]

def installed (is : List (S × H)) (s : S) : List H :=
  ((is.filter fun i => i.1 = s).map Prod.snd).reverse

theorem installed_append (is is' : List (S × H)) (s : S) :
    installed (is ++ is') s = installed is' s ++ installed is s := by
  simp [installed]

theorem installed_cons (i : S × H) (is : List (S × H)) (s : S) :
    installed (i :: is) s = installed is s ++ if i.1 = s then [i.2] else [] := by
  split_ifs with hs <;> simp [installed, hs]

end Sites

section Installs

abbrev Write (S H C : Type*) := (S → Entry H C) → S → H → (S → Entry H C) × Entry H C

structure Writes (write : Write S H C) : Prop where
  leads : ∀ m s h, (write m s h).1 s = .thunk h
  frame : ∀ m s h s', s' ≠ s → (write m s h).1 s' = m s'
  func : ∀ m s h, (write m s h).2 = m s

def plainWrite [DecidableEq S] : Write S H C := fun m s h => (Function.update m s (.thunk h), m s)

theorem writes_plainWrite [DecidableEq S] : Writes (plainWrite (S := S) (H := H) (C := C)) where
  leads _ _ _ := Function.update_self _ _ _
  frame _ _ _ _ hs := Function.update_of_ne hs _ _
  func _ _ _ := rfl

variable [DecidableEq H] (write : Write S H C)

def install (p : Patched S H C) (i : S × H) : Patched S H C :=
  let written := write p.entry i.1 i.2
  { entry := written.1, func := Function.update p.func i.2 (some written.2) }

/-- A hook that has been installed before finds what it found then. -/
def FindsSame (p : Patched S H C) (i : S × H) : Prop :=
  ∀ e, p.func i.2 = some e → p.entry i.1 = e

variable {write} (hwrite : Writes write) {p : Patched S H C} {i : S × H} {is : List (S × H)}
  {chain : S → List H} {code : S → C}
include hwrite

theorem func_install (p : Patched S H C) (i : S × H) (h : H) :
    (install write p i).func h = if h = i.2 then some (p.entry i.1) else p.func h := by
  split_ifs with hh
  · subst hh
    exact (Function.update_self _ _ _).trans (congrArg some (hwrite.func p.entry i.1 i.2))
  · exact Function.update_of_ne hh _ _

theorem along_of_nodup (hnodup : (is.map Prod.snd).Nodup) (hnew : ∀ i ∈ is, p.func i.2 = none) :
    Along (install write) FindsSame p is := by
  induction is generalizing p with
  | nil => trivial
  | cons i is ih =>
    obtain ⟨hi, hnew⟩ := List.forall_mem_cons.mp hnew
    obtain ⟨hnot, hnodup⟩ := List.nodup_cons.mp hnodup
    refine ⟨fun e he => ?_, ih hnodup fun j hj => ?_⟩
    · rw [hi] at he
      cases he
    · have hne : j.2 ≠ i.2 := fun he => hnot (he ▸ List.mem_map_of_mem hj)
      rw [func_install hwrite, if_neg hne]
      exact hnew j hj

variable [DecidableEq S]

theorem entry_install (p : Patched S H C) (i : S × H) (s : S) :
    (install write p i).entry s = if i.1 = s then .thunk i.2 else p.entry s := by
  split_ifs with hs
  · subst hs
    exact hwrite.leads p.entry i.1 i.2
  · exact hwrite.frame p.entry i.1 i.2 s (Ne.symm hs)

theorem leads_install (hp : ∀ s, Leads p (p.entry s) (chain s) (code s)) (hsame : FindsSame p i)
    (s : S) : Leads (install write p i) ((install write p i).entry s)
      ((if i.1 = s then [i.2] else []) ++ chain s) (code s) := by
  have hkeep : ∀ s', Leads (install write p i) (p.entry s') (chain s') (code s') := by
    intro s'
    refine Leads.mono (fun h _ e he => ?_) (hp s')
    rw [func_install hwrite]
    split_ifs with hh
    · rw [hsame e (hh ▸ he)]
    · exact he
  rw [entry_install hwrite]
  split_ifs with hs
  · have hfunc : (install write p i).func i.2 = some (p.entry i.1) := by
      rw [func_install hwrite, if_pos rfl]
    exact ⟨rfl, p.entry i.1, hfunc, hs ▸ hkeep i.1⟩
  · exact hkeep s

theorem leads_run (chain : S → List H) (hp : ∀ s, Leads p (p.entry s) (chain s) (code s))
    (his : Along (install write) FindsSame p is) (s : S) :
    Leads (run (install write) p is) ((run (install write) p is).entry s)
      (installed is s ++ chain s) (code s) := by
  induction is generalizing p chain with
  | nil => exact hp s
  | cons i is ih =>
    rw [run_cons, installed_cons, List.append_assoc]
    exact ih _ (leads_install hwrite hp his.1) his.2

theorem along_of_leads (chain : S → List H) (hentry : ∀ s, p.entry s = top (chain s) (code s))
    (hkept : ∀ h e, p.func h = some e → (run (install write) p is).func h = some e)
    (hl : ∀ s, Leads (run (install write) p is) ((run (install write) p is).entry s)
      (installed is s ++ chain s) (code s)) : Along (install write) FindsSame p is := by
  induction is generalizing p chain with
  | nil => trivial
  | cons i is ih =>
    have hfound : (run (install write) p (i :: is)).func i.2 = some (p.entry i.1) := by
      have hchain := hl i.1
      rw [installed_cons, if_pos rfl, List.append_assoc, List.singleton_append] at hchain
      obtain ⟨-, e, hfunc, hrest⟩ := hchain.of_append
      rw [hfunc, hentry, hrest.eq_top]
    refine ⟨fun e he => Option.some.inj (hfound.symm.trans (hkept i.2 e he)), ?_⟩
    refine ih (fun s => (if i.1 = s then [i.2] else []) ++ chain s) (fun s => ?_)
      (fun h e he => ?_) fun s => ?_
    · rw [entry_install hwrite]
      split_ifs
      · rfl
      · exact hentry s
    · rw [func_install hwrite] at he
      split_ifs at he with hh
      · rw [hh, ← he]
        exact hfound
      · exact hkept h e he
    · have hchain := hl s
      rw [installed_cons, List.append_assoc] at hchain
      exact hchain

/-- Every site has the hooks that were installed on it, the latest first, in front of its own
code exactly when no install changes what a hook has kept. -/
theorem leads_run_iff (hfresh : ∀ h, p.func h = none) (hcode : ∀ s, p.entry s = .code (code s)) :
    (∀ s, Leads (run (install write) p is) ((run (install write) p is).entry s)
      (installed is s) (code s)) ↔ Along (install write) FindsSame p is := by
  constructor
  · intro hl
    refine along_of_leads hwrite (fun _ => []) hcode (fun h e he => ?_) fun s => ?_
    · rw [hfresh] at he
      cases he
    · rw [List.append_nil]
      exact hl s
  · intro his s
    have hl := leads_run hwrite (fun _ => []) hcode his s
    rw [List.append_nil] at hl
    exact hl

end Installs

section Calls
variable {X A σ τ : Type*}

/-- What a hook does when it is called: it ends, or it calls what it replaced and goes on with
the answer. -/
inductive Routine (X A σ : Type*)
  | done (a : A) (s : σ)
  | call (x : X) (s : σ) (next : A → σ → Routine X A σ)

namespace Routine

def exec (rest : X → σ → A × σ) : Routine X A σ → A × σ
  | done a s => (a, s)
  | call x s next => (next (rest x s).1 (rest x s).2).exec rest

def calls (rest : X → σ → A × σ) : Routine X A σ → List (X × σ)
  | done _ _ => []
  | call x s next => (x, s) :: (next (rest x s).1 (rest x s).2).calls rest

def beside (t : τ) : Routine X A σ → Routine X A (σ × τ)
  | done a s => done a (s, t)
  | call x s next => call x (s, t) fun a st => (next a st.1).beside st.2

def Ends : Routine X A σ → Prop
  | done _ _ => True
  | call _ _ _ => False

theorem Ends.calls_eq_nil {r : Routine X A σ} (h : r.Ends) (rest : X → σ → A × σ) :
    r.calls rest = [] := by
  cases r with
  | done a s => rfl
  | call x s next => exact h.elim

end Routine

def HandsOn (hook : X → σ → Routine X A σ) : Prop :=
  ∀ x s, ∃ s' next, hook x s = .call x s' next ∧ ∀ a s'', (next a s'').Ends

variable (hook : H → X → σ → Routine X A σ) (code : X → σ → A × σ)

def callThrough : List H → X → σ → A × σ
  | [], x, s => code x s
  | h :: hs, x, s => (hook h x s).exec (callThrough hs)

def arrivals : List H → X → σ → List (X × σ)
  | [], x, s => [(x, s)]
  | h :: hs, x, s =>
    ((hook h x s).calls (callThrough hook code hs)).flatMap fun c => arrivals hs c.1 c.2

theorem callThrough_append (hs hs' : List H) :
    callThrough hook code (hs ++ hs') = callThrough hook (callThrough hook code hs') hs := by
  induction hs with
  | nil => rfl
  | cons h hs ih =>
    funext x s
    rw [List.cons_append, callThrough, callThrough, ih]

theorem callThrough_map {O : Type*} (f : O → H) (os : List O) :
    callThrough hook code (os.map f) = callThrough (fun o => hook (f o)) code os := by
  induction os with
  | nil => rfl
  | cons o os ih =>
    funext x s
    rw [List.map_cons, callThrough, callThrough, ih]

variable {hook code} {code' : X → σ × τ → A × σ × τ} {effect : X → σ → τ → τ}

theorem exec_beside
    (h : ∀ x s t, code' x (s, t) = ((code x s).1, (code x s).2, effect x s t))
    (r : Routine X A σ) (t : τ) :
    (r.beside t).exec code' = ((r.exec code).1, (r.exec code).2,
      (r.calls code).foldl (fun t c => effect c.1 c.2 t) t) := by
  induction r generalizing t with
  | done a s => rfl
  | call x s next ih =>
    rw [Routine.beside, Routine.exec, h]
    exact ih _ _ _

theorem callThrough_beside
    (h : ∀ x s t, code' x (s, t) = ((code x s).1, (code x s).2, effect x s t)) (hs : List H)
    (x : X) (s : σ) (t : τ) :
    callThrough (fun h x st => (hook h x st.1).beside st.2) code' hs x (s, t) =
      ((callThrough hook code hs x s).1, (callThrough hook code hs x s).2,
        (arrivals hook code hs x s).foldl (fun t c => effect c.1 c.2 t) t) := by
  induction hs generalizing x s t with
  | nil => exact h x s t
  | cons g hs ih =>
    rw [callThrough, exec_beside ih, ← List.foldl_flatMap]
    rfl

variable (code)

theorem arrivals_of_handsOn {hs : List H} (hhs : ∀ h ∈ hs, HandsOn (hook h)) (x : X) (s : σ) :
    ∃ s', arrivals hook code hs x s = [(x, s')] := by
  induction hs generalizing s with
  | nil => exact ⟨s, rfl⟩
  | cons h hs ih =>
    obtain ⟨hh, hhs⟩ := List.forall_mem_cons.mp hhs
    obtain ⟨s', next, hcall, hends⟩ := hh x s
    obtain ⟨s'', hrest⟩ := ih hhs s'
    refine ⟨s'', ?_⟩
    rw [arrivals, hcall, Routine.calls, (hends _ _).calls_eq_nil, List.flatMap_cons, List.flatMap_nil,
      List.append_nil, hrest]

end Calls

end Patching
