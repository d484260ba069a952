import OverlaySaver.ActorView
import OverlaySaver.Patching

/-!
# The two hooks

`SKSEPluginLoad` writes a call to the console's thunk and the thunk of `Load3D` into the
vtable of `Character`. Other plugins hook the game as well, before and after. What writes a
thunk and gives back what was there is CommonLib's: `write_vfunc` at an entry of a vtable and
`write_call<5>` at a call.
-/

namespace OverlaySaver
open Transition Patching

abbrev Address := UInt64

inductive Site
  | call (address : Address)
  | vfunc (table : Address) (index : ℕ)
deriving DecidableEq

inductive OwnHook
  | consoleThunk
  | load3D
deriving DecidableEq

abbrev AnyHook (O : Type*) := O ⊕ OwnHook

structure VtableHook where
  targetVTABLE : ℕ → Address
  vtable : Option ℕ := none
  index : ℕ

def VtableHook.getVtable (h : VtableHook) : ℕ := h.vtable.getD 0

def VtableHook.site (h : VtableHook) : Site := .vfunc (h.targetVTABLE h.getVtable) h.index

structure Relocations where
  characterVTABLE : ℕ → Address
  consoleSub : Address

def Relocations.load3D (R : Relocations) : VtableHook :=
  { targetVTABLE := R.characterVTABLE, index := 0x6A }

section Load
variable {O C : Type*} [DecidableEq O] (write : Write Site (AnyHook O) C) (R : Relocations)

def writeVfunc (h : VtableHook) (thunk : AnyHook O) (p : Patched Site (AnyHook O) C) :
    Patched Site (AnyHook O) C := install write p (h.site, thunk)

/-- `ConsoleManager::InstallHook`. -/
def installConsoleHook (p : Patched Site (AnyHook O) C) : Patched Site (AnyHook O) C :=
  install write p (.call R.consoleSub, .inr .consoleThunk)

def installHooks (p : Patched Site (AnyHook O) C) : Patched Site (AnyHook O) C :=
  writeVfunc write R.load3D (.inr .load3D) (installConsoleHook write R p)

def unhooked (game : Site → C) : Patched Site (AnyHook O) C where
  entry s := .code (game s)
  func _ := none

def others (is : List (Site × O)) : List (Site × AnyHook O) := is.map fun i => (i.1, .inl i.2)

def loadAll (game : Site → C) (before after : List (Site × O)) : Patched Site (AnyHook O) C :=
  run (install write)
    (installHooks write R (run (install write) (unhooked game) (others before))) (others after)

def ownAt (s : Site) : List OwnHook :=
  if s = R.load3D.site then [.load3D]
  else if s = .call R.consoleSub then [.consoleThunk]
  else []

def chainAt (before after : List (Site × O)) (s : Site) : List (AnyHook O) :=
  (installed after s).map .inl ++ ((ownAt R s).map .inr ++ (installed before s).map .inl)

end Load

section Chains
variable {O C : Type*} (R : Relocations) {game : Site → C} {before after : List (Site × O)}

def ownInstalls : List (Site × AnyHook O) :=
  [(.call R.consoleSub, .inr .consoleThunk), (R.load3D.site, .inr .load3D)]

def allInstalls (before after : List (Site × O)) : List (Site × AnyHook O) :=
  others before ++ (ownInstalls R ++ others after)

theorem installed_others (is : List (Site × O)) (s : Site) :
    installed (others is) s = (installed is s).map .inl := by
  simp [installed, others, List.filter_map, Function.comp_def]

theorem installed_own (s : Site) :
    installed (ownInstalls (O := O) R) s = (ownAt R s).map .inr := by
  have hne : R.load3D.site ≠ .call R.consoleSub := by
    intro h
    cases h
  by_cases hl : s = R.load3D.site
  · subst hl
    simp [installed, ownInstalls, ownAt, hne.symm]
  · by_cases hc : s = .call R.consoleSub
    · subst hc
      simp [installed, ownInstalls, ownAt, hne, hl]
    · simp [installed, ownInstalls, ownAt, hl, hc, Ne.symm hl, Ne.symm hc]

theorem installed_all (s : Site) :
    installed (allInstalls R before after) s = chainAt R before after s := by
  rw [allInstalls, installed_append, installed_append, installed_others, installed_others,
    installed_own, List.append_assoc]
  rfl

theorem chainAt_load3D : chainAt R before after R.load3D.site =
    (installed after R.load3D.site).map .inl ++
      .inr .load3D :: (installed before R.load3D.site).map .inl := by
  have hown : ownAt R R.load3D.site = [.load3D] := if_pos rfl
  rw [chainAt, hown, List.map_singleton, List.singleton_append]

theorem nodup_all (h : ((before ++ after).map Prod.snd).Nodup) :
    ((allInstalls R before after).map Prod.snd).Nodup := by
  have hothers : ∀ is : List (Site × O),
      (others is).map Prod.snd = (is.map Prod.snd).map Sum.inl := fun is => by simp [others]
  have hinl := h.map (Sum.inl_injective (β := OwnHook))
  rw [allInstalls, List.map_append, List.map_append, hothers, hothers,
    (List.perm_append_comm_assoc _ _ _).nodup_iff, ← List.map_append, ← List.map_append]
  simpa [ownInstalls] using hinl

variable [DecidableEq O] {write : Write Site (AnyHook O) C}

theorem loadAll_eq : loadAll write R game before after =
    run (install write) (unhooked game) (allInstalls R before after) := by
  simp only [loadAll, installHooks, writeVfunc, installConsoleHook, run, List.foldl_append,
    allInstalls, ownInstalls, List.foldl_cons, List.foldl_nil]

/-- Whatever else hooks the game before and after, each entry point leads through the hooks
that were installed on it, the latest first and this plugin's between the others, to the game's own
function, exactly when each hook that is installed again finds what it found at first. -/
theorem hooks_chain_iff (hwrite : Writes write) :
    (∀ s, Leads (loadAll write R game before after)
      ((loadAll write R game before after).entry s) (chainAt R before after s) (game s)) ↔
      Along (install write) FindsSame (unhooked game) (allInstalls R before after) := by
  rw [← leads_run_iff hwrite (p := unhooked game) (fun _ => rfl) fun _ => rfl, loadAll_eq]
  simp only [installed_all]

theorem hooks_chain_iff_one_before :
    let R : Relocations := ⟨fun _ => 0x1000, 0x2000⟩
    let before : List (Site × ℕ) := [(R.load3D.site, 7)]
    ∀ s, Leads (loadAll plainWrite R id before []) ((loadAll plainWrite R id before []).entry s)
      (chainAt R before [] s) (id s) := by
  intro R before
  have hnodup : ((before ++ ([] : List (Site × ℕ))).map Prod.snd).Nodup :=
    List.nodup_singleton _
  exact (hooks_chain_iff R writes_plainWrite).mpr
    (along_of_nodup writes_plainWrite (nodup_all R hnodup) fun _ _ => rfl)

end Chains

section Load3D
variable {O σ Obj : Type*}

structure Load3DCall where
  actor : FormID
  backgroundLoading : Bool
deriving DecidableEq

/-- `Load3D::thunk`, in a state of the plugin's tasks and of everything else. -/
def load3DThunk (x : Load3DCall) (s : σ × List FormID) :
    Routine Load3DCall Obj (σ × List FormID) :=
  .call x s fun res s' => .done res (s'.1, s'.2 ++ [x.actor])

variable (other : O → Load3DCall → σ → Routine Load3DCall Obj σ)

def anyRoutine : AnyHook O → Load3DCall → σ × List FormID →
    Routine Load3DCall Obj (σ × List FormID)
  | .inl o, x, s => (other o x s.1).beside s.2
  | .inr .load3D, x, s => load3DThunk x s
  -- It is on another site.
  | .inr .consoleThunk, x, s => .call x s .done

/-- The game's own function, which knows nothing of the plugin's tasks. -/
def besideTasks (code : Load3DCall → σ → Obj × σ) (x : Load3DCall) (s : σ × List FormID) :
    Obj × σ × List FormID :=
  ((code x s.1).1, (code x s.1).2, s.2)

def callLoad3D (code : Load3DCall → σ → Obj × σ) (hs : List (AnyHook O)) (x : Load3DCall)
    (s : σ) (tasks : List FormID) : Obj × σ × List FormID :=
  callThrough (anyRoutine other) (besideTasks code) hs x (s, tasks)

variable {other} {code : Load3DCall → σ → Obj × σ}

theorem callThrough_thunk (before : List O) (x : Load3DCall) (s : σ) (tasks : List FormID) :
    callThrough (anyRoutine other) (besideTasks code) (.inr .load3D :: before.map .inl) x
        (s, tasks) =
      ((callThrough other code before x s).1, (callThrough other code before x s).2,
        tasks ++ [x.actor]) := by
  have hcode : ∀ x s tasks, besideTasks code x (s, tasks) =
      ((code x s).1, (code x s).2, (fun _ _ tasks => tasks) x s tasks) := fun _ _ _ => rfl
  have hbefore : callThrough (anyRoutine other) (besideTasks code) (before.map .inl) x (s, tasks) =
      ((callThrough other code before x s).1, (callThrough other code before x s).2, tasks) := by
    rw [callThrough_map]
    refine (callThrough_beside hcode before x s tasks).trans ?_
    rw [List.foldl_fixed]
  rw [callThrough, anyRoutine, load3DThunk, Routine.exec, hbefore]
  rfl

variable (other code) in
theorem callLoad3D_eq (before after : List O) (x : Load3DCall) (s : σ) (tasks : List FormID) :
    let behind := callThrough other code before
    callLoad3D other code (after.map .inl ++ .inr .load3D :: before.map .inl) x s tasks =
      ((callThrough other behind after x s).1, (callThrough other behind after x s).2,
        (arrivals other behind after x s).foldl (fun tasks c => tasks ++ [c.1.actor]) tasks) := by
  intro behind
  rw [callLoad3D, callThrough_append, callThrough_map]
  exact callThrough_beside (callThrough_thunk before) after x s tasks

theorem tasks_load3D (E : Session) (w : World) (cs : List (Load3DCall × σ)) :
    (run (step E) w (cs.map fun c => .load3D c.1.actor)).tasks =
      cs.foldl (fun tasks c => tasks ++ [c.1.actor]) w.tasks := by
  induction cs generalizing w with
  | nil => rfl
  | cons c cs ih => exact ih (step E w (.load3D c.1.actor))

variable [DecidableEq O] (R : Relocations)
  {write : Write Site (AnyHook O) (Load3DCall → σ → Obj × σ)}
  {game : Site → Load3DCall → σ → Obj × σ} {before after : List (Site × O)}

/-- Whatever the hooks of other plugins do with a call of `Load3D` (they may make several calls
of it, for other actors too, or none), it gives what it would give without this plugin, and each
call that gets as far as the plugin's hook is one `load3D` event; where the later hooks hand it on,
the call is exactly one. -/
theorem load3D_calls_queue (hwrite : Writes write)
    (hsame : Along (install write) FindsSame (unhooked game) (allInstalls R before after))
    (x : Load3DCall) (s : σ) (E : Session) (w : World) :
    let site := R.load3D.site
    let behind := callThrough other (game site) (installed before site)
    let plain := callThrough other behind (installed after site) x s
    let hs := chainAt R before after site
    Leads (loadAll write R game before after) ((loadAll write R game before after).entry site) hs
        (game site) ∧
      callLoad3D other (game site) hs x s w.tasks = (plain.1, plain.2,
        (run (step E) w ((arrivals other behind (installed after site) x s).map fun c =>
          .load3D c.1.actor)).tasks) ∧
      ((∀ o ∈ installed after site, HandsOn (other o)) →
        (callLoad3D other (game site) hs x s w.tasks).2.2 =
          (step E w (.load3D x.actor)).tasks) := by
  intro site behind plain hs
  have hchain : hs = (installed after site).map .inl ++
      .inr .load3D :: (installed before site).map .inl := chainAt_load3D R
  have hcall := callLoad3D_eq other (game site) (installed before site) (installed after site) x s
    w.tasks
  refine ⟨?_, ?_, fun hhand => ?_⟩
  · have hleads := (leads_run_iff hwrite (fun _ => rfl) fun _ => rfl).mpr hsame site
    rw [installed_all] at hleads
    rw [loadAll_eq]
    exact hleads
  · rw [hchain, hcall, tasks_load3D]
  · obtain ⟨s', hone⟩ := arrivals_of_handsOn behind hhand x s
    rw [hchain, hcall, hone]
    rfl

def twice (o : ℕ) (x : Load3DCall) (s : ℕ) : Routine Load3DCall (List ℕ) ℕ :=
  .call x s fun _ s' => .call x s' fun res s'' => .done (o :: res) s''

theorem load3D_calls_queue_twice :
    let R : Relocations := ⟨fun _ => 0x1000, 0x2000⟩
    let before : List (Site × ℕ) := [(R.load3D.site, 7)]
    let after : List (Site × ℕ) := [(R.load3D.site, 8)]
    let game : Site → Load3DCall → ℕ → List ℕ × ℕ := fun _ _ s => ([0], s + 1)
    callLoad3D twice (game R.load3D.site) (chainAt R before after R.load3D.site) ⟨20, false⟩ 0
      [21] = ([8, 7, 0], 4, [21, 20, 20]) := by
  intro R before after game
  have hnodup : ((before ++ after).map Prod.snd).Nodup := by decide
  have hsame : Along (install plainWrite) FindsSame (unhooked game) (allInstalls R before after) :=
    along_of_nodup writes_plainWrite (nodup_all R hnodup) fun _ _ => rfl
  obtain ⟨-, hcall, -⟩ := load3D_calls_queue R writes_plainWrite hsame ⟨20, false⟩ 0
    (plainSession 0) ⟨∅, fun _ _ _ _ _ => none, [21]⟩
  exact hcall

end Load3D

end OverlaySaver
