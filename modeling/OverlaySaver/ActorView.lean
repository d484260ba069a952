import OverlaySaver.Plugin
import OverlaySaver.CosaveRoundTrip

/-!
# One actor at a time

All actors share one store and one override table, and a save rewrites every record. Yet
what concerns one actor, its record and its overrides, is driven by a small machine of its
own, whose moves are the events that target the actor and what loads and saves do to it.
Every property of runs that speaks about one actor is proved on that machine. Actors share the
string pool too, whose spelling is that of the session in every run.
-/

namespace OverlaySaver
open Transition

structure ActorView where
  record : Option ActorRecord
  overrides : Bool → NodeName → Node

def World.view (w : World) (a : FormID) : ActorView := ⟨w.actorData.lookup a, w.overrides a⟩

inductive Move
  | load (record : Option ActorRecord)
  | save (found : Bool)
  | task
  | console (cmd : Callback)
  | skee (overrides : Bool → NodeName → Node)

def seenBy (a : FormID) : Event → Option Move
  | .load c cosave => some (.load ((loadRecords c 0 ∅ cosave).lookup a))
  | .save c => some (.save (c.lookupByID a))
  | .revert => some (.load none)
  | .load3D _ => none
  | .task b => if b = a then some .task else none
  | .console cmd selected => if selected = some a then some (.console cmd) else none
  | .skee t => some (.skee (t a))

variable (E : Session)

namespace ActorView
variable (a : FormID) (v : ActorView)

def table : Overrides := fun _ => v.overrides

def capture : ActorView := { v with record := v.record.map (captureRecord E v.table a) }

def register : ActorView :=
  match v.record with
  | some _ => v
  | none => { v with record := some (captureRecord E v.table a {}) }

def apply (force : Bool) : ActorView :=
  match v.record with
  | none => v
  | some r =>
    if r.alreadyApplied && !force then v
    else ⟨some { r with alreadyApplied := true }, applyRecord E v.table a r a⟩

def clear : ActorView := { v with overrides := clearOverlays E v.table a a }

def flip : ActorView :=
  match v.record with
  | none => v
  | some r => apply E a ⟨some (r.mapLists List.reverse), (clear E a v).overrides⟩ true

theorem capture_of_none {v : ActorView} (h : v.record = none) : capture E a v = v := by
  obtain ⟨record, overrides⟩ := v
  obtain rfl : record = none := h
  rfl

theorem apply_of_none {v : ActorView} (h : v.record = none) (force : Bool) :
    apply E a v force = v := by
  rw [apply, h]

theorem record_apply {v : ActorView} {force : Bool} {x : ActorRecord}
    (h : (apply E a v force).record = some x) :
    ∃ y, v.record = some y ∧ ∀ p, x.list p = y.list p := by
  rw [apply] at h
  split at h
  · exact ⟨x, h, fun _ => rfl⟩
  · rename_i r hr
    refine ⟨r, hr, fun p => ?_⟩
    split_ifs at h
    · rw [hr] at h
      rw [Option.some.inj h]
    · obtain rfl := Option.some.inj h
      cases p <;> rfl

theorem flip_of_none {v : ActorView} (h : v.record = none) : flip E a v = v := by
  rw [flip, h]

theorem capture_capture : capture E a (capture E a v) = capture E a v := by
  obtain ⟨_ | r, overrides⟩ := v <;> rfl

def step : Move → ActorView
  | .load r => { v with record := r }
  | .save found => if found then capture E a v else v
  | .task => apply E a v false
  | .console .register => register E a v
  | .console .apply => apply E a v true
  | .console .update => capture E a v
  | .console .erase => { v with record := none }
  | .console .flip => flip E a v
  | .console .clear => clear E a v
  | .console .help => v
  | .console .reset3d => v
  | .skee t => { v with overrides := t }

end ActorView

section Views
variable (w : World) (a : FormID)

theorem view_buildOverlayList (b : FormID) :
    (buildOverlayList E w b).view a =
      if b = a then ActorView.capture E a (w.view a) else w.view a := by
  simp only [World.view, buildOverlayList_overrides, lookup_buildOverlayList]
  split_ifs with h hb hb
  · subst hb
    have hc := captureRecord_congr E w.overrides (w.view b).table (a := b) rfl
    simp only [ActorView.capture, funext hc]
    rfl
  · exact absurd h.symm hb
  · exact absurd hb.symm h
  · rfl

theorem view_applyOverlayFromList (b : FormID) (force : Bool) :
    (applyOverlayFromList E w b force).view a =
      if b = a then ActorView.apply E a (w.view a) force else w.view a := by
  split_ifs with h
  · subst h
    rw [applyOverlayFromList, getData_eq_lookup, ActorView.apply, World.view]
    cases hl : w.actorData.lookup b with
    | none => simp only [World.view, hl]
    | some r =>
      have ht := applyRecord_congr E w.overrides b r (w.view b).table rfl
      simp only [World.view, hl] at ht ⊢
      by_cases hr : (r.alreadyApplied && !force) = true
      · simp only [hr, ↓reduceIte, hl]
      · simp only [hr, Bool.false_eq_true, ↓reduceIte, Finmap.lookup_insert, ht]
  · have hne : a ≠ b := fun he => h he.symm
    rw [World.view, lookup_applyOverlayFromList_of_ne E w hne,
      overrides_applyOverlayFromList_of_ne E w hne]
    rfl

theorem view_clearOverlays (b : FormID) :
    (cmdClear E w b).view a = if b = a then ActorView.clear E a (w.view a) else w.view a := by
  split_ifs with h
  · subst h
    have hc := clearOverlays_congr E w.overrides b (w.view b).table rfl
    simp only [World.view, cmdClear, ActorView.clear, hc]
  · simp only [World.view, cmdClear, clearOverlays_of_ne E w.overrides b fun he => h he.symm]

theorem view_setRecord (b : FormID) (r : ActorRecord) :
    ({ w with actorData := w.actorData.insert b r } : World).view a =
      if b = a then { w.view a with record := some r } else w.view a := by
  by_cases h : b = a
  · subst h
    simp only [World.view, Finmap.lookup_insert, ↓reduceIte]
  · have hne : a ≠ b := fun he => h he.symm
    simp only [World.view, Finmap.lookup_insert_of_ne _ hne, if_neg h]

theorem view_flip (b : FormID) :
    (flipStoredOverlaysAndReapply E w b).view a =
      if b = a then ActorView.flip E a (w.view a) else w.view a := by
  have hc := view_clearOverlays E w a b
  rw [flipStoredOverlaysAndReapply, getData_eq_lookup]
  cases hl : w.actorData.lookup b with
  | none =>
    split_ifs with h
    · subst h
      exact (ActorView.flip_of_none E b hl).symm
    · rfl
  | some r =>
    have hr := view_setRecord (cmdClear E w b) a b (r.mapLists List.reverse)
    have ha := view_applyOverlayFromList E { cmdClear E w b with
      actorData := (cmdClear E w b).actorData.insert b (r.mapLists List.reverse) } a b true
    refine ha.trans ?_
    rw [hr, hc]
    split_ifs with h
    · subst h
      simp only [ActorView.flip, World.view, hl]
    · rfl

theorem view_ifRegistered {w' : World} {v : ActorView} {b : FormID}
    (hw' : w'.view a = if b = a then v else w.view a)
    (hv : w.actorData.lookup a = none → v = w.view a) :
    (if (getData w.actorData b).isSome then w' else w).view a =
      if b = a then v else w.view a := by
  rw [getData_eq_lookup]
  by_cases hs : (w.actorData.lookup b).isSome
  · rw [if_pos hs, hw']
  · rw [if_neg hs]
    split_ifs with h
    · subst h
      exact (hv (Option.not_isSome_iff_eq_none.mp hs)).symm
    · rfl

theorem view_cmdRegister (b : FormID) :
    (cmdRegister E w b).view a = if b = a then ActorView.register E a (w.view a) else w.view a := by
  rw [cmdRegister, getData_eq_lookup]
  cases hl : w.actorData.lookup b with
  | some r =>
    rw [if_pos (Option.isSome_some)]
    split_ifs with h
    · subst h
      simp only [ActorView.register, World.view, hl]
    · rfl
  | none =>
    have hb : b ∉ w.actorData := Finmap.lookup_eq_none.mp hl
    have hn : addNew w.actorData b = w.actorData.insert b {} := if_neg hb
    rw [if_neg (by simp), view_buildOverlayList, hn, view_setRecord]
    split_ifs with h
    · subst h
      simp only [ActorView.register, World.view, hl]
      rfl
    · rfl

theorem view_cmdErase (b : FormID) :
    (cmdErase w b).view a = if b = a then { w.view a with record := none } else w.view a := by
  refine view_ifRegistered w a ?_ fun h => ?_
  · simp only [World.view, lookup_erase_ite]
    by_cases h : b = a
    · subst h
      simp only [↓reduceIte]
    · simp only [if_neg h, if_neg fun he : a = b => h he.symm]
  · simp only [World.view, h]

theorem view_foldl_rebuild (c : SaveCall) (l : List FormID) :
    (l.foldl (fun w b => if c.lookupByID b then buildOverlayList E w b else w) w).view a =
      if a ∈ l ∧ c.lookupByID a then ActorView.capture E a (w.view a) else w.view a := by
  induction l generalizing w with
  | nil => simp
  | cons b l ih =>
    rw [List.foldl_cons, ih]
    by_cases hb : b = a
    · subst hb
      by_cases hf : c.lookupByID b
      · simp [hf, view_buildOverlayList, ActorView.capture_capture]
      · simp [hf]
    · have hv : (if c.lookupByID b then buildOverlayList E w b else w).view a = w.view a := by
        split_ifs
        · rw [view_buildOverlayList, if_neg hb]
        · rfl
      have hm : a ∈ b :: l ↔ a ∈ l := by
        rw [List.mem_cons, or_iff_right fun he => hb he.symm]
      simp only [hv, hm]

theorem view_rebuildAll {c : SaveCall} (hord : Enumerates c.order w.actorData) :
    (rebuildAll E c w).view a =
      if c.lookupByID a then ActorView.capture E a (w.view a) else w.view a := by
  rw [rebuildAll, view_foldl_rebuild]
  simp only [hord.mem_iff]
  by_cases h : a ∈ w.actorData
  · simp only [h, true_and]
  · have hc := ActorView.capture_of_none E a (v := w.view a) (Finmap.lookup_eq_none.mpr h)
    simp only [h, false_and, hc, ite_self]

theorem view_runCallback (cmd : Callback) (b : FormID) :
    (runCallback E w b cmd).view a =
      if b = a then ActorView.step E a (w.view a) (.console cmd) else w.view a := by
  cases cmd with
  | help | reset3d => exact (ite_self _).symm
  | register => exact view_cmdRegister E w a b
  | apply =>
    exact view_ifRegistered w a (view_applyOverlayFromList E w a b true)
      fun h => ActorView.apply_of_none E a h true
  | update =>
    exact view_ifRegistered w a (view_buildOverlayList E w a b)
      fun h => ActorView.capture_of_none E a h
  | erase => exact view_cmdErase w a b
  | flip =>
    exact view_ifRegistered w a (view_flip E w a b) fun h => ActorView.flip_of_none E a h
  | clear => exact view_clearOverlays E w a b

end Views

theorem view_step {w : World} {e : Event} (h : Possible w e) (a : FormID) :
    (step E w e).view a = (seenBy a e).elim (w.view a) (ActorView.step E a (w.view a)) := by
  cases e with
  | load c cosave => rfl
  | save c => exact view_rebuildAll E w a h
  | revert => rfl
  | load3D b => rfl
  | task b =>
    rw [step_task E h, view_applyOverlayFromList, seenBy]
    split_ifs <;> rfl
  | console cmd selected =>
    cases selected with
    | none => rfl
    | some b =>
      refine (view_runCallback E w a cmd b).trans ?_
      simp only [seenBy, Option.some.injEq]
      split_ifs <;> rfl
  | skee t => rfl

theorem view_run {w : World} {es : List Event} (h : Along (step E) Possible w es) (a : FormID) :
    (run (step E) w es).view a = run (ActorView.step E a) (w.view a) (es.filterMap (seenBy a)) :=
  proj_run (step E) (fun w => w.view a) (fun _ _ hp => view_step E hp a) h

section Isolation

theorem view_run_congr {a : FormID} {w w' : World} {es es' : List Event}
    (hes : Along (step E) Possible w es) (hes' : Along (step E) Possible w' es')
    (hrec : w.actorData.lookup a = w'.actorData.lookup a) (hovr : w.overrides a = w'.overrides a)
    (hseen : es.filterMap (seenBy a) = es'.filterMap (seenBy a)) :
    (run (step E) w es).view a = (run (step E) w' es').view a := by
  have hv : w.view a = w'.view a := by rw [World.view, World.view, hrec, hovr]
  rw [view_run E hes, view_run E hes', hv, hseen]

/-- What happens to the other actors changes nothing for an actor, in whatever order it
happens: runs that look the same to it leave the same record and the same overrides, and
runs that look the same to every actor leave the same store and the same table. -/
theorem actors_do_not_interfere {w w' : World} {es es' : List Event}
    (hes : Along (step E) Possible w es) (hes' : Along (step E) Possible w' es') :
    (∀ a, w.actorData.lookup a = w'.actorData.lookup a → w.overrides a = w'.overrides a →
      es.filterMap (seenBy a) = es'.filterMap (seenBy a) →
      (run (step E) w es).actorData.lookup a = (run (step E) w' es').actorData.lookup a ∧
        (run (step E) w es).overrides a = (run (step E) w' es').overrides a) ∧
    (w.actorData = w'.actorData → w.overrides = w'.overrides →
      (∀ a, es.filterMap (seenBy a) = es'.filterMap (seenBy a)) →
      (run (step E) w es).actorData = (run (step E) w' es').actorData ∧
        (run (step E) w es).overrides = (run (step E) w' es').overrides) := by
  constructor
  · intro a hrec hovr hseen
    have hv := view_run_congr E hes hes' hrec hovr hseen
    exact ⟨congrArg ActorView.record hv, congrArg ActorView.overrides hv⟩
  · intro hdata hovr hseen
    have hv := fun a => view_run_congr E hes hes' (a := a) (by rw [hdata]) (by rw [hovr]) (hseen a)
    exact ⟨Finmap.ext_lookup fun a => congrArg ActorView.record (hv a),
      funext fun a => congrArg ActorView.overrides (hv a)⟩

def plainSession (slots : ℤ) : Session where
  iHead := slots
  iHand := slots
  iBody := slots
  iFeet := slots
  sex _ := false
  fixedString s := s
  fixedString_idem _ := rfl
  fixedString_tolower _ := rfl
  strayWord _ := 0
  strayText _ := CStr.empty

theorem plainSession_slots_le {n : ℤ} (h : n ≤ 255) (p : Part) :
    (plainSession n).slots p ≤ 255 := by
  cases p <;> exact h

def onNode (p : Part) (i : ℕ) (v : Node) : Overrides := fun b f m =>
  if b = 20 ∧ f = false ∧ m = nodeName p i then v else fun _ _ => none

theorem onNode_self (p : Part) (i : ℕ) (v : Node) : onNode p i v 20 false (nodeName p i) = v :=
  if_pos ⟨rfl, rfl, rfl⟩

theorem slotView_onNode (n : ℤ) (p q : Part) (i j : ℕ) (v : Node) :
    slotView (plainSession n) (onNode p i v) 20 q j =
      if q = p ∧ j = i then readNode (plainSession n) v else none := by
  rw [slotView, onNode]
  simp only [plainSession, true_and, nodeName_inj]
  split_ifs
  · rfl
  · exact readNode_empty

theorem actors_do_not_interfere_two_actors :
    let w : World := ⟨(oneActor 20 oneOverlay).insert 21 {}, fun _ _ _ _ _ => none, []⟩
    let clear : Event := .console .clear (some 20)
    let erase : Event := .console .erase (some 21)
    (run (step (plainSession 1)) w [clear, erase]).actorData =
        (run (step (plainSession 1)) w [erase, clear]).actorData ∧
      (run (step (plainSession 1)) w [clear, erase]).overrides =
        (run (step (plainSession 1)) w [erase, clear]).overrides := by
  intro w clear erase
  have hes : Along (step (plainSession 1)) Possible w [clear, erase] := ⟨trivial, trivial, trivial⟩
  have hes' : Along (step (plainSession 1)) Possible w [erase, clear] := ⟨trivial, trivial, trivial⟩
  refine (actors_do_not_interfere (plainSession 1) hes hes').2 rfl rfl fun a => ?_
  by_cases h : (20 : FormID) = a
  · subst h
    rfl
  · by_cases h' : (21 : FormID) = a <;> simp [clear, erase, seenBy, h, h']

end Isolation

end OverlaySaver
