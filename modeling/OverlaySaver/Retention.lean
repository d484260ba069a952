import OverlaySaver.Restore

/-!
# What keeps a stored record

A playthrough is the state of the plugin together with the cosaves it has written. While
nothing applies, rebuilds or removes the record of an actor, only a save can change its
lists: it recaptures them from the overrides SKEE holds at that moment. If each save finds
them as they are stored, or does not find the actor, the record and every cosave keep them.
-/

namespace OverlaySaver
open Transition Compaction

structure Playthrough where
  world : World
  saves : List (List CosaveRecord) := []

variable (E : Session)

def playStep (g : Playthrough) (e : Event) : Playthrough where
  world := step E g.world e
  saves :=
    match e with
    | .save c => g.saves ++ [(onGameSaved E c g.world).2]
    | _ => g.saves

/-- A save that writes the record of an actor as it is stored: the game does not find the
actor, or SKEE shows what the record holds, and everything fits its length field. -/
structure KeepsOnSave (a : FormID) (w : World) (c : SaveCall) : Prop where
  fits : SaveFits E c w
  opened : c.openRecord = true
  paths : ∀ r, w.actorData.lookup a = some r → PathsFit (toSave E c w a r)
  shown : ∀ r, w.actorData.lookup a = some r → c.lookupByID a = true →
    shownLooks E w.overrides a = r.looks

/-- The saves keep the record, the loads are of earlier saves and find the actor, and of
the tasks and commands none is about the actor but `clear` and those that do nothing. -/
def KeepsStorage (a : FormID) (g : Playthrough) : Event → Prop
  | .load l cosave => cosave ∈ g.saves ∧ LoadsActor a l
  | .save c => KeepsOnSave E a g.world c
  | .revert => False
  | .load3D _ => True
  | .task b => b ≠ a ∧ b ∈ g.world.tasks
  | .console cmd selected =>
    selected = some a → cmd = .clear ∨ cmd = .help ∨ cmd = .reset3d
  | .skee _ => True

def Holds (a : FormID) (looks : Part → List Look) (cosave : List CosaveRecord) : Prop :=
  ∀ l, LoadsActor a l → ∃ r, (loadRecords l 0 ∅ cosave).lookup a = some r ∧ r.looks = looks

structure Retains (a : FormID) (looks : Part → List Look) (g : Playthrough) : Prop where
  stored : ∃ r, g.world.actorData.lookup a = some r ∧ r.looks = looks
  written : ∀ cosave ∈ g.saves, Holds a looks cosave

section Step
variable {a : FormID} {w : World} {c : SaveCall}

theorem toSave_looks (h : KeepsOnSave E a w c) {r : ActorRecord}
    (hr : w.actorData.lookup a = some r) : (toSave E c w a r).looks = r.looks := by
  rw [toSave]
  split_ifs with hf
  · rw [captureRecord_looks, h.shown r hr hf]
  · rfl

theorem holds_saved (h : KeepsOnSave E a w c) {r : ActorRecord}
    (hr : w.actorData.lookup a = some r) : Holds a r.looks (onGameSaved E c w).2 := by
  intro l hl
  have hlook := (lookup_loaded_saved E h.fits h.opened hl.injective w).mpr
    ⟨a, r, hr, hl.resolved, hl.found, rfl⟩
  refine ⟨_, hlook, ?_⟩
  rw [reloadRecord_looks (h.paths r hr), toSave_looks E h hr]

theorem cosaveLooks_of_holds {looks : Part → List Look} {cosave : List CosaveRecord}
    (h : Holds a looks cosave) : cosaveLooks cosave a = some looks := by
  obtain ⟨r, hr, rfl⟩ := h everyoneFound (loadsActor_everyoneFound a)
  rw [cosaveLooks, hr, Option.map_some]

theorem lookup_step_of_keeps {g : Playthrough} {e : Event} (h : KeepsStorage E a g e)
    (hload : ∀ l cosave, e ≠ .load l cosave) (hsave : ∀ c, e ≠ .save c) :
    (step E g.world e).actorData.lookup a = g.world.actorData.lookup a := by
  cases e with
  | load l cosave => exact absurd rfl (hload l cosave)
  | save c => exact absurd rfl (hsave c)
  | revert => exact h.elim
  | load3D b => rfl
  | task b =>
    have hv := view_step E (e := .task b) h.2 a
    rw [seenBy, if_neg h.1] at hv
    exact congrArg ActorView.record hv
  | console cmd selected =>
    have hv := view_step E (w := g.world) (e := .console cmd selected) trivial a
    refine (congrArg ActorView.record hv).trans ?_
    rw [seenBy]
    split_ifs with hs
    · rcases h hs with rfl | rfl | rfl <;> rfl
    · rfl
  | skee t => rfl

theorem retains_step {looks : Part → List Look} {g : Playthrough} {e : Event}
    (hk : KeepsStorage E a g e) (h : Retains a looks g) :
    Retains a looks (playStep E g e) := by
  obtain ⟨⟨r, hr, rfl⟩, hwritten⟩ := h
  cases e with
  | load l cosave => exact ⟨hwritten cosave hk.1 l hk.2, hwritten⟩
  | save c =>
    refine ⟨⟨toSave E c g.world a r, ?_, toSave_looks E hk hr⟩, fun cosave hc => ?_⟩
    · exact (lookup_rebuildAll E hk.fits.order a).trans (by rw [hr, Option.map_some])
    · rcases List.mem_append.mp hc with hc | hc
      · exact hwritten cosave hc
      · rw [List.mem_singleton.mp hc]
        exact holds_saved E hk hr
  | revert => exact hk.elim
  | load3D b => exact ⟨⟨r, hr, rfl⟩, hwritten⟩
  | task b =>
    have hl := lookup_step_of_keeps E hk (fun _ _ => Event.noConfusion) fun _ => Event.noConfusion
    exact ⟨⟨r, hl.trans hr, rfl⟩, hwritten⟩
  | console cmd selected =>
    have hl := lookup_step_of_keeps E hk (fun _ _ => Event.noConfusion) fun _ => Event.noConfusion
    exact ⟨⟨r, hl.trans hr, rfl⟩, hwritten⟩
  | skee t => exact ⟨⟨r, hr, rfl⟩, hwritten⟩

theorem retains_run {looks : Part → List Look} {g : Playthrough} {es : List Event}
    (hes : Along (playStep E) (KeepsStorage E a) g es) (h : Retains a looks g) :
    Retains a looks (run (playStep E) g es) :=
  hes.invariant (playStep E) (fun _ _ hk hr => retains_step E hk hr) h

end Step

section Runs
variable {a : FormID} {w : World}

/-- Every save of a run that begins with a load writes the lists that were loaded, if each
of them finds SKEE showing what is stored or does not find the actor. -/
theorem loaded_record_survives_saves {l : LoadCall} {cosave : List CosaveRecord}
    {r : ActorRecord} (hr : (step E w (.load l cosave)).actorData.lookup a = some r)
    {es : List Event}
    (hes : Along (playStep E) (KeepsStorage E a) ⟨step E w (.load l cosave), []⟩ es) :
    ∀ written ∈ (run (playStep E) ⟨step E w (.load l cosave), []⟩ es).saves,
      cosaveLooks written a = some r.looks := by
  have h : Retains a r.looks ⟨step E w (.load l cosave), []⟩ :=
    ⟨⟨r, hr, rfl⟩, fun _ hc => absurd hc List.not_mem_nil⟩
  exact fun written hw => cosaveLooks_of_holds ((retains_run E hes h).written written hw)

theorem loaded_oneActor {r : ActorRecord} (h : ListsFit r) (a : FormID) (w : World) :
    (onGameLoaded everyoneFound (savedCosave (oneActor a r) [a]) w).actorData =
      oneActor a (reloadRecord r) := by
  have he : savedEntries (oneActor a r) [a] = [⟨a, reloadRecord r⟩] := by
    simp [savedEntries, storedEntries, Entry.reload]
  rw [onGameLoaded_savedCosave (enumerates_oneActor a r) (keys_oneActor_card_lt a r)
    (forall_oneActor a r h), he]
  rfl

def unfoundSave (order : List FormID) : SaveCall := ⟨fun _ => false, order, true⟩

theorem keepsOnSave_unfound {r : ActorRecord} (hlists : ListsFit r) (hpaths : PathsFit r)
    (hw : w.actorData = oneActor a r) : KeepsOnSave E a w (unfoundSave [a]) where
  fits := {
    order := hw ▸ enumerates_oneActor a r
    size := hw ▸ keys_oneActor_card_lt a r
    lists := by
      intro b r' hr'
      rw [hw] at hr'
      exact forall_oneActor a r hlists b r' hr' }
  opened := rfl
  paths := by
    intro r' hr'
    rw [hw] at hr'
    exact forall_oneActor a r hpaths a r' hr'
  shown := fun _ _ hf => nomatch hf

theorem reloaded_oneOverlay_fits :
    ListsFit (reloadRecord oneOverlay) ∧ PathsFit (reloadRecord oneOverlay) :=
  ⟨reloadRecord_listsFit oneOverlay_fits.1, ⟨fun p => by cases p <;> decide⟩⟩

theorem loaded_record_survives_unfound_save :
    let E := plainSession 1
    let cosave := savedCosave (oneActor 20 oneOverlay) [20]
    let w := step E ⟨∅, fun _ _ _ _ _ => none, []⟩ (.load everyoneFound cosave)
    ∀ written ∈ (run (playStep E) ⟨w, []⟩ [.save (unfoundSave [20])]).saves,
      cosaveLooks written 20 = some (reloadRecord oneOverlay).looks := by
  intro E cosave w
  have hw : w.actorData = oneActor 20 (reloadRecord oneOverlay) :=
    loaded_oneActor oneOverlay_fits.1 20 _
  have hes : Along (playStep E) (KeepsStorage E 20) ⟨w, []⟩ [.save (unfoundSave [20])] :=
    ⟨keepsOnSave_unfound E reloaded_oneOverlay_fits.1 reloaded_oneOverlay_fits.2 hw, trivial⟩
  refine loaded_record_survives_saves E ?_ hes
  exact (congrArg (fun s => s.lookup 20) hw).trans (lookup_oneActor 20 20 _)

theorem shownLooks_of_empty {t : Overrides}
    (h : ∀ p, ∀ i < (E.slots p).toNat, t a (E.sex a) (nodeName p i) = fun _ _ => none) :
    shownLooks E t a = fun _ => [] := by
  funext p
  have hs : shown E t a p = [] := by
    refine compact_eq_nil_iff.mpr fun i hi => ?_
    rw [slotView, h p i hi, readNode_empty]
  rw [shownLooks, hs, List.map_nil]

theorem save_before_task_loses_lists :
    let E := plainSession 1
    let cosave := savedCosave (oneActor 20 oneOverlay) [20]
    let w := step E ⟨∅, fun _ _ _ _ _ => none, []⟩ (.load everyoneFound cosave)
    w.actorData.lookup 20 = some (reloadRecord oneOverlay) ∧
      (reloadRecord oneOverlay).looks .head ≠ [] ∧
      cosaveLooks (onGameSaved E (foundSave [20]) w).2 20 = some fun _ => [] := by
  intro E cosave w
  have hw : w.actorData = oneActor 20 (reloadRecord oneOverlay) :=
    loaded_oneActor oneOverlay_fits.1 20 _
  have hlook : w.actorData.lookup 20 = some (reloadRecord oneOverlay) := by
    rw [hw, lookup_oneActor, if_pos rfl]
  have hc : SavesActor 20 w (foundSave [20]) := ⟨hw ▸ enumerates_oneActor 20 _, rfl, rfl⟩
  have hempty : shownLooks E w.overrides 20 = fun _ => [] :=
    shownLooks_of_empty E fun _ _ _ => rfl
  have hfits := saveFits_of_listsFit E (plainSession_slots_le (by omega)) hc.order
    (hw ▸ keys_oneActor_card_lt 20 _) (hw ▸ forall_oneActor 20 _ reloaded_oneOverlay_fits.1)
  have hpaths : ShownFit E w.overrides 20 := by
    intro p o ho
    have hnil : shown E w.overrides 20 p = [] := List.map_eq_nil_iff.mp (congrFun hempty p)
    rw [hnil] at ho
    cases ho
  refine ⟨hlook, by decide, ?_⟩
  rw [cosaveLooks_of_found hfits hc (Finmap.mem_of_lookup_eq_some hlook) hpaths, hempty]

/-- After `clear` the stored lists stay what they were through saves, loads of those saves
and further clears, if each save finds SKEE showing what is stored or does not find the
actor. -/
theorem clear_keeps_storage {r : ActorRecord} (hr : w.actorData.lookup a = some r)
    {es : List Event}
    (hes : Along (playStep E) (KeepsStorage E a) ⟨step E w (.console .clear (some a)), []⟩ es) :
    ∃ r', (run (playStep E) ⟨step E w (.console .clear (some a)), []⟩ es).world.actorData.lookup a =
        some r' ∧ r'.looks = r.looks := by
  have h : Retains a r.looks ⟨step E w (.console .clear (some a)), []⟩ :=
    ⟨⟨r, hr, rfl⟩, fun _ hc => absurd hc List.not_mem_nil⟩
  exact (retains_run E hes h).stored

theorem clear_keeps_storage_unfound :
    let E := plainSession 1
    let w := step E ⟨oneActor 20 oneOverlay, onSlot 0, []⟩ (.console .clear (some 20))
    let written := (onGameSaved E (unfoundSave [20]) w).2
    ∃ r', (run (playStep E) ⟨w, []⟩
        [.save (unfoundSave [20]), .load everyoneFound written]).world.actorData.lookup 20 =
          some r' ∧ r'.looks = oneOverlay.looks := by
  intro E w written
  have hes : Along (playStep E) (KeepsStorage E 20) ⟨w, []⟩
      [.save (unfoundSave [20]), .load everyoneFound written] :=
    ⟨keepsOnSave_unfound E oneOverlay_fits.1 oneOverlay_fits.2 rfl,
      ⟨List.mem_singleton.mpr rfl, loadsActor_everyoneFound 20⟩, trivial⟩
  exact clear_keeps_storage E (lookup_oneActor 20 20 oneOverlay) hes

theorem save_after_clear_empties_storage :
    let E := plainSession 1
    let w : World := ⟨oneActor 20 oneOverlay, onSlot 0, []⟩
    let cleared := step E w (.console .clear (some 20))
    shownLooks E w.overrides 20 = oneOverlay.looks ∧
      cleared.actorData.lookup 20 = some oneOverlay ∧
      ∃ r, (step E cleared (.save (foundSave [20]))).actorData.lookup 20 = some r ∧
        r.looks ≠ oneOverlay.looks := by
  intro E w cleared
  have hlook : cleared.actorData.lookup 20 = some oneOverlay := lookup_oneActor 20 20 oneOverlay
  have hempty : shownLooks E cleared.overrides 20 = fun _ => [] := by
    refine shownLooks_of_empty E fun p i hi => ?_
    exact clearOverlays_slot E w.overrides 20 (by cases p <;> exact hi)
  refine ⟨?_, hlook, captureRecord E cleared.overrides 20 oneOverlay, ?_, ?_⟩
  · funext p
    cases p <;> rfl
  · have h := lookup_rebuildAll E (c := foundSave [20]) (w := cleared)
      (enumerates_oneActor 20 oneOverlay) 20
    rw [hlook] at h
    exact h
  · rw [captureRecord_looks, hempty]
    exact fun h => absurd (congrFun h .head) (by decide)

end Runs

end OverlaySaver
