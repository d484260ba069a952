import OverlaySaver.SavedGame
import OverlaySaver.Lifetime

/-!
# Restoring overlays

A restore is a load, the `Load3D` hook of an actor and the task it queued. On a body part it
refills the slots with the overlays that were captured, so a later capture compacts the
refilled slots: where SKEE lost its overrides that gives the captured list back, and where
SKEE kept them it does so if the occupied slots have no gap. The string pool of the session spells
a path after the load as it did before the save.
-/

namespace OverlaySaver
open Transition Compaction

variable (E : Session)

/-- The texture paths of the overlays an actor shows have at most 65535 bytes. -/
def ShownFit (t : Overrides) (a : FormID) : Prop :=
  ∀ p, ∀ o ∈ shown E t a p, o.texturePath.length ≤ 65535

structure SavesActor (a : FormID) (w : World) (c : SaveCall) : Prop where
  order : Enumerates c.order w.actorData
  found : c.lookupByID a = true
  opened : c.openRecord = true

structure LoadsActor (a : FormID) (l : LoadCall) : Prop where
  injective : l.Injective
  resolved : l.resolveFormID a = some a
  found : l.lookupByID a = true

section Restore
variable {E} {a : FormID}

theorem captureRecord_pathsFit {t : Overrides} (h : ShownFit E t a) (r : ActorRecord) :
    PathsFit (captureRecord E t a r) := by
  refine ⟨fun p o ho => ?_⟩
  rw [captureRecord_list] at ho
  exact h p o ho

theorem readNode_of_mem_shown {t : Overrides} {p : Part} {o : RMOverlay}
    (h : o ∈ shown E t a p) : ∃ v, readNode E v = some o := by
  obtain ⟨i, _, hi⟩ := mem_compact.mp h
  exact ⟨_, hi⟩

theorem possible_restore (l : LoadCall) (cosave : List CosaveRecord) (w : World) :
    Along (step E) Possible w [.load l cosave, .load3D a, .task a] :=
  ⟨trivial, trivial, List.mem_append_right w.tasks (List.mem_singleton.mpr rfl), trivial⟩

theorem view_restored {l : LoadCall} {cosave : List CosaveRecord} {w : World} {r : ActorRecord}
    (hr : (onGameLoaded l cosave w).actorData.lookup a = some r) :
    (run (step E) w [.load l cosave, .load3D a, .task a]).view a =
      ⟨some { r with alreadyApplied := true }, applyRecord E w.overrides a r a⟩ := by
  have hu := unapplied_onGameLoaded l cosave w a r hr
  have hl : (loadRecords l 0 ∅ cosave).lookup a = some r := hr
  have ha := applyRecord_congr E (ActorView.mk (some r) (w.overrides a)).table a r w.overrides rfl
  rw [view_run E (possible_restore l cosave w)]
  simp only [seenBy, List.filterMap_cons, List.filterMap_nil, hl, ↓reduceIte, run_cons, run_nil,
    ActorView.step, ActorView.apply, hu, Bool.false_and, Bool.false_eq_true]
  rw [← ha]
  rfl

theorem slotView_restored (hslots : ∀ p, E.slots p ≤ 255) {t : Overrides} (hpaths : ShownFit E t a)
    (r : ActorRecord) (t' : Overrides) (p : Part) :
    slotView E (applyRecord E t' a (reloadRecord (captureRecord E t a r))) a p =
      refill (shown E t a p) (slotView E t' a p) := by
  have hl := shown_length_le E t a p
  have hs := hslots p
  have hlen : ((reloadRecord (captureRecord E t a r)).list p).length = (shown E t a p).length := by
    rw [reloadRecord_list, List.length_map, captureRecord_list]
  apply slotView_applyRecord
  · rw [reloadRecord_looks (captureRecord_pathsFit hpaths r), captureRecord_looks, shownLooks]
  · exact fun o ho => readNode_of_mem_shown ho
  · rw [writtenSlots_eq_length (by omega) (by omega), hlen]

variable {w : World} {c : SaveCall}

theorem toSave_of_found (hc : SavesActor a w c) (r : ActorRecord) :
    toSave E c w a r = captureRecord E w.overrides a r := if_pos hc.found

theorem lookup_restored (hfits : SaveFits E c w) (hc : SavesActor a w c) {l : LoadCall}
    (hl : LoadsActor a l) {r : ActorRecord} (hr : w.actorData.lookup a = some r) (w' : World) :
    (onGameLoaded l (onGameSaved E c w).2 w').actorData.lookup a =
      some (reloadRecord (captureRecord E w.overrides a r)) :=
  (lookup_loaded_saved E hfits hc.opened hl.injective w').mpr
    ⟨a, r, hr, hl.resolved, hl.found, by rw [toSave_of_found hc]⟩

theorem cosaveLooks_of_found (hfits : SaveFits E c w) (hc : SavesActor a w c)
    (hreg : a ∈ w.actorData) (hpaths : ShownFit E w.overrides a) :
    cosaveLooks (onGameSaved E c w).2 a = some (shownLooks E w.overrides a) := by
  obtain ⟨r, hr⟩ := Finmap.mem_iff.mp hreg
  have hp := captureRecord_pathsFit hpaths r
  rw [← toSave_of_found hc] at hp
  rw [cosaveLooks_saved E hfits hc.opened hr hp, toSave_of_found hc, captureRecord_looks]

/-- Where SKEE lost the overrides of an actor, the first task after the load brings back
the lists that were saved: a capture finds the same overlays in the same order. -/
theorem restore_guarantee (hslots : ∀ p, E.slots p ≤ 255) (hsize : w.actorData.keys.card < 2 ^ 32)
    (hlists : AllRecords ListsFit w.actorData) (hreg : a ∈ w.actorData)
    (hpaths : ShownFit E w.overrides a) (hc : SavesActor a w c) {l : LoadCall}
    (hl : LoadsActor a l) (w' : World)
    (hempty : ∀ p, ∀ i < (E.slots p).toNat,
      w'.overrides a (E.sex a) (nodeName p i) = fun _ _ => none) :
    let saved := onGameSaved E c w
    let restored := run (step E) w' [.load l saved.2, .load3D a, .task a]
    ∃ r r', saved.1.actorData.lookup a = some r ∧
      (buildOverlayList E restored a).actorData.lookup a = some r' ∧
      (∀ p, r'.list p = r.list p) ∧ cosaveLooks saved.2 a = some r'.looks := by
  intro saved restored
  obtain ⟨r, hr⟩ := Finmap.mem_iff.mp hreg
  have hfits := saveFits_of_listsFit E hslots (c := c) hc.order hsize hlists
  have hview := view_restored (E := E) (lookup_restored hfits hc hl hr w')
  obtain ⟨x, hx⟩ : ∃ x, restored.actorData.lookup a = some x :=
    ⟨_, congrArg ActorView.record hview⟩
  have hovr := congrArg ActorView.overrides hview
  have hshown : ∀ p, shown E restored.overrides a p = shown E w.overrides a p := by
    intro p
    have hs := slotView_restored hslots hpaths r w'.overrides p
    rw [shown_congr E _ (applyRecord E w'.overrides a _) hovr, shown, hs]
    apply compact_refill_of_empty (compact_length_le _ _)
    intro i hi
    rw [slotView, hempty p i hi, readNode_empty]
  refine ⟨captureRecord E w.overrides a r, captureRecord E restored.overrides a x, ?_, ?_,
    fun p => ?_, ?_⟩
  · rw [← toSave_of_found (E := E) hc]
    exact (lookup_rebuildAll E hc.order a).trans (by rw [hr, Option.map_some])
  · rw [lookup_buildOverlayList, if_pos rfl, hx, Option.map_some]
  · rw [captureRecord_list, captureRecord_list, hshown]
  · rw [cosaveLooks_of_found hfits hc hreg hpaths, captureRecord_looks]
    refine congrArg some (funext fun p => ?_)
    rw [shownLooks, shownLooks, hshown]

def onSlot (i : ℕ) : Overrides := fun b f m =>
  if b = 20 ∧ f = false ∧ m = nodeName .head i then
    Look.write ⟨0x3f000000, 0xff0000, CStr.ofString [97]⟩
  else fun _ _ => none

theorem slotView_onSlot (n : ℤ) (i j : ℕ) (p : Part) :
    slotView (plainSession n) (onSlot i) 20 p j =
      if p = .head ∧ j = i then some ⟨0x3f000000, 0xff0000, 1, [97]⟩ else none := by
  refine (slotView_onNode n .head p i j _).trans ?_
  split_ifs <;> rfl

theorem shownFit_onSlot (n : ℤ) (i : ℕ) : ShownFit (plainSession n) (onSlot i) 20 := by
  intro p o ho
  obtain ⟨j, _, hj⟩ := mem_compact.mp ho
  rw [slotView_onSlot] at hj
  split_ifs at hj
  rw [← Option.some.inj hj]
  exact Nat.le_of_ble_eq_true rfl

def foundSave (order : List FormID) : SaveCall := ⟨fun _ => true, order, true⟩

theorem loadsActor_everyoneFound (a : FormID) : LoadsActor a everyoneFound :=
  ⟨everyoneFound_injective, rfl, rfl⟩

theorem restore_guarantee_one_slot :
    let E := plainSession 1
    let w : World := ⟨oneActor 20 {}, onSlot 0, []⟩
    let saved := onGameSaved E (foundSave [20]) w
    let restored := run (step E) ⟨∅, fun _ _ _ _ _ => none, []⟩
      [.load everyoneFound saved.2, .load3D 20, .task 20]
    ∃ r r', saved.1.actorData.lookup 20 = some r ∧
      (buildOverlayList E restored 20).actorData.lookup 20 = some r' ∧
      (∀ p, r'.list p = r.list p) ∧ cosaveLooks saved.2 20 = some r'.looks := by
  intro E w
  have hreg : 20 ∈ w.actorData := Finmap.mem_of_lookup_eq_some (lookup_oneActor 20 20 {})
  have hc : SavesActor 20 w (foundSave [20]) := ⟨enumerates_oneActor 20 {}, rfl, rfl⟩
  exact restore_guarantee (plainSession_slots_le (by omega)) (keys_oneActor_card_lt 20 {})
    (forall_oneActor 20 {} default_listsFit) hreg (shownFit_onSlot 1 0) hc
    (loadsActor_everyoneFound 20) ⟨∅, fun _ _ _ _ _ => none, []⟩ fun _ _ _ => rfl

end Restore

section Cycles
variable {E} {a : FormID}

/-- A save, a load of what it wrote and the first task after it, while SKEE keeps its
overrides. -/
inductive Cycle (E : Session) (a : FormID) (w : World) : World → Prop
  | intro {c : SaveCall} {l : LoadCall} (hc : SavesActor a w c) (hl : LoadsActor a l) :
      Cycle E a w
        (run (step E) w [.save c, .load l (onGameSaved E c w).2, .load3D a, .task a])

/-- However many cycles lie between them, two saves write the same lists. -/
def CyclesStable (E : Session) (a : FormID) (w : World) : Prop :=
  ∀ w', Relation.ReflTransGen (Cycle E a) w w' → ∀ c c', SavesActor a w c → SavesActor a w' c' →
    cosaveLooks (onGameSaved E c' w').2 a = cosaveLooks (onGameSaved E c w).2 a

structure Cyclable (E : Session) (a : FormID) (w : World) : Prop where
  registered : a ∈ w.actorData
  size : w.actorData.keys.card < 2 ^ 32
  lists : AllRecords ListsFit w.actorData
  paths : ShownFit E w.overrides a

variable {w w' : World}

theorem Cyclable.cosaveLooks (hslots : ∀ p, E.slots p ≤ 255) (h : Cyclable E a w) {c : SaveCall}
    (hc : SavesActor a w c) :
    cosaveLooks (onGameSaved E c w).2 a = some (shownLooks E w.overrides a) :=
  cosaveLooks_of_found (saveFits_of_listsFit E hslots hc.order h.size h.lists) hc h.registered
    h.paths

theorem keys_loaded_card_le {c : SaveCall} (hfits : SaveFits E c w) (hopen : c.openRecord = true)
    (l : LoadCall) (w' : World) :
    (onGameLoaded l (onGameSaved E c w).2 w').actorData.keys.card ≤ w.actorData.keys.card := by
  have hord := enumerates_rebuildAll E hfits.order
  have hsize := (keys_rebuildAll E hfits.order).symm ▸ hfits.size
  rw [onGameSaved_cosave E hopen,
    onGameLoaded_savedCosave hord hsize (listsFit_rebuildAll E hfits)]
  apply (keys_foldl_storeEntry_card_le l _ ∅).trans
  rw [Finmap.keys_empty, Finset.card_empty, Nat.zero_add, ← hfits.order.length_eq]
  exact savedEntries_length_le _ _

theorem lookup_of_restored {l : LoadCall} {cosave : List CosaveRecord} {b : FormID}
    {x : ActorRecord}
    (h : (run (step E) w [.load l cosave, .load3D a, .task a]).actorData.lookup b = some x) :
    ∃ y, (onGameLoaded l cosave w).actorData.lookup b = some y ∧ ∀ p, x.list p = y.list p := by
  have hv := congrArg ActorView.record (view_run E (possible_restore (a := a) l cosave w) b)
  have hx := hv.symm.trans h
  by_cases hb : a = b
  · simp only [List.filterMap_cons, seenBy, if_pos hb, List.filterMap_nil, run_cons, run_nil] at hx
    exact ActorView.record_apply E b hx
  · simp only [List.filterMap_cons, seenBy, if_neg hb, List.filterMap_nil, run_cons, run_nil] at hx
    exact ⟨x, hx, fun _ => rfl⟩

theorem overrides_saved {c : SaveCall} (hord : Enumerates c.order w.actorData) :
    (onGameSaved E c w).1.overrides a = w.overrides a := by
  have hv := congrArg ActorView.overrides (view_rebuildAll E w a hord)
  refine Eq.trans hv ?_
  split_ifs <;> rfl

theorem Cycle.view (hslots : ∀ p, E.slots p ≤ 255) (h : Cyclable E a w) (hw : Cycle E a w w') :
    ∃ r, w'.actorData.lookup a = some { reloadRecord r with alreadyApplied := true } ∧
      w'.overrides a = applyRecord E w.overrides a (reloadRecord r) a ∧
      ∃ r', r = captureRecord E w.overrides a r' := by
  obtain ⟨hc, hl⟩ := hw
  rename_i c l
  obtain ⟨r, hr⟩ := Finmap.mem_iff.mp h.registered
  have hfits := saveFits_of_listsFit E hslots (c := c) hc.order h.size h.lists
  have hview := view_restored (E := E) (w := (onGameSaved E c w).1)
    (lookup_restored hfits hc hl hr _)
  have hovr := applyRecord_congr E (onGameSaved E c w).1.overrides a
    (reloadRecord (captureRecord E w.overrides a r)) w.overrides (overrides_saved hc.order)
  exact ⟨captureRecord E w.overrides a r, congrArg ActorView.record hview,
    (congrArg ActorView.overrides hview).trans hovr, r, rfl⟩

theorem Cycle.slotView (hslots : ∀ p, E.slots p ≤ 255) (h : Cyclable E a w)
    (hw : Cycle E a w w') (p : Part) :
    slotView E w'.overrides a p =
      refill (shown E w.overrides a p) (slotView E w.overrides a p) := by
  obtain ⟨r, _, hovr, r', rfl⟩ := hw.view hslots h
  rw [slotView_congr E _ _ hovr, slotView_restored hslots h.paths]

theorem Cycle.shownFit (hslots : ∀ p, E.slots p ≤ 255) (h : Cyclable E a w)
    (hw : Cycle E a w w') : ShownFit E w'.overrides a := by
  intro p o ho
  obtain ⟨i, hi, hs⟩ := mem_compact.mp ho
  rw [hw.slotView hslots h p] at hs
  by_cases hlt : i < (shown E w.overrides a p).length
  · rw [refill_of_lt _ hlt] at hs
    exact h.paths p o (List.mem_of_getElem? hs)
  · rw [refill_of_le _ (Nat.le_of_not_lt hlt)] at hs
    exact h.paths p o (mem_compact.mpr ⟨i, hi, hs⟩)

theorem Cycle.cyclable (hslots : ∀ p, E.slots p ≤ 255) (h : Cyclable E a w)
    (hw : Cycle E a w w') : Cyclable E a w' := by
  have hpaths := hw.shownFit hslots h
  obtain ⟨r, hr, -⟩ := hw.view hslots h
  obtain ⟨hc, hl⟩ := hw
  rename_i c l
  have hfits := saveFits_of_listsFit E hslots (c := c) hc.order h.size h.lists
  refine ⟨Finmap.mem_of_lookup_eq_some hr, ?_, ?_, hpaths⟩
  · apply lt_of_le_of_lt (Finset.card_le_card fun b hb => ?_)
      (lt_of_le_of_lt (keys_loaded_card_le hfits hc.opened l (onGameSaved E c w).1) h.size)
    obtain ⟨x, hx⟩ := Finmap.mem_iff.mp (Finmap.mem_keys.mp hb)
    obtain ⟨y, hy, _⟩ := lookup_of_restored hx
    exact Finmap.mem_keys.mpr (Finmap.mem_of_lookup_eq_some hy)
  · intro b x hx
    obtain ⟨y, hy, hxy⟩ := lookup_of_restored hx
    obtain ⟨b', r', hr', _, _, rfl⟩ :=
      (lookup_loaded_saved E hfits hc.opened hl.injective _).mp hy
    refine ⟨fun p => ?_⟩
    rw [hxy p]
    exact (reloadRecord_listsFit (hfits.lists b' r' hr')).length_le p

theorem exists_cycle (w : World) (a : FormID) : ∃ w', Cycle E a w w' := by
  obtain ⟨order, hord⟩ := exists_enumerates w.actorData
  exact ⟨_, Cycle.intro ⟨hord, rfl, rfl⟩ (c := foundSave order) (loadsActor_everyoneFound a)⟩

theorem exists_savesActor (w : World) (a : FormID) : ∃ c, SavesActor a w c := by
  obtain ⟨order, hord⟩ := exists_enumerates w.actorData
  exact ⟨foundSave order, hord, rfl, rfl⟩

theorem filledPrefix_of_cyclesStable (hslots : ∀ p, E.slots p ≤ 255) (h : Cyclable E a w)
    (hstable : CyclesStable E a w) (p : Part) :
    FilledPrefix (slotView E w.overrides a p) (E.slots p).toNat := by
  obtain ⟨w', hw⟩ := exists_cycle (E := E) w a
  obtain ⟨c, hc⟩ := exists_savesActor w a
  obtain ⟨c', hc'⟩ := exists_savesActor w' a
  have hlooks := hstable w' (Relation.ReflTransGen.single hw) c c' hc hc'
  rw [h.cosaveLooks hslots hc, (hw.cyclable hslots h).cosaveLooks hslots hc'] at hlooks
  have hlen := congrArg List.length (congrFun (Option.some.inj hlooks) p)
  rw [shownLooks, shownLooks, List.length_map, List.length_map, shown, hw.slotView hslots h] at hlen
  exact (compact_refill_length_iff _ _).mp hlen

theorem slotView_of_cycles (hslots : ∀ p, E.slots p ≤ 255) (h : Cyclable E a w)
    (hfilled : ∀ p, FilledPrefix (slotView E w.overrides a p) (E.slots p).toNat)
    (hw : Relation.ReflTransGen (Cycle E a) w w') :
    Cyclable E a w' ∧ ∀ p, ∀ i < (E.slots p).toNat,
      slotView E w'.overrides a p i = slotView E w.overrides a p i := by
  induction hw with
  | refl => exact ⟨h, fun _ _ _ => rfl⟩
  | tail _ hlast ih =>
    obtain ⟨hcyc, hsame⟩ := ih
    refine ⟨hlast.cyclable hslots hcyc, fun p i hi => ?_⟩
    have hshown : shown E _ a p = shown E w.overrides a p := compact_congr (hsame p)
    rw [hlast.slotView hslots hcyc p, hshown, refill, hsame p i hi]
    exact refill_compact_of_filledPrefix (hfilled p) i hi

theorem cyclesStable_of_filledPrefix (hslots : ∀ p, E.slots p ≤ 255) (h : Cyclable E a w)
    (hfilled : ∀ p, FilledPrefix (slotView E w.overrides a p) (E.slots p).toNat) :
    CyclesStable E a w := by
  intro w' hw c c' hc hc'
  obtain ⟨hcyc, hsame⟩ := slotView_of_cycles hslots h hfilled hw
  rw [h.cosaveLooks hslots hc, hcyc.cosaveLooks hslots hc']
  refine congrArg some (funext fun p => ?_)
  have hshown : shown E w'.overrides a p = shown E w.overrides a p := compact_congr (hsame p)
  rw [shownLooks, shownLooks, hshown]

/-- Where SKEE kept its overrides, saves and loads write the same lists again and again
exactly when on each body part the occupied slots are the first ones: a list is
written back to the slots from the first on, while the slots behind a gap keep what
they showed. -/
theorem save_load_cycles_stable_iff (hslots : ∀ p, E.slots p ≤ 255) (hreg : a ∈ w.actorData)
    (hsize : w.actorData.keys.card < 2 ^ 32) (hlists : AllRecords ListsFit w.actorData)
    (hpaths : ShownFit E w.overrides a) :
    CyclesStable E a w ↔ ∀ p, FilledPrefix (slotView E w.overrides a p) (E.slots p).toNat := by
  have h : Cyclable E a w := ⟨hreg, hsize, hlists, hpaths⟩
  exact ⟨filledPrefix_of_cyclesStable hslots h, cyclesStable_of_filledPrefix hslots h⟩

theorem cyclable_onSlot (n : ℤ) (i : ℕ) (tasks : List FormID) :
    Cyclable (plainSession n) 20 ⟨oneActor 20 {}, onSlot i, tasks⟩ where
  registered := Finmap.mem_of_lookup_eq_some (lookup_oneActor 20 20 {})
  size := keys_oneActor_card_lt 20 {}
  lists := forall_oneActor 20 {} default_listsFit
  paths := shownFit_onSlot n i

theorem save_load_cycles_stable_first_slot :
    CyclesStable (plainSession 2) 20 ⟨oneActor 20 {}, onSlot 0, []⟩ := by
  have h := cyclable_onSlot 2 0 []
  refine (save_load_cycles_stable_iff (plainSession_slots_le (by omega)) h.registered h.size
    h.lists h.paths).mpr fun p => ⟨if p = .head then 1 else 0, ?_, fun i _ => ?_⟩
  · cases p <;> decide
  · rw [slotView_onSlot]
    cases p <;> by_cases hi : i = 0 <;> simp [hi]

theorem save_load_cycles_second_slot_unstable :
    ¬ CyclesStable (plainSession 2) 20 ⟨oneActor 20 {}, onSlot 1, []⟩ := by
  intro hstable
  obtain ⟨k, _, hk⟩ := filledPrefix_of_cyclesStable (plainSession_slots_le (by omega))
    (cyclable_onSlot 2 1 []) hstable .head
  have h0 := hk 0 Nat.two_pos
  have h1 := hk 1 Nat.one_lt_two
  simp only [slotView_onSlot] at h0 h1
  simp at h0 h1
  omega

end Cycles

end OverlaySaver
