import OverlaySaver.Wardrobe
import OverlaySaver.Appearance
import OverlaySaver.CosaveStream
import OverlaySaver.FieldWidths
import OverlaySaver.Retention

/-!
# The plugin keeps a wardrobe

A playthrough represents a wardrobe: the record of an actor its outfit, the nodes of the slots
what the actor wears, a cosave a save. Each event of the game does to the wardrobe what the
wardrobe's own step says, whatever the strings, length fields and bytes behind it are.
-/

namespace OverlaySaver
open Transition Compaction

variable (E : Session)

def ActorRecord.outfit (r : ActorRecord) : Outfit := ⟨r.looks, r.alreadyApplied⟩

def ActorView.closet (a : FormID) (v : ActorView) : Closet :=
  ⟨v.record.map ActorRecord.outfit, fun p i => v.overrides (E.sex a) (nodeName p i)⟩

def ActorRecord.Short (r : ActorRecord) : Prop := ∀ p, (r.list p).length < 2 ^ 31

theorem ActorRecord.Short.reverse {r : ActorRecord} (h : r.Short) :
    (r.mapLists List.reverse).Short := by
  intro p
  rw [ActorRecord.mapLists_list, List.length_reverse]
  exact h p

namespace ActorView
variable {E} {a : FormID} {v : ActorView}

def Short (v : ActorView) : Prop := ∀ r, v.record = some r → r.Short

section Short

theorem short_captureRecord (hint : IntSlots E) (t : Overrides) (a : FormID) (r : ActorRecord) :
    (captureRecord E t a r).Short := by
  intro p
  have hlen := shown_length_le E t a p
  have hslots := (hint p).2
  rw [captureRecord_list]
  omega

theorem short_capture (hint : IntSlots E) : (capture E a v).Short := by
  intro r hr
  obtain ⟨r', -, rfl⟩ := Option.map_eq_some_iff.mp hr
  exact short_captureRecord hint v.table a r'

theorem short_register (hint : IntSlots E) (hv : v.Short) : (register E a v).Short := by
  rw [register]
  split
  · exact hv
  · intro r hr
    exact Option.some.inj hr ▸ short_captureRecord hint v.table a {}

theorem short_apply (hv : v.Short) (force : Bool) : (apply E a v force).Short := by
  intro r hr p
  obtain ⟨r', hr', hlists⟩ := record_apply E a hr
  rw [hlists]
  exact hv r' hr' p

theorem short_flip (hv : v.Short) : (flip E a v).Short := by
  rw [flip]
  split
  · exact hv
  · rename_i r hr
    apply short_apply
    intro r' hr'
    exact Option.some.inj hr' ▸ (hv r hr).reverse

theorem short_step (hint : IntSlots E) {m : Move} (hm : ∀ r, m = .load (some r) → r.Short)
    (hv : v.Short) : (step E a v m).Short := by
  cases m with
  | load r => exact fun r' hr' => hm r' (congrArg Move.load hr')
  | save found =>
    cases found with
    | false => exact hv
    | true => exact short_capture hint
  | task => exact short_apply hv false
  | console cmd =>
    cases cmd with
    | help | reset3d | clear => exact hv
    | register => exact short_register hint hv
    | apply => exact short_apply hv true
    | update => exact short_capture hint
    | erase => exact fun r hr => by cases hr
    | flip => exact short_flip hv
  | skee t => exact hv

end Short

section Closet

theorem shownLooks_eq_seen (p : Part) : shownLooks E v.table a p = (v.closet E a).seen E p := by
  rw [shownLooks, shown, map_compact]
  rfl

theorem outfit_captureRecord (r : ActorRecord) :
    (captureRecord E v.table a r).outfit = { r.outfit with looks := (v.closet E a).seen E } := by
  have hlooks : (captureRecord E v.table a r).looks = (v.closet E a).seen E := by
    rw [captureRecord_looks]
    exact funext shownLooks_eq_seen
  rw [ActorRecord.outfit, hlooks]
  rfl

theorem closet_capture : (capture E a v).closet E a = (v.closet E a).capture E := by
  simp only [closet, capture, Closet.capture, Option.map_map, Closet.mk.injEq, and_true]
  congr 1
  funext r
  exact outfit_captureRecord r

theorem closet_register : (register E a v).closet E a = (v.closet E a).register E := by
  rw [register, Closet.register]
  cases hr : v.record with
  | some r => simp [closet, hr]
  | none =>
    simp only [closet, hr, Option.map_none, Option.map_some, outfit_captureRecord]
    rfl

theorem slots_applyRecord {r : ActorRecord} (hr : r.Short) (t : Overrides) (p : Part) :
    (fun i => applyRecord E t a r a (E.sex a) (nodeName p i)) =
      overwrite (((r.looks p).take (E.slots p).toNat).map Look.write)
        (fun i => t a (E.sex a) (nodeName p i)) := by
  have hwritten : appliedSlots E r p = min (E.slots p).toNat (r.list p).length := by
    rw [appliedSlots, writtenSlots, castInt_of_lt (hr p)]
    omega
  funext i
  by_cases hi : i < appliedSlots E r p
  · obtain ⟨o, ho, hnode⟩ := applyRecord_on E t a r hi
    have hlook : (((r.looks p).take (E.slots p).toNat).map Look.write)[i]? = some o.look.write := by
      rw [List.getElem?_map, List.getElem?_take_of_lt (by omega), ActorRecord.looks,
        List.getElem?_map, ho]
      rfl
    rw [hnode, overwrite_of_getElem? _ hlook]
  · have hoff : ¬ OnSlots E (appliedSlots E r) a a (E.sex a) (nodeName p i) := by
      rw [onSlots_nodeName]
      exact hi
    have hlen : (((r.looks p).take (E.slots p).toNat).map Look.write).length ≤ i := by
      rw [List.length_map, List.length_take, ActorRecord.looks, List.length_map]
      omega
    rw [applyRecord_off E t a r hoff, overwrite_of_le _ hlen]

theorem closet_apply (hv : v.Short) (force : Bool) :
    (apply E a v force).closet E a = (v.closet E a).putOn E force := by
  rw [apply, Closet.putOn]
  cases hr : v.record with
  | none => simp [closet, hr]
  | some r =>
    have hslots := fun p => slots_applyRecord (E := E) (a := a) (hv r hr) v.table p
    simp only [closet, hr, Option.map_some, ActorRecord.outfit]
    split_ifs with hflag
    · rw [hr]
      rfl
    · simp only [Option.map_some, Closet.dress, Closet.mk.injEq]
      exact ⟨rfl, funext hslots⟩

theorem closet_clear : (clear E a v).closet E a = (v.closet E a).undress E := by
  simp only [clear, closet, Closet.undress, Closet.mk.injEq, true_and]
  funext p i
  by_cases hi : i < E.iHead.toNat
  · rw [clearOverlays_slot E v.table a hi,
      overwrite_of_getElem? _ (List.getElem?_replicate_of_lt hi)]
    rfl
  · have hoff : ¬ OnSlots E (fun _ => E.iHead.toNat) a a (E.sex a) (nodeName p i) := by
      rw [onSlots_nodeName]
      exact hi
    rw [clearOverlays_off E v.table a hoff,
      overwrite_of_le _ (by rw [List.length_replicate]; omega)]
    rfl

theorem closet_flip (hv : v.Short) : (flip E a v).closet E a = (v.closet E a).flip E := by
  rw [flip, Closet.flip]
  cases hr : v.record with
  | none => simp [closet, hr]
  | some r =>
    have hshort : Short ⟨some (r.mapLists List.reverse), (clear E a v).overrides⟩ := by
      intro r' hr'
      exact Option.some.inj hr' ▸ (hv r hr).reverse
    have hlooks : (r.mapLists List.reverse).looks = fun p => (r.looks p).reverse := by
      funext p
      rw [ActorRecord.looks, ActorRecord.mapLists_list, List.map_reverse, ActorRecord.looks]
    have hcloset : closet E a ⟨some (r.mapLists List.reverse), (clear E a v).overrides⟩ =
        { (v.closet E a).undress E with
          outfit := some { r.outfit with looks := fun p => (r.looks p).reverse } } := by
      rw [← closet_clear, closet, Option.map_some, ActorRecord.outfit, hlooks]
      rfl
    rw [closet_apply hshort true, hcloset, closet, hr, Option.map_some]
    rfl

theorem closet_console (hv : v.Short) (cmd : Callback) :
    (step E a v (.console cmd)).closet E a = (v.closet E a).act E cmd := by
  cases cmd with
  | help | reset3d | erase => rfl
  | register => exact closet_register
  | apply => exact closet_apply hv true
  | update => exact closet_capture
  | flip => exact closet_flip hv
  | clear => exact closet_clear

end Closet

end ActorView

section Saves

/-- The cosave is well formed and its entries are the outfits of the save. -/
def CosaveOf (cosave : List CosaveRecord) (s : Saved) : Prop :=
  ∃ es, Decodes cosave es ∧ s = es.map fun e => (e.formID, e.data.looks)

theorem cosaveOf_nil : CosaveOf [] [] := ⟨[], Decodes.nil, rfl⟩

theorem remembered_loaded {cosave : List CosaveRecord} {s : Saved} (h : CosaveOf cosave s)
    (l : LoadCall) (a : FormID) :
    ((loadRecords l 0 ∅ cosave).lookup a).map ActorRecord.outfit = Wardrobe.remembered l s a := by
  obtain ⟨es, hes, rfl⟩ := h
  rw [loadRecords_of_decodes l hes, lookup_storeEntries, Wardrobe.remembered]
  split_ifs
  · have hfilter : (fun e : FormID × (Part → List Look) =>
        decide (l.resolveFormID e.1 = some a)) ∘ (fun e : Entry => (e.formID, e.data.looks)) =
          fun e => decide (l.resolveFormID e.formID = some a) := rfl
    rw [lastFor, List.filter_map, hfilter, List.getLast?_map]
    cases hlast : (es.filter fun e => l.resolveFormID e.formID = some a).getLast? with
    | none => rfl
    | some e =>
      have hmem : e ∈ es := (List.mem_filter.mp (List.mem_of_getLast? hlast)).1
      simp only [Option.map_some, ActorRecord.outfit,
        reloadRecord_looks (hes.fits e hmem).paths]
      rfl
  · rfl

theorem cosaveOf_written {c : SaveCall} {w : World} {closets : FormID → Closet}
    (hclosets : ∀ a, closets a = ((onGameSaved E c w).1.view a).closet E a)
    (h : c.openRecord = true → SaveReads E c w) :
    CosaveOf (onGameSaved E c w).2 (Wardrobe.written c closets) := by
  rw [Wardrobe.written]
  split_ifs with hopen
  · refine ⟨_, decodes_saved E (h hopen) hopen, ?_⟩
    rw [storedEntries, List.map_filterMap]
    refine List.filterMap_congr fun a _ => ?_
    rw [hclosets a, ActorView.closet, Option.map_map, Option.map_map]
    rfl
  · have hnone : (onGameSaved E c w).2 = [] := by
      rw [onGameSaved, if_neg hopen]
    rw [hnone]
    exact cosaveOf_nil

end Saves

section Refinement

def PlayEvent.event (g : Playthrough) : PlayEvent → Event
  | .load l i => .load l (g.saves.getD i [])
  | .save c => .save c
  | .revert => .revert
  | .load3D a => .load3D a
  | .task a => .task a
  | .console cmd selected => .console cmd selected
  | .skee t => .skee t

def play (g : Playthrough) (e : PlayEvent) : Playthrough := playStep E g (e.event g)

/-- A save walks every record once and, where it writes, writes what fits; a task was queued. -/
def PlayFits (g : Playthrough) : PlayEvent → Prop
  | .save c => Enumerates c.order g.world.actorData ∧
      (c.openRecord = true → SaveReads E c g.world)
  | .task a => a ∈ g.world.tasks
  | _ => True

structure Represents (g : Playthrough) (w : Wardrobe) : Prop where
  closets : ∀ a, w.closets a = (g.world.view a).closet E a
  tasks : w.tasks = g.world.tasks
  saves : List.Forall₂ CosaveOf g.saves w.saves
  short : AllRecords ActorRecord.Short g.world.actorData

def wardrobeOf (t : World) : Wardrobe := ⟨fun a => (t.view a).closet E a, t.tasks, []⟩

theorem represents_wardrobeOf {t : World} (h : AllRecords ActorRecord.Short t.actorData) :
    Represents E ⟨t, []⟩ (wardrobeOf E t) := ⟨fun _ => rfl, rfl, .nil, h⟩

variable {E} {g : Playthrough} {w : Wardrobe} {e : PlayEvent}

theorem possible_of_playFits (h : PlayFits E g e) : Possible g.world (e.event g) := by
  cases e with
  | save c => exact h.1
  | task a => exact h
  | _ => trivial

theorem view_play (h : PlayFits E g e) (a : FormID) :
    (play E g e).world.view a = (seenBy a (e.event g)).elim (g.world.view a)
      (ActorView.step E a (g.world.view a)) := view_step E (possible_of_playFits h) a

theorem cosaveOf_getD (h : List.Forall₂ CosaveOf g.saves w.saves) (i : ℕ) :
    CosaveOf (g.saves.getD i []) (w.saves.getD i []) := by
  rw [List.getD_eq_getElem?_getD, List.getD_eq_getElem?_getD]
  by_cases hi : i < g.saves.length
  · have hi' : i < w.saves.length := h.length_eq ▸ hi
    rw [List.getElem?_eq_getElem hi, List.getElem?_eq_getElem hi']
    exact h.get hi hi'
  · rw [List.getElem?_eq_none (by omega), List.getElem?_eq_none (by have := h.length_eq; omega)]
    exact cosaveOf_nil

theorem short_play (hint : IntSlots E) (h : PlayFits E g e)
    (hs : AllRecords ActorRecord.Short g.world.actorData) :
    AllRecords ActorRecord.Short (play E g e).world.actorData := by
  intro a r hr
  have hv : (g.world.view a).Short := fun r hr => hs a r hr
  have hloaded : ∀ l cosave, AllRecords ActorRecord.Short (loadRecords l 0 ∅ cosave) := by
    intro l cosave b r hr p
    have hle := (narrow_loaded l cosave b r hr).lists.length_le p
    omega
  have hstep : ((play E g e).world.view a).Short := by
    rw [view_play h a]
    cases hm : seenBy a (e.event g) with
    | none => exact hv
    | some m =>
      refine ActorView.short_step hint (fun r hload => ?_) hv
      subst hload
      cases e with
      | load l i => exact hloaded l _ a r (Move.load.inj (Option.some.inj hm))
      | task b | console cmd selected =>
        rw [PlayEvent.event, seenBy] at hm
        split_ifs at hm
        cases hm
      | revert | load3D | save | skee => cases hm
  exact hstep r hr

theorem closets_play (h : PlayFits E g e) (hr : Represents E g w) (a : FormID) :
    (w.step E e).closets a = ((play E g e).world.view a).closet E a := by
  have hshort : (g.world.view a).Short := fun r hl => hr.short a r hl
  rw [view_play h a]
  cases e with
  | load l i =>
    have hloaded := remembered_loaded (cosaveOf_getD hr.saves i) l a
    simp only [Wardrobe.step, hr.closets, ← hloaded]
    rfl
  | save c =>
    simp only [Wardrobe.step, Wardrobe.captured, hr.closets, PlayEvent.event, seenBy,
      Option.elim_some, ActorView.step]
    split_ifs
    · exact ActorView.closet_capture.symm
    · rfl
  | revert =>
    simp only [Wardrobe.step, hr.closets]
    rfl
  | load3D b => exact hr.closets a
  | task b =>
    have hb : b ∈ w.tasks := hr.tasks ▸ h
    rw [Wardrobe.step, if_pos hb, PlayEvent.event, seenBy]
    split_ifs with hba
    · subst hba
      rw [Wardrobe.change_self, hr.closets]
      exact (ActorView.closet_apply hshort false).symm
    · rw [Wardrobe.change_of_ne _ fun he => hba he.symm]
      exact hr.closets a
  | console cmd selected =>
    cases selected with
    | none => exact hr.closets a
    | some b =>
      rw [Wardrobe.step, PlayEvent.event, seenBy]
      by_cases hba : b = a
      · subst hba
        rw [if_pos rfl, Wardrobe.change_self, hr.closets]
        exact (ActorView.closet_console hshort cmd).symm
      · rw [if_neg fun he => hba (Option.some.inj he), Wardrobe.change_of_ne _ fun he => hba he.symm]
        exact hr.closets a
  | skee t =>
    simp only [Wardrobe.step, hr.closets]
    rfl

theorem tasks_play (h : PlayFits E g e) (hr : Represents E g w) :
    (w.step E e).tasks = (play E g e).world.tasks := by
  have htasks : (play E g e).world.tasks = _ := step_tasks E g.world (e.event g)
  rw [htasks]
  cases e with
  | load | save | revert | skee => exact hr.tasks
  | load3D b => exact congrArg (fun tasks => tasks ++ [b]) hr.tasks
  | task b =>
    have hb : b ∈ w.tasks := hr.tasks ▸ h
    rw [Wardrobe.step, if_pos hb]
    exact congrArg (fun tasks => tasks.erase b) hr.tasks
  | console cmd selected => cases selected <;> exact hr.tasks

theorem saves_play (h : PlayFits E g e) (hr : Represents E g w) :
    List.Forall₂ CosaveOf (play E g e).saves (w.step E e).saves := by
  cases e with
  | load | revert | load3D | skee => exact hr.saves
  | save c =>
    have hwritten := cosaveOf_written E (closets_play h hr) h.2
    exact List.rel_append hr.saves (.cons hwritten .nil)
  | task b =>
    have hb : b ∈ w.tasks := hr.tasks ▸ h
    rw [Wardrobe.step, if_pos hb]
    exact hr.saves
  | console cmd selected => cases selected <;> exact hr.saves

theorem represents_play (hint : IntSlots E) (h : PlayFits E g e) (hr : Represents E g w) :
    Represents E (play E g e) (w.step E e) :=
  ⟨closets_play h hr, tasks_play h hr, saves_play h hr, short_play hint h hr.short⟩

/-- A run of the game is a run of the wardrobe: whatever the order of events, where each save
writes what fits its fields, outfits, slots and saves are those the wardrobe says. -/
theorem plugin_keeps_wardrobe (hint : IntSlots E) (hr : Represents E g w) {es : List PlayEvent}
    (hes : Along (play E) (PlayFits E) g es) :
    Represents E (run (play E) g es) (run (Wardrobe.step E) w es) :=
  hes.simulation (play E) (fun _ _ _ h hr => represents_play hint h hr) hr

theorem saveReads_onSlot (tasks : List FormID) :
    SaveReads (plainSession 1) (foundSave [20]) ⟨oneActor 20 {}, onSlot 0, tasks⟩ where
  fits := saveFits_of_listsFit (plainSession 1) (plainSession_slots_le (by omega))
    (enumerates_oneActor 20 {}) (keys_oneActor_card_lt 20 {})
    (forall_oneActor 20 {} default_listsFit)
  paths := by
    intro a r hr
    rw [lookup_oneActor] at hr
    split_ifs at hr with ha
    subst ha
    exact captureRecord_pathsFit (shownFit_onSlot 1 0) r

theorem plugin_keeps_wardrobe_save_and_restore :
    let E := plainSession 1
    let start : World := ⟨oneActor 20 {}, onSlot 0, []⟩
    let es : List PlayEvent := [.save (foundSave [20]), .load everyoneFound 0, .load3D 20, .task 20,
      .console .flip (some 20)]
    Represents E (run (play E) ⟨start, []⟩ es) (run (Wardrobe.step E) (wardrobeOf E start) es) := by
  intro E start es
  have hshort : AllRecords ActorRecord.Short start.actorData := by
    refine forall_oneActor 20 {} fun p => ?_
    rw [ActorRecord.default_list]
    exact Nat.two_pow_pos 31
  refine plugin_keeps_wardrobe intSlots_plainSession_one (represents_wardrobeOf E hshort) ?_
  exact ⟨⟨enumerates_oneActor 20 {}, fun _ => saveReads_onSlot []⟩, trivial, trivial,
    List.mem_append_right _ (List.mem_singleton.mpr rfl), trivial, trivial⟩

end Refinement

end OverlaySaver
