import OverlaySaver.WardrobeRefinement

/-!
# When an actor shows what is stored

An application shows the stored lists just when each list has its slots, each overlay would be
captured as it is, and the slots behind the list are free. Then captures and further
applications change nothing; and where no load brings a list that does not fit so, an actor
whose record is marked as applied shows its stored lists.
-/

namespace OverlaySaver
open Transition Compaction

variable {E : Session}

def storedLooks (w : World) (a : FormID) : Option (Part → List Look) :=
  (w.actorData.lookup a).map ActorRecord.looks

def Capturable (E : Session) (o : Look) : Prop :=
  freeTexture o.path = false ∧ E.fixedString o.path = o.path

instance (E : Session) (o : Look) : Decidable (Capturable E o) :=
  inferInstanceAs (Decidable (_ ∧ _))

/-- Each list of the record has its slots, each overlay is captured as it is, and the slots
behind the list are free. -/
def RoomFor (E : Session) (t : Overrides) (a : FormID) (r : ActorRecord) : Prop := ∀ p,
  (r.list p).length ≤ (E.slots p).toNat ∧ (∀ o ∈ r.looks p, Capturable E o) ∧
    ∀ i, (r.list p).length ≤ i → i < (E.slots p).toNat → slotView E t a p i = none

section Closets
variable {w : World} {a : FormID} {r : ActorRecord} {v : ActorView}

theorem looks_length (r : ActorRecord) (p : Part) : (r.looks p).length = (r.list p).length :=
  List.length_map _

theorem storedLooks_eq_outfit (w : World) (a : FormID) :
    storedLooks w a = ((w.view a).closet E a).outfit.map Outfit.looks := by
  rw [storedLooks, ActorView.closet, Option.map_map]
  rfl

theorem shownLooks_eq_seen_closet (w : World) (a : FormID) :
    shownLooks E w.overrides a = ((w.view a).closet E a).seen E := by
  funext p
  rw [← ActorView.shownLooks_eq_seen, shownLooks, shownLooks,
    shown_congr E w.overrides (w.view a).table rfl]

theorem lookOf_slots_eq_none_iff {p : Part} {i : ℕ} :
    lookOf E (((w.view a).closet E a).slots p i) = none ↔ slotView E w.overrides a p i = none :=
  Option.map_eq_none_iff

theorem room_closet_iff :
    ((w.view a).closet E a).Room E r.looks ↔ RoomFor E w.overrides a r := by
  simp only [Closet.Room, RoomFor, looks_length, wearable_iff, Capturable,
    lookOf_slots_eq_none_iff]

theorem short_of_length_le (hint : IntSlots E)
    (h : ∀ p, (r.list p).length ≤ (E.slots p).toNat) : r.Short := by
  intro p
  have hlen := h p
  have hslots := (hint p).2
  omega

theorem short_of_room (hint : IntSlots E) {k : Closet} (h : k.Room E r.looks) : r.Short :=
  short_of_length_le hint fun p => looks_length r p ▸ (h p).1

theorem short_of_neat (hint : IntSlots E) (h : (v.closet E a).Neat E) : v.Short := by
  intro r hr
  have houtfit : (v.closet E a).outfit = some r.outfit := by
    rw [ActorView.closet, hr, Option.map_some]
  exact short_of_room hint (h.room r.outfit houtfit)

/-- Neither a load, nor a revert, nor SKEE. -/
def OwnDoing : Event → Prop
  | .load _ _ => False
  | .revert => False
  | .skee _ => False
  | _ => True

theorem closet_kept {I : Closet → Prop} {e : Event} (hp : Possible w e) (hown : OwnDoing e)
    (hshort : (w.view a).Short) (hcapture : ∀ k, I k → I (k.capture E))
    (hputOn : ∀ k, I k → I (k.putOn E false))
    (hact : ∀ cmd, e = .console cmd (some a) → ∀ k, I k → I (k.act E cmd))
    (h : I ((w.view a).closet E a)) : I (((step E w e).view a).closet E a) := by
  rw [view_step E hp a]
  cases e with
  | load | revert | skee => exact hown.elim
  | load3D b => exact h
  | save c =>
    rw [seenBy, Option.elim_some, ActorView.step]
    split_ifs
    · exact ActorView.closet_capture (E := E) ▸ hcapture _ h
    · exact h
  | task b =>
    rw [seenBy]
    split_ifs
    · exact ActorView.closet_apply hshort false ▸ hputOn _ h
    · exact h
  | console cmd selected =>
    rw [seenBy]
    split_ifs with hsel
    · rw [Option.elim_some, ActorView.closet_console hshort]
      exact hact cmd (congrArg (Event.console cmd) hsel) _ h
    · exact h

end Closets

section AppliedShows
variable {w : World} {a : FormID}

def Consistent (E : Session) (a : FormID) (w : World) : Event → Prop
  | .load c cosave => ∀ r, (loadRecords c 0 ∅ cosave).lookup a = some r →
      RoomFor E w.overrides a r
  | .save c => Enumerates c.order w.actorData
  | .task b => b ∈ w.tasks
  | .console cmd selected => selected = some a → cmd ≠ .clear
  | .skee t => ((({ w with overrides := t } : World).view a).closet E a).Neat E
  | _ => True

theorem possible_of_consistent {e : Event} (h : Consistent E a w e) : Possible w e := by
  cases e with
  | save c => exact h
  | task b => exact h
  | _ => trivial

theorem neat_step (hint : IntSlots E) {e : Event} (he : Consistent E a w e)
    (h : ((w.view a).closet E a).Neat E) : (((step E w e).view a).closet E a).Neat E := by
  have hkept := fun hown hact => closet_kept (I := Closet.Neat E) (possible_of_consistent he) hown
    (short_of_neat hint h) (fun _ hk => hk.capture) (fun _ hk => hk.putOn false) hact h
  cases e with
  | load c cosave =>
    refine h.remembered fun o ho => ?_
    obtain ⟨r, hr, rfl⟩ := Option.map_eq_some_iff.mp ho
    exact ⟨room_closet_iff.mpr (he r hr), unapplied_onGameLoaded c cosave w a r hr⟩
  | revert => exact h.forget
  | skee t => exact he
  | save | load3D | task => exact hkept trivial nofun
  | console cmd selected =>
    refine hkept trivial fun cmd' hcmd k hk => hk.act ?_
    obtain ⟨rfl, rfl⟩ := Event.console.inj hcmd
    exact he rfl

/-- In every state of a run that starts neat, an actor whose record is marked as applied shows
the lists that are stored for it. -/
theorem applied_shows_stored (hint : IntSlots E) (h : ((w.view a).closet E a).Neat E)
    {es : List Event} (hes : Along (step E) (Consistent E a) w es) {r : ActorRecord}
    (hr : (run (step E) w es).actorData.lookup a = some r) (happlied : r.alreadyApplied = true) :
    shownLooks E (run (step E) w es).overrides a = r.looks := by
  have hneat := hes.invariant (I := fun w => ((w.view a).closet E a).Neat E) (step E)
    (fun _ _ he hn => neat_step hint he hn) h
  have houtfit : (((run (step E) w es).view a).closet E a).outfit = some r.outfit := by
    rw [ActorView.closet, World.view, hr, Option.map_some]
  rw [shownLooks_eq_seen_closet]
  exact funext (hneat.shows _ houtfit happlied)

theorem neat_of_unregistered (hnone : w.actorData.lookup a = none)
    (hpacked : ∀ p, FilledPrefix (slotView E w.overrides a p) (E.slots p).toNat) :
    ((w.view a).closet E a).Neat E := by
  have houtfit : ((w.view a).closet E a).outfit = none := by
    rw [ActorView.closet, World.view, hnone, Option.map_none]
  refine ⟨fun p => ?_, fun o ho => ?_, fun o ho => ?_⟩
  · obtain ⟨n, hn, hf⟩ := hpacked p
    exact ⟨n, hn, fun i hi => Option.isSome_map.symm ▸ hf i hi⟩
  · cases houtfit.symm.trans ho
  · cases houtfit.symm.trans ho

theorem filledPrefix_onSlot (p : Part) :
    FilledPrefix (slotView (plainSession 1) (onSlot 0) 20 p) ((plainSession 1).slots p).toNat := by
  refine ⟨if p = .head then 1 else 0, by cases p <;> decide, fun i hi => ?_⟩
  rw [slotView_onSlot]
  cases p <;> by_cases hi : i = 0 <;> simp [hi]

theorem roomFor_onSlot {r : ActorRecord} (h : r.looks = oneOverlay.looks) :
    RoomFor (plainSession 1) (onSlot 0) 20 r := by
  intro p
  have hlen : (r.list p).length = (oneOverlay.list p).length := by
    rw [← looks_length, ← looks_length, h]
  rw [h, hlen]
  cases p with
  | head =>
    refine ⟨by decide, by decide, fun i hle hlt => ?_⟩
    have hlt : i < 1 := hlt
    have hle : 1 ≤ i := hle
    omega
  | hand | body | feet =>
    refine ⟨by decide, by decide, fun i _ _ => ?_⟩
    rw [slotView_onSlot, if_neg (by simp)]

theorem applied_shows_stored_restored :
    let E := plainSession 1
    let cosave := savedCosave (oneActor 20 oneOverlay) [20]
    let after := run (step E) ⟨∅, onSlot 0, []⟩ [.load everyoneFound cosave, .load3D 20, .task 20]
    ∃ r, after.actorData.lookup 20 = some r ∧ shownLooks E after.overrides 20 = r.looks := by
  intro E cosave after
  have hw := loaded_oneActor oneOverlay_fits.1 20 ⟨∅, onSlot 0, []⟩
  have hloaded : (onGameLoaded everyoneFound cosave ⟨∅, onSlot 0, []⟩).actorData.lookup 20 =
      some (reloadRecord oneOverlay) := by
    rw [hw, lookup_oneActor, if_pos rfl]
  have hafter := congrArg ActorView.record (view_restored (E := E) hloaded)
  have hneat := neat_of_unregistered (w := ⟨∅, onSlot 0, []⟩)
    (Finmap.lookup_empty 20) filledPrefix_onSlot
  have hload : Consistent E 20 ⟨∅, onSlot 0, []⟩ (.load everyoneFound cosave) := by
    intro r hr
    obtain rfl := Option.some.inj (hloaded.symm.trans hr)
    exact roomFor_onSlot (reloadRecord_looks oneOverlay_fits.2)
  have hes : Along (step E) (Consistent E 20) ⟨∅, onSlot 0, []⟩
      [.load everyoneFound cosave, .load3D 20, .task 20] :=
    ⟨hload, trivial, List.mem_append_right _ (List.mem_singleton.mpr rfl), trivial⟩
  exact ⟨_, hafter, applied_shows_stored intSlots_plainSession_one hneat hes hafter rfl⟩

end AppliedShows

section Stable
variable {w : World} {a : FormID} {looks : Part → List Look}

def Gentle (a : FormID) (w : World) : Event → Prop
  | .load _ _ => False
  | .save c => Enumerates c.order w.actorData
  | .revert => False
  | .load3D _ => True
  | .task b => b ∈ w.tasks
  | .console cmd selected => selected = some a → cmd ≠ .erase ∧ cmd ≠ .flip ∧ cmd ≠ .clear
  | .skee t => t a = w.overrides a

theorem possible_of_gentle {e : Event} (h : Gentle a w e) : Possible w e := by
  cases e with
  | save c => exact h
  | task b => exact h
  | _ => trivial

theorem displays_step (hint : IntSlots E) {e : Event} (he : Gentle a w e)
    (h : ((w.view a).closet E a).Displays E looks) :
    (((step E w e).view a).closet E a).Displays E looks := by
  have hkept := fun hown hact => closet_kept (I := Closet.Displays E looks)
    (possible_of_gentle he) hown (short_of_neat hint h.neat) (fun _ hk => hk.capture)
    (fun _ hk => hk.putOn false) hact h
  cases e with
  | load | revert => exact he.elim
  | save | load3D | task => exact hkept trivial nofun
  | console cmd selected =>
    refine hkept trivial fun cmd' hcmd k hk => hk.act ?_
    obtain ⟨rfl, rfl⟩ := Event.console.inj hcmd
    exact he rfl
  | skee t =>
    have ht : t a = (w.view a).overrides := he
    rw [view_step E (possible_of_gentle he) a, seenBy, Option.elim_some, ActorView.step, ht]
    exact h

def StaysStored (E : Session) (a : FormID) (w : World) (looks : Part → List Look) : Prop :=
  ∀ es, Along (step E) (Gentle a) w es → storedLooks (run (step E) w es) a = some looks

theorem staysStored_of_displays (hint : IntSlots E)
    (h : ((w.view a).closet E a).Displays E looks) : StaysStored E a w looks := by
  intro es hes
  have hd := hes.invariant (I := fun w => ((w.view a).closet E a).Displays E looks) (step E)
    (fun _ _ he hk => displays_step hint he hk) h
  rw [storedLooks_eq_outfit (E := E), hd.outfit]
  rfl

theorem shownLooks_of_staysStored (h : StaysStored E a w looks) :
    shownLooks E w.overrides a = looks := by
  have hupdated := h [.console .update (some a)] ⟨fun _ => by decide, trivial⟩
  have hstored : storedLooks w a = some looks := h [] trivial
  obtain ⟨r, hr, -⟩ := Option.map_eq_some_iff.mp hstored
  have hlookup : (step E w (.console .update (some a))).actorData.lookup a =
      some (captureRecord E w.overrides a r) := by
    have hs : (getData w.actorData a).isSome := by rw [getData_eq_lookup, hr, Option.isSome_some]
    have hstep : step E w (.console .update (some a)) = buildOverlayList E w a := if_pos hs
    rw [hstep, lookup_buildOverlayList, if_pos rfl, hr, Option.map_some]
  rw [run_cons, run_nil, storedLooks, hlookup, Option.map_some, captureRecord_looks] at hupdated
  exact Option.some.inj hupdated

theorem staysStored_iff_room (hint : IntSlots E) {k : Closet}
    (hk : (w.view a).closet E a = { k.dress E looks with outfit := some ⟨looks, true⟩ }) :
    StaysStored E a w looks ↔ k.Room E looks := by
  constructor
  · intro h
    have hshown := shownLooks_of_staysStored h
    rw [shownLooks_eq_seen_closet, hk] at hshown
    exact room_iff_seen_dress.mpr fun p => congrFun hshown p
  · intro h
    exact staysStored_of_displays hint (hk ▸ h.displays)

theorem short_of_staysStored (hint : IntSlots E) {r : ActorRecord}
    (hlen : ∀ p, (looks p).length = (r.list p).length) (h : StaysStored E a w looks) : r.Short := by
  refine short_of_length_le hint fun p => ?_
  have hshown := congrArg List.length (congrFun (shownLooks_of_staysStored h) p)
  have hle := shown_length_le E w.overrides a p
  rw [shownLooks, List.length_map, hlen] at hshown
  omega

variable {r : ActorRecord}

theorem closet_step_console (hr : w.actorData.lookup a = some r) (hs : r.Short) (cmd : Callback) :
    (((step E w (.console cmd (some a))).view a).closet E a) =
      ((w.view a).closet E a).act E cmd := by
  have hshort : (w.view a).Short := fun r' hr' => Option.some.inj (hr.symm.trans hr') ▸ hs
  have hp : Possible w (.console cmd (some a)) := trivial
  rw [view_step E hp a, seenBy, if_pos rfl, Option.elim_some, ActorView.closet_console hshort]

theorem outfit_closet (hr : w.actorData.lookup a = some r) :
    ((w.view a).closet E a).outfit = some r.outfit := by
  rw [ActorView.closet, World.view, hr, Option.map_some]

/-- After `apply` the stored lists stay what they are, through any captures and further
applications, if and only if there is room for them. -/
theorem applied_lists_stay_iff (hint : IntSlots E) (hr : w.actorData.lookup a = some r) :
    StaysStored E a (step E w (.console .apply (some a))) r.looks ↔
      RoomFor E w.overrides a r := by
  have hcloset : r.Short → ((step E w (.console .apply (some a))).view a).closet E a =
      { ((w.view a).closet E a).dress E r.looks with outfit := some ⟨r.looks, true⟩ } := by
    intro hs
    rw [closet_step_console hr hs, Closet.act, Closet.putOn, outfit_closet hr]
    simp [ActorRecord.outfit]
  rw [← room_closet_iff]
  constructor
  · intro h
    have hs := short_of_staysStored hint (looks_length r) h
    exact (staysStored_iff_room hint (hcloset hs)).mp h
  · intro h
    exact (staysStored_iff_room hint (hcloset (short_of_room hint h))).mpr h

theorem applied_lists_stay_one_slot :
    let w : World := ⟨oneActor 20 oneOverlay, onSlot 0, []⟩
    StaysStored (plainSession 1) 20 (step (plainSession 1) w (.console .apply (some 20)))
      oneOverlay.looks := by
  intro w
  exact (applied_lists_stay_iff intSlots_plainSession_one (lookup_oneActor 20 20 oneOverlay)).mpr
    (roomFor_onSlot rfl)

theorem room_flipped_iff {w : World} {a : FormID} {r : ActorRecord} :
    (((w.view a).closet E a).undress E).Room E (fun p => (r.looks p).reverse) ↔
      ∀ p, (r.list p).length ≤ (E.slots p).toNat ∧ (∀ o ∈ r.looks p, Capturable E o) ∧
        ∀ i, (r.list p).length ≤ i → E.iHead.toNat ≤ i → i < (E.slots p).toNat →
          slotView E w.overrides a p i = none := by
  refine forall_congr' fun p => ?_
  simp only [List.length_reverse, List.mem_reverse, looks_length, wearable_iff, Capturable,
    lookOf_undress]
  refine and_congr_right fun _ => and_congr_right fun _ => forall_congr' fun i => ?_
  refine forall_congr' fun _ => ?_
  by_cases hi : i < E.iHead.toNat
  · have hhead : ¬ E.iHead.toNat ≤ i := by omega
    simp only [hi, ↓reduceIte, hhead, false_imp_iff, implies_true]
  · have hhead : E.iHead.toNat ≤ i := by omega
    simp only [hi, ↓reduceIte, hhead, true_imp_iff, lookOf_slots_eq_none_iff]

/-- After `flip` it is the slots that neither the list nor the clearing reaches that have to be
free. -/
theorem flipped_lists_stay_iff (hint : IntSlots E) (hr : w.actorData.lookup a = some r) :
    StaysStored E a (step E w (.console .flip (some a))) (fun p => (r.looks p).reverse) ↔
      ∀ p, (r.list p).length ≤ (E.slots p).toNat ∧ (∀ o ∈ r.looks p, Capturable E o) ∧
        ∀ i, (r.list p).length ≤ i → E.iHead.toNat ≤ i → i < (E.slots p).toNat →
          slotView E w.overrides a p i = none := by
  have hcloset : r.Short → ((step E w (.console .flip (some a))).view a).closet E a =
      { (((w.view a).closet E a).undress E).dress E (fun p => (r.looks p).reverse) with
        outfit := some ⟨fun p => (r.looks p).reverse, true⟩ } := by
    intro hs
    rw [closet_step_console hr hs, Closet.act, Closet.flip, outfit_closet hr]
    simp only [Closet.putOn, Bool.not_true, Bool.and_false, Bool.false_eq_true, ↓reduceIte]
    rfl
  rw [← room_flipped_iff]
  constructor
  · intro h
    have hlen : ∀ p, ((r.looks p).reverse).length = (r.list p).length :=
      fun p => List.length_reverse.trans (looks_length r p)
    exact (staysStored_iff_room hint (hcloset (short_of_staysStored hint hlen h))).mp h
  · intro h
    have hs : r.Short := short_of_length_le hint fun p => (room_flipped_iff.mp h p).1
    exact (staysStored_iff_room hint (hcloset hs)).mpr h

theorem flipped_lists_stay_one_slot :
    let w : World := ⟨oneActor 20 oneOverlay, onSlot 0, []⟩
    StaysStored (plainSession 1) 20 (step (plainSession 1) w (.console .flip (some 20)))
      (fun p => (oneOverlay.looks p).reverse) := by
  intro w
  refine (flipped_lists_stay_iff intSlots_plainSession_one
    (lookup_oneActor 20 20 oneOverlay)).mpr fun p => ?_
  obtain ⟨hlen, hcapturable, hfree⟩ := roomFor_onSlot (r := oneOverlay) rfl p
  exact ⟨hlen, hcapturable, fun i hle _ hlt => hfree i hle hlt⟩

end Stable

end OverlaySaver
