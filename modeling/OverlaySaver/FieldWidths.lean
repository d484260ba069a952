import OverlaySaver.Restore

/-!
# The length fields of the cosave

Counts are written in 8 bits, path lengths in 16, and nothing compares a length with its
field. What a load builds always fits, but for a path of 65535 bytes, whose NUL makes it one
byte longer than its field; what a capture builds fits if the slots of the actor do.
-/

namespace OverlaySaver
open ByteStream Transition Compaction

/-- `TexStrLen` says how long the path is, with or without the NUL of a load. -/
def RMOverlay.Narrow (o : RMOverlay) : Prop :=
  o.texturePath.length = o.texStrLen.toNat ∨
    ∃ path, o.texturePath = path ++ [0] ∧ path.length = o.texStrLen.toNat

structure Narrow (r : ActorRecord) : Prop where
  lists : ListsFit r
  overlays : ∀ p, ∀ o ∈ r.list p, o.Narrow

theorem RMOverlay.Narrow.length_le {o : RMOverlay} (h : o.Narrow) :
    o.texturePath.length ≤ 65536 := by
  have hlt := o.texStrLen.toNat_lt
  rcases h with h | ⟨path, hpath, hlen⟩
  · omega
  · rw [hpath, List.length_append, List.length_singleton]
    omega

theorem Narrow.congr {r r' : ActorRecord} (h : Narrow r) (hl : ∀ p, r'.list p = r.list p) :
    Narrow r' :=
  ⟨⟨fun p => (hl p).symm ▸ h.lists.length_le p⟩, fun p => (hl p).symm ▸ h.overlays p⟩

theorem Narrow.reverse {r : ActorRecord} (h : Narrow r) : Narrow (r.mapLists List.reverse) := by
  refine ⟨⟨fun p => ?_⟩, fun p o ho => ?_⟩
  · rw [ActorRecord.mapLists_list, List.length_reverse]
    exact h.lists.length_le p
  · rw [ActorRecord.mapLists_list, List.mem_reverse] at ho
    exact h.overlays p o ho

section Loaded

theorem narrow_readOverlay (bs : Bytes) : (readOverlay bs).1.Narrow := by
  refine Or.inr ⟨_, rfl, ?_⟩
  rw [readInto_length, List.length_replicate]
  rfl

theorem narrow_readEntry (junk : UInt32) (bs : Bytes) : Narrow (readEntry junk bs).1.data := by
  have hle : ∀ n : UInt8, n.toNat ≤ 255 := fun n => Nat.le_of_lt_succ n.toNat_lt
  refine ⟨⟨fun p => ?_⟩, fun p => ?_⟩
  · cases p <;> exact (readMany_length _ _ _).le.trans (hle _)
  · cases p <;> exact forall_mem_readMany narrow_readOverlay _ _

theorem narrow_loaded (c : LoadCall) (cosave : List CosaveRecord) :
    AllRecords Narrow (loadRecords c 0 ∅ cosave) :=
  allRecords_loaded c narrow_readEntry cosave

end Loaded

variable (E : Session)

section Captured

structure CaptureFits (t : Overrides) (a : FormID) : Prop where
  lists : ∀ p, (shown E t a p).length ≤ 255
  paths : ShownFit E t a

variable {E} {t t' : Overrides} {a : FormID}

theorem CaptureFits.congr (h : CaptureFits E t a) (ht : t' a = t a) : CaptureFits E t' a := by
  have hs := shown_congr E t' t ht
  exact ⟨fun p => hs ▸ h.lists p, fun p => hs ▸ h.paths p⟩

theorem narrow_readNode {v : Node} {o : RMOverlay} (h : readNode E v = some o)
    (hlen : o.texturePath.length ≤ 65535) : o.Narrow := by
  rw [readNode] at h
  split_ifs at h
  obtain rfl := Option.some.inj h
  refine Or.inl ?_
  rw [UInt16.toNat_ofNat']
  exact (Nat.mod_eq_of_lt (Nat.lt_succ_of_le hlen)).symm

theorem narrow_captureRecord (h : CaptureFits E t a) (r : ActorRecord) :
    Narrow (captureRecord E t a r) := by
  refine ⟨⟨fun p => ?_⟩, fun p o ho => ?_⟩
  · rw [captureRecord_list]
    exact h.lists p
  · rw [captureRecord_list] at ho
    obtain ⟨v, hv⟩ := readNode_of_mem_shown ho
    exact narrow_readNode hv (h.paths p o ho)

theorem captureFits_of_slots_le (hslots : ∀ p, E.slots p ≤ 255) (hpaths : ShownFit E t a) :
    CaptureFits E t a := by
  refine ⟨fun p => ?_, hpaths⟩
  have hle := shown_length_le E t a p
  have hs := hslots p
  omega

end Captured

section Written

/-- All that is written of the record in a narrower type is written as it is, and the reader
stays in step with the writer. -/
structure WidthsExact (r : ActorRecord) : Prop where
  lists : ListsFit r
  paths : PathsFit r
  counts : ∀ p, (UInt8.ofNat (r.list p).length).toNat = (r.list p).length
  lengths : ∀ p, ∀ o ∈ r.list p,
    (UInt16.ofNat o.texturePath.length).toNat = o.texturePath.length
  texStrLens : ∀ p, ∀ o ∈ r.list p, o.Narrow
  in_step : ∀ junk a rest, readEntry junk (saveEntry a r ++ rest) = (⟨a, reloadRecord r⟩, rest)

theorem widthsExact_of_narrow {r : ActorRecord} (h : Narrow r)
    (hpaths : ∀ p, ∀ o ∈ r.list p, o.texturePath.length ≠ 65536) : WidthsExact r := by
  have hle : PathsFit r := ⟨fun p o ho => by
    have hlen := (h.overlays p o ho).length_le
    have hne := hpaths p o ho
    omega⟩
  refine ⟨h.lists, hle, fun p => toNat_ofNat_of_le_255 (h.lists.length_le p), fun p o ho => ?_,
    h.overlays, readEntry_saveEntry h.lists⟩
  rw [UInt16.toNat_ofNat']
  exact Nat.mod_eq_of_lt (Nat.lt_succ_of_le (hle.length_le p o ho))

end Written

section Runs

/-- What the save captures fits, and no path that a load made 65536 bytes long is written as it
is stored. -/
def SaveKept (c : SaveCall) (w : World) : Prop := ∀ a r, w.actorData.lookup a = some r →
  if c.lookupByID a then CaptureFits E w.overrides a
  else ∀ p, ∀ o ∈ r.list p, o.texturePath.length ≠ 65536

def WidthsKept (w : World) : Event → Prop
  | .save c => Enumerates c.order w.actorData ∧ SaveKept E c w
  | .task a => a ∈ w.tasks
  | .console .register (some a) => w.actorData.lookup a = none → CaptureFits E w.overrides a
  | .console .update (some a) => (w.actorData.lookup a).isSome → CaptureFits E w.overrides a
  | _ => True

variable {E}

theorem possible_of_widthsKept {w : World} {e : Event} (h : WidthsKept E w e) : Possible w e := by
  cases e with
  | save c => exact h.1
  | task a => exact h
  | _ => trivial

namespace ActorView
variable {a : FormID} {v : ActorView}

def Fits (v : ActorView) : Prop := ∀ r, v.record = some r → Narrow r

theorem fits_capture (h : (v.record).isSome → CaptureFits E v.table a) :
    (capture E a v).Fits := by
  intro r hr
  obtain ⟨r', hr', rfl⟩ := Option.map_eq_some_iff.mp hr
  exact narrow_captureRecord (h (hr' ▸ rfl)) r'

theorem fits_register (hv : v.Fits) (h : v.record = none → CaptureFits E v.table a) :
    (register E a v).Fits := by
  rw [register]
  split
  · exact hv
  · rename_i hnone
    intro r hr
    exact Option.some.inj hr ▸ narrow_captureRecord (h hnone) {}

theorem fits_apply (hv : v.Fits) (force : Bool) : (apply E a v force).Fits := by
  intro r hr
  obtain ⟨r', hr', hlists⟩ := record_apply E a hr
  exact (hv r' hr').congr hlists

theorem fits_flip (hv : v.Fits) : (flip E a v).Fits := by
  rw [flip]
  split
  · exact hv
  · rename_i r hr
    apply fits_apply
    intro r' hr'
    exact Option.some.inj hr' ▸ (hv r hr).reverse

end ActorView

theorem fits_step (a : FormID) {w : World} {e : Event} (he : WidthsKept E w e)
    (hv : (w.view a).Fits) : ((step E w e).view a).Fits := by
  have htable : CaptureFits E w.overrides a → CaptureFits E (w.view a).table a :=
    fun h => h.congr rfl
  rw [view_step E (possible_of_widthsKept he) a]
  cases e with
  | load c cosave => exact fun r hr => narrow_loaded c cosave a r hr
  | save c =>
    rw [seenBy, Option.elim_some, ActorView.step]
    split_ifs with hf
    · apply ActorView.fits_capture
      intro hs
      obtain ⟨r, hr⟩ := Option.isSome_iff_exists.mp hs
      have hfits := he.2 a r hr
      rw [if_pos hf] at hfits
      exact htable hfits
    · exact hv
  | revert => exact fun r hr => by cases hr
  | load3D b => exact hv
  | task b =>
    rw [seenBy]
    split_ifs
    · exact ActorView.fits_apply hv false
    · exact hv
  | console cmd selected =>
    rw [seenBy]
    split_ifs with hsel
    · subst hsel
      rw [Option.elim_some]
      cases cmd with
      | help | reset3d | clear => exact hv
      | register => exact ActorView.fits_register hv fun h => htable (he h)
      | apply => exact ActorView.fits_apply hv true
      | update => exact ActorView.fits_capture fun h => htable (he h)
      | erase => exact fun r hr => by cases hr
      | flip => exact ActorView.fits_flip hv
    · exact hv
  | skee t => exact hv

theorem narrow_run {w : World} (hw : w.actorData = ∅) {es : List Event}
    (hes : Along (step E) (WidthsKept E) w es) :
    AllRecords Narrow (run (step E) w es).actorData := by
  intro a
  refine hes.invariant (I := fun w => (w.view a).Fits) (step E)
    (fun w e he hv => fits_step a he hv) ?_
  intro r hr
  rw [World.view, hw, Finmap.lookup_empty] at hr
  cases hr

theorem captureFits_of_widthsExact {t : Overrides} {a : FormID} {r : ActorRecord}
    (h : WidthsExact (captureRecord E t a r)) : CaptureFits E t a :=
  ⟨fun p => captureRecord_list E t a r p ▸ h.lists.length_le p,
    fun p => captureRecord_list E t a r p ▸ h.paths.length_le p⟩

/-- For a store that fits so far, the condition on a save is exact. -/
theorem widthsExact_saved_iff {c : SaveCall} {w : World} (hnarrow : AllRecords Narrow w.actorData)
    (hord : Enumerates c.order w.actorData) :
    AllRecords WidthsExact (onGameSaved E c w).1.actorData ↔ SaveKept E c w := by
  have hl : ∀ a, (onGameSaved E c w).1.actorData.lookup a =
      (w.actorData.lookup a).map (toSave E c w a) := lookup_rebuildAll E hord
  constructor
  · intro h a r hr
    have hexact := h a (toSave E c w a r) (by rw [hl, hr, Option.map_some])
    rw [toSave] at hexact
    split_ifs at hexact ⊢
    · exact captureFits_of_widthsExact hexact
    · intro p o ho
      have hlen := hexact.paths.length_le p o ho
      omega
  · intro h a r hr
    rw [hl] at hr
    obtain ⟨r', hr', rfl⟩ := Option.map_eq_some_iff.mp hr
    have hkept := h a r' hr'
    rw [toSave]
    split_ifs at hkept ⊢
    · refine widthsExact_of_narrow (narrow_captureRecord hkept r') fun p o ho => ?_
      have hlen := (captureRecord_pathsFit hkept.paths r').length_le p o ho
      omega
    · exact widthsExact_of_narrow (hnarrow a r' hr') hkept

theorem length_fields_exact {w : World} (hw : w.actorData = ∅) {es : List Event}
    (hes : Along (step E) (WidthsKept E) w es) :
    ∀ pre c post, es = pre ++ .save c :: post → ∀ a r,
      (onGameSaved E c (run (step E) w pre)).1.actorData.lookup a = some r → WidthsExact r := by
  rintro pre c post rfl a r hr
  obtain ⟨hpre, hpost⟩ := hes.split (step E)
  exact (widthsExact_saved_iff (narrow_run hw hpre) hpost.1.1).mpr hpost.1.2 a r hr

theorem registered_world (t : Overrides) (a : FormID) :
    step E ⟨∅, t, []⟩ (.console .register (some a)) =
      ⟨oneActor a (captureRecord E t a {}), t, []⟩ := by
  have hadd : addNew ∅ a = oneActor a {} := if_neg Finmap.notMem_empty
  have hstep : step E ⟨∅, t, []⟩ (.console .register (some a)) =
      buildOverlayList E ⟨addNew ∅ a, t, []⟩ a := rfl
  rw [hstep, hadd, buildOverlayList, getData_eq_lookup, lookup_oneActor, if_pos rfl]
  dsimp only
  rw [oneActor, Finmap.insert_insert, oneActor]

theorem length_fields_exact_one_slot :
    let w : World := ⟨∅, onSlot 0, []⟩
    let registered := step (plainSession 1) w (.console .register (some 20))
    ∀ a r, (onGameSaved (plainSession 1) (foundSave [20]) registered).1.actorData.lookup a =
      some r → WidthsExact r := by
  intro w registered
  have hfits : CaptureFits (plainSession 1) (onSlot 0) 20 :=
    captureFits_of_slots_le (plainSession_slots_le (by omega)) (shownFit_onSlot 1 0)
  have hregistered : registered = _ := registered_world (onSlot 0) 20
  have hsave : WidthsKept (plainSession 1) registered (.save (foundSave [20])) := by
    rw [hregistered]
    refine ⟨enumerates_oneActor 20 _, fun a r hr => ?_⟩
    rw [lookup_oneActor] at hr
    split_ifs at hr with ha
    exact ha ▸ hfits
  have hrun : Along (step (plainSession 1)) (WidthsKept (plainSession 1)) w
      [.console .register (some 20), .save (foundSave [20])] := ⟨fun _ => hfits, hsave, trivial⟩
  exact length_fields_exact rfl hrun [.console .register (some 20)] _ [] rfl

/-- SKEE reports 256 slots on a body part, and all of them are occupied. -/
def fullHead : Overrides := fun b f m =>
  if b = 20 ∧ f = false ∧ m ∈ (List.range 256).map (nodeName .head) then
    Look.write ⟨0x3f000000, 0xff0000, CStr.ofString [97]⟩
  else fun _ _ => none

theorem shown_fullHead_length : (shown (plainSession 256) fullHead 20 .head).length = 256 := by
  refine (compact_getElem?_of_filled fun i hi => ?_).1
  have hmem : nodeName .head i ∈ (List.range 256).map (nodeName .head) :=
    List.mem_map_of_mem (List.mem_range.mpr hi)
  have hnode : fullHead 20 false (nodeName .head i) = _ := if_pos ⟨rfl, rfl, hmem⟩
  have hview : slotView (plainSession 256) fullHead 20 .head i =
      readNode (plainSession 256) (fullHead 20 false (nodeName .head i)) := rfl
  rw [hview, hnode]
  rfl

theorem full_head_loses_count :
    let w : World := ⟨∅, fullHead, []⟩
    let registered := step (plainSession 256) w (.console .register (some 20))
    Along (step (plainSession 256)) Possible w
        [.console .register (some 20), .save (foundSave [20])] ∧
      ∃ r, (onGameSaved (plainSession 256) (foundSave [20]) registered).1.actorData.lookup 20 =
        some r ∧ (r.list .head).length = 256 ∧ UInt8.ofNat (r.list .head).length = 0 ∧
        ¬ WidthsExact r := by
  intro w registered
  have hregistered : registered = _ := registered_world fullHead 20
  have hord : Enumerates (foundSave [20]).order registered.actorData :=
    hregistered ▸ enumerates_oneActor 20 _
  have hfound : (foundSave [20]).lookupByID 20 = true := rfl
  have hlookup := lookup_rebuildAll (plainSession 256) (c := foundSave [20]) hord 20
  rw [hregistered, lookup_oneActor, if_pos rfl, Option.map_some, toSave, if_pos hfound] at hlookup
  have hlen : ∀ r, ((captureRecord (plainSession 256) fullHead 20 r).list .head).length = 256 := by
    intro r
    rw [captureRecord_list, shown_fullHead_length]
  refine ⟨⟨trivial, hord, trivial⟩, _, hregistered ▸ hlookup, ?_⟩
  rw [hregistered]
  refine ⟨hlen _, by rw [hlen]; rfl, fun h => ?_⟩
  have hle := h.lists.length_le .head
  rw [hlen] at hle
  omega

end Runs

end OverlaySaver
