import OverlaySaver.ActorView
import OverlaySaver.CosaveStream

/-!
# What a save writes

`OnGameSaved` recaptures each registered actor that the game finds and writes the others
as they are stored. `toSave` is the record an actor is written with, and `SaveFits` says
that everything written fits its length field, so that a load reads it back.
`cosaveLooks` is what a cosave, read back under the saved FormIDs, says about an actor.
-/

namespace OverlaySaver
open ByteStream

variable (E : Session)

def toSave (c : SaveCall) (w : World) (a : FormID) (r : ActorRecord) : ActorRecord :=
  if c.lookupByID a then captureRecord E w.overrides a r else r

structure SaveFits (c : SaveCall) (w : World) : Prop where
  order : Enumerates c.order w.actorData
  size : w.actorData.keys.card < 2 ^ 32
  lists : ∀ a r, w.actorData.lookup a = some r → ListsFit (toSave E c w a r)

structure SaveReads (c : SaveCall) (w : World) : Prop where
  fits : SaveFits E c w
  paths : ∀ a r, w.actorData.lookup a = some r → PathsFit (toSave E c w a r)

def cosaveLooks (cosave : List CosaveRecord) (a : FormID) : Option (Part → List Look) :=
  ((loadRecords everyoneFound 0 ∅ cosave).lookup a).map ActorRecord.looks

section Save
variable {c : SaveCall} {w : World}

theorem lookup_rebuildAll (hord : Enumerates c.order w.actorData) (a : FormID) :
    (rebuildAll E c w).actorData.lookup a = (w.actorData.lookup a).map (toSave E c w a) := by
  have hv := congrArg ActorView.record (view_rebuildAll E w a hord)
  have hr : ((rebuildAll E c w).view a).record = (rebuildAll E c w).actorData.lookup a := rfl
  rw [← hr, hv]
  by_cases hf : c.lookupByID a = true
  · have ht : toSave E c w a = captureRecord E (w.view a).table a := by
      funext r
      rw [toSave, if_pos hf]
      exact captureRecord_congr E w.overrides _ rfl r
    rw [if_pos hf, ht]
    rfl
  · have ht : toSave E c w a = id := by
      funext r
      rw [toSave, if_neg hf, id]
    rw [if_neg hf, ht, Option.map_id]
    rfl

theorem mem_rebuildAll (hord : Enumerates c.order w.actorData) (a : FormID) :
    a ∈ (rebuildAll E c w).actorData ↔ a ∈ w.actorData := by
  rw [← Finmap.lookup_isSome, lookup_rebuildAll E hord, Option.isSome_map, Finmap.lookup_isSome]

theorem enumerates_rebuildAll (hord : Enumerates c.order w.actorData) :
    Enumerates c.order (rebuildAll E c w).actorData :=
  hord.of_keys_eq (mem_rebuildAll E hord)

theorem keys_rebuildAll (hord : Enumerates c.order w.actorData) :
    (rebuildAll E c w).actorData.keys.card = w.actorData.keys.card := by
  rw [← (enumerates_rebuildAll E hord).length_eq, hord.length_eq]

theorem listsFit_rebuildAll (hfits : SaveFits E c w) :
    AllRecords ListsFit (rebuildAll E c w).actorData := by
  intro a r hr
  rw [lookup_rebuildAll E hfits.order] at hr
  obtain ⟨r', hr', rfl⟩ := Option.map_eq_some_iff.mp hr
  exact hfits.lists a r' hr'

theorem onGameSaved_cosave (hopen : c.openRecord = true) :
    (onGameSaved E c w).2 = savedCosave (rebuildAll E c w).actorData c.order := by
  simp only [onGameSaved, hopen, ↓reduceIte, savedCosave]

theorem decodes_saved (h : SaveReads E c w) (hopen : c.openRecord = true) :
    Decodes (onGameSaved E c w).2 (storedEntries (onGameSaved E c w).1.actorData c.order) := by
  have hord := h.fits.order
  have hsize := (keys_rebuildAll E hord).symm ▸ h.fits.size
  have hpaths : AllRecords PathsFit (rebuildAll E c w).actorData := by
    intro a r hr
    rw [lookup_rebuildAll E hord] at hr
    obtain ⟨r', hr', rfl⟩ := Option.map_eq_some_iff.mp hr
    exact h.paths a r' hr'
  rw [onGameSaved_cosave E hopen]
  exact decodes_savedCosave (enumerates_rebuildAll E hord) hsize (listsFit_rebuildAll E h.fits)
    hpaths

theorem lookup_loaded_saved (hfits : SaveFits E c w) (hopen : c.openRecord = true)
    {l : LoadCall} (hinj : l.Injective) (w' : World) {k : FormID} {x : ActorRecord} :
    (onGameLoaded l (onGameSaved E c w).2 w').actorData.lookup k = some x ↔
      ∃ a r, w.actorData.lookup a = some r ∧ l.resolveFormID a = some k ∧
        l.lookupByID k = true ∧ x = reloadRecord (toSave E c w a r) := by
  have hsize := (keys_rebuildAll E hfits.order).symm ▸ hfits.size
  rw [onGameSaved_cosave E hopen, lookup_loaded_iff (enumerates_rebuildAll E hfits.order) hsize
    (listsFit_rebuildAll E hfits) hinj w']
  constructor
  · intro h
    obtain ⟨a, r, hr, hres, hf, rfl⟩ := h
    rw [lookup_rebuildAll E hfits.order] at hr
    obtain ⟨r', hr', rfl⟩ := Option.map_eq_some_iff.mp hr
    exact ⟨a, r', hr', hres, hf, rfl⟩
  · intro h
    obtain ⟨a, r, hr, hres, hf, rfl⟩ := h
    refine ⟨a, toSave E c w a r, ?_, hres, hf, rfl⟩
    rw [lookup_rebuildAll E hfits.order, hr, Option.map_some]

theorem cosaveLooks_saved (hfits : SaveFits E c w) (hopen : c.openRecord = true)
    {a : FormID} {r : ActorRecord} (hr : w.actorData.lookup a = some r)
    (hpaths : PathsFit (toSave E c w a r)) :
    cosaveLooks (onGameSaved E c w).2 a = some (toSave E c w a r).looks := by
  have hl := (lookup_loaded_saved E hfits hopen everyoneFound_injective w).mpr
    ⟨a, r, hr, rfl, rfl, rfl⟩
  have hd : (loadRecords everyoneFound 0 ∅ (onGameSaved E c w).2).lookup a =
      some (reloadRecord (toSave E c w a r)) := hl
  rw [cosaveLooks, hd, Option.map_some, reloadRecord_looks hpaths]

end Save

section Slots

theorem captureRecord_listsFit (hslots : ∀ p, E.slots p ≤ 255) (t : Overrides) (a : FormID)
    (r : ActorRecord) : ListsFit (captureRecord E t a r) := by
  refine ⟨fun p => ?_⟩
  have hl := shown_length_le E t a p
  have hs := hslots p
  rw [captureRecord_list]
  omega

theorem saveFits_of_listsFit (hslots : ∀ p, E.slots p ≤ 255) {c : SaveCall} {w : World}
    (hord : Enumerates c.order w.actorData) (hsize : w.actorData.keys.card < 2 ^ 32)
    (hfit : AllRecords ListsFit w.actorData) : SaveFits E c w := by
  refine ⟨hord, hsize, fun a r hr => ?_⟩
  rw [toSave]
  split_ifs
  · exact captureRecord_listsFit E hslots w.overrides a r
  · exact hfit a r hr

end Slots

end OverlaySaver
