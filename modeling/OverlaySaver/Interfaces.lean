import OverlaySaver.Tables
import OverlaySaver.Fallible

/-!
# The calls into SKEE

The manager once more, with each call going through a pointer that may be null: such a
call gives `none`. An operation survives without its interface just when no loop of it has a slot
to work on, and then it is the operation of the manager.
-/

namespace OverlaySaver
open ByteStream (Bytes)
open Fallible Transition

/-- Whether `OverlayInterface` and `OverrideInterface` are set. -/
structure Interfaces where
  overlay : Bool := false
  override : Bool := false
deriving DecidableEq

variable (E : Session) (I : Interfaces)

section Calls
variable (t : Overrides) (a : FormID)

def clearBodyPart? (numOfSlots : ℤ) (ovlName : NodeName) : Option Overrides :=
  (List.range numOfSlots.toNat).foldlM
    (fun t i => call I.override (removeAllNodeOverridesByNode t a (E.sex a) (format ovlName i))) t

def clearOverlays? : Option Overrides :=
  (clearBodyPart? E I t a E.iHead sHead).bind fun t =>
    (clearBodyPart? E I t a E.iHead sHand).bind fun t =>
      (clearBodyPart? E I t a E.iHead sBody).bind fun t =>
        clearBodyPart? E I t a E.iHead sFeet

def buildOvlListForSlot? (numOfSlots : ℤ) (ovlName : NodeName) (ovlVec : List RMOverlay) :
    Option (List RMOverlay) :=
  (List.range numOfSlots.toNat).foldlM (fun vec i =>
    let node := format ovlName i
    (call I.override (getNodeOverrideString E t a (E.sex a) node .kShaderTexture 0).bytes).bind
      fun tex =>
        if tex.isEmpty || containsInvariantStr tex defaultTexture then some vec
        else
          (call I.override (getNodeOverrideFloat E t a (E.sex a) node .kShaderAlpha (-1))).bind
            fun alpha =>
              (call I.override
                (getNodeOverrideInt E t a (E.sex a) node .kShaderTintColor (-1)).toUInt32).bind
                  fun color =>
                    some (vec ++ [⟨alpha, color, UInt16.ofNat tex.length, tex⟩])) ovlVec

def captureRecord? (r : ActorRecord) : Option ActorRecord :=
  (buildOvlListForSlot? E I t a E.iHead sHead []).bind fun vHead =>
    (buildOvlListForSlot? E I t a E.iHand sHand []).bind fun vHand =>
      (buildOvlListForSlot? E I t a E.iBody sBody []).bind fun vBody =>
        (buildOvlListForSlot? E I t a E.iFeet sFeet []).bind fun vFeet =>
          some { r with vHead := vHead, vHand := vHand, vBody := vBody, vFeet := vFeet }

def applyStoredOverlayOnBodyPart? (numOfSlots : ℤ) (ovlName : NodeName)
    (ovlVec : List RMOverlay) : Option Overrides :=
  if ovlVec.isEmpty then some t
  else
    let n := min numOfSlots (castInt ovlVec.length)
    (List.range n.toNat).foldlM (fun t i =>
      let node := format ovlName i
      (call I.override (removeAllNodeOverridesByNode t a (E.sex a) node)).bind fun t =>
        match ovlVec[i]? with
        | none => some t
        | some o =>
          (call I.override (addNodeOverride t a (E.sex a) node
            OverlayLayers.kShaderTexture.toUInt16 0
              (.string (CStr.ofString o.texturePath)))).bind fun t =>
            (call I.override (addNodeOverride t a (E.sex a) node
              OverlayLayers.kShaderAlpha.toUInt16 (-1) (.float o.alpha))).bind fun t =>
              call I.override (addNodeOverride t a (E.sex a) node
                OverlayLayers.kShaderTintColor.toUInt16 (-1) (.int o.color.toInt32))) t

def applyRecord? (r : ActorRecord) : Option Overrides :=
  (applyStoredOverlayOnBodyPart? E I t a E.iHead sHead r.vHead).bind fun t =>
    (applyStoredOverlayOnBodyPart? E I t a E.iHand sHand r.vHand).bind fun t =>
      (applyStoredOverlayOnBodyPart? E I t a E.iBody sBody r.vBody).bind fun t =>
        applyStoredOverlayOnBodyPart? E I t a E.iFeet sFeet r.vFeet

end Calls

section Operations
variable (w : World) (a : FormID)

def buildOverlayList? : Option World :=
  match getData w.actorData a with
  | none => some w
  | some r =>
    (captureRecord? E I w.overrides a r).map fun r =>
      { w with actorData := w.actorData.insert a r }

def applyOverlayFromList? (force : Bool) : Option World :=
  match getData w.actorData a with
  | none => some w
  | some r =>
    if r.alreadyApplied && !force then some w
    else
      (applyRecord? E I w.overrides a r).map fun t =>
        { w with
          actorData := w.actorData.insert a { r with alreadyApplied := true }
          overrides := t }

def flipStoredOverlays? : Option World :=
  match getData w.actorData a with
  | none => some w
  | some r =>
    (clearOverlays? E I w.overrides a).bind fun t =>
      applyOverlayFromList? E I
        { w with
          overrides := t
          actorData := w.actorData.insert a (r.mapLists List.reverse) } a true

def rebuildAll? (c : SaveCall) : Option World :=
  c.order.foldlM (fun w a => if c.lookupByID a then buildOverlayList? E I w a else some w) w

def runCallback? : Callback → Option World
  | .help => some w
  | .register =>
    if (getData w.actorData a).isSome then some w
    else buildOverlayList? E I { w with actorData := addNew w.actorData a } a
  | .apply =>
    if (getData w.actorData a).isSome then applyOverlayFromList? E I w a true else some w
  | .update => if (getData w.actorData a).isSome then buildOverlayList? E I w a else some w
  | .erase => some (cmdErase w a)
  | .flip => if (getData w.actorData a).isSome then flipStoredOverlays? E I w a else some w
  | .clear => (clearOverlays? E I w.overrides a).map fun t => { w with overrides := t }
  | .reset3d => some (cmdReset3D w)

def step? : Event → Option World
  | .save c => rebuildAll? E I w c
  | .task a =>
    if a ∈ w.tasks then applyOverlayFromList? E I { w with tasks := w.tasks.erase a } a false
    else some w
  | .console cmd (some a) => runCallback? E I w a cmd
  | e => some (step E w e)

end Operations

section Conditions

def CaptureSafe : Prop := ∀ p, 0 < (E.slots p).toNat → I.override = true

def ApplySafe (r : ActorRecord) : Prop := ∀ p, 0 < appliedSlots E r p → I.override = true

def ClearSafe : Prop := 0 < E.iHead.toNat → I.override = true

variable (w : World) (a : FormID)

def CommandSafe : Callback → Prop
  | .register => w.actorData.lookup a = none → CaptureSafe E I
  | .apply => ∀ r, w.actorData.lookup a = some r → ApplySafe E I r
  | .update => (w.actorData.lookup a).isSome → CaptureSafe E I
  | .flip => ∀ r, w.actorData.lookup a = some r → ClearSafe E I ∧ ApplySafe E I r
  | .clear => ClearSafe E I
  | .help => True
  | .erase => True
  | .reset3d => True

/-- The interface is there, or the event finds no slot to work on. -/
def EventSafe : Event → Prop
  | .save c => (∃ a ∈ c.order, c.lookupByID a = true ∧ a ∈ w.actorData) → CaptureSafe E I
  | .task a => a ∈ w.tasks →
    ∀ r, w.actorData.lookup a = some r → r.alreadyApplied = false → ApplySafe E I r
  | .console cmd (some a) => CommandSafe E I w a cmd
  | _ => True

theorem forall_part_iff {P : Part → Prop} :
    (∀ p, P p) ↔ P .head ∧ P .hand ∧ P .body ∧ P .feet := by
  constructor
  · exact fun h => ⟨h .head, h .hand, h .body, h .feet⟩
  · intro h' p
    obtain ⟨hd, hh, hb, hf⟩ := h'
    cases p
    · exact hd
    · exact hh
    · exact hb
    · exact hf

end Conditions

section Guards
variable {E I} (t : Overrides) (a : FormID)

theorem guarded_loop {σ : Type} {present : Bool} {f? : σ → ℕ → Option σ} {f : σ → ℕ → σ}
    (h : ∀ s i, Guarded (f? s i) (present = true) (f s i)) (n : ℕ) (s : σ) :
    Guarded ((List.range n).foldlM f? s) (0 < n → present = true) ((List.range n).foldl f s) := by
  refine (Guarded.foldlM h s (List.range n)).congr ((along_const_iff s _).trans ?_)
  rw [ne_eq, List.range_eq_nil, ← ne_eq, ← Nat.pos_iff_ne_zero]

theorem guarded_clearBodyPart (n : ℤ) (name : NodeName) :
    Guarded (clearBodyPart? E I t a n name) (0 < n.toNat → I.override = true)
      (clearBodyPart E t a n name) :=
  guarded_loop (fun _ _ => Guarded.call _ _) _ t

theorem guarded_clearOverlays :
    Guarded (clearOverlays? E I t a) (ClearSafe E I) (clearOverlays E t a) := by
  have h := fun t => guarded_clearBodyPart (E := E) (I := I) t a E.iHead
  refine ((h t sHead).bind ((h _ sHand).bind ((h _ sBody).bind (h _ sFeet)))).congr ?_
  rw [ClearSafe, and_self, and_self, and_self]

theorem guarded_buildOvlListForSlot (n : ℤ) (name : NodeName) (l : List RMOverlay) :
    Guarded (buildOvlListForSlot? E I t a n name l) (0 < n.toNat → I.override = true)
      (buildOvlListForSlot E t a n name l) := by
  refine guarded_loop (fun vec i => ?_) _ l
  have hcall := fun {α : Type} (x : α) => Guarded.call I.override x
  dsimp only
  split_ifs with hfree
  · refine ((hcall _).bind ?_).congr (iff_of_eq (and_true _))
    rw [if_pos hfree]
    exact Guarded.pure vec
  · refine (hcall _).seq ?_
    rw [if_neg hfree]
    refine (hcall _).seq ?_
    exact Guarded.bind_some (hcall _) _

theorem guarded_captureRecord (r : ActorRecord) :
    Guarded (captureRecord? E I t a r) (CaptureSafe E I) (captureRecord E t a r) := by
  have h := fun n name => guarded_buildOvlListForSlot (E := E) (I := I) t a n name []
  have hlast := (h E.iFeet sFeet).bind_some fun vFeet => ({
    captureRecord E t a r with vFeet := vFeet } : ActorRecord)
  refine ((h _ _).bind ((h _ _).bind ((h _ _).bind hlast))).congr ?_
  rw [CaptureSafe, forall_part_iff]
  rfl

theorem guarded_applyStoredOverlayOnBodyPart (n : ℤ) (name : NodeName) (l : List RMOverlay) :
    Guarded (applyStoredOverlayOnBodyPart? E I t a n name l)
      (0 < writtenSlots n l → I.override = true)
      (applyStoredOverlayOnBodyPart E t a n name l) := by
  rw [applyStoredOverlayOnBodyPart?, applyStoredOverlayOnBodyPart]
  split_ifs with hl
  · refine (Guarded.pure t).congr (iff_of_true trivial fun hpos => ?_)
    have hle := writtenSlots_le_length n l
    have hzero : l.length = 0 := by rw [List.isEmpty_iff.mp hl, List.length_nil]
    omega
  · refine guarded_loop (fun t i => ?_) _ t
    have hcall := fun {α : Type} (x : α) => Guarded.call I.override x
    dsimp only
    cases l[i]? with
    | none => exact (hcall _).bind_some id
    | some o => exact (hcall _).seq ((hcall _).seq ((hcall _).seq (hcall _)))

theorem guarded_applyRecord (r : ActorRecord) :
    Guarded (applyRecord? E I t a r) (ApplySafe E I r) (applyRecord E t a r) := by
  have h := fun t n name l => guarded_applyStoredOverlayOnBodyPart (E := E) (I := I) t a n name l
  rw [ApplySafe, forall_part_iff]
  refine Guarded.bind (h t E.iHead sHead r.vHead) ?_
  refine Guarded.bind (h _ E.iHand sHand r.vHand) ?_
  refine Guarded.bind (h _ E.iBody sBody r.vBody) ?_
  exact h _ E.iFeet sFeet r.vFeet

end Guards

section Operations
variable {E I} (w : World) (a : FormID)

theorem guarded_buildOverlayList :
    Guarded (buildOverlayList? E I w a) ((w.actorData.lookup a).isSome → CaptureSafe E I)
      (buildOverlayList E w a) := by
  rw [buildOverlayList?, buildOverlayList, getData_eq_lookup]
  cases w.actorData.lookup a with
  | none => exact (Guarded.pure w).congr (iff_of_true trivial fun h => by cases h)
  | some r =>
    refine ((guarded_captureRecord w.overrides a r).map _).congr ?_
    rw [Option.isSome_some, forall_prop_of_true rfl]

theorem guarded_applyOverlayFromList (force : Bool) :
    Guarded (applyOverlayFromList? E I w a force)
      (∀ r, w.actorData.lookup a = some r → ¬ (r.alreadyApplied && !force) = true →
        ApplySafe E I r)
      (applyOverlayFromList E w a force) := by
  rw [applyOverlayFromList?, applyOverlayFromList, getData_eq_lookup]
  cases w.actorData.lookup a with
  | none => exact (Guarded.pure w).congr (iff_of_true trivial fun r h => by cases h)
  | some r =>
    dsimp only
    split_ifs with hgate
    · refine (Guarded.pure w).congr (iff_of_true trivial fun r' hr' hno => ?_)
      rw [← Option.some.inj hr'] at hno
      exact absurd hgate hno
    · refine ((guarded_applyRecord w.overrides a r).map _).congr ?_
      constructor
      · intro h r' hr' _
        exact Option.some.inj hr' ▸ h
      · exact fun h => h r rfl hgate

theorem applySafe_reverse (r : ActorRecord) :
    ApplySafe E I (r.mapLists List.reverse) ↔ ApplySafe E I r := by
  rw [ApplySafe, appliedSlots_reverse, ApplySafe]

theorem guarded_flip :
    Guarded (flipStoredOverlays? E I w a)
      (∀ r, w.actorData.lookup a = some r → ClearSafe E I ∧ ApplySafe E I r)
      (flipStoredOverlaysAndReapply E w a) := by
  rw [flipStoredOverlays?, flipStoredOverlaysAndReapply, getData_eq_lookup]
  cases w.actorData.lookup a with
  | none => exact (Guarded.pure w).congr (iff_of_true trivial fun r h => by cases h)
  | some r =>
    dsimp only
    refine ((guarded_clearOverlays w.overrides a).bind
      (guarded_applyOverlayFromList _ a true)).congr ?_
    dsimp only
    rw [Finmap.lookup_insert]
    constructor
    · intro h' r' hr'
      obtain ⟨hclear, happly⟩ := h'
      obtain rfl := Option.some.inj hr'
      exact ⟨hclear, (applySafe_reverse _).mp (happly _ rfl (by simp))⟩
    · intro h
      obtain ⟨hclear, happly⟩ := h r rfl
      refine ⟨hclear, fun r' hr' _ => ?_⟩
      rw [← Option.some.inj hr']
      exact (applySafe_reverse r).mpr happly

theorem guarded_rebuildAll (c : SaveCall) :
    Guarded (rebuildAll? E I w c)
      ((∃ a ∈ c.order, c.lookupByID a = true ∧ a ∈ w.actorData) → CaptureSafe E I)
      (rebuildAll E c w) := by
  rw [rebuildAll?, rebuildAll]
  induction c.order generalizing w with
  | nil => exact (Guarded.pure w).congr (iff_of_true trivial (by simp))
  | cons b l ih =>
    rw [List.foldlM_cons, List.foldl_cons]
    by_cases hf : c.lookupByID b = true
    · rw [if_pos hf, if_pos hf]
      refine ((guarded_buildOverlayList w b).bind (ih (buildOverlayList E w b))).congr ?_
      rw [← or_imp]
      refine imp_congr_left ?_
      simp only [List.mem_cons, exists_eq_or_imp, hf, true_and, mem_buildOverlayList,
        Finmap.lookup_isSome]
    · rw [if_neg hf, if_neg hf]
      refine (ih w).congr (imp_congr_left ?_)
      simp only [List.mem_cons, exists_eq_or_imp, hf, false_and, false_or, Bool.false_eq_true]

theorem guarded_ifRegistered {m : Option World} {ok : Prop} {w' : World} (h : Guarded m ok w')
    {ok' : Prop} (hok : (w.actorData.lookup a).isSome → (ok ↔ ok'))
    (hnone : w.actorData.lookup a = none → ok') :
    Guarded (if (getData w.actorData a).isSome then m else some w) ok'
      (if (getData w.actorData a).isSome then w' else w) := by
  rw [getData_eq_lookup]
  split_ifs with hs
  · exact h.congr (hok hs)
  · exact (Guarded.pure w).congr
      (iff_of_true trivial (hnone (Option.not_isSome_iff_eq_none.mp hs)))

theorem guarded_register :
    Guarded (runCallback? E I w a .register) (CommandSafe E I w a .register)
      (cmdRegister E w a) := by
  rw [runCallback?, cmdRegister, CommandSafe, getData_eq_lookup]
  cases hl : w.actorData.lookup a with
  | some r => exact (Guarded.pure w).congr (iff_of_true trivial fun h => by cases h)
  | none =>
    have hn : addNew w.actorData a = w.actorData.insert a {} :=
      if_neg (Finmap.lookup_eq_none.mp hl)
    refine (guarded_buildOverlayList { w with actorData := addNew w.actorData a } a).congr ?_
    rw [hn, Finmap.lookup_insert, Option.isSome_some, forall_prop_of_true rfl,
      forall_prop_of_true rfl]

theorem guarded_runCallback (cmd : Callback) :
    Guarded (runCallback? E I w a cmd) (CommandSafe E I w a cmd) (runCallback E w a cmd) := by
  cases cmd with
  | help | erase | reset3d => exact Guarded.pure _
  | register => exact guarded_register w a
  | apply =>
    refine guarded_ifRegistered w a (guarded_applyOverlayFromList w a true) (fun _ => ?_) ?_
    · simp [CommandSafe]
    · intro hn r hr
      rw [hn] at hr
      cases hr
  | update =>
    refine guarded_ifRegistered w a (guarded_buildOverlayList w a) (fun _ => Iff.rfl) ?_
    intro hn hs
    rw [hn] at hs
    cases hs
  | flip =>
    refine guarded_ifRegistered w a (guarded_flip w a) (fun _ => Iff.rfl) ?_
    intro hn r hr
    rw [hn] at hr
    cases hr
  | clear => exact (guarded_clearOverlays w.overrides a).map _

theorem guarded_step (e : Event) :
    Guarded (step? E I w e) (EventSafe E I w e) (step E w e) := by
  cases e with
  | load | revert | load3D | skee => exact Guarded.pure _
  | save c => exact guarded_rebuildAll w c
  | task b =>
    rw [step?, step, runTask, EventSafe]
    split_ifs with hq
    · refine (guarded_applyOverlayFromList { w with tasks := w.tasks.erase b } b false).congr ?_
      simp [hq]
    · exact (Guarded.pure w).congr (iff_of_true trivial fun h => absurd h hq)
  | console cmd selected =>
    cases selected with
    | none => exact Guarded.pure _
    | some b => exact guarded_runCallback w b cmd

end Operations

end OverlaySaver
