import OverlaySaver.Footprint

/-!
# The string pool

`BSFixedString` ignores letter case: a capture reads a texture path as it was spelt by whoever
interned it first. Two plugins on two pools to which the same things happen agree up to the
letter case of texture paths, in the store and in the override table.
-/

namespace OverlaySaver
open ByteStream (Bytes)
open Transition Compaction

section Lower

theorem tolower_eq_zero_iff (c : UInt8) : tolower c = 0 ↔ c = 0 := by
  have h : ∀ n < 256, tolower (UInt8.ofNat n) = 0 ↔ UInt8.ofNat n = 0 := by decide +kernel
  simpa using h c.toNat c.toNat_lt

theorem tolower_tolower (c : UInt8) : tolower (tolower c) = tolower c := by
  have h : ∀ n < 256, tolower (tolower (UInt8.ofNat n)) = tolower (UInt8.ofNat n) := by
    decide +kernel
  simpa using h c.toNat c.toNat_lt

def CStr.lower (s : CStr) : CStr where
  bytes := s.bytes.map tolower
  noNul := by
    intro h
    obtain ⟨c, hc, h0⟩ := List.mem_map.mp h
    exact s.noNul ((tolower_eq_zero_iff c).mp h0 ▸ hc)

theorem CStr.lower_ofString (s : Bytes) :
    (CStr.ofString s).lower = CStr.ofString (s.map tolower) := by
  refine CStr.ext ?_
  simp only [CStr.lower, CStr.ofString, List.takeWhile_map, Function.comp_def, ne_eq,
    tolower_eq_zero_iff]

def Variant.lower : Variant → Variant
  | .string s => .string s.lower
  | v => v

def RMOverlay.lower (o : RMOverlay) : RMOverlay :=
  { o with texturePath := o.texturePath.map tolower }

def ActorRecord.lower (r : ActorRecord) : ActorRecord := r.mapLists (List.map RMOverlay.lower)

def lowerNode (v : Node) : Node := fun k i => (v k i).map Variant.lower

def ActorView.lower (v : ActorView) : ActorView where
  record := v.record.map ActorRecord.lower
  overrides f m := lowerNode (v.overrides f m)

theorem Variant.eq_or_string {v v' : Variant} (h : v.lower = v'.lower) :
    v = v' ∨ ∃ s s', v = .string s ∧ v' = .string s' ∧ s.lower = s'.lower := by
  cases v <;> cases v' <;> simp_all [Variant.lower]

/-- The alpha and the tint of the node are not stored as text. -/
def Typed (v : Node) : Prop := ∀ s,
  v OverlayLayers.kShaderAlpha.toUInt16 (-1) ≠ some (.string s) ∧
    v OverlayLayers.kShaderTintColor.toUInt16 (-1) ≠ some (.string s)

theorem eq_of_lowerNode {v v' : Node} (h : lowerNode v = lowerNode v') {k : UInt16} {i : UInt8}
    (hk : ∀ s, v k i ≠ some (.string s)) : v k i = v' k i := by
  have hki : (v k i).map Variant.lower = (v' k i).map Variant.lower := congrFun (congrFun h k) i
  cases hv : v k i with
  | none => rw [hv] at hki; exact (Option.map_eq_none_iff.mp hki.symm).symm
  | some x =>
    rw [hv] at hki hk
    obtain ⟨x', hx', hlower⟩ := Option.map_eq_some_iff.mp hki.symm
    rcases Variant.eq_or_string hlower.symm with rfl | ⟨s, -, rfl, -, -⟩
    · exact hx'.symm
    · exact absurd rfl (hk s)

end Lower

structure Pool where
  spell : CStr → CStr
  spell_idem : ∀ s, spell (spell s) = spell s
  spell_tolower : ∀ s, (spell s).bytes.map tolower = s.bytes.map tolower

def Session.respell (E : Session) (P : Pool) : Session :=
  { E with
    fixedString := P.spell
    fixedString_idem := P.spell_idem
    fixedString_tolower := P.spell_tolower }

section Reading
variable (E : Session) (P : Pool)

theorem lower_fixedString (s : CStr) : (E.fixedString s).lower = s.lower :=
  CStr.ext (E.fixedString_tolower s)

theorem freeTexture_lower (s : CStr) : freeTexture s.lower = freeTexture s := by
  have hmap : (s.bytes.map tolower).map tolower = s.bytes.map tolower := by
    rw [List.map_map]
    exact List.map_congr_left fun c _ => tolower_tolower c
  rw [freeTexture, freeTexture, CStr.lower, List.isEmpty_map, containsInvariantStr,
    containsInvariantStr, hmap]

theorem freeTexture_congr {s s' : CStr} (h : s.lower = s'.lower) :
    freeTexture s = freeTexture s' := by
  rw [← freeTexture_lower, h, freeTexture_lower]

theorem getString_lower {x x' : Variant} (h : x.lower = x'.lower) :
    (x.getString E).lower = (x'.getString (E.respell P)).lower := by
  rcases Variant.eq_or_string h with rfl | ⟨s, s', rfl, rfl, hs⟩
  · cases x <;> rfl
  · exact hs

variable {v v' : Node}

theorem nodeTexture_lower (hv : lowerNode v = lowerNode v') :
    (nodeTexture E v).lower = (nodeTexture (E.respell P) v').lower := by
  have hki : (v OverlayLayers.kShaderTexture.toUInt16 0).map Variant.lower =
    (v' OverlayLayers.kShaderTexture.toUInt16 0).map Variant.lower := congrFun (congrFun hv _) _
  rw [nodeTexture, nodeTexture]
  cases hx : v OverlayLayers.kShaderTexture.toUInt16 0 with
  | none =>
    rw [hx] at hki
    rw [Option.map_eq_none_iff.mp hki.symm]
    exact (lower_fixedString E _).trans (lower_fixedString (E.respell P) _).symm
  | some x =>
    rw [hx] at hki
    obtain ⟨x', hx', hsame⟩ := Option.map_eq_some_iff.mp hki.symm
    rw [hx']
    exact (lower_fixedString E _).trans
      ((getString_lower E P hsame.symm).trans (lower_fixedString (E.respell P) _).symm)

theorem nodeAlpha_respell (hv : lowerNode v = lowerNode v') (ht : Typed v) :
    nodeAlpha E v = nodeAlpha (E.respell P) v' := by
  rw [nodeAlpha, nodeAlpha, eq_of_lowerNode hv fun s => (ht s).1]
  rfl

theorem nodeColor_respell (hv : lowerNode v = lowerNode v') (ht : Typed v) :
    nodeColor E v = nodeColor (E.respell P) v' := by
  rw [nodeColor, nodeColor, eq_of_lowerNode hv fun s => (ht s).2]
  rfl

theorem readNode_lower (hv : lowerNode v = lowerNode v') (ht : Typed v) :
    (readNode E v).map RMOverlay.lower = (readNode (E.respell P) v').map RMOverlay.lower := by
  have htexture := nodeTexture_lower E P hv
  have hbytes := congrArg CStr.bytes htexture
  have hlength := congrArg List.length hbytes
  simp only [CStr.lower, List.length_map] at hbytes hlength
  simp only [readNode, freeTexture_congr htexture, nodeAlpha_respell E P hv ht,
    nodeColor_respell E P hv ht, hlength]
  split_ifs
  · rfl
  · exact congrArg some (congrArg (RMOverlay.mk _ _ _) hbytes)

end Reading

section Views
variable (E : Session) (P : Pool) (a : FormID)

structure SameCase (t t' : Overrides) (a : FormID) : Prop where
  lower : ∀ f m, lowerNode (t a f m) = lowerNode (t' a f m)
  typed : ∀ f m, Typed (t a f m)

variable {t t' : Overrides} {r r' : ActorRecord}

theorem shown_lower (h : SameCase t t' a) (p : Part) :
    (shown E t a p).map RMOverlay.lower = (shown (E.respell P) t' a p).map RMOverlay.lower := by
  rw [shown, shown, map_compact, map_compact]
  exact congrArg (fun f => compact f _) (funext fun i =>
    readNode_lower E P (h.lower _ _) (h.typed _ _))

theorem captureRecord_lower (h : SameCase t t' a) (hr : r.lower = r'.lower) :
    (captureRecord E t a r).lower = (captureRecord (E.respell P) t' a r').lower := by
  have happlied := congrArg ActorRecord.alreadyApplied hr
  refine ActorRecord.ext_list (fun p => ?_) happlied
  simp only [ActorRecord.lower, ActorRecord.mapLists_list, captureRecord_list]
  exact shown_lower E P a h p

theorem list_lower (hr : r.lower = r'.lower) (p : Part) :
    (r.list p).map RMOverlay.lower = (r'.list p).map RMOverlay.lower := by
  have h := congrArg (fun r => r.list p) hr
  simpa [ActorRecord.lower] using h

theorem lowerNode_write (o : RMOverlay) : lowerNode o.look.write = o.lower.look.write := by
  funext k i
  simp only [lowerNode, Look.write, RMOverlay.look, RMOverlay.lower, ← CStr.lower_ofString]
  split_ifs <;> rfl

theorem typed_write (o : Look) : Typed o.write := by
  intro s
  constructor <;> intro h <;> cases h

theorem typed_of_touches {b : FormID} (h : SameCase t t' a) {u : Overrides}
    (hu : Touches E b t u) (f : Bool) (m : NodeName) : Typed (u a f m) := by
  rcases hu a f m with hsame | ⟨-, -, hbare | ⟨o, hwrite⟩⟩
  · rw [hsame]
    exact h.typed f m
  · rw [hbare]
    exact fun s => ⟨nofun, nofun⟩
  · rw [hwrite]
    exact typed_write o

theorem writtenSlots_lower (hr : r.lower = r'.lower) (p : Part) :
    writtenSlots (E.slots p) (r.list p) = writtenSlots (E.slots p) (r'.list p) := by
  have hlength := congrArg List.length (list_lower hr p)
  simp only [List.length_map] at hlength
  rw [writtenSlots, writtenSlots, hlength]

theorem applyRecord_slot_lower (hr : r.lower = r'.lower) {p : Part} {i : ℕ}
    (hi : i < writtenSlots (E.slots p) (r.list p)) :
    lowerNode (applyRecord E t a r a (E.sex a) (nodeName p i)) =
      lowerNode (applyRecord E t' a r' a (E.sex a) (nodeName p i)) := by
  have hlist := congrArg (fun l => l[i]?) (list_lower hr p)
  have hlength : i < (r.list p).length := lt_of_lt_of_le hi (writtenSlots_le_length _ _)
  simp only [List.getElem?_map, List.getElem?_eq_getElem hlength, Option.map_some] at hlist
  obtain ⟨o', ho', hlower⟩ := Option.map_eq_some_iff.mp hlist.symm
  rw [applyRecord_slot E t a r hi (List.getElem?_eq_getElem hlength),
    applyRecord_slot E t' a r' (writtenSlots_lower E hr p ▸ hi) ho', lowerNode_write,
    lowerNode_write, hlower]

theorem sameCase_applyRecord (h : SameCase t t' a) (hr : r.lower = r'.lower) :
    SameCase (applyRecord E t a r) (applyRecord E t' a r') a := by
  refine ⟨fun f m => ?_, typed_of_touches E a h (touches_applyRecord t a r)⟩
  by_cases hoff : ∀ p, ∀ i < writtenSlots (E.slots p) (r.list p),
      ¬ (a = a ∧ f = E.sex a ∧ m = nodeName p i)
  · have hoff' : ∀ p, ∀ i < writtenSlots (E.slots p) (r'.list p),
        ¬ (a = a ∧ f = E.sex a ∧ m = nodeName p i) := fun p =>
      writtenSlots_lower E hr p ▸ hoff p
    rw [applyRecord_frame E t a r hoff, applyRecord_frame E t' a r' hoff']
    exact h.lower f m
  · simp only [not_forall, not_not] at hoff
    obtain ⟨p, i, hi, -, rfl, rfl⟩ := hoff
    exact applyRecord_slot_lower E a hr hi

theorem sameCase_clearOverlays (h : SameCase t t' a) :
    SameCase (clearOverlays E t a) (clearOverlays E t' a) a := by
  refine ⟨fun f m => ?_, typed_of_touches E a h (touches_clearOverlays t a)⟩
  by_cases hoff : ∀ p, ∀ i < E.iHead.toNat, ¬ (a = a ∧ f = E.sex a ∧ m = nodeName p i)
  · rw [clearOverlays_frame E t a hoff, clearOverlays_frame E t' a hoff]
    exact h.lower f m
  · simp only [not_forall, not_not] at hoff
    obtain ⟨p, i, hi, -, rfl, rfl⟩ := hoff
    rw [clearOverlays_slot E t a hi, clearOverlays_slot E t' a hi]

end Views

namespace ActorView
variable (E : Session) (P : Pool) (a : FormID) {v v' : ActorView}

structure SameCase (a : FormID) (v v' : ActorView) : Prop where
  record : v.record.map ActorRecord.lower = v'.record.map ActorRecord.lower
  table : OverlaySaver.SameCase v.table v'.table a

theorem SameCase.cases (h : SameCase a v v') :
    (v.record = none ∧ v'.record = none) ∨
      ∃ r r', v.record = some r ∧ v'.record = some r' ∧ r.lower = r'.lower := by
  have hrecord := h.record
  cases hr : v.record with
  | none =>
    rw [hr] at hrecord
    exact Or.inl ⟨rfl, Option.map_eq_none_iff.mp hrecord.symm⟩
  | some r =>
    rw [hr] at hrecord
    obtain ⟨r', hr', hlower⟩ := Option.map_eq_some_iff.mp hrecord.symm
    exact Or.inr ⟨r, r', rfl, hr', hlower.symm⟩

theorem SameCase.capture (h : SameCase a v v') :
    SameCase a (v.capture E a) (v'.capture (E.respell P) a) := by
  refine ⟨?_, h.table⟩
  rw [ActorView.capture, ActorView.capture]
  rcases h.cases a with ⟨hr, hr'⟩ | ⟨r, r', hr, hr', hlower⟩
  · rw [hr, hr']
    rfl
  · rw [hr, hr']
    exact congrArg some (captureRecord_lower E P a h.table hlower)

theorem SameCase.register (h : SameCase a v v') :
    SameCase a (v.register E a) (v'.register (E.respell P) a) := by
  rw [ActorView.register, ActorView.register]
  rcases h.cases a with ⟨hr, hr'⟩ | ⟨r, r', hr, hr', -⟩
  · rw [hr, hr']
    exact ⟨congrArg some (captureRecord_lower E P a h.table rfl), h.table⟩
  · rw [hr, hr']
    exact h

theorem sameCase_apply_some {r r' : ActorRecord} (hlower : r.lower = r'.lower)
    {u u' : Bool → NodeName → Node} (h : OverlaySaver.SameCase (fun _ => u) (fun _ => u') a)
    (force : Bool) :
    SameCase a (apply E a ⟨some r, u⟩ force) (apply (E.respell P) a ⟨some r', u'⟩ force) := by
  have hflag : r.alreadyApplied = r'.alreadyApplied := by
    have happlied := congrArg ActorRecord.alreadyApplied hlower
    exact happlied
  simp only [apply, hflag]
  split_ifs
  · exact ⟨congrArg some hlower, h⟩
  · have happlied : ({ r with alreadyApplied := true } : ActorRecord).lower =
        ({ r' with alreadyApplied := true } : ActorRecord).lower :=
      congrArg (fun r : ActorRecord => { r with alreadyApplied := true }) hlower
    have htable := sameCase_applyRecord E a h hlower
    exact ⟨congrArg some happlied, htable.lower, htable.typed⟩

theorem SameCase.apply (h : SameCase a v v') (force : Bool) :
    SameCase a (v.apply E a force) (v'.apply (E.respell P) a force) := by
  obtain ⟨record, u⟩ := v
  obtain ⟨record', u'⟩ := v'
  rcases h.cases a with ⟨rfl, rfl⟩ | ⟨r, r', rfl, rfl, hlower⟩
  · exact h
  · exact sameCase_apply_some E P a hlower h.table force

theorem SameCase.clear (h : SameCase a v v') :
    SameCase a (v.clear E a) (v'.clear (E.respell P) a) := by
  have htable := sameCase_clearOverlays E a h.table
  exact ⟨h.record, htable.lower, htable.typed⟩

theorem lower_reverse {r r' : ActorRecord} (h : r.lower = r'.lower) :
    (r.mapLists List.reverse).lower = (r'.mapLists List.reverse).lower := by
  have happlied := congrArg ActorRecord.alreadyApplied h
  refine ActorRecord.ext_list (fun p => ?_) happlied
  have hp := list_lower h p
  simp only [ActorRecord.lower, ActorRecord.mapLists_list, List.map_reverse, hp]

theorem SameCase.flip (h : SameCase a v v') :
    SameCase a (v.flip E a) (v'.flip (E.respell P) a) := by
  have hclear := h.clear E P a
  rw [ActorView.flip, ActorView.flip]
  rcases h.cases a with ⟨hr, hr'⟩ | ⟨r, r', hr, hr', hlower⟩
  · rw [hr, hr']
    exact h
  · rw [hr, hr']
    exact sameCase_apply_some E P a (lower_reverse hlower) hclear.table true

def TypedMove : Move → Prop
  | .skee u => ∀ f m, Typed (u f m)
  | _ => True

theorem SameCase.step (h : SameCase a v v') {m : Move} (hm : TypedMove m) :
    SameCase a (v.step E a m) (v'.step (E.respell P) a m) := by
  cases m with
  | load r => exact ⟨rfl, h.table⟩
  | skee u => exact ⟨h.record, fun _ _ => rfl, hm⟩
  | task => exact h.apply E P a false
  | save found =>
    rw [ActorView.step, ActorView.step]
    split_ifs
    · exact h.capture E P a
    · exact h
  | console cmd =>
    cases cmd with
    | help | reset3d => exact h
    | register => exact h.register E P a
    | apply => exact h.apply E P a true
    | update => exact h.capture E P a
    | erase => exact ⟨rfl, h.table⟩
    | flip => exact h.flip E P a
    | clear => exact h.clear E P a

end ActorView

section Runs
variable (E : Session) (P : Pool) {w w' : World} {es : List Event}

structure World.SameCase (w w' : World) : Prop where
  views : ∀ a, ActorView.SameCase a (w.view a) (w'.view a)
  tasks : w.tasks = w'.tasks

def TypedEvent : Event → Prop
  | .skee t => ∀ a f m, Typed (t a f m)
  | _ => True

theorem World.SameCase.mem_iff (h : w.SameCase w') (a : FormID) :
    a ∈ w'.actorData ↔ a ∈ w.actorData := by
  have hrecord := congrArg Option.isSome (h.views a).record
  simp only [World.view, Option.isSome_map] at hrecord
  rw [← Finmap.lookup_isSome, ← Finmap.lookup_isSome, hrecord]

theorem World.SameCase.possible (h : w.SameCase w') {e : Event} (he : Possible w e) :
    Possible w' e := by
  cases e with
  | save c => exact Enumerates.of_keys_eq he h.mem_iff
  | task a =>
    have hmem : a ∈ w.tasks := he
    rw [h.tasks] at hmem
    exact hmem
  | load | revert | load3D | console | skee => trivial

theorem typedMove_of_seen {e : Event} (he : TypedEvent e) {a : FormID} {m : Move}
    (hm : seenBy a e = some m) : ActorView.TypedMove m := by
  cases e with
  | skee t =>
    obtain rfl := Option.some.inj hm
    exact he a
  | load | save | revert =>
    obtain rfl := Option.some.inj hm
    trivial
  | load3D => cases hm
  | task | console =>
    simp only [seenBy] at hm
    split_ifs at hm
    obtain rfl := Option.some.inj hm
    trivial

theorem World.SameCase.step (h : w.SameCase w') {e : Event} (hp : Possible w e)
    (he : TypedEvent e) :
    (OverlaySaver.step E w e).SameCase (OverlaySaver.step (E.respell P) w' e) := by
  refine ⟨fun a => ?_, ?_⟩
  · rw [view_step E hp, view_step (E.respell P) (h.possible hp)]
    cases hm : seenBy a e with
    | none => exact h.views a
    | some m => exact (h.views a).step E P a (typedMove_of_seen he hm)
  · rw [step_tasks, step_tasks, h.tasks]

/-- Whatever spelling the string pool gives to a texture path, the plugin does the same: after
any run two plugins on two pools have the same actors stored, with the same flags, lists of the
same length and the same overrides, but for the letter case of the paths. -/
theorem pool_decides_case_only (h : w.SameCase w')
    (hes : Along (step E) (fun w e => Possible w e ∧ TypedEvent e) w es) :
    (run (step E) w es).SameCase (run (step (E.respell P)) w' es) :=
  Along.simulation (step E) (fun _ _ _ he h => h.step E P he.1 he.2) hes h

def lowerPool : Pool where
  spell := CStr.lower
  spell_idem s := by
    refine CStr.ext ?_
    simp only [CStr.lower, List.map_map]
    exact List.map_congr_left fun c _ => tolower_tolower c
  spell_tolower s := by
    simp only [CStr.lower, List.map_map]
    exact List.map_congr_left fun c _ => tolower_tolower c

theorem pool_decides_case_only_lower_pool :
    let E := plainSession 1
    let w : World := ⟨oneActor 20 oneOverlay, fun _ _ _ _ _ => none, [20]⟩
    let es : List Event := [.task 20, .console .update (some 20)]
    (run (step E) w es).SameCase (run (step (E.respell lowerPool)) w es) := by
  intro E w es
  have hsame : w.SameCase w :=
    ⟨fun a => ⟨rfl, fun _ _ => rfl, fun _ _ _ => ⟨nofun, nofun⟩⟩, rfl⟩
  exact pool_decides_case_only E lowerPool hsame
    ⟨⟨List.mem_cons_self, trivial⟩, ⟨trivial, trivial⟩, trivial⟩

end Runs

end OverlaySaver
