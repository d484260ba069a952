import OverlaySaver.Wardrobe

/-!
# What the plugin leaves alone

SKEE's table is shared with everything else that sets overrides. Whatever the game does, the
plugin only writes to the overlay nodes of the actors that a task or a command is about, for the
sex they have, and a node it wrote to is bare or holds the three overrides of one overlay. On each
body part these are the nodes of its slots and, as a clear goes by the count of the head, those
below that count.
-/

namespace OverlaySaver
open Transition

/-- The index is below the slot count of the part or below that of the head. -/
def OwnNode (E : Session) (a : FormID) (f : Bool) (m : NodeName) : Prop :=
  f = E.sex a ∧ ∃ p, ∃ i < max (E.slots p).toNat E.iHead.toNat, m = nodeName p i

def Touches (E : Session) (a : FormID) (t t' : Overrides) : Prop := ∀ b f m,
  t' b f m = t b f m ∨
    b = a ∧ OwnNode E b f m ∧ (t' b f m = bareNode ∨ ∃ o : Look, t' b f m = o.write)

variable {E : Session} {t t' t'' : Overrides} {a : FormID}

theorem Touches.refl (t : Overrides) : Touches E a t t := fun _ _ _ => Or.inl rfl

theorem Touches.trans (h : Touches E a t t') (h' : Touches E a t' t'') : Touches E a t t'' := by
  intro b f m
  rcases h' b f m with h'' | h''
  · rw [h'']
    exact h b f m
  · exact Or.inr h''

section Operations

theorem ownNode_slot {p : Part} {i : ℕ} (hi : i < max (E.slots p).toNat E.iHead.toNat) :
    OwnNode E a (E.sex a) (nodeName p i) := ⟨rfl, p, i, hi, rfl⟩

theorem touches_applyRecord (t : Overrides) (a : FormID) (r : ActorRecord) :
    Touches E a t (applyRecord E t a r) := by
  intro b f m
  by_cases h : OnSlots E (appliedSlots E r) a b f m
  · obtain ⟨p, i, hi, rfl, rfl, rfl⟩ := h
    obtain ⟨o, -, hwrite⟩ := applyRecord_on E t b r hi
    have hslots : i < (E.slots p).toNat := by
      rw [appliedSlots, writtenSlots] at hi
      omega
    exact Or.inr ⟨rfl, ownNode_slot (lt_max_of_lt_left hslots), Or.inr ⟨o.look, hwrite⟩⟩
  · exact Or.inl (applyRecord_off E t a r h)

theorem touches_clearOverlays (t : Overrides) (a : FormID) :
    Touches E a t (clearOverlays E t a) := by
  intro b f m
  by_cases h : OnSlots E (fun _ => E.iHead.toNat) a b f m
  · obtain ⟨p, i, hi, rfl, rfl, rfl⟩ := h
    exact Or.inr ⟨rfl, ownNode_slot (lt_max_of_lt_right hi), Or.inl (clearOverlays_slot E t b hi)⟩
  · exact Or.inl (clearOverlays_off E t a h)

theorem touches_applyOverlayFromList (w : World) (force : Bool) :
    Touches E a w.overrides (applyOverlayFromList E w a force).overrides := by
  rw [applyOverlayFromList]
  split
  · exact Touches.refl _
  · split_ifs
    · exact Touches.refl _
    · exact touches_applyRecord _ _ _

theorem touches_flip (w : World) :
    Touches E a w.overrides (flipStoredOverlaysAndReapply E w a).overrides := by
  rw [flipStoredOverlaysAndReapply]
  split
  · exact Touches.refl _
  · exact (touches_clearOverlays w.overrides a).trans (touches_applyOverlayFromList _ true)

theorem touches_runCallback (w : World) (cmd : Callback) :
    Touches E a w.overrides (runCallback E w a cmd).overrides := by
  cases cmd with
  | help | reset3d => exact Touches.refl _
  | register | update =>
    simp only [runCallback, cmdRegister, cmdUpdate]
    split_ifs
    · simpa using Touches.refl _
    · simpa using Touches.refl _
  | apply =>
    simp only [runCallback, cmdReApply]
    split_ifs
    · exact touches_applyOverlayFromList w true
    · exact Touches.refl _
  | erase =>
    simp only [runCallback, cmdErase]
    split_ifs <;> exact Touches.refl _
  | flip =>
    simp only [runCallback, cmdFlip]
    split_ifs
    · exact touches_flip w
    · exact Touches.refl _
  | clear => exact touches_clearOverlays w.overrides a

theorem rebuildAll_overrides (c : SaveCall) (w : World) :
    (rebuildAll E c w).overrides = w.overrides := by
  rw [rebuildAll]
  induction c.order generalizing w with
  | nil => rfl
  | cons b order ih =>
    rw [List.foldl_cons, ih]
    split_ifs
    · exact buildOverlayList_overrides E w b
    · rfl

end Operations

section Runs

def target : Event → Option FormID
  | .task a => some a
  | .console _ selected => selected
  | _ => none

def skeeTable : Event → Option Overrides
  | .skee t => some t
  | _ => none

/-- What SKEE last made of its table. -/
def lastSkee (t : Overrides) (es : List Event) : Overrides :=
  (es.filterMap skeeTable).getLast?.getD t

theorem overrides_step (w : World) (e : Event) :
    (∃ t, e = .skee t ∧ (step E w e).overrides = t) ∨
      skeeTable e = none ∧ ((step E w e).overrides = w.overrides ∨
        ∃ a, target e = some a ∧ Touches E a w.overrides (step E w e).overrides) := by
  cases e with
  | load | revert | load3D => exact Or.inr ⟨rfl, Or.inl rfl⟩
  | save c => exact Or.inr ⟨rfl, Or.inl (rebuildAll_overrides c w)⟩
  | task a =>
    refine Or.inr ⟨rfl, Or.inr ⟨a, rfl, ?_⟩⟩
    rw [step, runTask]
    split_ifs
    · exact touches_applyOverlayFromList { w with tasks := w.tasks.erase a } false
    · exact Touches.refl _
  | console cmd selected =>
    cases selected with
    | none => exact Or.inr ⟨rfl, Or.inl rfl⟩
    | some a => exact Or.inr ⟨rfl, Or.inr ⟨a, rfl, touches_runCallback w cmd⟩⟩
  | skee t => exact Or.inl ⟨t, rfl, rfl⟩

theorem lastSkee_append_singleton (t : Overrides) (es : List Event) (e : Event) :
    lastSkee t (es ++ [e]) = (skeeTable e).getD (lastSkee t es) := by
  rw [lastSkee, List.filterMap_append]
  cases h : skeeTable e <;> simp [h, lastSkee]

/-- After any run a node is what SKEE last made it, or it is an own node of an actor that a task
or command of the run was about, and is bare or holds the overrides of one overlay. -/
theorem footprint (w : World) (es : List Event) (b : FormID) (f : Bool) (m : NodeName) :
    (run (step E) w es).overrides b f m = lastSkee w.overrides es b f m ∨
      (∃ e ∈ es, target e = some b) ∧ OwnNode E b f m ∧
        ((run (step E) w es).overrides b f m = bareNode ∨
          ∃ o : Look, (run (step E) w es).overrides b f m = o.write) := by
  induction es using List.reverseRecOn with
  | nil => exact Or.inl rfl
  | append_singleton es e ih =>
    have hrun : run (step E) w (es ++ [e]) = step E (run (step E) w es) e := by
      rw [run, List.foldl_append]
      rfl
    have hkept : ∀ P, (∃ e ∈ es, target e = some b) ∧ P → (∃ e' ∈ es ++ [e],
        target e' = some b) ∧ P := by
      intro P h
      obtain ⟨⟨e', he', ht⟩, hP⟩ := h
      exact ⟨⟨e', List.mem_append_left _ he', ht⟩, hP⟩
    rw [hrun, lastSkee_append_singleton]
    rcases overrides_step (E := E) (run (step E) w es) e with ⟨t, rfl, ht⟩ | ⟨hnone, hsame | htouch⟩
    · exact Or.inl (by rw [ht, skeeTable, Option.getD_some])
    · rw [hnone, Option.getD_none, hsame]
      exact ih.imp_right (hkept _)
    · obtain ⟨a, ha, htouches⟩ := htouch
      rw [hnone, Option.getD_none]
      rcases htouches b f m with hsame | ⟨rfl, hown⟩
      · rw [hsame]
        exact ih.imp_right (hkept _)
      · exact Or.inr ⟨⟨e, List.mem_append_right _ (List.mem_singleton.mpr rfl), ha⟩, hown⟩

end Runs

end OverlaySaver
