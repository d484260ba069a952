import OverlaySaver.Interfaces

/-!
# Start-up without RaceMenu

`Register` sets the two interface pointers from what SKEE answers and only logs what is
missing; the slot counts are asked for right after it. A run is free of calls through a null
pointer exactly when each message brings the overlay interface and no later event needs an
override interface that is not there.
-/

namespace OverlaySaver
open Fallible Transition

/-- SKEE's answer: no interface map, or what it has under the two names; and the counts that
`GetOverlayCount` reports. -/
structure Exchange where
  interfaceMap : Option Interfaces
  overlayCount : Part → UInt32

inductive MessageType
  | kPostPostLoad
  | other

inductive PluginEvent
  | message (type : MessageType) (x : Exchange)
  | game (e : Event)

structure Plugin where
  interfaces : Interfaces := {}
  session : Session
  world : World

def register (x : Exchange) (I : Interfaces) : Interfaces := x.interfaceMap.getD I

def register? (x : Exchange) (I : Interfaces) : Option Interfaces :=
  match x.interfaceMap with
  | none => some I
  | some found =>
    if !found.overlay then some found
    else if !found.override then some found
    else
      -- The two versions are logged.
      (call found.overlay ()).bind fun _ => (call found.override ()).bind fun _ => some found

def getNumOfSlotsFromRM (count : Part → UInt32) (E : Session) : Session :=
  { E with
    iHead := castInt (count .head).toNat
    iHand := castInt (count .hand).toNat
    iBody := castInt (count .body).toNat
    iFeet := castInt (count .feet).toNat }

def getNumOfSlotsFromRM? (I : Interfaces) (count : Part → UInt32) (E : Session) :
    Option Session :=
  (call I.overlay (castInt (count .head).toNat)).bind fun iHead =>
    (call I.overlay (castInt (count .hand).toNat)).bind fun iHand =>
      (call I.overlay (castInt (count .body).toNat)).bind fun iBody =>
        (call I.overlay (castInt (count .feet).toNat)).bind fun iFeet =>
          some { E with iHead := iHead, iHand := iHand, iBody := iBody, iFeet := iFeet }

namespace Plugin

def step (p : Plugin) : PluginEvent → Plugin
  | .message .kPostPostLoad x =>
    { p with
      interfaces := register x p.interfaces
      session := getNumOfSlotsFromRM x.overlayCount p.session }
  | .message .other _ => p
  | .game e => { p with world := OverlaySaver.step p.session p.world e }

def step? (p : Plugin) : PluginEvent → Option Plugin
  | .message .kPostPostLoad x =>
    (register? x p.interfaces).bind fun I =>
      (getNumOfSlotsFromRM? I x.overlayCount p.session).bind fun E =>
        some { p with interfaces := I, session := E }
  | .message .other _ => some p
  | .game e =>
    (OverlaySaver.step? p.session p.interfaces p.world e).map fun w => { p with world := w }

def Harmless (p : Plugin) : PluginEvent → Prop
  | .message .kPostPostLoad x => (register x p.interfaces).overlay = true
  | .message .other _ => True
  | .game e => EventSafe p.session p.interfaces p.world e

end Plugin

theorem guarded_register? (x : Exchange) (I : Interfaces) :
    Guarded (register? x I) True (register x I) := by
  rw [register?, register]
  cases x.interfaceMap with
  | none => exact Guarded.pure I
  | some found =>
    obtain ⟨overlay, override⟩ := found
    cases overlay <;> cases override <;> exact Guarded.pure _

theorem guarded_getNumOfSlotsFromRM (I : Interfaces) (count : Part → UInt32) (E : Session) :
    Guarded (getNumOfSlotsFromRM? I count E) (I.overlay = true)
      (getNumOfSlotsFromRM count E) := by
  refine Guarded.seq (Guarded.call I.overlay _) ?_
  refine Guarded.seq (Guarded.call I.overlay _) ?_
  refine Guarded.seq (Guarded.call I.overlay _) ?_
  exact Guarded.bind_some (Guarded.call I.overlay _) _

theorem guarded_plugin_step (p : Plugin) (e : PluginEvent) :
    Guarded (p.step? e) (p.Harmless e) (p.step e) := by
  cases e with
  | message type x =>
    cases type with
    | kPostPostLoad =>
      refine ((guarded_register? x p.interfaces).bind (Guarded.bind_some
        (guarded_getNumOfSlotsFromRM _ x.overlayCount p.session) _)).congr ?_
      rw [true_and]
      exact Iff.rfl
    | other => exact Guarded.pure p
  | game e => exact (guarded_step p.world e).map _

theorem no_null_call_iff (p : Plugin) (es : List PluginEvent) :
    (es.foldlM Plugin.step? p).isSome ↔ Along Plugin.step Plugin.Harmless p es :=
  (Guarded.foldlM guarded_plugin_step p es).isSome

section Loaded

/-- `Racemenu::Loaded`, which nothing in the plugin asks. -/
def Interfaces.loaded (I : Interfaces) : Bool := I.overlay && I.override

theorem eventSafe_of_override {E : Session} {I : Interfaces} (h : I.override = true) (w : World)
    (e : Event) : EventSafe E I w e := by
  have hcapture : CaptureSafe E I := fun _ _ => h
  have happly : ∀ r, ApplySafe E I r := fun _ _ _ => h
  have hclear : ClearSafe E I := fun _ => h
  cases e with
  | load | revert | load3D | skee => trivial
  | save c => exact fun _ => hcapture
  | task a => exact fun _ r _ _ => happly r
  | console cmd selected =>
    cases selected with
    | none => trivial
    | some a =>
      cases cmd with
      | help | erase | reset3d => trivial
      | register => exact fun _ => hcapture
      | apply => exact fun r _ => happly r
      | update => exact fun _ => hcapture
      | flip => exact fun r _ => ⟨hclear, happly r⟩
      | clear => exact hclear

def FindsAll : PluginEvent → Prop
  | .message _ x => ∀ found, x.interfaceMap = some found → found.loaded = true
  | .game _ => True

theorem loaded_register {x : Exchange}
    (hx : ∀ found, x.interfaceMap = some found → found.loaded = true) {I : Interfaces}
    (hI : I.loaded = true) : (register x I).loaded = true := by
  rw [register]
  cases hmap : x.interfaceMap with
  | none => exact hI
  | some found => exact hx found hmap

theorem loaded_step {p : Plugin} {e : PluginEvent} (he : FindsAll e)
    (hp : p.interfaces.loaded = true) : (p.step e).interfaces.loaded = true := by
  cases e with
  | game e => exact hp
  | message type x =>
    cases type with
    | kPostPostLoad => exact loaded_register he hp
    | other => exact hp

theorem harmless_of_loaded {p : Plugin} {e : PluginEvent} (he : FindsAll e)
    (hp : p.interfaces.loaded = true) : p.Harmless e := by
  cases e with
  | game e => exact eventSafe_of_override (Bool.and_eq_true_iff.mp hp).2 p.world e
  | message type x =>
    cases type with
    | kPostPostLoad => exact (Bool.and_eq_true_iff.mp (loaded_register he hp)).1
    | other => trivial

theorem along_harmless_of_loaded {p : Plugin} {es : List PluginEvent}
    (hp : p.interfaces.loaded = true) (hes : ∀ e ∈ es, FindsAll e) :
    Along Plugin.step Plugin.Harmless p es := by
  induction es generalizing p with
  | nil => trivial
  | cons e es ih =>
    have he := hes e List.mem_cons_self
    exact ⟨harmless_of_loaded he hp,
      ih (loaded_step he hp) fun e' he' => hes e' (List.mem_cons_of_mem e he')⟩

/-- Where `Racemenu::Loaded` holds, nothing goes through a null pointer from then on, whatever
the slots and the store; where it does not, something can. -/
theorem loaded_iff_no_null_call (I : Interfaces) :
    I.loaded = true ↔ ∀ (E : Session) (w : World) (es : List PluginEvent),
      (∀ e ∈ es, FindsAll e) → (es.foldlM Plugin.step? ⟨I, E, w⟩).isSome := by
  constructor
  · intro hI E w es hes
    rw [(Guarded.foldlM guarded_plugin_step _ es).isSome]
    exact along_harmless_of_loaded hI hes
  · intro h
    have hsafe : ∀ e, FindsAll e →
        Plugin.Harmless ⟨I, plainSession 1, ⟨∅, fun _ _ _ _ _ => none, []⟩⟩ e := by
      intro e he
      by_contra hno
      have hsome := h (plainSession 1) ⟨∅, fun _ _ _ _ _ => none, []⟩ [e] fun e' he' =>
        List.mem_singleton.mp he' ▸ he
      rw [(Guarded.foldlM guarded_plugin_step _ [e]).isSome] at hsome
      exact hno hsome.1
    have hoverlay : I.overlay = true :=
      hsafe (.message .kPostPostLoad ⟨none, fun _ => 0⟩) fun found hfound => nomatch hfound
    have hclear : ClearSafe (plainSession 1) I := hsafe (.game (.console .clear (some 20))) trivial
    rw [Interfaces.loaded, hoverlay, hclear (by decide)]
    rfl

end Loaded

section Missing

def startPlugin : Plugin where
  session := plainSession 0
  world := ⟨∅, fun _ _ _ _ _ => none, []⟩

theorem run_eq_none_of_harmful {p : Plugin} {es : List PluginEvent}
    (h : ¬ Along Plugin.step Plugin.Harmless p es) : es.foldlM Plugin.step? p = none := by
  rw [← (Guarded.foldlM guarded_plugin_step p es).isSome, Option.not_isSome_iff_eq_none] at h
  exact h

/-- Without SKEE the start-up itself calls through the null overlay interface. Where only the
override interface is missing, `clear` does. -/
theorem missing_racemenu_calls_null :
    [PluginEvent.message .kPostPostLoad ⟨none, fun _ => 0⟩].foldlM Plugin.step? startPlugin =
        none ∧
      [PluginEvent.message .kPostPostLoad ⟨some ⟨true, false⟩, fun _ => 1⟩,
        .game (.console .clear (some 20))].foldlM Plugin.step? startPlugin = none := by
  constructor
  · refine run_eq_none_of_harmful fun h => ?_
    cases h.1
  · refine run_eq_none_of_harmful fun h => ?_
    have hclear : ClearSafe (getNumOfSlotsFromRM (fun _ => 1) (plainSession 0)) ⟨true, false⟩ :=
      h.2.1
    have hone : castInt (1 : UInt32).toNat = 1 := by decide
    rw [ClearSafe, getNumOfSlotsFromRM, hone] at hclear
    cases hclear (by decide)

end Missing

end OverlaySaver
