import OverlaySaver.Hook
import Mathlib.Data.Set.Basic

/-!
# Hooks on instructions

`write_thunk` takes a `call`, or a `lea` of a function's address, and makes it lead to a thunk.
A `lea` is first overwritten with a call, one byte of which is then put back: the call's
displacement counts from the end of the `lea`.
-/

namespace OverlaySaver
open ByteStream (Bytes)

abbrev Memory := Address → UInt8

def displacement (m : Memory) (a : Address) : UInt32 :=
  (List.range 4).foldl
    (fun disp i => disp ||| (m (a + UInt64.ofNat i)).toUInt32 <<< UInt32.ofNat (i * 8)) 0

def signExtend (d : UInt32) : Address := d.toInt32.toInt64.toUInt64

inductive Instruction
  | call
  | lea (rex modRM : UInt8)
deriving DecidableEq

def callTarget (m : Memory) (a : Address) : Address := a + 5 + signExtend (displacement m (a + 1))

def leaTarget (m : Memory) (a : Address) : Address := a + 7 + signExtend (displacement m (a + 3))

/-- The processor's reading of the two instructions: `call rel32`, and `lea` into a 64-bit
register of an address relative to the instruction pointer; with where they lead. -/
def decode (m : Memory) (a : Address) : Option (Instruction × Address) :=
  if m a = 0xE8 then some (.call, callTarget m a)
  else if m a &&& 0xF8 = 0x48 ∧ m (a + 1) = 0x8D ∧ m (a + 2) &&& 0xC7 = 0x05 then
    some (.lea (m a) (m (a + 2)), leaTarget m a)
  else none

inductive HookFailure
  | not64Bit
  | notCallOrLea
deriving DecidableEq

def safeWrite (m : Memory) (a : Address) (b : UInt8) : Memory := Function.update m a b

/-- `Trampoline::write_call<5>`. -/
abbrev WriteCall := Memory → Address → Address → Memory × Address

def writeThunk (writeCall : WriteCall) (m : Memory) (sourceAddress thunk : Address) :
    Except HookFailure (Memory × Address) :=
  let opcode := m sourceAddress
  if opcode = 0xE8 then .ok (writeCall m sourceAddress thunk)
  -- Bytes that are no REX prefix pass as well, and the operand's addressing is not looked at.
  else if opcode &&& 0x48 ≠ 0x48 then .error .not64Bit
  else if m (sourceAddress + 1) = 0x8D then
    let opAddress := sourceAddress + 2
    let op1 := m opAddress
    let disp := displacement m (sourceAddress + 3)
    let written := writeCall m opAddress thunk
    .ok (safeWrite written.1 opAddress op1, sourceAddress + 7 + signExtend disp)
  else .error .notCallOrLea

/-- Fourteen bytes that jump to the address they hold. -/
def jumpStub (target : Address) : Bytes :=
  [0xFF, 0x25, 0, 0, 0, 0] ++ ByteStream.toLE 8 target.toNat

section Trampoline
variable (region : Set Address)

def JumpsTo (m : Memory) (stub target : Address) : Prop := ∀ i < 14,
  stub + UInt64.ofNat i ∈ region ∧ (jumpStub target)[i]? = some (m (stub + UInt64.ofNat i))

/-- What the trampoline documents: a call is written that leads to a stub in its own memory,
nothing else changes, and the result is where a call at the address led. -/
structure CallWritten (m : Memory) (src target : Address) (written : Memory × Address) :
    Prop where
  opcode : written.1 src = 0xE8
  leads : JumpsTo region written.1 (callTarget written.1 src) target
  frame : ∀ a ∉ region, (∀ i < 5, a ≠ src + UInt64.ofNat i) → written.1 a = m a
  func : written.2 = callTarget m src

end Trampoline

section Write
variable {region : Set Address} {writeCall : WriteCall} {m m' : Memory}
  {sourceAddress thunk : Address}

theorem displacement_congr {a : Address}
    (h : ∀ i < 4, m (a + UInt64.ofNat i) = m' (a + UInt64.ofNat i)) :
    displacement m a = displacement m' a := by
  simp only [displacement, List.range, List.range.loop, List.foldl_cons, List.foldl_nil,
    h 0 (by decide), h 1 (by decide), h 2 (by decide), h 3 (by decide)]

theorem callTarget_op (m : Memory) (a : Address) :
    callTarget m (a + 2) = a + 7 + signExtend (displacement m (a + 3)) := by
  rw [callTarget, UInt64.add_assoc a 2 5, UInt64.add_assoc a 2 1]
  rfl

theorem ofNat_ne {a : Address} {i j : ℕ} (hi : i < 256) (hj : j < 256) (h : i ≠ j) :
    a + UInt64.ofNat i ≠ a + UInt64.ofNat j := by
  intro he
  have hnat := congrArg UInt64.toNat ((UInt64.add_right_inj a).mp he)
  have hsize : 256 < UInt64.size := by decide
  rw [UInt64.toNat_ofNat_of_lt' (hi.trans hsize), UInt64.toNat_ofNat_of_lt' (hj.trans hsize)]
    at hnat
  exact h hnat

theorem add_add_ofNat (a : Address) (i j : ℕ) :
    a + UInt64.ofNat i + UInt64.ofNat j = a + UInt64.ofNat (i + j) := by
  rw [UInt64.add_assoc, UInt64.ofNat_add]

def Instruction.size : Instruction → ℕ
  | .call => 5
  | .lea _ _ => 7

theorem JumpsTo.safeWrite {a target : Address} (h : JumpsTo region m a target) {b : Address}
    (hb : b ∉ region) (x : UInt8) : JumpsTo region (safeWrite m b x) a target := by
  intro i hi
  have hne : a + UInt64.ofNat i ≠ b := fun he => hb (he ▸ (h i hi).1)
  rw [OverlaySaver.safeWrite, Function.update_of_ne hne]
  exact h i hi

structure Retargeted (region : Set Address) (m m' : Memory) (a : Address) (instr : Instruction)
    (thunk : Address) : Prop where
  leads : ∃ stub, decode m' a = some (instr, stub) ∧ JumpsTo region m' stub thunk
  frame : ∀ b ∉ region, (∀ i < instr.size, b ≠ a + UInt64.ofNat i) → m' b = m b

theorem retargeted_call {written : Memory × Address}
    (h : CallWritten region m sourceAddress thunk written) :
    Retargeted region m written.1 sourceAddress .call thunk where
  leads := ⟨_, if_pos h.opcode, h.leads⟩
  frame := h.frame

section Lea
variable {written : Memory × Address}

def restored (m : Memory) (written : Memory × Address) (a : Address) : Memory :=
  safeWrite written.1 (a + 2) (m (a + 2))

theorem restored_of_ne {a b : Address} (h : b ≠ a + 2) : restored m written a b = written.1 b :=
  Function.update_of_ne h _ _

theorem restored_first (h : CallWritten region m (sourceAddress + 2) thunk written) {j : ℕ}
    (hj : j < 2) (hregion : sourceAddress + UInt64.ofNat j ∉ region) :
    restored m written sourceAddress (sourceAddress + UInt64.ofNat j) =
      m (sourceAddress + UInt64.ofNat j) := by
  rw [restored_of_ne (ofNat_ne (j := 2) (by omega) (by decide) (by omega))]
  refine h.frame _ hregion fun i hi => ?_
  have hadd : sourceAddress + 2 + UInt64.ofNat i = sourceAddress + UInt64.ofNat (2 + i) :=
    add_add_ofNat sourceAddress 2 i
  rw [hadd]
  exact ofNat_ne (by omega) (by omega) (by omega)

/-- The displacement of the call counts from where that of the `lea` does. -/
theorem leaTarget_restored :
    leaTarget (restored m written sourceAddress) sourceAddress =
      callTarget written.1 (sourceAddress + 2) := by
  have hdisp : displacement (restored m written sourceAddress) (sourceAddress + 3) =
      displacement written.1 (sourceAddress + 3) := by
    refine displacement_congr fun i hi => restored_of_ne ?_
    have hadd : sourceAddress + 3 + UInt64.ofNat i = sourceAddress + UInt64.ofNat (3 + i) :=
      add_add_ofNat sourceAddress 3 i
    rw [hadd]
    exact ofNat_ne (j := 2) (by omega) (by decide) (by omega)
  rw [leaTarget, hdisp, callTarget_op]

theorem retargeted_lea (h : CallWritten region m (sourceAddress + 2) thunk written)
    (hsource : ∀ i < 7, sourceAddress + UInt64.ofNat i ∉ region) (hcall : m sourceAddress ≠ 0xE8)
    (hlea : m sourceAddress &&& 0xF8 = 0x48 ∧ m (sourceAddress + 1) = 0x8D ∧
      m (sourceAddress + 2) &&& 0xC7 = 0x05) :
    Retargeted region m (restored m written sourceAddress) sourceAddress
      (.lea (m sourceAddress) (m (sourceAddress + 2))) thunk := by
  have hrex := restored_first h (j := 0) (by decide) (hsource 0 (by decide))
  have hopcode := restored_first h (j := 1) (by decide) (hsource 1 (by decide))
  have hzero : sourceAddress + UInt64.ofNat 0 = sourceAddress := UInt64.add_zero sourceAddress
  have hmodRM : restored m written sourceAddress (sourceAddress + 2) = m (sourceAddress + 2) :=
    Function.update_self _ _ _
  rw [hzero] at hrex
  refine ⟨⟨callTarget written.1 (sourceAddress + 2), ?_, ?_⟩, fun b hb hout => ?_⟩
  · rw [decode, hrex, hmodRM, if_neg hcall, if_pos ⟨hlea.1, hopcode.trans hlea.2.1, hlea.2.2⟩,
      leaTarget_restored]
  · exact h.leads.safeWrite (hsource 2 (by decide)) _
  · have htwo : 2 < Instruction.size (.lea (m sourceAddress) (m (sourceAddress + 2))) := by
      rw [Instruction.size]
      decide
    rw [restored_of_ne (hout 2 htwo)]
    refine h.frame b hb fun i hi => ?_
    have hadd : sourceAddress + 2 + UInt64.ofNat i = sourceAddress + UInt64.ofNat (2 + i) :=
      add_add_ofNat sourceAddress 2 i
    rw [hadd]
    exact hout (2 + i) (by rw [Instruction.size]; omega)

end Lea

theorem rexw_of_rex {b : UInt8} (h : b &&& 0xF8 = 0x48) : b &&& 0x48 = 0x48 := by
  have hall : ∀ n < 256, UInt8.ofNat n &&& 0xF8 = 0x48 → UInt8.ofNat n &&& 0x48 = 0x48 := by
    decide +kernel
  simpa [h] using hall b.toNat b.toNat_lt

theorem write_thunk_retargets
    (hcall : ∀ src ∈ [sourceAddress, sourceAddress + 2],
      CallWritten region m src thunk (writeCall m src thunk))
    (hsource : ∀ i < 7, sourceAddress + UInt64.ofNat i ∉ region) {instr : Instruction}
    {old : Address} (hdecode : decode m sourceAddress = some (instr, old)) :
    ∃ m', writeThunk writeCall m sourceAddress thunk = .ok (m', old) ∧
      Retargeted region m m' sourceAddress instr thunk := by
  obtain ⟨hat, hop⟩ := List.forall_mem_cons.mp hcall
  rw [List.forall_mem_singleton] at hop
  rw [decode] at hdecode
  split_ifs at hdecode with hE8 hlea
  · obtain ⟨rfl, rfl⟩ := Prod.mk.inj (Option.some.inj hdecode)
    refine ⟨_, ?_, retargeted_call hat⟩
    rw [writeThunk, if_pos hE8, ← hat.func]
  · obtain ⟨rfl, rfl⟩ := Prod.mk.inj (Option.some.inj hdecode)
    refine ⟨_, ?_, retargeted_lea hop hsource hE8 hlea⟩
    rw [writeThunk, if_neg hE8, if_neg (not_not_intro (rexw_of_rex hlea.1)), if_pos hlea.2.1]
    rfl

end Write

section Near

def nearCall (stub : Address) : WriteCall := fun m src target =>
  let rel := (stub - (src + 5)).toUInt32
  let call : Bytes := 0xE8 :: ByteStream.toLE 4 rel.toNat
  (fun a => ((call[(a - src).toNat]?).or (jumpStub target)[(a - stub).toNat]?).getD (m a),
    callTarget m src)

def stubRegion (stub : Address) : Set Address := { a | (a - stub).toNat < 14 }

instance (stub a : Address) : Decidable (a ∈ stubRegion stub) :=
  inferInstanceAs (Decidable ((a - stub).toNat < 14))

theorem callWritten_nearCall {m : Memory} {stub src target : Address}
    (hopcode : (nearCall stub m src target).1 src = 0xE8)
    (hleads : JumpsTo (stubRegion stub) (nearCall stub m src target).1
      (callTarget (nearCall stub m src target).1 src) target) :
    CallWritten (stubRegion stub) m src target (nearCall stub m src target) where
  opcode := hopcode
  leads := hleads
  func := rfl
  frame := by
    intro a ha hout
    have hsrc : 5 ≤ (a - src).toNat := by
      by_contra hlt
      refine hout (a - src).toNat (by omega) ?_
      rw [UInt64.ofNat_toNat, UInt64.add_comm, UInt64.sub_add_cancel]
    have hstub : 14 ≤ (a - stub).toNat := Nat.le_of_not_lt ha
    have hcall : (0xE8 :: ByteStream.toLE 4 (stub - (src + 5)).toUInt32.toNat)[(a - src).toNat]? =
        none := List.getElem?_eq_none (by simpa using hsrc)
    have hjump : (jumpStub target)[(a - stub).toNat]? = none :=
      List.getElem?_eq_none (by simpa [jumpStub] using hstub)
    simp only [nearCall, hcall, hjump, Option.or_none, Option.getD_none]

def leaCode : Memory := fun a =>
  ([0x48, 0x8D, 0x05, 0x10, 0, 0, 0] : Bytes).getD (a - 0x1000).toNat 0

theorem write_thunk_retargets_lea :
    ∃ m', writeThunk (nearCall 0x9000) leaCode 0x1000 0x7000 = .ok (m', 0x1017) ∧
      Retargeted (stubRegion 0x9000) leaCode m' 0x1000 (.lea 0x48 0x05) 0x7000 := by
  have hopcode : (nearCall 0x9000 leaCode 0x1000 0x7000).1 0x1000 = 0xE8 ∧
      (nearCall 0x9000 leaCode 0x1002 0x7000).1 0x1002 = 0xE8 := by decide +kernel
  have hjumps : JumpsTo (stubRegion 0x9000) (nearCall 0x9000 leaCode 0x1000 0x7000).1
        (callTarget (nearCall 0x9000 leaCode 0x1000 0x7000).1 0x1000) 0x7000 ∧
      JumpsTo (stubRegion 0x9000) (nearCall 0x9000 leaCode 0x1002 0x7000).1
        (callTarget (nearCall 0x9000 leaCode 0x1002 0x7000).1 0x1002) 0x7000 := by
    unfold JumpsTo
    decide +kernel
  refine write_thunk_retargets (List.forall_mem_cons.mpr ⟨?_, List.forall_mem_singleton.mpr ?_⟩)
    (by decide +kernel) (by decide +kernel)
  · exact callWritten_nearCall hopcode.1 hjumps.1
  · exact callWritten_nearCall hopcode.2 hjumps.2

end Near

end OverlaySaver
