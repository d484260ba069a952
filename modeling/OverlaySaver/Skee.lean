import OverlaySaver.ByteStream
import Mathlib.Data.List.TakeWhile

/-!
# The SKEE override table

Node overrides are a map keyed by reference, sex, node name, key and index that gives
stored values back unchanged. A `Variant` is the tagged union the plugin passes in and
reads out; floats are their 32 bits. What the plugin asks of the game and does not
decide itself (an actor's sex, the string pool behind `BSFixedString`, the bytes a
union member shows when another one was stored) is collected in `Session`, next to the
four slot counts that are read once at start-up.
-/

namespace OverlaySaver
open ByteStream (Bytes)

abbrev FormID := UInt32

abbrev NodeName := List Char

structure CStr where
  bytes : Bytes
  noNul : 0 ∉ bytes
deriving DecidableEq

namespace CStr

@[ext] theorem ext {s t : CStr} (h : s.bytes = t.bytes) : s = t := by
  cases s; cases t; cases h; rfl

def empty : CStr := ⟨[], by simp⟩

/-- `std::string::c_str()`: the text ends at the first NUL. -/
def ofString (s : Bytes) : CStr :=
  ⟨s.takeWhile (· ≠ 0), fun h => by simpa using List.mem_takeWhile_imp h⟩

theorem ofString_bytes (s : CStr) : ofString s.bytes = s := by
  refine ext (List.takeWhile_eq_self_iff.mpr fun b hb => ?_)
  simpa using fun h : b = 0 => s.noNul (h ▸ hb)

theorem ofString_append_nul (s : Bytes) : ofString (s ++ [0]) = ofString s := by
  refine ext ?_
  simp only [ofString]
  induction s with
  | nil => rfl
  | cons b s ih =>
    by_cases hb : b = 0
    · simp [hb]
    · simpa [hb] using ih

end CStr

inductive Variant
  | none
  | int (i : Int32)
  | float (f : UInt32)
  | string (s : CStr)
  | bool (b : Bool)
  | textureSet (form : FormID)
deriving DecidableEq

inductive OverlayLayers
  | kShaderTintColor
  | kShaderAlpha
  | kShaderTexture
deriving DecidableEq

def OverlayLayers.toUInt16 : OverlayLayers → UInt16
  | .kShaderTintColor => 7
  | .kShaderAlpha => 8
  | .kShaderTexture => 9

abbrev Overrides := FormID → Bool → NodeName → UInt16 → UInt8 → Option Variant

def getNodeOverride (t : Overrides) (ref : FormID) (isFemale : Bool) (nodeName : NodeName)
    (key : UInt16) (index : UInt8) : Option Variant :=
  t ref isFemale nodeName key index

def addNodeOverride (t : Overrides) (ref : FormID) (isFemale : Bool) (nodeName : NodeName)
    (key : UInt16) (index : UInt8) (value : Variant) : Overrides :=
  fun r f n k i =>
    if r = ref ∧ f = isFemale ∧ n = nodeName ∧ k = key ∧ i = index then some value
    else t r f n k i

def removeAllNodeOverridesByNode (t : Overrides) (ref : FormID) (isFemale : Bool)
    (nodeName : NodeName) : Overrides :=
  fun r f n k i => if r = ref ∧ f = isFemale ∧ n = nodeName then none else t r f n k i

/-- `std::tolower` in the classic locale. -/
def tolower (c : UInt8) : UInt8 := if 65 ≤ c ∧ c ≤ 90 then c + 32 else c

/-- What the plugin asks the game for. The string pool ignores letter case and gives the
text that was interned first: one spelling of a text is assumed for a whole run, on both sides of
a save and in two runs that are compared. `strayWord` and `strayText` are what `Float()`,
`Int()` and `String()` show of a union that holds another member. -/
structure Session where
  iHead : ℤ
  iHand : ℤ
  iBody : ℤ
  iFeet : ℤ
  sex : FormID → Bool
  fixedString : CStr → CStr
  fixedString_idem : ∀ s, fixedString (fixedString s) = fixedString s
  fixedString_tolower : ∀ s, (fixedString s).bytes.map tolower = s.bytes.map tolower
  strayWord : Variant → UInt32
  strayText : Variant → CStr

def Variant.getFloat (E : Session) : Variant → UInt32
  | .float f => f
  | v => E.strayWord v

def Variant.getInt (E : Session) : Variant → Int32
  | .int i => i
  | v => (E.strayWord v).toInt32

def Variant.getString (E : Session) : Variant → CStr
  | .string s => s
  | v => E.strayText v

section Getters
variable (E : Session) (t : Overrides) (ref : FormID) (female : Bool) (node : NodeName)

def getNodeOverrideFloat (key : OverlayLayers) (index : UInt8) : UInt32 :=
  match getNodeOverride t ref female node key.toUInt16 index with
  | some result => result.getFloat E
  | none => 0

def getNodeOverrideInt (key : OverlayLayers) (index : UInt8) : Int32 :=
  match getNodeOverride t ref female node key.toUInt16 index with
  | some result => result.getInt E
  | none => 0

/-- The result is a `BSFixedString`, so its text is the pool's. -/
def getNodeOverrideString (key : OverlayLayers) (index : UInt8) : CStr :=
  match getNodeOverride t ref female node key.toUInt16 index with
  | some result => E.fixedString (result.getString E)
  | none => E.fixedString CStr.empty

end Getters

end OverlaySaver
