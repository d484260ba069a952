import OverlaySaver.ActorData

/-!
# The overlay manager

Capture, clear, apply and flip, each over the live override table of one actor. A body
part is its slot count and its node name pattern; the four calls stand in the order of
the source. Indices run over `int` loops, so a negative slot count is an empty loop.
-/

namespace OverlaySaver
open ByteStream (Bytes)

/-- `static_cast<int>` of an unsigned value. -/
def castInt (n : ℕ) : ℤ := (n : ℤ).bmod (2 ^ 32)

def ascii (s : String) : Bytes := s.toList.map fun c => UInt8.ofNat c.toNat

def containsInvariantStr (source substr : Bytes) : Bool :=
  if substr.isEmpty then true
  else (source.map tolower).tails.any (substr.map tolower).isPrefixOf

def sHead : NodeName := "Face [Ovl\x7b\x7d]".toList
def sHand : NodeName := "Hands [Ovl\x7b\x7d]".toList
def sBody : NodeName := "Body [Ovl\x7b\x7d]".toList
def sFeet : NodeName := "Feet [Ovl\x7b\x7d]".toList

/-- `fmt::format` of a pattern with one replacement field. -/
def format : NodeName → ℕ → NodeName
  | '{' :: '}' :: rest, i => Nat.toDigits 10 i ++ rest
  | c :: rest, i => c :: format rest i
  | [], _ => []

def Part.pattern : Part → NodeName
  | .head => sHead
  | .hand => sHand
  | .body => sBody
  | .feet => sFeet

def Session.slots (E : Session) : Part → ℤ
  | .head => E.iHead
  | .hand => E.iHand
  | .body => E.iBody
  | .feet => E.iFeet

def nodeName (p : Part) (i : ℕ) : NodeName := format p.pattern i

variable (E : Session)

def clearBodyPart (t : Overrides) (a : FormID) (numOfSlots : ℤ) (ovlName : NodeName) :
    Overrides :=
  (List.range numOfSlots.toNat).foldl
    (fun t i => removeAllNodeOverridesByNode t a (E.sex a) (format ovlName i)) t

-- All four calls pass `iHead`, as the source does.
def clearOverlays (t : Overrides) (a : FormID) : Overrides :=
  let t := clearBodyPart E t a E.iHead sHead
  let t := clearBodyPart E t a E.iHead sHand
  let t := clearBodyPart E t a E.iHead sBody
  clearBodyPart E t a E.iHead sFeet

def defaultTexture : Bytes := ascii "\\default.dds"

def buildOvlListForSlot (t : Overrides) (a : FormID) (numOfSlots : ℤ) (ovlName : NodeName)
    (ovlVec : List RMOverlay) : List RMOverlay :=
  (List.range numOfSlots.toNat).foldl (fun vec i =>
    let node := format ovlName i
    let tex := (getNodeOverrideString E t a (E.sex a) node .kShaderTexture 0).bytes
    if tex.isEmpty || containsInvariantStr tex defaultTexture then vec
    else
      let alpha := getNodeOverrideFloat E t a (E.sex a) node .kShaderAlpha (-1)
      let color := (getNodeOverrideInt E t a (E.sex a) node .kShaderTintColor (-1)).toUInt32
      vec ++ [⟨alpha, color, UInt16.ofNat tex.length, tex⟩]) ovlVec

def captureRecord (t : Overrides) (a : FormID) (r : ActorRecord) : ActorRecord :=
  { r with
    vHead := buildOvlListForSlot E t a E.iHead sHead []
    vHand := buildOvlListForSlot E t a E.iHand sHand []
    vBody := buildOvlListForSlot E t a E.iBody sBody []
    vFeet := buildOvlListForSlot E t a E.iFeet sFeet [] }

def buildOverlayList (w : World) (a : FormID) : World :=
  match getData w.actorData a with
  | none => w
  | some r => { w with actorData := w.actorData.insert a (captureRecord E w.overrides a r) }

def applyStoredOverlayOnBodyPart (t : Overrides) (a : FormID) (numOfSlots : ℤ)
    (ovlName : NodeName) (ovlVec : List RMOverlay) : Overrides :=
  if ovlVec.isEmpty then t
  else
    let n := min numOfSlots (castInt ovlVec.length)
    (List.range n.toNat).foldl (fun t i =>
      let node := format ovlName i
      let t := removeAllNodeOverridesByNode t a (E.sex a) node
      match ovlVec[i]? with
      | none => t
      | some o =>
        let t := addNodeOverride t a (E.sex a) node OverlayLayers.kShaderTexture.toUInt16 0
          (.string (CStr.ofString o.texturePath))
        let t := addNodeOverride t a (E.sex a) node OverlayLayers.kShaderAlpha.toUInt16 (-1)
          (.float o.alpha)
        addNodeOverride t a (E.sex a) node OverlayLayers.kShaderTintColor.toUInt16 (-1)
          (.int o.color.toInt32)) t

def applyRecord (t : Overrides) (a : FormID) (r : ActorRecord) : Overrides :=
  let t := applyStoredOverlayOnBodyPart E t a E.iHead sHead r.vHead
  let t := applyStoredOverlayOnBodyPart E t a E.iHand sHand r.vHand
  let t := applyStoredOverlayOnBodyPart E t a E.iBody sBody r.vBody
  applyStoredOverlayOnBodyPart E t a E.iFeet sFeet r.vFeet

def applyOverlayFromList (w : World) (a : FormID) (force : Bool) : World :=
  match getData w.actorData a with
  | none => w
  | some r =>
    if r.alreadyApplied && !force then w
    else
      { w with
        actorData := w.actorData.insert a { r with alreadyApplied := true }
        overrides := applyRecord E w.overrides a r }

def flipStoredOverlaysAndReapply (w : World) (a : FormID) : World :=
  match getData w.actorData a with
  | none => w
  | some r =>
    let w := { w with overrides := clearOverlays E w.overrides a }
    let w := { w with actorData := w.actorData.insert a (r.mapLists List.reverse) }
    applyOverlayFromList E w a true

end OverlaySaver
