import OverlaySaver.Racemenu

/-!
# Saving and loading the cosave

The payload of an `ACTD` record is a 32-bit actor count and, for each actor, its FormID,
four 8-bit list lengths and the overlays of the four lists, each with its alpha, its
colour and a path behind a 16-bit length. The four reading loops of the source are
one reader applied four times, and so are the four writing loops.

A read copies what is left of the record and nobody looks at the count it returns.
`junk i n` is what the uninitialised `ActorRefID` holds in the `i`-th record when `n`
actor records are left to read.
-/

namespace OverlaySaver
open ByteStream (Bytes Word u8 u16 u32 readInto readMany)

def overlayStructVersion : UInt32 := 1

/-- `_byteswap_ulong('ACTD')`. -/
def actorDataRecord : UInt32 := 0x44544341

structure CosaveRecord where
  type : UInt32
  version : UInt32
  data : Bytes

structure LoadCall where
  resolveFormID : FormID → Option FormID
  lookupByID : FormID → Bool
  junk : ℕ → ℕ → UInt32

structure SaveCall where
  lookupByID : FormID → Bool
  order : List FormID
  openRecord : Bool := true

structure Entry where
  formID : FormID
  data : ActorRecord

def readOverlay (bs : Bytes) : RMOverlay × Bytes :=
  let tmp : RMOverlay := {}
  let alpha := u32.read tmp.alpha bs
  let color := u32.read tmp.color alpha.2
  let texStrLen := u16.read tmp.texStrLen color.2
  let path := readInto (List.replicate texStrLen.1.toNat 0) texStrLen.2
  (⟨alpha.1, color.1, texStrLen.1, path.1 ++ [0]⟩, path.2)

def readEntry (junk : UInt32) (bs : Bytes) : Entry × Bytes :=
  let actorRefID := u32.read junk bs
  let numOfHeadOvl := u8.read 0 actorRefID.2
  let numOfHandsOvl := u8.read 0 numOfHeadOvl.2
  let numOfBodydOvl := u8.read 0 numOfHandsOvl.2
  let numOfFeetOvl := u8.read 0 numOfBodydOvl.2
  let vHead := readMany readOverlay numOfHeadOvl.1.toNat numOfFeetOvl.2
  let vHand := readMany readOverlay numOfHandsOvl.1.toNat vHead.2
  let vBody := readMany readOverlay numOfBodydOvl.1.toNat vHand.2
  let vFeet := readMany readOverlay numOfFeetOvl.1.toNat vBody.2
  (⟨actorRefID.1, { vHead := vHead.1, vHand := vHand.1, vBody := vBody.1, vFeet := vFeet.1 }⟩,
    vFeet.2)

def storeEntry (c : LoadCall) (s : ActorData) (e : Entry) : ActorData :=
  match c.resolveFormID e.formID with
  | some correctedFormID =>
    if c.lookupByID correctedFormID then s.insert correctedFormID e.data
    else erase s correctedFormID
  | none => s

def loadEntries (c : LoadCall) (i : ℕ) : ℕ → ActorData → Bytes → ActorData × Bytes
  | 0, s, bs => (s, bs)
  | n + 1, s, bs =>
    let e := readEntry (c.junk i (n + 1)) bs
    loadEntries c i n (storeEntry c s e.1) e.2

/-- The `i`-th record of the cosave: the store after it and the bytes it leaves unread. -/
def loadActorData (c : LoadCall) (i : ℕ) (s : ActorData) (r : CosaveRecord) :
    ActorData × Bytes :=
  if r.type ≠ actorDataRecord then (s, r.data)
  else if r.version < 1 then (s, r.data)
  else
    let numOfActorRecords := u32.read 0 r.data
    if numOfActorRecords.1 ≤ 0 then (s, numOfActorRecords.2)
    else loadEntries c i numOfActorRecords.1.toNat s numOfActorRecords.2

def loadRecords (c : LoadCall) : ℕ → ActorData → List CosaveRecord → ActorData
  | _, s, [] => s
  | i, s, r :: rs => loadRecords c (i + 1) (loadActorData c i s r).1 rs

def onGameLoaded (c : LoadCall) (cosave : List CosaveRecord) (w : World) : World :=
  { w with actorData := loadRecords c 0 ∅ cosave }

def onRevert (w : World) : World := { w with actorData := ∅ }

def saveOverlay (o : RMOverlay) : Bytes :=
  let textStrLen := UInt16.ofNat o.texturePath.length
  u32.encode o.alpha ++ (u32.encode o.color ++
    (u16.encode textStrLen ++ o.texturePath.take textStrLen.toNat))

def saveEntry (actorFormID : FormID) (d : ActorRecord) : Bytes :=
  u32.encode actorFormID ++ (u8.encode (UInt8.ofNat d.vHead.length) ++
    (u8.encode (UInt8.ofNat d.vHand.length) ++ (u8.encode (UInt8.ofNat d.vBody.length) ++
      (u8.encode (UInt8.ofNat d.vFeet.length) ++ (d.vHead.flatMap saveOverlay ++
        (d.vHand.flatMap saveOverlay ++ (d.vBody.flatMap saveOverlay ++
          d.vFeet.flatMap saveOverlay)))))))

def entryBytes (s : ActorData) (a : FormID) : Option Bytes := (s.lookup a).map (saveEntry a)

def saveActorData (s : ActorData) (order : List FormID) : Bytes :=
  u32.encode (UInt32.ofNat s.keys.card) ++ order.flatMap fun a => (entryBytes s a).getD []

def rebuildAll (E : Session) (c : SaveCall) (w : World) : World :=
  c.order.foldl (fun w a => if c.lookupByID a then buildOverlayList E w a else w) w

def onGameSaved (E : Session) (c : SaveCall) (w : World) : World × List CosaveRecord :=
  let w := rebuildAll E c w
  (w, if c.openRecord then
      [⟨actorDataRecord, overlayStructVersion, saveActorData w.actorData c.order⟩]
    else [])

end OverlaySaver
