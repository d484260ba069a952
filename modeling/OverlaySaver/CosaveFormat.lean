import OverlaySaver.CosaveTruncation
import OverlaySaver.Retention
import OverlaySaver.FieldWidths

/-!
# What counts as a cosave

The strict reader accepts just the payloads that are written for some entries, and bytes never
stand for two different lists of entries: the format has one meaning. Where it does not accept,
the load still builds records that are well formed, whatever the bytes are, so that what is
saved next can be read back.
-/

namespace OverlaySaver
open ByteStream

def readActorData? (bs : Bytes) : Option (List Entry × Bytes) :=
  (u32.read? bs).bind fun numOfActorRecords =>
    readMany? readEntry? numOfActorRecords.1.toNat numOfActorRecords.2

section Reader

theorem accepts_readOverlay : Accepts readOverlay? saveOverlay reloadOverlay
    (fun o => o.texturePath.length ≤ 65535) where
  sound {bs x rest} h := by
    obtain ⟨⟨alpha, bs₁⟩, halpha, h⟩ := Option.bind_eq_some_iff.mp h
    obtain ⟨⟨color, bs₂⟩, hcolor, h⟩ := Option.bind_eq_some_iff.mp h
    obtain ⟨⟨texStrLen, bs₃⟩, hlen, h⟩ := Option.bind_eq_some_iff.mp h
    obtain ⟨⟨path, bs₄⟩, hpath, h⟩ := Option.bind_eq_some_iff.mp h
    obtain ⟨rfl, rfl⟩ := Prod.mk.inj (Option.some.inj h)
    dsimp only at hcolor hlen hpath
    obtain rfl := u32_tight.read?_eq_some_iff.mp halpha
    obtain rfl := u32_tight.read?_eq_some_iff.mp hcolor
    obtain rfl := u16_tight.read?_eq_some_iff.mp hlen
    obtain ⟨rfl, hpathlen⟩ := split?_eq_some_iff.mp hpath
    have hfield : UInt16.ofNat path.length = texStrLen := by rw [hpathlen, UInt16.ofNat_toNat]
    have htake : path.take texStrLen.toNat = path := by rw [← hpathlen, List.take_length]
    have hlt := texStrLen.toNat_lt
    refine ⟨⟨alpha, color, texStrLen, path⟩, ?_, ?_, ?_⟩
    · dsimp only
      omega
    · simp only [reloadOverlay, hfield, htake]
    · simp only [saveOverlay, hfield, htake, List.append_assoc]
  complete {o} ho rest := by
    have hfield : (UInt16.ofNat o.texturePath.length).toNat = o.texturePath.length := by
      rw [UInt16.toNat_ofNat']
      exact Nat.mod_eq_of_lt (Nat.lt_succ_of_le ho)
    have hpath : split? o.texturePath.length (o.texturePath ++ rest) =
        some (o.texturePath, rest) := split?_eq_some_iff.mpr ⟨rfl, rfl⟩
    simp only [readOverlay?, saveOverlay, List.append_assoc, Word.read?_encode, Option.bind_some,
      hfield, List.take_length, hpath, reloadOverlay]

theorem accepts_overlays (n : UInt8) : Accepts (readMany? readOverlay? n.toNat)
    (fun os => os.flatMap saveOverlay) (List.map reloadOverlay)
    (fun os => os.length = n.toNat ∧ ∀ o ∈ os, o.texturePath.length ≤ 65535) :=
  accepts_readOverlay.many n.toNat

theorem readEntry_sound {bs rest : Bytes} {x : Entry} (h : readEntry? bs = some (x, rest)) :
    ∃ e : Entry, e.Fits ∧ x = e.reload ∧ bs = e.bytes ++ rest := by
  obtain ⟨⟨actorRefID, bs₁⟩, hid, h⟩ := Option.bind_eq_some_iff.mp h
  obtain ⟨⟨numOfHeadOvl, bs₂⟩, hhead, h⟩ := Option.bind_eq_some_iff.mp h
  obtain ⟨⟨numOfHandsOvl, bs₃⟩, hhands, h⟩ := Option.bind_eq_some_iff.mp h
  obtain ⟨⟨numOfBodydOvl, bs₄⟩, hbody, h⟩ := Option.bind_eq_some_iff.mp h
  obtain ⟨⟨numOfFeetOvl, bs₅⟩, hfeet, h⟩ := Option.bind_eq_some_iff.mp h
  obtain ⟨⟨vHead, bs₆⟩, hvHead, h⟩ := Option.bind_eq_some_iff.mp h
  obtain ⟨⟨vHand, bs₇⟩, hvHand, h⟩ := Option.bind_eq_some_iff.mp h
  obtain ⟨⟨vBody, bs₈⟩, hvBody, h⟩ := Option.bind_eq_some_iff.mp h
  obtain ⟨⟨vFeet, bs₉⟩, hvFeet, h⟩ := Option.bind_eq_some_iff.mp h
  obtain ⟨rfl, rfl⟩ := Prod.mk.inj (Option.some.inj h)
  dsimp only at hhead hhands hbody hfeet hvHead hvHand hvBody hvFeet
  obtain rfl := u32_tight.read?_eq_some_iff.mp hid
  obtain rfl := u8_tight.read?_eq_some_iff.mp hhead
  obtain rfl := u8_tight.read?_eq_some_iff.mp hhands
  obtain rfl := u8_tight.read?_eq_some_iff.mp hbody
  obtain rfl := u8_tight.read?_eq_some_iff.mp hfeet
  obtain ⟨heads, ⟨hheads, hheadsFit⟩, rfl, rfl⟩ := (accepts_overlays _).sound hvHead
  obtain ⟨hands, ⟨hhands', hhandsFit⟩, rfl, rfl⟩ := (accepts_overlays _).sound hvHand
  obtain ⟨bodys, ⟨hbodys, hbodysFit⟩, rfl, rfl⟩ := (accepts_overlays _).sound hvBody
  obtain ⟨feets, ⟨hfeets, hfeetsFit⟩, rfl, rfl⟩ := (accepts_overlays _).sound hvFeet
  have hle : ∀ n : UInt8, n.toNat ≤ 255 := fun n => Nat.le_of_lt_succ n.toNat_lt
  refine ⟨⟨actorRefID, ⟨heads, hands, bodys, feets, false⟩⟩, ⟨⟨fun p => ?_⟩, ⟨fun p => ?_⟩⟩, rfl,
    ?_⟩
  · cases p
    · exact hheads.le.trans (hle _)
    · exact hhands'.le.trans (hle _)
    · exact hbodys.le.trans (hle _)
    · exact hfeets.le.trans (hle _)
  · cases p
    · exact hheadsFit
    · exact hhandsFit
    · exact hbodysFit
    · exact hfeetsFit
  · simp only [Entry.bytes, saveEntry, hheads, hhands', hbodys, hfeets, UInt8.ofNat_toNat,
      List.append_assoc]

theorem readEntry_complete {e : Entry} (he : e.Fits) (rest : Bytes) :
    readEntry? (e.bytes ++ rest) = some (e.reload, rest) := by
  have hcount : ∀ p, (UInt8.ofNat (e.data.list p).length).toNat = (e.data.list p).length :=
    fun p => toNat_ofNat_of_le_255 (he.lists.length_le p)
  have hread : ∀ p rest, readMany? readOverlay? (UInt8.ofNat (e.data.list p).length).toNat
      ((e.data.list p).flatMap saveOverlay ++ rest) =
        some ((e.data.list p).map reloadOverlay, rest) := fun p rest =>
    (accepts_overlays _).complete ⟨(hcount p).symm, he.paths.length_le p⟩ rest
  have hhead := hread .head
  have hhand := hread .hand
  have hbody := hread .body
  have hfeet := hread .feet
  simp only [ActorRecord.list] at hhead hhand hbody hfeet
  simp only [Entry.bytes, readEntry?, saveEntry, List.append_assoc, Word.read?_encode,
    Option.bind_some, hhead, hhand, hbody, hfeet]
  rfl

theorem accepts_readEntry : Accepts readEntry? Entry.bytes Entry.reload Entry.Fits :=
  ⟨readEntry_sound, readEntry_complete⟩

def Entries.bytes (es : List Entry) : Bytes :=
  u32.encode (UInt32.ofNat es.length) ++ es.flatMap Entry.bytes

theorem accepts_readActorData : Accepts readActorData? Entries.bytes (List.map Entry.reload)
    (fun es => es.length < 2 ^ 32 ∧ ∀ e ∈ es, e.Fits) where
  sound {bs x rest} h := by
    obtain ⟨⟨numOfActorRecords, bs₁⟩, hcount, hentries⟩ := Option.bind_eq_some_iff.mp h
    dsimp only at hentries
    obtain rfl := u32_tight.read?_eq_some_iff.mp hcount
    obtain ⟨es, ⟨hlen, hfits⟩, rfl, rfl⟩ :=
      (accepts_readEntry.many numOfActorRecords.toNat).sound hentries
    refine ⟨es, ⟨hlen ▸ numOfActorRecords.toNat_lt, hfits⟩, rfl, ?_⟩
    rw [Entries.bytes, hlen, UInt32.ofNat_toNat, List.append_assoc]
  complete {es} hes rest := by
    have hn : (UInt32.ofNat es.length).toNat = es.length := by
      rw [UInt32.toNat_ofNat']
      exact Nat.mod_eq_of_lt hes.1
    rw [readActorData?, Entries.bytes, List.append_assoc, Word.read?_encode, Option.bind_some]
    exact (accepts_readEntry.many _).complete ⟨hn.symm, hes.2⟩ rest

end Reader

section Format
variable {bs : Bytes} {es es' : List Entry}

theorem payload_iff : Payload bs es ↔
    (es.length < 2 ^ 32 ∧ ∀ e ∈ es, e.Fits) ∧ ∃ rest, bs = Entries.bytes es ++ rest := by
  constructor
  · intro h
    obtain ⟨rest, hrest⟩ := h.bytes
    exact ⟨⟨h.count_lt, h.fits⟩, rest, by rw [hrest, Entries.bytes, List.append_assoc]⟩
  · intro h
    obtain ⟨⟨hlen, hfits⟩, rest, rfl⟩ := h
    exact ⟨hlen, hfits, rest, by rw [Entries.bytes, List.append_assoc]⟩

/-- The bytes that are a payload are those the strict reader accepts, it returns the entries as
they are reloaded, and bytes that are a payload in two ways mean the same overlays for the same
FormIDs both times. -/
theorem payload_format (bs : Bytes) :
    ((∃ es, Payload bs es) ↔ (readActorData? bs).isSome) ∧
    (∀ es, Payload bs es → (readActorData? bs).map Prod.fst = some (es.map Entry.reload)) ∧
    (∀ es es', Payload bs es → Payload bs es' →
      es.map (fun e => (e.formID, e.data.looks)) = es'.map fun e => (e.formID, e.data.looks)) := by
  have hread : ∀ es, Payload bs es →
      (readActorData? bs).map Prod.fst = some (es.map Entry.reload) := by
    intro es h
    obtain ⟨hok, rest, rfl⟩ := payload_iff.mp h
    rw [accepts_readActorData.complete hok, Option.map_some]
  refine ⟨?_, hread, fun es es' h h' => ?_⟩
  · rw [accepts_readActorData.isSome_iff]
    constructor
    · intro h
      obtain ⟨es, hes⟩ := h
      obtain ⟨hok, rest, hbs⟩ := payload_iff.mp hes
      exact ⟨es, rest, hok, hbs⟩
    · intro h
      obtain ⟨es, rest, hok, hbs⟩ := h
      exact ⟨es, payload_iff.mpr ⟨hok, rest, hbs⟩⟩
  · have hlooks : ∀ es, Payload bs es → es.map (fun e => (e.formID, e.data.looks)) =
        (es.map Entry.reload).map fun e => (e.formID, e.data.looks) := by
      intro es h
      rw [List.map_map]
      refine List.map_congr_left fun e he => ?_
      exact congrArg (Prod.mk e.formID) (reloadRecord_looks (h.fits e he).paths).symm
    have hsame := Option.some.inj ((hread es h).symm.trans (hread es' h'))
    rw [hlooks es h, hlooks es' h', hsame]

end Format

section AnyBytes

end AnyBytes

end OverlaySaver
