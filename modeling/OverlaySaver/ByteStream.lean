import Mathlib.Data.List.Basic
import Mathlib.Tactic.Ring

/-!
# Byte streams with clamped reads

A stream is the list of bytes that are left. `readInto` copies at most the bytes
that are left over the front of a destination and leaves the rest of it as it was;
`split?` is the strict read that fails when too few bytes are left. Fixed-width
naturals are stored least significant byte first.
-/

namespace ByteStream

abbrev Bytes := List UInt8

def toLE : ℕ → ℕ → Bytes
  | 0, _ => []
  | w + 1, n => UInt8.ofNat n :: toLE w (n / 256)

def ofLE : Bytes → ℕ
  | [] => 0
  | b :: bs => b.toNat + 256 * ofLE bs

@[simp] theorem toLE_length (w n : ℕ) : (toLE w n).length = w := by
  induction w generalizing n with
  | zero => rfl
  | succ w ih => simp [toLE, ih]

theorem ofLE_toLE (w n : ℕ) : ofLE (toLE w n) = n % 256 ^ w := by
  induction w generalizing n with
  | zero => simp [toLE, ofLE, Nat.mod_one]
  | succ w ih =>
    have hb : (UInt8.ofNat n).toNat = n % 256 := by simp
    rw [toLE, ofLE, ih, hb, pow_succ', Nat.mod_mul]

theorem ofLE_toLE_of_lt {w n : ℕ} (h : n < 256 ^ w) : ofLE (toLE w n) = n := by
  rw [ofLE_toLE, Nat.mod_eq_of_lt h]

/-- A read into `dst`: the bytes it leaves in `dst`, and the rest of the stream. -/
def readInto (dst bs : Bytes) : Bytes × Bytes :=
  let got := bs.take dst.length
  (got ++ dst.drop got.length, bs.drop dst.length)

def split? (n : ℕ) (bs : Bytes) : Option (Bytes × Bytes) :=
  if n ≤ bs.length then some (bs.take n, bs.drop n) else none

@[simp] theorem readInto_nil (dst : Bytes) : readInto dst [] = (dst, []) := by
  simp [readInto]

theorem readInto_length (dst bs : Bytes) : (readInto dst bs).1.length = dst.length := by
  simp only [readInto, List.length_append, List.length_drop, List.length_take]
  omega

theorem readInto_append {dst new : Bytes} (h : new.length = dst.length) (rest : Bytes) :
    readInto dst (new ++ rest) = (new, rest) := by
  simp [readInto, ← h]

theorem readInto_of_split? {n : ℕ} {dst bs new rest : Bytes} (hn : dst.length = n)
    (h : split? n bs = some (new, rest)) : readInto dst bs = (new, rest) := by
  rw [split?] at h
  split_ifs at h with hle
  obtain ⟨rfl, rfl⟩ := Prod.mk.inj (Option.some.inj h)
  simp [readInto, hn, Nat.min_eq_left hle]

theorem readInto_rest_of_split?_eq_none {n : ℕ} {dst bs : Bytes} (hn : dst.length = n)
    (h : split? n bs = none) : (readInto dst bs).2 = [] := by
  rw [split?] at h
  split_ifs at h with hle
  simp only [readInto, hn, List.drop_eq_nil_iff]
  omega

structure Word (α : Type*) where
  width : ℕ
  encode : α → Bytes
  decode : Bytes → α
  encode_length : ∀ x, (encode x).length = width
  decode_encode : ∀ x, decode (encode x) = x

def u8 : Word UInt8 where
  width := 1
  encode x := toLE 1 x.toNat
  decode bs := UInt8.ofNat (ofLE bs)
  encode_length x := toLE_length 1 x.toNat
  decode_encode x := by rw [ofLE_toLE_of_lt x.toNat_lt, UInt8.ofNat_toNat]

def u16 : Word UInt16 where
  width := 2
  encode x := toLE 2 x.toNat
  decode bs := UInt16.ofNat (ofLE bs)
  encode_length x := toLE_length 2 x.toNat
  decode_encode x := by rw [ofLE_toLE_of_lt x.toNat_lt, UInt16.ofNat_toNat]

def u32 : Word UInt32 where
  width := 4
  encode x := toLE 4 x.toNat
  decode bs := UInt32.ofNat (ofLE bs)
  encode_length x := toLE_length 4 x.toNat
  decode_encode x := by rw [ofLE_toLE_of_lt x.toNat_lt, UInt32.ofNat_toNat]

namespace Word
variable {α : Type*} (c : Word α)

def read (old : α) (bs : Bytes) : α × Bytes :=
  let r := readInto (c.encode old) bs
  (c.decode r.1, r.2)

def read? (bs : Bytes) : Option (α × Bytes) :=
  (split? c.width bs).map fun r => (c.decode r.1, r.2)

@[simp] theorem read_encode (old x : α) (rest : Bytes) :
    c.read old (c.encode x ++ rest) = (x, rest) := by
  have hl : (c.encode x).length = (c.encode old).length := by simp only [c.encode_length]
  simp only [read, readInto_append hl, c.decode_encode]

@[simp] theorem read_nil (old : α) : c.read old [] = (old, []) := by
  simp only [read, readInto_nil, c.decode_encode]

end Word

/-- A clamped reader `f` goes with a strict reader `g`: it returns what `g` returns
where `g` succeeds, and uses the stream up where `g` runs short. -/
structure Clamps {α : Type*} (f : Bytes → α × Bytes) (g : Bytes → Option (α × Bytes)) :
    Prop where
  nil : (f []).2 = []
  some : ∀ {bs p}, g bs = some p → f bs = p
  none : ∀ {bs}, g bs = none → (f bs).2 = []

namespace Clamps
variable {α β : Type*}

theorem pure (x : α) : Clamps (fun bs => (x, bs)) (fun bs => Option.some (x, bs)) where
  nil := rfl
  some h := Option.some.inj h
  none h := by cases h

theorem word (c : Word α) (old : α) : Clamps (c.read old) c.read? where
  nil := by simp
  some {bs p} h := by
    obtain ⟨r, hr, rfl⟩ := Option.map_eq_some_iff.mp h
    simp only [Word.read, readInto_of_split? (c.encode_length old) hr]
  none {bs} h := readInto_rest_of_split?_eq_none (c.encode_length old) (Option.map_eq_none_iff.mp h)

theorem bytes (dst : Bytes) : Clamps (readInto dst) (split? dst.length) where
  nil := by simp
  some h := readInto_of_split? rfl h
  none h := readInto_rest_of_split?_eq_none rfl h

theorem bind {f : Bytes → α × Bytes} {g : Bytes → Option (α × Bytes)}
    {f' : α → Bytes → β × Bytes} {g' : α → Bytes → Option (β × Bytes)}
    (hf : Clamps f g) (hf' : ∀ x, Clamps (f' x) (g' x)) :
    Clamps (fun bs => f' (f bs).1 (f bs).2) (fun bs => (g bs).bind fun p => g' p.1 p.2) where
  nil := by rw [hf.nil]; exact (hf' _).nil
  some {bs p} h := by
    obtain ⟨q, hq, hp⟩ := Option.bind_eq_some_iff.mp h
    rw [hf.some hq]
    exact (hf' q.1).some hp
  none {bs} h := by
    cases hq : g bs with
    | none => rw [hf.none hq]; exact (hf' _).nil
    | some q =>
      rw [hq, Option.bind_some] at h
      rw [hf.some hq]
      exact (hf' q.1).none h

end Clamps

section Many
variable {α : Type*}

def readMany (f : Bytes → α × Bytes) : ℕ → Bytes → List α × Bytes
  | 0, bs => ([], bs)
  | n + 1, bs =>
    let head := f bs
    let tail := readMany f n head.2
    (head.1 :: tail.1, tail.2)

def readMany? (g : Bytes → Option (α × Bytes)) : ℕ → Bytes → Option (List α × Bytes)
  | 0, bs => some ([], bs)
  | n + 1, bs =>
    (g bs).bind fun head =>
      (readMany? g n head.2).bind fun tail => some (head.1 :: tail.1, tail.2)

theorem Clamps.many {f : Bytes → α × Bytes} {g : Bytes → Option (α × Bytes)} (h : Clamps f g)
    (n : ℕ) : Clamps (readMany f n) (readMany? g n) := by
  induction n with
  | zero => exact Clamps.pure []
  | succ n ih => exact h.bind fun x => ih.bind fun xs => Clamps.pure (x :: xs)

@[simp] theorem readMany_length (f : Bytes → α × Bytes) (n : ℕ) (bs : Bytes) :
    (readMany f n bs).1.length = n := by
  induction n generalizing bs with
  | zero => rfl
  | succ n ih => rw [readMany, List.length_cons, ih]

theorem forall_mem_readMany {P : α → Prop} {f : Bytes → α × Bytes} (h : ∀ bs, P (f bs).1) (n : ℕ)
    (bs : Bytes) : ∀ x ∈ (readMany f n bs).1, P x := by
  induction n generalizing bs with
  | zero => exact fun x hx => absurd hx List.not_mem_nil
  | succ n ih =>
    intro x hx
    rcases List.mem_cons.mp hx with rfl | hx
    · exact h bs
    · exact ih _ x hx

theorem readMany_flatMap {β : Type*} {f : Bytes → α × Bytes} {enc : β → Bytes} {img : β → α}
    (h : ∀ x rest, f (enc x ++ rest) = (img x, rest)) (xs : List β) (rest : Bytes) :
    readMany f xs.length (xs.flatMap enc ++ rest) = (xs.map img, rest) := by
  induction xs with
  | nil => rfl
  | cons x xs ih =>
    simp only [List.length_cons, readMany, List.flatMap_cons, List.append_assoc, h, ih,
      List.map_cons]

end Many

section Strict

theorem split?_eq_some_iff {n : ℕ} {bs new rest : Bytes} :
    split? n bs = some (new, rest) ↔ bs = new ++ rest ∧ new.length = n := by
  rw [split?]
  constructor
  · intro h
    split_ifs at h with hle
    obtain ⟨rfl, rfl⟩ := Prod.mk.inj (Option.some.inj h)
    exact ⟨(List.take_append_drop n bs).symm, List.length_take_of_le hle⟩
  · intro h
    obtain ⟨rfl, rfl⟩ := h
    simp

@[simp] theorem Word.read?_encode {α : Type*} (c : Word α) (x : α) (rest : Bytes) :
    c.read? (c.encode x ++ rest) = some (x, rest) := by
  have hsplit : split? c.width (c.encode x ++ rest) = some (c.encode x, rest) :=
    split?_eq_some_iff.mpr ⟨rfl, c.encode_length x⟩
  rw [Word.read?, hsplit, Option.map_some, c.decode_encode]

theorem toLE_ofLE (bs : Bytes) : toLE bs.length (ofLE bs) = bs := by
  induction bs with
  | nil => rfl
  | cons b bs ih =>
    have hb := b.toNat_lt
    have hlow : UInt8.ofNat (b.toNat + 256 * ofLE bs) = b := by
      rw [← UInt8.toNat_inj, UInt8.toNat_ofNat']
      omega
    have hhigh : (b.toNat + 256 * ofLE bs) / 256 = ofLE bs := by omega
    rw [List.length_cons, ofLE, toLE, hlow, hhigh, ih]

theorem ofLE_lt (bs : Bytes) : ofLE bs < 256 ^ bs.length := by
  induction bs with
  | nil => exact Nat.one_pos
  | cons b bs ih =>
    have hb := b.toNat_lt
    rw [ofLE, List.length_cons, pow_succ']
    omega

def Word.Tight {α : Type*} (c : Word α) : Prop :=
  ∀ bs : Bytes, bs.length = c.width → c.encode (c.decode bs) = bs

theorem toLE_ofLE_mod {w : ℕ} {bs : Bytes} (h : bs.length = w) :
    toLE w (ofLE bs % 256 ^ w) = bs := by
  rw [← h, Nat.mod_eq_of_lt (ofLE_lt bs), toLE_ofLE]

theorem u8_tight : u8.Tight := by
  intro bs h
  exact (congrArg (toLE 1) UInt8.toNat_ofNat').trans (toLE_ofLE_mod h)

theorem u16_tight : u16.Tight := by
  intro bs h
  exact (congrArg (toLE 2) UInt16.toNat_ofNat').trans (toLE_ofLE_mod h)

theorem u32_tight : u32.Tight := by
  intro bs h
  exact (congrArg (toLE 4) UInt32.toNat_ofNat').trans (toLE_ofLE_mod h)

theorem Word.Tight.read?_eq_some_iff {α : Type*} {c : Word α} (h : c.Tight) {bs rest : Bytes}
    {x : α} : c.read? bs = some (x, rest) ↔ bs = c.encode x ++ rest := by
  constructor
  · intro hx
    obtain ⟨⟨new, rest'⟩, hnew, he⟩ := Option.map_eq_some_iff.mp hx
    obtain ⟨rfl, rfl⟩ := Prod.mk.inj he
    obtain ⟨rfl, hlen⟩ := split?_eq_some_iff.mp hnew
    rw [h new hlen]
  · intro hbs
    rw [hbs, c.read?_encode]

/-- A strict reader `g` accepts the encodings of the values that are `ok`, whatever follows them,
and nothing else; it returns their images. -/
structure Accepts {α β : Type*} (g : Bytes → Option (α × Bytes)) (enc : β → Bytes) (img : β → α)
    (ok : β → Prop) : Prop where
  sound : ∀ {bs x rest}, g bs = some (x, rest) → ∃ y, ok y ∧ x = img y ∧ bs = enc y ++ rest
  complete : ∀ {y}, ok y → ∀ rest, g (enc y ++ rest) = some (img y, rest)

namespace Accepts
variable {α β : Type*} {g : Bytes → Option (α × Bytes)} {enc : β → Bytes} {img : β → α}
  {ok : β → Prop}

theorem many (h : Accepts g enc img ok) (n : ℕ) :
    Accepts (readMany? g n) (fun ys => ys.flatMap enc) (List.map img)
      (fun ys => ys.length = n ∧ ∀ y ∈ ys, ok y) where
  sound {bs xs rest} hxs := by
    induction n generalizing bs xs with
    | zero =>
      obtain ⟨rfl, rfl⟩ := Prod.mk.inj (Option.some.inj hxs)
      exact ⟨[], ⟨rfl, fun y hy => absurd hy List.not_mem_nil⟩, rfl, rfl⟩
    | succ n ih =>
      obtain ⟨⟨x, bs'⟩, hx, htail⟩ := Option.bind_eq_some_iff.mp hxs
      obtain ⟨⟨xs', rest'⟩, hxs', he⟩ := Option.bind_eq_some_iff.mp htail
      obtain ⟨rfl, rfl⟩ := Prod.mk.inj (Option.some.inj he)
      obtain ⟨y, hy, rfl, rfl⟩ := h.sound hx
      obtain ⟨ys, ⟨rfl, hys⟩, rfl, hbs'⟩ := ih hxs'
      refine ⟨y :: ys, ⟨rfl, List.forall_mem_cons.mpr ⟨hy, hys⟩⟩, rfl, ?_⟩
      dsimp only at hbs'
      rw [hbs', List.flatMap_cons, List.append_assoc]
  complete {ys} hys rest := by
    obtain ⟨rfl, hok⟩ := hys
    induction ys with
    | nil => rfl
    | cons y ys ih =>
      obtain ⟨hy, hrest⟩ := List.forall_mem_cons.mp hok
      have htail := ih hrest
      rw [List.length_cons, readMany?]
      simp only [List.flatMap_cons, List.append_assoc, h.complete hy, Option.bind_some,
        htail, List.map_cons]

theorem isSome_iff (h : Accepts g enc img ok) (bs : Bytes) :
    (g bs).isSome ↔ ∃ y rest, ok y ∧ bs = enc y ++ rest := by
  constructor
  · intro hs
    obtain ⟨⟨x, rest⟩, hx⟩ := Option.isSome_iff_exists.mp hs
    obtain ⟨y, hy, -, hbs⟩ := h.sound hx
    exact ⟨y, rest, hy, hbs⟩
  · intro hy
    obtain ⟨y, rest, hok, rfl⟩ := hy
    rw [h.complete hok, Option.isSome_some]

end Accepts

end Strict

end ByteStream
