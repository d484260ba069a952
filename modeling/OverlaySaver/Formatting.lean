import OverlaySaver.ByteStream

/-!
# Format strings

`vformat` fills the replacement fields of a pattern, the plain one and the one for upper-case
hexadecimal; `none` is a pattern that does not fit its arguments. What stands between two
fields is copied, and the number behind a hexadecimal field can be read off the text.
-/

namespace Formatting
open ByteStream (Bytes)

inductive Arg
  | text (s : Bytes)
  | word (n : UInt32)

def byteOf (c : Char) : UInt8 := UInt8.ofNat c.toNat

def hexDigit (d : ℕ) : UInt8 := UInt8.ofNat (if d < 10 then 48 + d else 55 + d)

def nibbles (n : ℕ) : List ℕ := (List.range 8).reverse.map fun i => n / 16 ^ i % 16

def hex (n : UInt32) : Bytes :=
  match (nibbles n.toNat).dropWhile (· = 0) with
  | [] => [hexDigit 0]
  | d :: ds => (d :: ds).map hexDigit

def Arg.plain : Arg → Bytes
  | .text s => s
  | .word n => (Nat.toDigits 10 n.toNat).map byteOf

def vformat : List Char → List Arg → Option Bytes
  | '{' :: '}' :: rest, arg :: args => (vformat rest args).map (arg.plain ++ ·)
  | '{' :: ':' :: 'X' :: '}' :: rest, .word n :: args => (vformat rest args).map (hex n ++ ·)
  | c :: rest, args =>
    if c = '{' ∨ c = '}' then none else (vformat rest args).map (byteOf c :: ·)
  | [], _ => some []

section Hex

def hexVal (b : UInt8) : ℕ := if b < 58 then b.toNat - 48 else b.toNat - 55

def hexValue (bs : Bytes) : ℕ := bs.foldl (fun n b => n * 16 + hexVal b) 0

theorem hexVal_hexDigit : ∀ d < 16, hexVal (hexDigit d) = d := by decide

theorem hexDigit_ne_paren : ∀ d < 16, hexDigit d ≠ 40 := by decide

theorem nibbles_lt {n d : ℕ} (h : d ∈ nibbles n) : d < 16 := by
  obtain ⟨i, -, rfl⟩ := List.mem_map.mp h
  exact Nat.mod_lt _ (by omega)

theorem foldl_nibbles {n : ℕ} (h : n < 2 ^ 32) :
    (nibbles n).foldl (fun m d => m * 16 + d) 0 = n := by
  have hlist : nibbles n = [n / 16 ^ 7 % 16, n / 16 ^ 6 % 16, n / 16 ^ 5 % 16, n / 16 ^ 4 % 16,
      n / 16 ^ 3 % 16, n / 16 ^ 2 % 16, n / 16 ^ 1 % 16, n / 16 ^ 0 % 16] := rfl
  rw [hlist]
  simp only [List.foldl_cons, List.foldl_nil]
  omega

theorem foldl_dropWhile_zero (ds : List ℕ) :
    (ds.dropWhile (· = 0)).foldl (fun m d => m * 16 + d) 0 =
      ds.foldl (fun m d => m * 16 + d) 0 := by
  induction ds with
  | nil => rfl
  | cons d ds ih =>
    by_cases hd : d = 0
    · subst hd
      simpa using ih
    · simp [hd]

theorem foldl_hexDigit {ds : List ℕ} (h : ∀ d ∈ ds, d < 16) (m : ℕ) :
    (ds.map hexDigit).foldl (fun n b => n * 16 + hexVal b) m =
      ds.foldl (fun n d => n * 16 + d) m := by
  induction ds generalizing m with
  | nil => rfl
  | cons d ds ih =>
    obtain ⟨hd, hds⟩ := List.forall_mem_cons.mp h
    rw [List.map_cons, List.foldl_cons, List.foldl_cons, hexVal_hexDigit d hd, ih hds]

theorem hex_eq (n : UInt32) : ∃ ds : List ℕ, hex n = ds.map hexDigit ∧ (∀ d ∈ ds, d < 16) ∧
    ds.foldl (fun m d => m * 16 + d) 0 = n.toNat := by
  have hvalue := (foldl_dropWhile_zero (nibbles n.toNat)).trans (foldl_nibbles n.toNat_lt)
  rw [hex]
  cases hds : (nibbles n.toNat).dropWhile (· = 0) with
  | nil =>
    rw [hds] at hvalue
    exact ⟨[0], rfl, by decide, hvalue⟩
  | cons d ds =>
    rw [hds] at hvalue
    refine ⟨d :: ds, rfl, fun x hx => nibbles_lt (n := n.toNat) ?_, hvalue⟩
    exact (List.dropWhile_sublist _).subset (hds ▸ hx)

theorem hexValue_hex (n : UInt32) : hexValue (hex n) = n.toNat := by
  obtain ⟨ds, hds, hlt, hvalue⟩ := hex_eq n
  rw [hds, hexValue, foldl_hexDigit hlt, hvalue]

theorem hex_injective {m n : UInt32} (h : hex m = hex n) : m = n := by
  rw [← UInt32.toNat_inj, ← hexValue_hex, h, hexValue_hex]

theorem paren_notMem_hex (n : UInt32) : 40 ∉ hex n := by
  obtain ⟨ds, hds, hlt, -⟩ := hex_eq n
  rw [hds]
  intro h
  obtain ⟨d, hd, he⟩ := List.mem_map.mp h
  exact hexDigit_ne_paren d (hlt d hd) he

end Hex

section Fields

/-- The text has no brace. -/
def Plain (lit : List Char) : Prop := ∀ c ∈ lit, c ≠ '{' ∧ c ≠ '}'

instance (lit : List Char) : Decidable (Plain lit) :=
  decidable_of_iff (lit.all fun c => c != '{' && c != '}') (by simp [Plain])

theorem vformat_plain {lit : List Char} (h : Plain lit) (fmt : List Char) (args : List Arg) :
    vformat (lit ++ fmt) args = (vformat fmt args).map (lit.map byteOf ++ ·) := by
  induction lit with
  | nil => simp
  | cons c lit ih =>
    obtain ⟨⟨hopen, hclose⟩, hlit⟩ := List.forall_mem_cons.mp h
    rw [List.cons_append, vformat]
    · simp only [hopen, hclose, or_self, ↓reduceIte, ih hlit, Option.map_map]
      rfl
    · exact fun _ _ _ _ hc _ => hopen hc
    · exact fun _ _ _ _ hc _ => hopen hc

theorem vformat_named {pre post : List Char} (hpre : Plain pre) (hpost : Plain post)
    (s : Bytes) (n : UInt32) :
    vformat (pre ++ ("{} ({:X})".toList ++ post)) [.text s, .word n] =
      some (pre.map byteOf ++ (s ++ ([32, 40] ++ (hex n ++ ([41] ++ post.map byteOf))))) := by
  have hpost' : vformat post [] = some (post.map byteOf) := by
    have h := vformat_plain hpost [] []
    rw [List.append_nil] at h
    simpa [vformat] using h
  have hfields : vformat ("{} ({:X})".toList ++ post) [.text s, .word n] =
      some (s ++ ([32, 40] ++ (hex n ++ ([41] ++ post.map byteOf)))) := by
    have hpattern : "{} ({:X})".toList ++ post =
        '{' :: '}' :: ' ' :: '(' :: '{' :: ':' :: 'X' :: '}' :: ')' :: post := rfl
    rw [hpattern]
    simp [vformat, hpost', Arg.plain]
    decide
  rw [vformat_plain hpre, hfields, Option.map_some]

theorem split_at_last {α : Type*} {x : α} {l l' r r' : List α} (hr : x ∉ r) (hr' : x ∉ r')
    (h : l ++ x :: r = l' ++ x :: r') : l = l' ∧ r = r' := by
  rcases List.append_eq_append_iff.mp h with ⟨m, rfl, hm⟩ | ⟨m, rfl, hm⟩
  · cases m with
    | nil => exact ⟨(List.append_nil l).symm, (List.cons.inj hm).2⟩
    | cons y m =>
      rw [List.cons_append] at hm
      exact absurd ((List.cons.inj hm).2 ▸ List.mem_append_right m List.mem_cons_self) hr
  · cases m with
    | nil => exact ⟨List.append_nil l', (List.cons.inj hm).2.symm⟩
    | cons y m =>
      rw [List.cons_append] at hm
      exact absurd ((List.cons.inj hm).2 ▸ List.mem_append_right m List.mem_cons_self) hr'

theorem named_text_injective {s s' : Bytes} {n n' : UInt32} (post : Bytes)
    (h : s ++ ([32, 40] ++ (hex n ++ post)) = s' ++ ([32, 40] ++ (hex n' ++ post))) :
    s = s' ∧ n = n' := by
  have hcut : (s ++ [32]) ++ 40 :: hex n = (s' ++ [32]) ++ 40 :: hex n' := by
    have hassoc : ∀ (s : Bytes) (n : UInt32), s ++ ([32, 40] ++ (hex n ++ post)) =
        ((s ++ [32]) ++ 40 :: hex n) ++ post := fun s n => by simp
    rw [hassoc, hassoc] at h
    exact List.append_cancel_right h
  obtain ⟨hname, hhex⟩ := split_at_last (paren_notMem_hex n) (paren_notMem_hex n') hcut
  exact ⟨List.append_cancel_right hname, hex_injective hhex⟩

end Fields

end Formatting
