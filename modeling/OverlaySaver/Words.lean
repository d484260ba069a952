import Mathlib.Data.List.Basic
import Mathlib.Data.List.Induction
import Mathlib.Data.List.DropRight
import Mathlib.Tactic.Common

/-!
# Words of a line

The words of a list are its maximal runs without a separator. `extract?` takes the
first word off, as a formatted read from a stream does; separators at either end and a map that
respects them make no difference to the words.
-/

namespace Words
variable {α : Type*} (sep : α → Bool)

def words (l : List α) : List (List α) := (l.splitOnP sep).filter fun w => !w.isEmpty

/-- Skip separators, then read up to the next one; fails if there is nothing to read. -/
def extract? (l : List α) : Option (List α × List α) :=
  match l.dropWhile sep with
  | [] => none
  | c :: cs => some ((c :: cs).takeWhile fun x => !sep x, (c :: cs).dropWhile fun x => !sep x)

@[simp] theorem words_nil : words sep ([] : List α) = [] := by
  simp [words]

variable {sep}

theorem words_append_cons (l m : List α) {c : α} (hc : sep c) :
    words sep (l ++ c :: m) = words sep l ++ words sep m := by
  rw [words, List.splitOnP_append_cons l m hc, List.filter_append, words, words]

theorem words_cons {c : α} (hc : sep c) (l : List α) : words sep (c :: l) = words sep l := by
  simpa using words_append_cons [] l hc

theorem words_spaces_append {pre : List α} (hpre : ∀ c ∈ pre, sep c) (l : List α) :
    words sep (pre ++ l) = words sep l := by
  induction pre with
  | nil => rfl
  | cons c pre ih =>
    rw [List.cons_append, words_cons (hpre c List.mem_cons_self)]
    exact ih fun d hd => hpre d (List.mem_cons_of_mem c hd)

theorem words_of_spaces {l : List α} (hl : ∀ c ∈ l, sep c) : words sep l = [] := by
  simpa using words_spaces_append hl []

theorem words_append_spaces {post : List α} (hpost : ∀ c ∈ post, sep c) (l : List α) :
    words sep (l ++ post) = words sep l := by
  cases post with
  | nil => rw [List.append_nil]
  | cons c post =>
    rw [words_append_cons l post (hpost c List.mem_cons_self),
      words_of_spaces fun d hd => hpost d (List.mem_cons_of_mem c hd), List.append_nil]

theorem words_of_word {w : List α} (hw : ∀ c ∈ w, sep c = false) (hne : w ≠ []) :
    words sep w = [w] := by
  rw [words, List.splitOnP_eq_singleton hw]
  simp [hne]

theorem words_map {f : α → α} (hf : ∀ c, sep (f c) = sep c) (l : List α) :
    words sep (l.map f) = (words sep l).map (List.map f) := by
  have h : (l.map f).splitOnP sep = (l.splitOnP sep).map (List.map f) := by
    induction l with
    | nil => rfl
    | cons c l ih =>
      rw [List.map_cons, List.splitOnP_cons_eq_if_modifyHead,
        List.splitOnP_cons_eq_if_modifyHead, hf, ih]
      split_ifs
      · rfl
      · cases l.splitOnP sep <;> rfl
  rw [words, h, List.filter_map, words]
  congr 2
  funext w
  simp

theorem extract?_eq_none_iff {l : List α} : extract? sep l = none ↔ ∀ c ∈ l, sep c := by
  rw [← List.dropWhile_eq_nil_iff, extract?]
  split
  · rename_i hd
    exact iff_of_true rfl hd
  · rename_i hd
    exact iff_of_false (by simp) (by simp [hd])

theorem words_word_append {w rest : List α} (hw : ∀ c ∈ w, sep c = false) (hne : w ≠ [])
    (hrest : ∀ c ∈ rest.head?, sep c) : words sep (w ++ rest) = w :: words sep rest := by
  cases rest with
  | nil => rw [List.append_nil, words_of_word hw hne, words_nil]
  | cons c rest =>
    have hc := hrest c rfl
    rw [words_append_cons w rest hc, words_of_word hw hne, words_cons hc]
    rfl

theorem words_of_extract? {l w rest : List α} (h : extract? sep l = some (w, rest)) :
    words sep l = w :: words sep rest := by
  have hl : words sep l = words sep (l.dropWhile sep) := by
    conv_lhs => rw [← List.takeWhile_append_dropWhile (p := sep) (l := l)]
    exact words_spaces_append (fun d hd => List.mem_takeWhile_imp hd) _
  have hhead := List.head?_dropWhile_not sep l
  rw [extract?] at h
  split at h
  · cases h
  · rename_i c cs hd
    rw [hd] at hl hhead
    have hc : sep c = false := hhead
    obtain ⟨rfl, rfl⟩ := Prod.mk.inj (Option.some.inj h)
    have hw : ∀ d ∈ (c :: cs).takeWhile (fun x => !sep x), sep d = false := fun d hd => by
      simpa using List.mem_takeWhile_imp hd
    have hrest : ∀ d ∈ ((c :: cs).dropWhile fun x => !sep x).head?, sep d := fun d hd => by
      have hn := List.head?_dropWhile_not (fun x => !sep x) (c :: cs)
      rw [hd] at hn
      simpa using hn
    have hne : (c :: cs).takeWhile (fun x => !sep x) ≠ [] := by
      simp [hc]
    rw [hl, ← words_word_append hw hne hrest, List.takeWhile_append_dropWhile]

theorem words_eq_nil_iff {l : List α} : words sep l = [] ↔ ∀ c ∈ l, sep c := by
  constructor
  · intro h
    rw [← extract?_eq_none_iff]
    cases he : extract? sep l with
    | none => rfl
    | some r =>
      rw [words_of_extract? he] at h
      cases h
  · exact words_of_spaces

section Ends

theorem blank_of_not {l : List α} (h : ¬ ∃ c ∈ l, sep c = false) : ∀ c ∈ l, sep c = true := by
  intro c hc
  by_contra hn
  exact h ⟨c, hc, Bool.eq_false_iff.mpr hn⟩

theorem drop_takeWhile_length (l : List α) :
    l.drop (l.takeWhile sep).length = l.dropWhile sep := by
  calc
    l.drop (l.takeWhile sep).length =
        (l.takeWhile sep ++ l.dropWhile sep).drop (l.takeWhile sep).length := by
      rw [List.takeWhile_append_dropWhile]
    _ = l.dropWhile sep := List.drop_left

theorem sep_before {l : List α} {i : ℕ} (hi : i < (l.takeWhile sep).length) :
    ∃ c, l[i]? = some c ∧ sep c = true := by
  have hget : l[i]? = (l.takeWhile sep)[i]? := by
    conv_lhs => rw [← List.takeWhile_append_dropWhile (p := sep) (l := l)]
    exact List.getElem?_append_left hi
  rw [hget, List.getElem?_eq_getElem hi]
  exact ⟨_, rfl, List.mem_takeWhile_imp (List.getElem_mem hi)⟩

theorem takeWhile_length_lt {l : List α} (h : ∃ c ∈ l, sep c = false) :
    (l.takeWhile sep).length < l.length := by
  obtain ⟨c, hc, hn⟩ := h
  have hne : l.dropWhile sep ≠ [] := by
    intro hnil
    rw [List.dropWhile_eq_nil_iff.mp hnil c hc] at hn
    cases hn
  rw [← drop_takeWhile_length, ne_eq, List.drop_eq_nil_iff] at hne
  omega

theorem word_starts {l : List α} (h : ∃ c ∈ l, sep c = false) :
    ∃ c, l[(l.takeWhile sep).length]? = some c ∧ sep c = false := by
  have hlt := takeWhile_length_lt h
  have hget : l[(l.takeWhile sep).length]? = (l.dropWhile sep).head? := by
    rw [← drop_takeWhile_length, List.head?_drop]
  rw [List.getElem?_eq_getElem hlt] at hget ⊢
  have hnot := List.head?_dropWhile_not sep l
  rw [← hget] at hnot
  exact ⟨_, rfl, hnot⟩

theorem rdropWhile_append_spaces (l : List α) {post : List α} (hpost : ∀ c ∈ post, sep c = true) :
    (l ++ post).rdropWhile sep = l.rdropWhile sep := by
  induction post using List.reverseRecOn with
  | nil => rw [List.append_nil]
  | append_singleton post c ih =>
    have hc := hpost c (List.mem_append_right post (List.mem_singleton.mpr rfl))
    rw [← List.append_assoc, List.rdropWhile_concat_pos _ _ _ hc]
    exact ih fun d hd => hpost d (List.mem_append_left [c] hd)

end Ends

end Words
