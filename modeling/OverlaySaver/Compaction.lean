import Mathlib.Data.List.Basic
import Mathlib.Data.List.Induction
import Mathlib.Tactic.Common

/-!
# Compaction of finitely many slots

Slots are a partial function on the naturals below a bound. `compact` lists what the
occupied slots hold, in order and without the gaps; `refill` writes a list back over
the first slots and leaves the slots after it alone. Compacting after a refill gives
the list back exactly when the occupied slots had no gap.
-/

namespace Compaction
variable {α : Type*}

def compact (f : ℕ → Option α) (n : ℕ) : List α := (List.range n).filterMap f

def refill (l : List α) (f : ℕ → Option α) : ℕ → Option α :=
  fun i => if i < l.length then l[i]? else f i

def FilledPrefix (f : ℕ → Option α) (n : ℕ) : Prop :=
  ∃ k ≤ n, ∀ i < n, (f i).isSome ↔ i < k

@[simp] theorem compact_zero (f : ℕ → Option α) : compact f 0 = [] := rfl

theorem compact_succ (f : ℕ → Option α) (n : ℕ) :
    compact f (n + 1) = compact f n ++ (f n).toList := by
  rw [compact, List.range_succ, List.filterMap_append]
  cases h : f n <;> simp [compact, h]

theorem compact_add (f : ℕ → Option α) (m n : ℕ) :
    compact f (m + n) = compact f m ++ compact (fun i => f (m + i)) n := by
  simp only [compact, List.range_add, List.filterMap_append, List.filterMap_map]
  rfl

theorem compact_congr {f g : ℕ → Option α} {n : ℕ} (h : ∀ i < n, f i = g i) :
    compact f n = compact g n :=
  List.filterMap_congr fun i hi => h i (List.mem_range.mp hi)

theorem compact_length_le (f : ℕ → Option α) (n : ℕ) : (compact f n).length ≤ n := by
  simpa [compact] using List.length_filterMap_le f (List.range n)

theorem mem_compact {f : ℕ → Option α} {n : ℕ} {x : α} :
    x ∈ compact f n ↔ ∃ i < n, f i = some x := by
  simp [compact]

theorem compact_eq_nil_iff {f : ℕ → Option α} {n : ℕ} :
    compact f n = [] ↔ ∀ i < n, f i = none := by
  simp [compact, List.filterMap_eq_nil_iff]

theorem compact_getElem? (l : List α) : compact (fun i => l[i]?) l.length = l := by
  induction l using List.reverseRecOn with
  | nil => rfl
  | append_singleton l x ih =>
    rw [List.length_append, List.length_singleton, compact_succ]
    have hc : compact (fun i => (l ++ [x])[i]?) l.length = compact (fun i => l[i]?) l.length :=
      compact_congr fun i hi => List.getElem?_append_left hi
    rw [hc, ih]
    simp

theorem refill_of_lt {l : List α} (f : ℕ → Option α) {i : ℕ} (h : i < l.length) :
    refill l f i = l[i]? := if_pos h

theorem refill_of_le {l : List α} (f : ℕ → Option α) {i : ℕ} (h : l.length ≤ i) :
    refill l f i = f i := if_neg (by omega)

theorem compact_refill {l : List α} {n : ℕ} (f : ℕ → Option α) (h : l.length ≤ n) :
    compact (refill l f) n = l ++ compact (fun i => f (l.length + i)) (n - l.length) := by
  obtain ⟨d, rfl⟩ := Nat.exists_eq_add_of_le h
  have hl : compact (refill l f) l.length = l :=
    (compact_congr fun i hi => refill_of_lt f hi).trans (compact_getElem? l)
  have hr : compact (fun i => refill l f (l.length + i)) d =
      compact (fun i => f (l.length + i)) d :=
    compact_congr fun i _ => refill_of_le f (by omega)
  rw [compact_add, hl, hr, Nat.add_sub_cancel_left]

theorem compact_refill_of_empty {l : List α} {n : ℕ} {f : ℕ → Option α} (h : l.length ≤ n)
    (hf : ∀ i < n, f i = none) : compact (refill l f) n = l := by
  have he : compact (fun i => f (l.length + i)) (n - l.length) = [] :=
    compact_eq_nil_iff.mpr fun i hi => hf _ (by omega)
  rw [compact_refill f h, he, List.append_nil]

theorem compact_getElem?_of_filled {f : ℕ → Option α} {k : ℕ} (h : ∀ i < k, (f i).isSome) :
    (compact f k).length = k ∧ ∀ i < k, (compact f k)[i]? = f i := by
  induction k with
  | zero => simp
  | succ k ih =>
    obtain ⟨hl, hg⟩ := ih fun i hi => h i (by omega)
    obtain ⟨x, hx⟩ := Option.isSome_iff_exists.mp (h k (by omega))
    rw [compact_succ, hx, Option.toList_some]
    refine ⟨by simp [hl], fun i hi => ?_⟩
    rcases Nat.lt_succ_iff_lt_or_eq.mp hi with hi' | rfl
    · rw [List.getElem?_append_left (by omega), hg i hi']
    · rw [List.getElem?_append_right (by omega), hl, hx]
      simp

theorem filled_of_compact_length {f : ℕ → Option α} {k : ℕ} (h : (compact f k).length = k) :
    ∀ i < k, (f i).isSome := by
  induction k with
  | zero => intro i hi; omega
  | succ k ih =>
    rw [compact_succ, List.length_append] at h
    have hle := compact_length_le f k
    have ht : (f k).toList.length ≤ 1 := by cases f k <;> simp
    intro i hi
    rcases Nat.lt_succ_iff_lt_or_eq.mp hi with hi' | rfl
    · exact ih (by omega) i hi'
    · cases hf : f i with
      | none => rw [hf] at h; simp at h; omega
      | some x => rfl

theorem compact_of_filledPrefix {f : ℕ → Option α} {n k : ℕ} (hk : k ≤ n)
    (h : ∀ i < n, (f i).isSome ↔ i < k) : compact f n = compact f k := by
  obtain ⟨d, rfl⟩ := Nat.exists_eq_add_of_le hk
  have he : compact (fun i => f (k + i)) d = [] := by
    refine compact_eq_nil_iff.mpr fun i hi => ?_
    have hn := (h (k + i) (by omega)).not.mpr (by omega)
    simpa using hn
  rw [compact_add, he, List.append_nil]

theorem refill_compact_of_filledPrefix {f : ℕ → Option α} {n : ℕ} (h : FilledPrefix f n) :
    ∀ i < n, refill (compact f n) f i = f i := by
  obtain ⟨k, hk, hf⟩ := h
  obtain ⟨hl, hg⟩ := compact_getElem?_of_filled fun i hi => (hf i (by omega)).mpr hi
  rw [compact_of_filledPrefix hk hf]
  intro i _
  by_cases hi : i < k
  · rw [refill_of_lt f (by omega), hg i hi]
  · exact refill_of_le f (by omega)

theorem compact_refill_length_iff (f : ℕ → Option α) (n : ℕ) :
    (compact (refill (compact f n) f) n).length = (compact f n).length ↔ FilledPrefix f n := by
  constructor
  · intro h
    have hle := compact_length_le f n
    rw [compact_refill f hle, List.length_append, Nat.add_eq_left, List.length_eq_zero_iff,
      compact_eq_nil_iff] at h
    have hnone : ∀ i < n, (compact f n).length ≤ i → f i = none := by
      intro i hi hge
      have hi' := h (i - (compact f n).length) (by omega)
      rwa [Nat.add_sub_cancel' hge] at hi'
    have hlen : (compact f (compact f n).length).length = (compact f n).length := by
      obtain ⟨d, hd⟩ := Nat.exists_eq_add_of_le hle
      have he : compact (fun i => f ((compact f n).length + i)) d = [] :=
        compact_eq_nil_iff.mpr fun i hi => hnone _ (by omega) (by omega)
      have hc := compact_add f (compact f n).length d
      rw [← hd, he, List.append_nil] at hc
      exact congrArg List.length hc.symm
    refine ⟨_, hle, fun i hi => ⟨fun hs => ?_, fun hlt => filled_of_compact_length hlen i hlt⟩⟩
    by_contra hge
    rw [hnone i hi (by omega)] at hs
    simp at hs
  · intro h
    rw [compact_congr (refill_compact_of_filledPrefix h)]

section Overwrite

def overwrite (l : List α) (f : ℕ → α) : ℕ → α := fun i => (l[i]?).getD (f i)

theorem overwrite_of_getElem? {l : List α} (f : ℕ → α) {i : ℕ} {x : α} (h : l[i]? = some x) :
    overwrite l f i = x := by
  rw [overwrite, h, Option.getD_some]

theorem overwrite_of_le {l : List α} (f : ℕ → α) {i : ℕ} (h : l.length ≤ i) :
    overwrite l f i = f i := by
  rw [overwrite, List.getElem?_eq_none h, Option.getD_none]

theorem overwrite_map {β : Type*} (g : α → β) (l : List α) (f : ℕ → α) (i : ℕ) :
    g (overwrite l f i) = overwrite (l.map g) (fun i => g (f i)) i := by
  rw [overwrite, overwrite, List.getElem?_map]
  cases l[i]? <;> rfl

theorem map_compact {β : Type*} (g : α → β) (f : ℕ → Option α) (n : ℕ) :
    (compact f n).map g = compact (fun i => (f i).map g) n := by
  rw [compact, List.map_filterMap, compact]

theorem compact_getElem?_join (l : List (Option α)) :
    compact (fun i => (l[i]?).join) l.length = l.filterMap id := by
  induction l using List.reverseRecOn with
  | nil => rfl
  | append_singleton l x ih =>
    have hc : compact (fun i => ((l ++ [x])[i]?).join) l.length =
        compact (fun i => (l[i]?).join) l.length :=
      compact_congr fun i hi => by rw [List.getElem?_append_left hi]
    rw [List.length_append, List.length_singleton, compact_succ, hc, ih, List.filterMap_append]
    cases x <;> simp

theorem compact_overwrite {l : List (Option α)} {n : ℕ} (f : ℕ → Option α) (h : l.length ≤ n) :
    compact (overwrite l f) n =
      l.filterMap id ++ compact (fun i => f (l.length + i)) (n - l.length) := by
  obtain ⟨d, rfl⟩ := Nat.exists_eq_add_of_le h
  have hl : compact (overwrite l f) l.length = l.filterMap id := by
    rw [← compact_getElem?_join]
    refine compact_congr fun i hi => ?_
    rw [overwrite, List.getElem?_eq_getElem hi]
    rfl
  have hr : compact (fun i => overwrite l f (l.length + i)) d =
      compact (fun i => f (l.length + i)) d :=
    compact_congr fun i _ => overwrite_of_le f (by omega)
  rw [compact_add, hl, hr, Nat.add_sub_cancel_left]

end Overwrite

section Loop
variable {σ κ ν : Type*} (look : σ → κ → ν) (body : σ → ℕ → σ)

theorem foldl_range_frame {n : ℕ} {k : κ} (h : ∀ s, ∀ i < n, look (body s i) k = look s k)
    (s : σ) : look ((List.range n).foldl body s) k = look s k := by
  induction n with
  | zero => rfl
  | succ n ih =>
    rw [List.range_succ, List.foldl_append]
    exact (h _ n (by omega)).trans (ih fun s i hi => h s i (by omega))

theorem foldl_range_at {n i : ℕ} {k : κ} {v : ν} (hi : i < n) (hset : ∀ s, look (body s i) k = v)
    (hframe : ∀ s, ∀ j < n, j ≠ i → look (body s j) k = look s k) (s : σ) :
    look ((List.range n).foldl body s) k = v := by
  induction n with
  | zero => omega
  | succ n ih =>
    rw [List.range_succ, List.foldl_append]
    by_cases hn : i = n
    · subst hn
      exact hset _
    · exact (hframe _ n (by omega) (by omega)).trans
        (ih (by omega) fun s j hj hne => hframe s j (by omega) hne)

theorem foldl_range_toList {α : Type*} (f : ℕ → Option α) (n : ℕ) (l : List α) :
    (List.range n).foldl (fun l i => l ++ (f i).toList) l = l ++ compact f n := by
  induction n with
  | zero => simp
  | succ n ih => rw [List.range_succ, List.foldl_append, ih, compact_succ, ← List.append_assoc]; rfl

end Loop

end Compaction
