import OverlaySaver.Console
import OverlaySaver.Fallible

/-!
# The two loops of trim

The loops turn by turn, with every move of an iterator and every access checked. The
second loop decrements before it tests and stops at `start` or at a character that is no
white space, so it needs one of the two below the end of the string.
-/

namespace OverlaySaver
open ByteStream (Bytes)
open Fallible Words

inductive Scan
  | skip (start : ℕ)
  | back (start fin : ℕ)
  | done (start fin : ℕ)

/-- `--end`, which must not pass the beginning. -/
def decrement : ℕ → Option ℕ
  | 0 => none
  | i + 1 => some i

/-- One turn of the loops: `none` where an iterator would be moved or read outside of the
string. -/
def scanStep (s : Bytes) : Scan → Option Scan
  | .skip start =>
    if start = s.length then some (.back start s.length)
    else (s[start]?).map fun c => if isspace c then .skip (start + 1) else .back start s.length
  | .back start fin =>
    (decrement fin).bind fun fin =>
      if fin = start then some (.done start fin)
      else (s[fin]?).map fun c => if isspace c then .back start fin else .done start fin
  | .done start fin => some (.done start fin)

def slice (s : Bytes) (start fin : ℕ) : Bytes := (s.drop start).take (fin - start)

def strip (s : Bytes) : Bytes := (s.dropWhile isspace).rdropWhile isspace

section Invariant
variable {s : Bytes}

def SpaceFrom (s : Bytes) (n : ℕ) : Prop := ∀ i, n ≤ i → i < s.length → s[i]?.any isspace = true

def Scan.Inv (s : Bytes) : Scan → Prop
  | .skip start => start ≤ (s.takeWhile isspace).length
  | .back start fin => start = (s.takeWhile isspace).length ∧ start < fin ∧ fin ≤ s.length ∧
      SpaceFrom s fin
  | .done start fin => start = (s.takeWhile isspace).length ∧ start ≤ fin ∧ fin < s.length ∧
      s[fin]?.any isspace = false ∧ SpaceFrom s (fin + 1)

theorem scanStep_skip (h : ∃ c ∈ s, isspace c = false) {start : ℕ} (hi : (Scan.skip start).Inv s) :
    ∃ x, scanStep s (.skip start) = some x ∧ x.Inv s := by
  have hlt := takeWhile_length_lt h
  rw [Scan.Inv] at hi
  rw [scanStep, if_neg (by omega)]
  rcases Nat.lt_or_eq_of_le hi with hbefore | heq
  · obtain ⟨c, hc, hspace⟩ := sep_before hbefore
    exact ⟨.skip (start + 1), by simp [hc, hspace], hbefore⟩
  · obtain ⟨c, hc, hspace⟩ := word_starts h
    rw [← heq] at hc
    refine ⟨.back start s.length, by simp [hc, hspace], heq, by omega, Nat.le_refl _, ?_⟩
    intro i hle hlt'
    omega

theorem scanStep_back (h : ∃ c ∈ s, isspace c = false) {start fin : ℕ}
    (hi : (Scan.back start fin).Inv s) : ∃ x, scanStep s (.back start fin) = some x ∧ x.Inv s := by
  obtain ⟨hstart, hlt, hle, hspaces⟩ := hi
  obtain ⟨e, rfl⟩ := Nat.exists_eq_add_of_lt (Nat.zero_lt_of_lt hlt)
  rw [Nat.zero_add] at hlt hle hspaces ⊢
  rw [scanStep, decrement, Option.bind_some]
  by_cases he : e = start
  · -- Here the second loop has come down to where the first one stopped.
    rw [if_pos he]
    obtain ⟨c, hc, hspace⟩ := word_starts h
    rw [← hstart, ← he] at hc
    exact ⟨_, rfl, hstart, by omega, by omega, by simp [hc, hspace], hspaces⟩
  · rw [if_neg he, List.getElem?_eq_getElem (by omega), Option.map_some]
    have hget := List.getElem?_eq_getElem (l := s) (i := e) (by omega)
    by_cases hspace : isspace s[e] = true
    · rw [if_pos hspace]
      refine ⟨_, rfl, hstart, by omega, by omega, fun i hi hil => ?_⟩
      rcases Nat.lt_or_eq_of_le hi with hi | rfl
      · exact hspaces i hi hil
      · rw [hget]
        exact hspace
    · rw [if_neg hspace]
      refine ⟨_, rfl, hstart, by omega, by omega, ?_, hspaces⟩
      rw [hget]
      exact Bool.eq_false_iff.mpr hspace

theorem scan_step (h : ∃ c ∈ s, isspace c = false) (x : Scan) (hx : x.Inv s) :
    ∃ y, scanStep s x = some y ∧ y.Inv s := by
  cases x with
  | skip start => exact scanStep_skip h hx
  | back start fin => exact scanStep_back h hx
  | done start fin => exact ⟨_, rfl, hx⟩

end Invariant

section Strip
variable {s : Bytes}

theorem slice_eq_strip {start fin : ℕ} (h : (Scan.done start fin).Inv s) :
    slice s start (fin + 1) = strip s := by
  obtain ⟨hstart, hle, hlt, hlast, hspaces⟩ := h
  have hrest : ∀ c ∈ (s.drop start).drop (fin + 1 - start), isspace c = true := by
    intro c hc
    obtain ⟨i, hi, rfl⟩ := List.mem_iff_getElem.mp hc
    simp only [List.length_drop] at hi
    have hany := hspaces (fin + 1 + i) (by omega) (by omega)
    rw [List.getElem?_eq_getElem (by omega)] at hany
    have hs : isspace s[fin + 1 + i] = true := hany
    have hidx : start + (fin + 1 - start + i) = fin + 1 + i := by omega
    simpa only [List.getElem_drop, hidx] using hs
  have hend : ∀ hne : slice s start (fin + 1) ≠ [],
      ¬ isspace ((slice s start (fin + 1)).getLast hne) = true := by
    intro hne
    have hlen : (slice s start (fin + 1)).length = fin + 1 - start := by
      rw [slice, List.length_take, List.length_drop]
      omega
    have hidx : start + (fin + 1 - start - 1) = fin := by omega
    have hget : (slice s start (fin + 1))[fin + 1 - start - 1]? = s[fin]? := by
      rw [slice, List.getElem?_take_of_lt (by omega), List.getElem?_drop, hidx]
    rw [← hget, ← hlen, ← List.getLast?_eq_getElem?,
      List.getLast?_eq_getLast_of_ne_nil hne] at hlast
    exact Bool.eq_false_iff.mp hlast
  calc
    slice s start (fin + 1) = (slice s start (fin + 1)).rdropWhile isspace :=
      (List.rdropWhile_eq_self_iff.mpr hend).symm
    _ = (slice s start (fin + 1) ++ (s.drop start).drop (fin + 1 - start)).rdropWhile isspace :=
      (rdropWhile_append_spaces _ hrest).symm
    _ = (s.drop start).rdropWhile isspace := by rw [slice, List.take_append_drop]
    _ = strip s := by rw [hstart, drop_takeWhile_length, strip]

end Strip

section Simulation
variable {s : Bytes}

theorem reaches_back {start : ℕ} (hle : start ≤ (s.takeWhile isspace).length) :
    Reaches (scanStep s) (.skip start) (.back (s.takeWhile isspace).length s.length) := by
  induction hd : (s.takeWhile isspace).length - start generalizing start with
  | zero =>
    obtain rfl : start = (s.takeWhile isspace).length := by omega
    apply Reaches.head _ Relation.ReflTransGen.refl
    rw [scanStep]
    split_ifs with hend
    · rfl
    · have hsome : ∃ c ∈ s, isspace c = false := by
        by_contra hn
        exact hend (congrArg List.length (List.takeWhile_eq_self_iff.mpr (blank_of_not hn)))
      obtain ⟨c, hc, hspace⟩ := word_starts hsome
      simp [hc, hspace]
  | succ d ih =>
    have hlt : start < (s.takeWhile isspace).length := by omega
    obtain ⟨c, hc, hspace⟩ := sep_before hlt
    have hlen := (List.takeWhile_prefix isspace (l := s)).length_le
    refine Reaches.head ?_ (ih hlt (by omega))
    rw [scanStep, if_neg (by omega), hc]
    simp [hspace]

theorem reaches_of_trimEnd (start : ℕ) {n : ℕ} (hn : n ≤ s.length) :
    match trimEnd s start n with
    | some e => Reaches (scanStep s) (.back start n) (.done start e)
    | none => ∃ x, Reaches (scanStep s) (.back start n) x ∧ scanStep s x = none := by
  induction n with
  | zero => exact ⟨.back start 0, Relation.ReflTransGen.refl, rfl⟩
  | succ n ih =>
    have hget := List.getElem?_eq_getElem (l := s) (i := n) (by omega)
    rw [trimEnd]
    split_ifs with hspace
    · have hstep : scanStep s (.back start (n + 1)) = some (.back start n) := by
        have hs := hspace.2
        rw [hget] at hs
        rw [scanStep, decrement, Option.bind_some, if_neg hspace.1, hget, Option.map_some]
        exact congrArg some (if_pos hs)
      have hloop := ih (by omega)
      split at hloop
      · exact hloop.head hstep
      · obtain ⟨x, hx, hstuck⟩ := hloop
        exact ⟨x, hx.head hstep, hstuck⟩
    · apply Reaches.head _ Relation.ReflTransGen.refl
      rw [scanStep, decrement, Option.bind_some]
      split_ifs with he
      · rfl
      · have hs : ¬ s[n]?.any isspace = true := fun hs => hspace ⟨he, hs⟩
        rw [hget] at hs ⊢
        exact congrArg some (if_neg hs)

theorem reaches_of_trim {t : Bytes} (h : trim s = some t) :
    ∃ start fin, Reaches (scanStep s) (.skip 0) (.done start fin) ∧
      t = slice s start (fin + 1) := by
  obtain ⟨e, he, rfl⟩ := Option.map_eq_some_iff.mp h
  have hloop := reaches_of_trimEnd (s.takeWhile isspace).length (Nat.le_refl s.length)
  rw [he] at hloop
  exact ⟨_, e, Relation.ReflTransGen.trans (reaches_back (Nat.zero_le _)) hloop, rfl⟩

theorem stuck_of_trim (h : trim s = none) :
    ∃ x, Reaches (scanStep s) (.skip 0) x ∧ scanStep s x = none := by
  have hloop := reaches_of_trimEnd (s.takeWhile isspace).length (Nat.le_refl s.length)
  rw [Option.map_eq_none_iff.mp h] at hloop
  obtain ⟨x, hx, hstuck⟩ := hloop
  exact ⟨x, Relation.ReflTransGen.trans (reaches_back (Nat.zero_le _)) hx, hstuck⟩

structure TrimCorrect (s : Bytes) : Prop where
  safe : Safe (scanStep s) (.skip 0)
  returns : ∃ start fin, Reaches (scanStep s) (.skip 0) (.done start fin) ∧
    start ≤ fin + 1 ∧ fin + 1 ≤ s.length ∧ slice s start (fin + 1) = strip s
  agrees : trim s = some (strip s)

theorem trimCorrect_of_nonspace (h : ∃ c ∈ s, isspace c = false) : TrimCorrect s := by
  have hstart : (Scan.skip 0).Inv s := Nat.zero_le _
  obtain ⟨pre, t, post, -, -, -, ht⟩ := trim_of_nonspace h
  obtain ⟨start, fin, hreach, rfl⟩ := reaches_of_trim ht
  have hdone := invariant_of_reaches (scan_step h) hstart hreach
  have hslice := slice_eq_strip hdone
  obtain ⟨-, hle, hlt, -⟩ := id hdone
  exact ⟨safe_of_invariant (scan_step h) hstart, ⟨start, fin, hreach, by omega, hlt, hslice⟩,
    hslice ▸ ht⟩

/-- The loops stay inside the string exactly when there is something on it to keep: on a
blank string the second loop starts where the first one stopped and runs past the beginning. -/
theorem trim_correct_iff : TrimCorrect s ↔ ∃ c ∈ s, isspace c = false := by
  constructor
  · intro h
    by_contra hn
    obtain ⟨x, hx, hstuck⟩ := stuck_of_trim (trim_of_blank (blank_of_not hn))
    have hsafe := h.safe x hx
    rw [hstuck] at hsafe
    cases hsafe
  · exact trimCorrect_of_nonspace

theorem trim_leaves_empty_string :
    Reaches (scanStep []) (.skip 0) (.back 0 0) ∧ scanStep [] (.back 0 0) = none ∧
      ¬ TrimCorrect [] := by
  have hreach : Reaches (scanStep []) (.skip 0) (.back 0 0) :=
    Reaches.head rfl Relation.ReflTransGen.refl
  refine ⟨hreach, rfl, fun h => ?_⟩
  have hsafe := h.safe _ hreach
  cases hsafe

end Simulation

end OverlaySaver
