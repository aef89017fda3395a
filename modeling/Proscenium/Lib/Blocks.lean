import Mathlib

/-! A list cut into blocks of a fixed length, and what is left over. A stream
that comes in pieces has the same blocks as the whole, if the left-over of each
piece is put before the next one. -/

namespace Blocks

variable {α : Type*}

def full (n : ℕ) (l : List α) : List (List α) :=
  (List.range (l.length / n)).map fun i => (l.drop (i * n)).take n

def rest (n : ℕ) (l : List α) : List α := l.drop (l.length / n * n)

variable {n : ℕ} {l : List α}

theorem length_full : (full n l).length = l.length / n := by
  simp [full]

theorem length_rest : (rest n l).length = l.length % n := by
  have hdiv := Nat.div_add_mod' l.length n
  rw [rest, List.length_drop]
  omega

theorem length_of_mem_full {block : List α} (h : block ∈ full n l) : block.length = n := by
  obtain ⟨i, hi, rfl⟩ := List.mem_map.mp h
  have hlast : (i + 1) * n ≤ l.length := by
    have hle : i + 1 ≤ l.length / n := List.mem_range.mp hi
    exact (Nat.mul_le_mul_right n hle).trans (Nat.div_mul_le_self l.length n)
  rw [Nat.succ_mul] at hlast
  rw [List.length_take, List.length_drop]
  omega

theorem full_of_lt (h : l.length < n) : full n l = [] := by
  simp [full, Nat.div_eq_of_lt h]

theorem rest_of_lt (h : l.length < n) : rest n l = l := by
  simp [rest, Nat.div_eq_of_lt h]

theorem length_div_drop (hn : 0 < n) (h : n ≤ l.length) : l.length / n = (l.drop n).length / n + 1 := by
  rw [List.length_drop]
  exact Nat.div_eq_sub_div hn h

theorem full_of_le (hn : 0 < n) (h : n ≤ l.length) : full n l = l.take n :: full n (l.drop n) := by
  have hshift : ∀ i, l.drop ((i + 1) * n) = (l.drop n).drop (i * n) := by
    intro i
    rw [List.drop_drop, Nat.succ_mul, Nat.add_comm n]
  unfold full
  rw [length_div_drop hn h, List.range_succ_eq_map, List.map_cons, List.map_map]
  simp [hshift]

theorem rest_of_le (hn : 0 < n) (h : n ≤ l.length) : rest n l = rest n (l.drop n) := by
  unfold rest
  rw [length_div_drop hn h, List.drop_drop, Nat.succ_mul, Nat.add_comm n]

theorem block_induction {P : List α → Prop} (hn : 0 < n) (short : ∀ l, l.length < n → P l)
    (block : ∀ l, n ≤ l.length → P (l.drop n) → P l) (l : List α) : P l := by
  induction hlen : l.length using Nat.strong_induction_on generalizing l with
  | _ len ih =>
    by_cases h : l.length < n
    · exact short l h
    · apply block l (not_lt.mp h)
      exact ih (l.drop n).length (by rw [List.length_drop]; omega) (l.drop n) rfl

theorem full_append (hn : 0 < n) (l m : List α) : full n (l ++ m) = full n l ++ full n (rest n l ++ m) := by
  induction l using block_induction hn with
  | short l h => rw [full_of_lt h, rest_of_lt h, List.nil_append]
  | block l h ih =>
    have hle : n ≤ (l ++ m).length := by
      rw [List.length_append]
      omega
    rw [full_of_le hn h, rest_of_le hn h, full_of_le hn hle, List.take_append_of_le_length h,
      List.drop_append_of_le_length h, ih, List.cons_append]

theorem rest_append (hn : 0 < n) (l m : List α) : rest n (l ++ m) = rest n (rest n l ++ m) := by
  induction l using block_induction hn with
  | short l h => rw [rest_of_lt h]
  | block l h ih =>
    have hle : n ≤ (l ++ m).length := by
      rw [List.length_append]
      omega
    rw [rest_of_le hn h, rest_of_le hn hle, List.drop_append_of_le_length h, ih]

end Blocks
