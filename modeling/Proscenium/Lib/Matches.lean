import Mathlib

/-! Matches of patterns in a list: the search that goes on behind each match, the
choice of matches that do not overlap, and the list cut into these and the gaps
between them. -/

namespace Matches

variable {α μ : Type*}

/-- All matches from the position `i` on, as positions; `pattern` says how much it takes at the head
of a list, and `skip` is what is left of the last match. -/
def findAll (pattern : List α → Option ℕ) : ℕ → ℕ → List α → List (ℕ × ℕ)
  | _, _, [] => []
  | skip + 1, i, _ :: t => findAll pattern skip (i + 1) t
  | 0, i, c :: t =>
    match pattern (c :: t) with
    | some n => (i, i + n) :: findAll pattern (n - 1) (i + 1) t
    | none => findAll pattern 0 (i + 1) t

def slice (t : List α) (i j : ℕ) : List α := (t.drop i).take (j - i)

theorem pattern_of_mem_findAll {pattern : List α → Option ℕ} {t : List α} {r : ℕ × ℕ} {skip i : ℕ}
    (hr : r ∈ findAll pattern skip i (t.drop i)) :
    ∃ n, pattern (t.drop r.1) = some n ∧ r.2 = r.1 + n := by
  generalize hrest : t.drop i = rest at hr
  induction rest generalizing skip i with
  | nil => cases hr
  | cons c rest ih =>
    have hnext : t.drop (i + 1) = rest := by
      rw [← List.drop_drop, hrest]
      rfl
    cases skip with
    | succ skip => exact ih hnext hr
    | zero =>
      unfold findAll at hr
      split at hr
      next n hn =>
        rcases List.mem_cons.mp hr with rfl | hr
        · exact ⟨n, hrest ▸ hn, rfl⟩
        · exact ih hnext hr
      next => exact ih hnext hr

section Choice

variable (start stop : μ → ℕ)

def select : ℕ → List μ → List μ
  | _, [] => []
  | last, x :: xs => if last ≤ start x then x :: select (stop x) xs else select last xs

/-- One behind the other, from the position `last` on. -/
def InOrder : ℕ → List μ → Prop
  | _, [] => True
  | last, x :: xs => last ≤ start x ∧ start x ≤ stop x ∧ InOrder (stop x) xs

def weave (t : List α) : ℕ → List μ → List (List α ⊕ μ)
  | last, [] => if last < t.length then [.inl (t.drop last)] else []
  | last, x :: xs =>
    (if last < start x then [.inl (slice t last (start x))] else []) ++ .inr x :: weave t (stop x) xs

variable {start stop}

theorem mem_of_mem_select {last : ℕ} {xs : List μ} {x : μ} (h : x ∈ select start stop last xs) : x ∈ xs := by
  induction xs generalizing last with
  | nil => cases h
  | cons y xs ih =>
    unfold select at h
    split at h
    · rcases List.mem_cons.mp h with rfl | h
      · exact List.mem_cons_self
      · exact List.mem_cons_of_mem y (ih h)
    · exact List.mem_cons_of_mem y (ih h)

theorem select_covers (last : ℕ) {xs : List μ} (hsorted : xs.Pairwise fun x y => start x ≤ start y) {x : μ}
    (hx : x ∈ xs) : x ∈ select start stop last xs ∨ start x < last ∨
      ∃ y ∈ select start stop last xs, start y ≤ start x ∧ start x < stop y := by
  induction xs generalizing last with
  | nil => exact absurd hx List.not_mem_nil
  | cons y xs ih =>
    obtain ⟨hfirst, hrest⟩ := List.pairwise_cons.mp hsorted
    unfold select
    split
    next hle =>
      rcases List.mem_cons.mp hx with rfl | hx
      · exact Or.inl List.mem_cons_self
      · rcases ih (stop y) hrest hx with hsel | hlt | ⟨z, hz, hbegins⟩
        · exact Or.inl (List.mem_cons_of_mem y hsel)
        · exact Or.inr (Or.inr ⟨y, List.mem_cons_self, hfirst x hx, hlt⟩)
        · exact Or.inr (Or.inr ⟨z, List.mem_cons_of_mem y hz, hbegins⟩)
    next hlt =>
      rcases List.mem_cons.mp hx with rfl | hx
      · exact Or.inr (Or.inl (Nat.lt_of_not_le hlt))
      · exact ih last hrest hx

theorem inOrder_select {xs : List μ} (h : ∀ x ∈ xs, start x ≤ stop x) (last : ℕ) :
    InOrder start stop last (select start stop last xs) := by
  induction xs generalizing last with
  | nil => trivial
  | cons x xs ih =>
    have hrest : ∀ y ∈ xs, start y ≤ stop y := fun y hy => h y (List.mem_cons_of_mem x hy)
    unfold select
    split
    next hle => exact ⟨hle, h x List.mem_cons_self, ih hrest (stop x)⟩
    next => exact ih hrest last

theorem InOrder.le_start {last : ℕ} {xs : List μ} (h : InOrder start stop last xs) :
    ∀ x ∈ xs, last ≤ start x := by
  induction xs generalizing last with
  | nil => simp
  | cons y xs ih =>
    obtain ⟨hlast, hy, hrest⟩ := h
    intro x hx
    rcases List.mem_cons.mp hx with rfl | hx
    · exact hlast
    · exact (hlast.trans hy).trans (ih hrest x hx)

theorem InOrder.pairwise {last : ℕ} {xs : List μ} (h : InOrder start stop last xs) :
    xs.Pairwise fun x y => stop x ≤ start y := by
  induction xs generalizing last with
  | nil => exact List.Pairwise.nil
  | cons x xs ih =>
    obtain ⟨-, -, hrest⟩ := h
    exact List.pairwise_cons.mpr ⟨hrest.le_start, ih hrest⟩

theorem slice_append_drop {t : List α} {i j : ℕ} (h : i ≤ j) : slice t i j ++ t.drop j = t.drop i := by
  unfold slice
  have hdrop : t.drop j = (t.drop i).drop (j - i) := by
    rw [List.drop_drop, Nat.add_sub_cancel' h]
  rw [hdrop, List.take_append_drop]

theorem flatMap_weave {t : List α} {source : μ → List α} {last : ℕ} {xs : List μ}
    (h : InOrder start stop last xs) (hsource : ∀ x ∈ xs, source x = slice t (start x) (stop x)) :
    (weave start stop t last xs).flatMap (Sum.elim id source) = t.drop last := by
  induction xs generalizing last with
  | nil =>
    unfold weave
    split
    next => exact List.append_nil _
    next hlast => exact (List.drop_eq_nil_of_le (Nat.le_of_not_lt hlast)).symm
  | cons x xs ih =>
    obtain ⟨hlast, hx, hrest⟩ := h
    have hgap : (if last < start x then [Sum.inl (slice t last (start x))] else []).flatMap
        (Sum.elim id source) = slice t last (start x) := by
      split
      next => exact List.append_nil _
      next hnone =>
        have hsub : start x - last = 0 := Nat.sub_eq_zero_of_le (Nat.le_of_not_lt hnone)
        unfold slice
        rw [hsub]
        rfl
    -- the gap before the match, the match, and the rest from where it stops
    unfold weave
    rw [List.flatMap_append, hgap, List.flatMap_cons, ih hrest fun y hy => hsource y (List.mem_cons_of_mem x hy)]
    show slice t last (start x) ++ (source x ++ t.drop (stop x)) = t.drop last
    rw [hsource x List.mem_cons_self, slice_append_drop hx, slice_append_drop hlast]

end Choice

end Matches
