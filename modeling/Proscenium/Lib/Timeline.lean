import Mathlib

/-! Tables of rows with a time, of which one party holds a part of what another
holds. What came after the newest row of the part is what it lacks, exactly if
the counts say so; rows are read batch by batch, in the order of their times. -/

namespace Timeline

/-- The order of the integer columns of a table. -/
instance linearOrderInt64 : LinearOrder Int64 where
  le_refl := Int64.le_refl
  le_trans _ _ _ := Int64.le_trans
  le_antisymm _ _ := Int64.le_antisymm
  le_total := Int64.le_total
  lt_iff_le_not_ge a b := by
    rw [Int64.not_le]
    exact (and_iff_right_of_imp Int64.le_of_lt).symm
  toDecidableLE := inferInstance

variable {ρ T : Type*}

section Queries

variable [LinearOrder T] (time : ρ → T)

/-- `MAX`, with a value for the empty table. -/
def newest (zero : T) (t : List ρ) : T := (t.map time).maximum.unbotD zero

def after (ts : T) (t : List ρ) : List ρ := t.filter fun r => ts < time r

/-- `ORDER BY`; rows with equal times stay in the order of the table. -/
def ordered (t : List ρ) : List ρ := t.insertionSort fun a b => time a ≤ time b

variable {time}

@[simp] theorem mem_after {ts : T} {t : List ρ} {r : ρ} : r ∈ after time ts t ↔ r ∈ t ∧ ts < time r := by
  unfold after
  rw [List.mem_filter, decide_eq_true_eq]

theorem perm_ordered (t : List ρ) : (ordered time t).Perm t := List.perm_insertionSort _ t

@[simp] theorem mem_ordered {t : List ρ} {r : ρ} : r ∈ ordered time t ↔ r ∈ t :=
  (perm_ordered t).mem_iff

theorem pairwise_ordered (t : List ρ) : (ordered time t).Pairwise fun a b => time a ≤ time b := by
  have htotal : Std.Total fun a b : ρ => time a ≤ time b := ⟨fun a b => le_total (time a) (time b)⟩
  have htrans : IsTrans ρ fun a b => time a ≤ time b := ⟨fun _ _ _ => le_trans⟩
  exact List.pairwise_insertionSort _ t

theorem orderedInsert_of_le {r : ρ} {t : List ρ} (hle : ∀ x ∈ t, time r ≤ time x) :
    t.orderedInsert (fun a b => time a ≤ time b) r = r :: t := by
  cases t with
  | nil => rfl
  | cons x t => exact List.orderedInsert_cons_of_le _ t (hle x List.mem_cons_self)

theorem filter_orderedInsert (p : ρ → Bool) (r : ρ) {t : List ρ}
    (hsorted : t.Pairwise fun a b => time a ≤ time b) :
    (t.orderedInsert (fun a b => time a ≤ time b) r).filter p =
      if p r then (t.filter p).orderedInsert (fun a b => time a ≤ time b) r else t.filter p := by
  induction t with
  | nil =>
    rw [List.orderedInsert_nil]
    cases hr : p r <;> simp [hr]
  | cons x t ih =>
    obtain ⟨hx, ht⟩ := List.pairwise_cons.mp hsorted
    by_cases hle : time r ≤ time x
    · -- the row stands before all others, and before those that are left
      have hall : ∀ y ∈ (x :: t).filter p, time r ≤ time y := by
        intro y hy
        rcases List.mem_cons.mp (List.mem_of_mem_filter hy) with rfl | hmem
        · exact hle
        · exact hle.trans (hx y hmem)
      rw [List.orderedInsert_cons_of_le _ t hle, orderedInsert_of_le hall, List.filter_cons]
    · rw [List.orderedInsert_of_not_le _ t hle, List.filter_cons, ih ht, List.filter_cons]
      cases p x <;> cases p r <;> simp [hle]

theorem filter_ordered (p : ρ → Bool) (t : List ρ) : (ordered time t).filter p = ordered time (t.filter p) := by
  induction t with
  | nil => rfl
  | cons r t ih =>
    show ((ordered time t).orderedInsert _ r).filter p = _
    rw [filter_orderedInsert p r (pairwise_ordered t), ih, List.filter_cons]
    cases p r <;> rfl

theorem ordered_sublist_append (t : List ρ) (r : ρ) : (ordered time t).Sublist (ordered time (t ++ [r])) := by
  have htrans : IsTrans ρ fun a b => time a ≤ time b := ⟨fun _ _ _ => le_trans⟩
  induction t with
  | nil => exact List.nil_sublist _
  | cons x t ih => exact ih.orderedInsert_sublist x (pairwise_ordered (t ++ [r]))
theorem le_newest {zero : T} {t : List ρ} {r : ρ} (h : r ∈ t) : time r ≤ newest time zero t := by
  have hmem : time r ∈ t.map time := List.mem_map_of_mem h
  unfold newest
  cases hmax : (t.map time).maximum with
  | bot => simp [List.maximum_eq_bot.mp hmax] at hmem
  | coe m => exact List.le_of_mem_argmax hmem hmax

theorem newest_mem {zero : T} {t : List ρ} (h : t ≠ []) : ∃ r ∈ t, time r = newest time zero t := by
  unfold newest
  cases hmax : (t.map time).maximum with
  | bot => exact absurd (List.map_eq_nil_iff.mp (List.maximum_eq_bot.mp hmax)) h
  | coe m => exact List.mem_map.mp (List.maximum_mem hmax)

@[simp] theorem newest_nil (zero : T) : newest time zero [] = zero := rfl

theorem after_newest_nil {zero : T} {t : List ρ} (hpos : ∀ r ∈ t, zero < time r) :
    after time (newest time zero []) t = t := by
  unfold after
  rw [List.filter_eq_self]
  intro r hr
  exact decide_eq_true (hpos r hr)

theorem newest_eq_zero_iff {zero : T} {t : List ρ} (hpos : ∀ r ∈ t, zero < time r) :
    newest time zero t = zero ↔ t = [] := by
  constructor
  · intro h
    by_contra hne
    obtain ⟨r, hr, htime⟩ : ∃ r ∈ t, time r = newest time zero t := newest_mem hne
    exact (hpos r hr).ne' (htime.trans h)
  · rintro rfl
    rfl

end Queries

section Behind

variable [LinearOrder T] [DecidableEq ρ] {time : ρ → T} {zero : T} {C S : List ρ}

theorem length_missing (hC : C.Nodup) (hS : S.Nodup) (hsub : C ⊆ S) :
    C.length + (S.filter (· ∉ C)).length = S.length := by
  have hheld : (S.filter (· ∈ C)).Perm C := by
    apply (List.perm_ext_iff_of_nodup (hS.filter _) hC).mpr
    intro r
    rw [List.mem_filter, decide_eq_true_eq]
    exact and_iff_right_of_imp fun hr => hsub hr
  rw [← hheld.length_eq]
  simpa using (List.length_eq_length_filter_add (l := S) (· ∈ C)).symm

theorem missing_eq_nil_iff (hC : C.Nodup) (hS : S.Nodup) (hsub : C ⊆ S) :
    S.filter (· ∉ C) = [] ↔ C.length = S.length := by
  have hlen := length_missing hC hS hsub
  rw [← List.length_eq_zero_iff]
  omega

theorem after_newest_sublist : (after time (newest time zero C) S).Sublist (S.filter (· ∉ C)) := by
  refine List.monotone_filter_right S fun r hr => ?_
  have hlater := of_decide_eq_true hr
  have hnot : r ∉ C := fun hrC => (le_newest hrC).not_gt hlater
  simpa using hnot

theorem after_newest_eq_missing_iff (hC : C.Nodup) (hS : S.Nodup) (hsub : C ⊆ S) :
    after time (newest time zero C) S = S.filter (· ∉ C) ↔
      C.length + (after time (newest time zero C) S).length = S.length := by
  have hlen := length_missing hC hS hsub
  constructor
  · intro h
    rw [h, hlen]
  · intro h
    have hpart : (after time (newest time zero C) S).Sublist (S.filter (· ∉ C)) :=
      after_newest_sublist
    apply hpart.eq_of_length
    omega

end Behind

section Batches

/-- `LIMIT … OFFSET …`. -/
def page (limit offset : Nat) (t : List ρ) : List ρ := (t.drop offset).take limit

/-- Batch after batch, from `offset` on, until one is empty. -/
def batches (limit : Nat) (t : List ρ) (offset : Nat) : List (List ρ) :=
  if _h : page limit offset t = [] then []
  else page limit offset t :: batches limit t (offset + (page limit offset t).length)
termination_by t.length - offset
decreasing_by
  have hlen : 0 < (page limit offset t).length := List.length_pos_iff.mpr _h
  have hle : (page limit offset t).length ≤ t.length - offset := by
    unfold page
    simp
  omega

theorem drop_eq_nil_of_page {limit offset : Nat} (hlimit : 0 < limit) {t : List ρ}
    (h : page limit offset t = []) : t.drop offset = [] := by
  rcases List.take_eq_nil_iff.mp h with hzero | hnil
  · exact absurd hzero hlimit.ne'
  · exact hnil

theorem page_append_drop (limit offset : Nat) (t : List ρ) :
    page limit offset t ++ t.drop (offset + (page limit offset t).length) = t.drop offset := by
  rw [← List.drop_drop]
  unfold page
  rw [List.length_take, List.take_eq_take_min, List.take_append_drop]

theorem flatten_batches {limit : Nat} (hlimit : 0 < limit) (t : List ρ) (offset : Nat) :
    (batches limit t offset).flatten = t.drop offset := by
  induction offset using batches.induct limit t with
  | case1 offset h =>
    rw [batches, dif_pos h, drop_eq_nil_of_page hlimit h, List.flatten_nil]
  | case2 offset h ih => rw [batches, dif_neg h, List.flatten_cons, ih, page_append_drop]

@[simp] theorem batches_nil (limit : Nat) : batches limit ([] : List ρ) 0 = [] := by
  rw [batches, dif_pos]
  simp [page]

theorem batches_of_length_le {limit : Nat} {t : List ρ} (hne : t ≠ []) (hle : t.length ≤ limit) :
    batches limit t 0 = [t] := by
  have hfirst : page limit 0 t = t := by
    unfold page
    rw [List.drop_zero, List.take_of_length_le hle]
  have hsecond : page limit (0 + t.length) t = [] := by
    simp [page]
  rw [batches, dif_neg (by rwa [hfirst]), hfirst, batches, dif_pos hsecond]

end Batches
end Timeline
