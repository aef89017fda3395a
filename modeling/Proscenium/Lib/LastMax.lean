import Mathlib

/-! The last of the entries of a list with the largest key, among those that
qualify: what `max_by_key` returns on a filtered iterator. -/

namespace List

variable {α β : Type*} [LinearOrder β] {p : α → Prop} {key : α → β} {l : List α} {b : α}

/-- One step of `max_by_key`: a newcomer wins the draw. -/
def keepLast (p : α → Prop) [DecidablePred p] (key : α → β) (best : Option α) (s : α) : Option α :=
  match best with
  | none => if p s then some s else none
  | some b => if p s ∧ key b ≤ key s then some s else some b

/-- Nothing that qualifies has a larger key, and nothing behind has the same. -/
def LastMax (p : α → Prop) (key : α → β) (l : List α) (b : α) : Prop :=
  ∃ l₁ l₂, l = l₁ ++ b :: l₂ ∧ p b ∧ (∀ s ∈ l₁, p s → key s ≤ key b) ∧ ∀ s ∈ l₂, p s → key s < key b

theorem LastMax.mem (h : LastMax p key l b) : b ∈ l := by
  obtain ⟨l₁, l₂, rfl, -⟩ := h
  exact mem_append_right l₁ mem_cons_self

theorem LastMax.qualifies (h : LastMax p key l b) : p b := by
  obtain ⟨_, _, -, hb, -⟩ := h
  exact hb

theorem LastMax.le (h : LastMax p key l b) {s : α} (hs : s ∈ l) (hp : p s) : key s ≤ key b := by
  obtain ⟨l₁, l₂, rfl, -, hbefore, hafter⟩ := h
  rcases mem_append.mp hs with hs | hs
  · exact hbefore s hs hp
  · rcases mem_cons.mp hs with rfl | hs
    · exact le_refl _
    · exact (hafter s hs hp).le

theorem not_lastMax_nil : ¬ LastMax p key [] b := by
  rintro ⟨l₁, l₂, hl, -⟩
  exact append_ne_nil_of_right_ne_nil l₁ (cons_ne_nil b l₂) hl.symm

theorem lastMax_append_singleton_iff {s : α} :
    LastMax p key (l ++ [s]) b ↔ (b = s ∧ p s ∧ ∀ r ∈ l, p r → key r ≤ key s) ∨
      LastMax p key l b ∧ (p s → key s < key b) := by
  constructor
  · rintro ⟨l₁, l₂, hl, hb, hbefore, hafter⟩
    cases l₂ using List.reverseRecOn with
    | nil =>
      obtain ⟨rfl, hs⟩ := append_inj' hl rfl
      obtain rfl : s = b := (cons.inj hs).1
      exact Or.inl ⟨rfl, hb, hbefore⟩
    | append_singleton l₂ r =>
      have hcut : l ++ [s] = (l₁ ++ b :: l₂) ++ [r] := by
        rw [hl]
        simp
      obtain ⟨rfl, hs⟩ := append_inj' hcut rfl
      obtain rfl : s = r := (cons.inj hs).1
      refine Or.inr ⟨⟨l₁, l₂, rfl, hb, hbefore, fun q hq => ?_⟩, ?_⟩
      · exact hafter q (mem_append_left _ hq)
      · exact hafter s (mem_append_right _ mem_cons_self)
  · rintro (⟨rfl, hb, hbefore⟩ | ⟨⟨l₁, l₂, rfl, hb, hbefore, hafter⟩, hs⟩)
    · exact ⟨l, [], rfl, hb, hbefore, fun _ hq => absurd hq not_mem_nil⟩
    · refine ⟨l₁, l₂ ++ [s], by simp, hb, hbefore, fun q hq => ?_⟩
      rcases mem_append.mp hq with hq | hq
      · exact hafter q hq
      · rw [mem_singleton.mp hq]
        exact hs

section Scan

variable [DecidablePred p]

theorem foldl_keepLast_append_singleton (s : α) :
    (l ++ [s]).foldl (keepLast p key) none = keepLast p key (l.foldl (keepLast p key) none) s := by
  rw [foldl_append, foldl_cons, foldl_nil]

theorem foldl_keepLast_eq_none_iff : l.foldl (keepLast p key) none = none ↔ ∀ s ∈ l, ¬ p s := by
  induction l using List.reverseRecOn with
  | nil => simp
  | append_singleton l s ih =>
    rw [foldl_keepLast_append_singleton]
    have hall : (∀ r ∈ l ++ [s], ¬ p r) ↔ (∀ r ∈ l, ¬ p r) ∧ ¬ p s := by
      simp [or_imp, forall_and]
    rw [hall, ← ih]
    cases l.foldl (keepLast p key) none with
    | none => simp [keepLast]
    | some c =>
      simp only [keepLast, reduceCtorEq, false_and, iff_false]
      split <;> simp

theorem foldl_keepLast_eq_some_iff : l.foldl (keepLast p key) none = some b ↔ LastMax p key l b := by
  induction l using List.reverseRecOn generalizing b with
  | nil => exact iff_of_false (Option.some_ne_none b).symm not_lastMax_nil
  | append_singleton l s ih =>
    rw [foldl_keepLast_append_singleton, lastMax_append_singleton_iff]
    cases hbest : l.foldl (keepLast p key) none with
    | none =>
      -- nobody before qualifies
      have hnone : ∀ r ∈ l, ¬ p r := foldl_keepLast_eq_none_iff.mp hbest
      have hno : ¬ LastMax p key l b := fun h => hnone b h.mem h.qualifies
      have hvacuous : ∀ r ∈ l, p r → key r ≤ key s := fun r hr hp => absurd hp (hnone r hr)
      by_cases hs : p s
      · simp [keepLast, hs, hno, eq_comm]
        exact fun _ => hvacuous
      · simp [keepLast, hs, hno]
    | some c =>
      have hc : LastMax p key l c := ih.mp hbest
      by_cases hwins : p s ∧ key c ≤ key s
      · have hall : ∀ r ∈ l, p r → key r ≤ key s := fun r hr hp => (hc.le hr hp).trans hwins.2
        have hloses : LastMax p key l b → ¬ key s < key b := fun h =>
          not_lt.mpr ((hc.le h.mem h.qualifies).trans hwins.2)
        rw [keepLast, if_pos hwins]
        constructor
        · intro h
          exact Or.inl ⟨(Option.some.inj h).symm, hwins.1, hall⟩
        · rintro (⟨rfl, -⟩ | ⟨h, hlt⟩)
          · rfl
          · exact absurd (hlt hwins.1) (hloses h)
      · rw [keepLast, if_neg hwins, ← hbest, ih]
        constructor
        · intro h
          obtain rfl : c = b := Option.some.inj (hbest.symm.trans (ih.mpr h))
          exact Or.inr ⟨h, fun hs => lt_of_not_ge fun hle => hwins ⟨hs, hle⟩⟩
        · rintro (⟨rfl, hs, hall⟩ | ⟨h, -⟩)
          · exact absurd ⟨hs, hall c hc.mem hc.qualifies⟩ hwins
          · exact h

end Scan

theorem lastMax_congr {γ : Type*} [LinearOrder γ] {q : α → Prop} {key' : α → γ} (hp : ∀ s ∈ l, p s ↔ q s)
    (hle : ∀ r ∈ l, ∀ s ∈ l, p r → p s → (key r ≤ key s ↔ key' r ≤ key' s)) :
    LastMax p key l b ↔ LastMax q key' l b := by
  constructor
  · rintro ⟨l₁, l₂, rfl, hb, hbefore, hafter⟩
    have hmem : b ∈ l₁ ++ b :: l₂ := mem_append_right l₁ mem_cons_self
    refine ⟨l₁, l₂, rfl, (hp b hmem).mp hb, fun s hs hq => ?_, fun s hs hq => ?_⟩
    · have hs' : s ∈ l₁ ++ b :: l₂ := mem_append_left _ hs
      have hps := (hp s hs').mpr hq
      exact (hle s hs' b hmem hps hb).mp (hbefore s hs hps)
    · have hs' : s ∈ l₁ ++ b :: l₂ := mem_append_right _ (mem_cons_of_mem b hs)
      have hps := (hp s hs').mpr hq
      have hlt := hafter s hs hps
      exact lt_of_not_ge fun hge => not_lt.mpr ((hle b hmem s hs' hb hps).mpr hge) hlt
  · rintro ⟨l₁, l₂, rfl, hb, hbefore, hafter⟩
    have hmem : b ∈ l₁ ++ b :: l₂ := mem_append_right l₁ mem_cons_self
    have hpb := (hp b hmem).mpr hb
    refine ⟨l₁, l₂, rfl, hpb, fun s hs hps => ?_, fun s hs hps => ?_⟩
    · have hs' : s ∈ l₁ ++ b :: l₂ := mem_append_left _ hs
      exact (hle s hs' b hmem hps hpb).mpr (hbefore s hs ((hp s hs').mp hps))
    · have hs' : s ∈ l₁ ++ b :: l₂ := mem_append_right _ (mem_cons_of_mem b hs)
      have hlt := hafter s hs ((hp s hs').mp hps)
      exact lt_of_not_ge fun hge => not_lt.mpr ((hle b hmem s hs' hpb hps).mp hge) hlt

theorem lastMax_map_iff {γ : Type*} {f : γ → α} {l : List γ} :
    LastMax p key (l.map f) b ↔ ∃ s, LastMax (fun s => p (f s)) (fun s => key (f s)) l s ∧ f s = b := by
  constructor
  · rintro ⟨l₁, l₂, hl, hb, hbefore, hafter⟩
    obtain ⟨k₁, k₂, rfl, rfl, hk₂⟩ := map_eq_append_iff.mp hl
    obtain ⟨s, k₂, rfl, rfl, rfl⟩ := map_eq_cons_iff.mp hk₂
    refine ⟨s, ⟨k₁, k₂, rfl, hb, fun r hr => ?_, fun r hr => ?_⟩, rfl⟩
    · exact hbefore (f r) (mem_map_of_mem hr)
    · exact hafter (f r) (mem_map_of_mem hr)
  · rintro ⟨s, ⟨l₁, l₂, rfl, hb, hbefore, hafter⟩, rfl⟩
    refine ⟨l₁.map f, l₂.map f, by simp, hb, fun r hr => ?_, fun r hr => ?_⟩
    · obtain ⟨q, hq, rfl⟩ := mem_map.mp hr
      exact hbefore q hq
    · obtain ⟨q, hq, rfl⟩ := mem_map.mp hr
      exact hafter q hq

end List
