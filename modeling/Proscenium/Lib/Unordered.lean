import Proscenium.Lib.Table

/-! Inserts and removals that arrive in any order, some more than once. A row is
inserted unless one that is there clashes with it, and a removal is forgotten
once it was made, so what is left depends on the order unless no row that can be
inserted is ever removed or in the way of another one. -/

namespace Unordered

variable {α κ μ : Type*}

inductive Change (α κ : Type*) where
  | insert (a : α)
  | remove (k : κ)

variable (clash : α → α → Bool) (idOf : α → κ) (effect : μ → Option (Change α κ))

def apply [DecidableEq κ] (t : List α) (m : μ) : List α :=
  match effect m with
  | none => t
  | some (.insert a) => Table.insertOrIgnore (clash a) a t
  | some (.remove k) => t.filter fun a => idOf a ≠ k

def process [DecidableEq κ] (order : List μ) (t : List α) : List α := order.foldl (apply clash idOf effect) t

/-- Each message of the set is received, at least once. -/
def Covers (M order : List μ) : Prop := ∀ m, m ∈ order ↔ m ∈ M

def Inserted (M : List μ) (a : α) : Prop := ∃ m ∈ M, effect m = some (.insert a)

def Removed (M : List μ) (k : κ) : Prop := ∃ m ∈ M, effect m = some (.remove k)

/-- A row that is inserted, and that nothing is in the way of that stays. -/
def Free (M : List μ) (t : List α) (a : α) : Prop :=
  Inserted effect M a ∧ ∀ b ∈ t, ¬ Removed effect M (idOf b) → clash a b = false

/-- No free row is removed, or clashes with another free row, or with one that is removed. -/
structure Independent (M : List μ) (t : List α) : Prop where
  kept : ∀ a, Free clash idOf effect M t a → ¬ Removed effect M (idOf a)
  apart : ∀ a b, Free clash idOf effect M t a → Free clash idOf effect M t b → clash a b = true → a = b
  unblocked : ∀ a, Free clash idOf effect M t a → ∀ b ∈ t, Removed effect M (idOf b) → clash a b = false

variable {clash idOf effect} {M order order' : List μ} {t : List α} {a b : α} {m : μ}

theorem process_append [DecidableEq κ] : process clash idOf effect (order ++ order') t =
    process clash idOf effect order' (process clash idOf effect order t) :=
  List.foldl_append

section Steps

variable [DecidableEq κ]

theorem apply_insert (h : effect m = some (.insert a)) :
    apply clash idOf effect t m = Table.insertOrIgnore (clash a) a t := by
  unfold apply
  rw [h]

theorem apply_remove {k : κ} (h : effect m = some (.remove k)) :
    apply clash idOf effect t m = t.filter fun a => idOf a ≠ k := by
  unfold apply
  rw [h]

theorem mem_apply (h : b ∈ apply clash idOf effect t m) : b ∈ t ∨ effect m = some (.insert b) := by
  unfold apply at h
  split at h
  · exact Or.inl h
  next a ha =>
    rcases Table.mem_of_mem_insertOrIgnore h with h | rfl
    · exact Or.inl h
    · exact Or.inr ha
  · exact Or.inl (List.mem_filter.mp h).1

theorem mem_process_of_mem (hb : b ∈ t) (hkept : ¬ Removed effect order (idOf b)) :
    b ∈ process clash idOf effect order t := by
  induction order generalizing t with
  | nil => exact hb
  | cons m order ih =>
    have hrest : ¬ Removed effect order (idOf b) := by
      rintro ⟨m', hm', hrem⟩
      exact hkept ⟨m', List.mem_cons_of_mem m hm', hrem⟩
    refine ih ?_ hrest
    unfold apply
    split
    · exact hb
    · exact Table.mem_insertOrIgnore_of_mem hb
    next k hk =>
      have hne : idOf b ≠ k := by
        rintro rfl
        exact hkept ⟨m, List.mem_cons_self, hk⟩
      exact List.mem_filter.mpr ⟨hb, by simpa using hne⟩

theorem not_mem_process_of_clash (hb : b ∈ t) (hkept : ¬ Removed effect order (idOf b))
    (hclash : clash a b = true) (ha : a ∉ t) : a ∉ process clash idOf effect order t := by
  induction order generalizing t with
  | nil => exact ha
  | cons m order ih =>
    have hrest : ¬ Removed effect order (idOf b) := by
      rintro ⟨m', hm', hrem⟩
      exact hkept ⟨m', List.mem_cons_of_mem m hm', hrem⟩
    have hfirst : ¬ Removed effect [m] (idOf b) := by
      rintro ⟨m', hm', hrem⟩
      exact hkept ⟨m', List.mem_singleton.mp hm' ▸ List.mem_cons_self, hrem⟩
    refine ih (mem_process_of_mem hb hfirst) hrest fun hmem => ?_
    rcases mem_apply hmem with hmem | hins
    · exact ha hmem
    · rw [apply_insert hins] at hmem
      unfold Table.insertOrIgnore at hmem
      rw [if_pos (List.any_eq_true.mpr ⟨b, hb, hclash⟩)] at hmem
      exact ha hmem

end Steps

section Orders

variable (effect)

def isRemoval (m : μ) : Bool :=
  match effect m with
  | some (.remove _) => true
  | _ => false

def removalsFirst (M : List μ) (m : μ) : List μ :=
  M.filter (isRemoval effect) ++ m :: M.filter fun m => !isRemoval effect m

def removalsLast (M : List μ) : List μ :=
  M.filter (fun m => !isRemoval effect m) ++ M.filter (isRemoval effect)

variable {effect}

theorem isRemoval_of_remove {k : κ} (h : effect m = some (.remove k)) : isRemoval effect m = true := by
  unfold isRemoval
  rw [h]

theorem covers_removalsFirst (hm : m ∈ M) : Covers M (removalsFirst effect M m) := by
  intro m'
  unfold removalsFirst
  rw [List.mem_append, List.mem_cons, List.mem_filter, List.mem_filter]
  constructor
  · rintro (h | rfl | h)
    · exact h.1
    · exact hm
    · exact h.1
  · intro h
    cases hrem : isRemoval effect m' with
    | true => exact Or.inl ⟨h, rfl⟩
    | false => exact Or.inr (Or.inr ⟨h, rfl⟩)

theorem covers_removalsLast : Covers M (removalsLast effect M) := by
  intro m'
  unfold removalsLast
  rw [List.mem_append, List.mem_filter, List.mem_filter]
  constructor
  · rintro (h | h)
    · exact h.1
    · exact h.1
  · intro h
    cases hrem : isRemoval effect m' with
    | true => exact Or.inr ⟨h, rfl⟩
    | false => exact Or.inl ⟨h, rfl⟩

theorem not_removed_others (k : κ) :
    ¬ Removed effect (M.filter fun m => !isRemoval effect m) k := by
  rintro ⟨m, hm, hrem⟩
  have hnot := (List.mem_filter.mp hm).2
  rw [isRemoval_of_remove hrem] at hnot
  exact nomatch hnot

theorem removed_cons {k : κ} :
    Removed effect (m :: M) k ↔ effect m = some (.remove k) ∨ Removed effect M k := by
  unfold Removed
  rw [List.exists_mem_cons_iff]

theorem Free.not_kept (hfree : Free clash idOf effect M t a) (hrefl : ∀ a, clash a a = true)
    (ha : a ∈ t) : Removed effect M (idOf a) := by
  by_contra hkept
  exact absurd (hrefl a) (by simp [hfree.2 a ha hkept])

variable [DecidableEq κ]

theorem mem_process_removals : b ∈ process clash idOf effect (M.filter (isRemoval effect)) t ↔
    b ∈ t ∧ ¬ Removed effect M (idOf b) := by
  induction M generalizing t with
  | nil =>
    refine (and_iff_left ?_).symm
    rintro ⟨m, hm, -⟩
    exact nomatch hm
  | cons m M ih =>
    rw [removed_cons]
    cases hrem : isRemoval effect m with
    | false =>
      have hnot : ∀ k, effect m ≠ some (.remove k) := by
        intro k hk
        rw [isRemoval_of_remove hk] at hrem
        exact nomatch hrem
      rw [List.filter_cons_of_neg (by simp [hrem]), ih, or_iff_right (hnot _)]
    | true =>
      obtain ⟨k, hk⟩ : ∃ k, effect m = some (.remove k) := by
        unfold isRemoval at hrem
        split at hrem
        next k hk => exact ⟨k, hk⟩
        next => exact nomatch hrem
      rw [List.filter_cons_of_pos hrem]
      show b ∈ process clash idOf effect _ (apply clash idOf effect t m) ↔ _
      have hkey : some (Change.remove k : Change α κ) = some (.remove (idOf b)) ↔ ¬ idOf b ≠ k := by
        rw [not_not]
        exact ⟨fun h => (Change.remove.inj (Option.some.inj h)).symm, fun h => by rw [h]⟩
      rw [ih, apply_remove hk, List.mem_filter, hk, and_assoc, not_or, hkey, not_not,
        decide_eq_true_eq]

theorem mem_removalsFirst (hfree : Free clash idOf effect M t a) (hm : effect m = some (.insert a)) :
    a ∈ process clash idOf effect (removalsFirst effect M m) t := by
  have hnone : ¬ (process clash idOf effect (M.filter (isRemoval effect)) t).any (clash a) = true := by
    rw [List.any_eq_true]
    rintro ⟨b, hb, hclash⟩
    obtain ⟨hb, hkept⟩ := mem_process_removals.mp hb
    exact absurd hclash (by simp [hfree.2 b hb hkept])
  unfold removalsFirst
  rw [process_append]
  show a ∈ process clash idOf effect _ (apply clash idOf effect _ m)
  refine mem_process_of_mem ?_ (not_removed_others _)
  rw [apply_insert hm]
  unfold Table.insertOrIgnore
  rw [if_neg hnone]
  exact List.mem_append_right _ (List.mem_singleton.mpr rfl)

theorem independent_of_order_independent (hrefl : ∀ a, clash a a = true)
    (h : ∀ order order', Covers M order → Covers M order' →
      ∀ a, a ∈ process clash idOf effect order t ↔ a ∈ process clash idOf effect order' t) :
    Independent clash idOf effect M t := by
  have hlast : ∀ a, Free clash idOf effect M t a →
      a ∈ process clash idOf effect (removalsLast effect M) t := by
    intro a hfree
    obtain ⟨m, hm, hins⟩ := hfree.1
    exact (h _ _ (covers_removalsFirst hm) covers_removalsLast a).mp (mem_removalsFirst hfree hins)
  have hkept : ∀ a, Free clash idOf effect M t a → ¬ Removed effect M (idOf a) := by
    intro a hfree
    have hmem := hlast a hfree
    unfold removalsLast at hmem
    rw [process_append] at hmem
    exact (mem_process_removals.mp hmem).2
  refine ⟨hkept, ?_, ?_⟩
  · intro a b ha hb hclash
    by_contra hne
    obtain ⟨m, hm, hins⟩ := hb.1
    -- with `b` inserted first, `a` finds it in its way
    have hmem : a ∈ process clash idOf effect (removalsFirst effect M m) t :=
      (h _ _ covers_removalsLast (covers_removalsFirst hm) a).mp (hlast a ha)
    unfold removalsFirst at hmem
    rw [process_append] at hmem
    have hnot : a ∉ process clash idOf effect (M.filter (isRemoval effect)) t := by
      intro ha'
      have hstays := mem_process_removals.mp ha'
      exact hkept a ha (ha.not_kept hrefl hstays.1)
    have hnot' : a ∉ apply clash idOf effect (process clash idOf effect (M.filter (isRemoval effect)) t) m := by
      intro ha'
      rcases mem_apply ha' with ha' | hins'
      · exact hnot ha'
      · exact hne (Change.insert.inj (Option.some.inj (hins'.symm.trans hins)))
    have hfirst : b ∈ apply clash idOf effect (process clash idOf effect (M.filter (isRemoval effect)) t) m := by
      have hnone : ¬ (process clash idOf effect (M.filter (isRemoval effect)) t).any (clash b) = true := by
        rw [List.any_eq_true]
        rintro ⟨c, hc, hclash⟩
        obtain ⟨hc, hstays⟩ := mem_process_removals.mp hc
        exact absurd hclash (by simp [hb.2 c hc hstays])
      rw [apply_insert hins]
      unfold Table.insertOrIgnore
      rw [if_neg hnone]
      exact List.mem_append_right _ (List.mem_singleton.mpr rfl)
    exact not_mem_process_of_clash hfirst (not_removed_others _) hclash hnot' hmem
  · intro a ha b hb hrem
    by_contra hclash
    have hclash : clash a b = true := by simpa using hclash
    have hnot : a ∉ t := fun ha' => hkept a ha (ha.not_kept hrefl ha')
    have hmem := hlast a ha
    unfold removalsLast at hmem
    rw [process_append] at hmem
    exact not_mem_process_of_clash hb (not_removed_others _) hclash hnot
      (mem_process_removals.mp hmem).1

end Orders

section Independence

theorem removed_append_singleton {k : κ} :
    Removed effect (order ++ [m]) k ↔ Removed effect order k ∨ effect m = some (.remove k) := by
  simp [Removed, or_and_right, exists_or]

theorem inserted_append_singleton :
    Inserted effect (order ++ [m]) a ↔ Inserted effect order a ∨ effect m = some (.insert a) := by
  simp [Inserted, or_and_right, exists_or]

variable [DecidableEq κ]

/-- What is there after a part of the messages, whatever their order. -/
theorem mem_process_iff (h : Independent clash idOf effect M t) (hsub : order ⊆ M) :
    a ∈ process clash idOf effect order t ↔
      a ∈ t ∧ ¬ Removed effect order (idOf a) ∨
        Free clash idOf effect M t a ∧ Inserted effect order a := by
  induction order using List.reverseRecOn generalizing a with
  | nil =>
    have hnone : ¬ Removed effect ([] : List μ) (idOf a) := fun ⟨m, hm, _⟩ => nomatch hm
    have hnone' : ¬ Inserted effect ([] : List μ) a := fun ⟨m, hm, _⟩ => nomatch hm
    simp [hnone, hnone', process]
  | append_singleton order m ih =>
    have hm : m ∈ M := hsub (List.mem_append_right _ (List.mem_singleton.mpr rfl))
    have hprev : order ⊆ M := fun m' hm' => hsub (List.mem_append_left _ hm')
    rw [process_append, removed_append_singleton, inserted_append_singleton]
    show a ∈ apply clash idOf effect (process clash idOf effect order t) m ↔ _
    cases heff : effect m with
    | none =>
      unfold apply
      rw [heff]
      simpa using ih hprev
    | some change =>
      cases change with
      | insert i =>
        have hmem : a ∈ apply clash idOf effect (process clash idOf effect order t) m ↔
            a ∈ process clash idOf effect order t ∨ Free clash idOf effect M t i ∧ a = i := by
          rw [apply_insert heff]
          by_cases hfree : Free clash idOf effect M t i
          · have hway : ∀ b ∈ process clash idOf effect order t, clash i b = true → i = b := by
              intro b hb hclash
              rcases (ih hprev).mp hb with ⟨hb, -⟩ | ⟨hb, -⟩
              · exfalso
                by_cases hrem : Removed effect M (idOf b)
                · exact absurd hclash (by simp [h.unblocked i hfree b hb hrem])
                · exact absurd hclash (by simp [hfree.2 b hb hrem])
              · exact h.apart i b hfree hb hclash
            rw [and_iff_right hfree]
            constructor
            · exact Table.mem_of_mem_insertOrIgnore
            · rintro (ha | rfl)
              · exact Table.mem_insertOrIgnore_of_mem ha
              · unfold Table.insertOrIgnore
                split
                next hany =>
                  obtain ⟨b, hb, hclash⟩ := List.any_eq_true.mp hany
                  exact hway b hb hclash ▸ hb
                next => exact List.mem_append_right _ (List.mem_singleton.mpr rfl)
          · -- something that stays is in the way
            obtain ⟨b, hb, hkept, hclash⟩ : ∃ b ∈ t, ¬ Removed effect M (idOf b) ∧ clash i b = true := by
              by_contra hno
              refine hfree ⟨⟨m, hm, heff⟩, fun b hb hkept => ?_⟩
              by_contra hclash
              exact hno ⟨b, hb, hkept, by simpa using hclash⟩
            have hstays : b ∈ process clash idOf effect order t :=
              mem_process_of_mem hb fun ⟨m', hm', hrem⟩ => hkept ⟨m', hprev hm', hrem⟩
            unfold Table.insertOrIgnore
            rw [if_pos (List.any_eq_true.mpr ⟨b, hstays, hclash⟩)]
            exact (or_iff_left fun hi => hfree hi.1).symm
        rw [hmem, ih hprev]
        constructor
        · rintro ((⟨ha, hkept⟩ | ⟨ha, hins⟩) | ⟨hfree, rfl⟩)
          · exact Or.inl ⟨ha, by simpa using hkept⟩
          · exact Or.inr ⟨ha, Or.inl hins⟩
          · exact Or.inr ⟨hfree, Or.inr rfl⟩
        · rintro (⟨ha, hkept⟩ | ⟨ha, hins | hins⟩)
          · exact Or.inl (Or.inl ⟨ha, fun hrem => hkept (Or.inl hrem)⟩)
          · exact Or.inl (Or.inr ⟨ha, hins⟩)
          · obtain rfl := Change.insert.inj (Option.some.inj hins)
            exact Or.inr ⟨ha, rfl⟩
      | remove k =>
        have hsome : Removed effect M k := ⟨m, hm, heff⟩
        rw [apply_remove heff, List.mem_filter, ih hprev]
        have hne : decide (idOf a ≠ k) = true ↔ ¬ k = idOf a := by
          rw [decide_eq_true_eq]
          exact ne_comm
        rw [hne]
        constructor
        · rintro ⟨⟨ha, hkept⟩ | ⟨ha, hins⟩, hk⟩
          · refine Or.inl ⟨ha, fun hrem => ?_⟩
            rcases hrem with hrem | hrem
            · exact hkept hrem
            · exact hk (Change.remove.inj (Option.some.inj hrem))
          · exact Or.inr ⟨ha, Or.inl hins⟩
        · rintro (⟨ha, hkept⟩ | ⟨ha, hins | hins⟩)
          · exact ⟨Or.inl ⟨ha, fun hrem => hkept (Or.inl hrem)⟩,
              fun hk => hkept (Or.inr (congrArg (fun k => some (Change.remove k)) hk))⟩
          · refine ⟨Or.inr ⟨ha, hins⟩, ?_⟩
            rintro rfl
            exact h.kept a ha hsome
          · exact nomatch hins

/-- Any two orders leave the same rows exactly if no row that can be inserted is removed, or in the
way of another one, or finds one in its way that is removed. -/
theorem order_independent_iff (hrefl : ∀ a, clash a a = true) :
    (∀ order order', Covers M order → Covers M order' →
      ∀ a, a ∈ process clash idOf effect order t ↔ a ∈ process clash idOf effect order' t) ↔
      Independent clash idOf effect M t := by
  constructor
  · exact independent_of_order_independent hrefl
  · intro h order order' hcov hcov' a
    have hsame : ∀ {l : List μ}, Covers M l → (a ∈ process clash idOf effect l t ↔
        a ∈ t ∧ ¬ Removed effect M (idOf a) ∨ Free clash idOf effect M t a) := by
      intro l hl
      have hremoved : Removed effect l (idOf a) ↔ Removed effect M (idOf a) :=
        exists_congr fun m => and_congr_left fun _ => hl m
      have hinserted : Free clash idOf effect M t a → Inserted effect l a :=
        fun hfree => hfree.1.imp fun m hm => ⟨(hl m).mpr hm.1, hm.2⟩
      rw [mem_process_iff h fun m hm => (hl m).mp hm, hremoved]
      exact or_congr_right (and_iff_left_of_imp hinserted)
    exact (hsame hcov).trans (hsame hcov').symm

end Independence
end Unordered
