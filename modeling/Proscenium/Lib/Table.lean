import Mathlib

/-! Database tables as lists of rows with a primary key. The statements are the
ones a store runs: a lookup by key, `INSERT … ON CONFLICT DO UPDATE`, `INSERT OR
IGNORE`, `UPDATE … WHERE` and `DELETE … WHERE`; each has a lemma for what a lookup sees after it. -/

namespace Table

variable {κ ρ : Type*} [DecidableEq κ] (key : ρ → κ)

def find (k : κ) (t : List ρ) : Option ρ := t.find? fun r => key r = k

/-- Update the row with key `k`, or insert `new`. -/
def upsert (k : κ) (new : ρ) (f : ρ → ρ) (t : List ρ) : List ρ :=
  if t.any (fun r => key r = k) then t.map fun r => if key r = k then f r else r else t ++ [new]

def updateWhere (p : ρ → Bool) (f : ρ → ρ) (t : List ρ) : List ρ :=
  t.map fun r => if p r then f r else r

def deleteWhere (p : ρ → Bool) (t : List ρ) : List ρ := t.filter fun r => !p r

/-- `INSERT OR IGNORE`: nothing happens if some row clashes with the new one. -/
def insertOrIgnore (clash : ρ → Bool) (new : ρ) (t : List ρ) : List ρ :=
  if t.any clash then t else t ++ [new]

variable {key}

theorem key_of_find {k : κ} {t : List ρ} {r : ρ} (h : find key k t = some r) : key r = k := by
  simpa using List.find?_some h

theorem find_map {f : ρ → ρ} (hf : ∀ r, key (f r) = key r) (k : κ) (t : List ρ) :
    find key k (t.map f) = (find key k t).map f := by
  unfold find
  rw [List.find?_map]
  congr 1
  exact congrArg (List.find? · t) (funext fun r => by simp [hf])

theorem find_append_singleton (k : κ) (t : List ρ) (new : ρ) :
    find key k (t ++ [new]) = (find key k t).or (if key new = k then some new else none) := by
  unfold find
  rw [List.find?_append, List.find?_singleton]
  simp

theorem find_eq_none_of_any {k : κ} {t : List ρ} (h : ¬ t.any (fun r => key r = k) = true) :
    find key k t = none := by
  unfold find
  simpa using h

theorem find_upsert_self {k : κ} {new : ρ} {f : ρ → ρ} (hf : ∀ r, key (f r) = key r)
    (hnew : key new = k) (t : List ρ) :
    find key k (upsert key k new f t) = some (((find key k t).map f).getD new) := by
  unfold upsert
  split
  next hany =>
    have hkey : ∀ r, key (if key r = k then f r else r) = key r := by
      intro r
      split
      · exact hf r
      · rfl
    rw [find_map hkey]
    obtain ⟨r, hr⟩ : ∃ r, find key k t = some r := by
      have hsome : (t.find? fun r => key r = k).isSome = true := by
        rw [List.find?_isSome]
        simpa using hany
      exact Option.isSome_iff_exists.mp hsome
    rw [hr]
    simp [key_of_find hr]
  next hany =>
    rw [find_append_singleton, find_eq_none_of_any hany, if_pos hnew]
    rfl

theorem find_upsert_replace {k : κ} {new : ρ} {f : ρ → ρ} (hf : ∀ r, key (f r) = key r)
    (hnew : ∀ r, key r = k → f r = new) (hkey : key new = k) (t : List ρ) :
    find key k (upsert key k new f t) = some new := by
  rw [find_upsert_self hf hkey]
  cases hr : find key k t with
  | none => rfl
  | some r => rw [Option.map_some, Option.getD_some, hnew r (key_of_find hr)]

theorem find_upsert_of_ne {k k' : κ} {new : ρ} {f : ρ → ρ} (hf : ∀ r, key (f r) = key r)
    (hnew : key new = k) (hne : k' ≠ k) (t : List ρ) :
    find key k' (upsert key k new f t) = find key k' t := by
  unfold upsert
  split
  · have hkey : ∀ r, key (if key r = k then f r else r) = key r := by
      intro r
      split
      · exact hf r
      · rfl
    rw [find_map hkey]
    cases hr : find key k' t with
    | none => rfl
    | some r =>
      have hk : key r ≠ k := key_of_find hr ▸ hne
      simp [hk]
  · rw [find_append_singleton, hnew, if_neg hne.symm, Option.or_none]

theorem mem_upsert_iff {k : κ} {new r : ρ} {f : ρ → ρ} {t : List ρ} :
    r ∈ upsert key k new f t ↔ (r ∈ t ∧ key r ≠ k) ∨ (∃ q ∈ t, key q = k ∧ r = f q) ∨
      (∀ q ∈ t, key q ≠ k) ∧ r = new := by
  unfold upsert
  split
  next hany =>
    obtain ⟨p, hp, hpk⟩ := List.any_eq_true.mp hany
    have hpk : key p = k := of_decide_eq_true hpk
    constructor
    · intro hr
      obtain ⟨q, hq, rfl⟩ := List.mem_map.mp hr
      by_cases hk : key q = k
      · rw [if_pos hk]
        exact Or.inr (Or.inl ⟨q, hq, hk, rfl⟩)
      · rw [if_neg hk]
        exact Or.inl ⟨hq, hk⟩
    · rintro (⟨hr, hne⟩ | ⟨q, hq, hk, rfl⟩ | ⟨hnone, -⟩)
      · exact List.mem_map.mpr ⟨r, hr, if_neg hne⟩
      · exact List.mem_map.mpr ⟨q, hq, if_pos hk⟩
      · exact absurd hpk (hnone p hp)
  next hnew =>
    have hnone : ∀ q ∈ t, key q ≠ k := fun q hq hk => hnew (List.any_eq_true.mpr ⟨q, hq, decide_eq_true hk⟩)
    rw [List.mem_append, List.mem_singleton]
    constructor
    · rintro (hr | rfl)
      · exact Or.inl ⟨hr, hnone r hr⟩
      · exact Or.inr (Or.inr ⟨hnone, rfl⟩)
    · rintro (⟨hr, -⟩ | ⟨q, hq, hk, -⟩ | ⟨-, rfl⟩)
      · exact Or.inl hr
      · exact absurd hk (hnone q hq)
      · exact Or.inr rfl

theorem any_upsert_self {p : ρ → Bool} {k : κ} {new : ρ} {f : ρ → ρ} (hnew : p new = true)
    (hf : ∀ r, key r = k → p (f r) = true) (t : List ρ) : (upsert key k new f t).any p = true := by
  unfold upsert
  split
  next hany =>
    obtain ⟨r, hr, hk⟩ := List.any_eq_true.mp hany
    have hk : key r = k := of_decide_eq_true hk
    refine List.any_eq_true.mpr ⟨f r, List.mem_map.mpr ⟨r, hr, if_pos hk⟩, hf r hk⟩
  next => exact List.any_eq_true.mpr ⟨new, List.mem_append_right t (List.mem_singleton.mpr rfl), hnew⟩

theorem any_upsert_of_ne {p : ρ → Bool} {k : κ} {new : ρ} {f : ρ → ρ} (hnew : p new = false)
    (hf : ∀ r, key r = k → p (f r) = p r) (t : List ρ) : (upsert key k new f t).any p = t.any p := by
  unfold upsert
  split
  · rw [List.any_map]
    refine congrArg (List.any t) (funext fun r => ?_)
    by_cases hk : key r = k
    · rw [Function.comp_apply, if_pos hk, hf r hk]
    · rw [Function.comp_apply, if_neg hk]
  · rw [List.any_append, List.any_cons, List.any_nil, hnew, Bool.or_false, Bool.or_false]

theorem find_updateWhere {p : ρ → Bool} {f : ρ → ρ} (hf : ∀ r, key (f r) = key r) (k : κ)
    (t : List ρ) :
    find key k (updateWhere p f t) = (find key k t).map fun r => if p r then f r else r := by
  refine find_map (fun r => ?_) k t
  split
  · exact hf r
  · rfl

theorem find_updateWhere_of_ne {p : ρ → Bool} {f : ρ → ρ} {k : κ} (hf : ∀ r, key (f r) = key r)
    (hp : ∀ r, key r = k → p r = false) (t : List ρ) :
    find key k (updateWhere p f t) = find key k t := by
  rw [find_updateWhere hf]
  cases hr : find key k t with
  | none => rfl
  | some r => simp [hp r (key_of_find hr)]

theorem find_deleteWhere_of_ne {p : ρ → Bool} {k : κ} (hp : ∀ r, key r = k → p r = false)
    (t : List ρ) : find key k (deleteWhere p t) = find key k t := by
  unfold find deleteWhere
  rw [List.find?_filter]
  refine congrArg (List.find? · t) (funext fun r => ?_)
  by_cases hr : key r = k
  · simp [hr, hp r hr]
  · simp [hr]

theorem all_upsert {P : ρ → Prop} {k : κ} {new : ρ} {f : ρ → ρ} {t : List ρ} (ht : ∀ r ∈ t, P r)
    (hnew : P new) (hf : ∀ r ∈ t, key r = k → P (f r)) : ∀ r ∈ upsert key k new f t, P r := by
  intro r hr
  rcases mem_upsert_iff.mp hr with ⟨hold, -⟩ | ⟨q, hq, hk, rfl⟩ | ⟨-, rfl⟩
  · exact ht r hold
  · exact hf q hq hk
  · exact hnew

theorem all_updateWhere {P : ρ → Prop} {p : ρ → Bool} {f : ρ → ρ} {t : List ρ} (ht : ∀ r ∈ t, P r)
    (hf : ∀ r ∈ t, p r = true → P (f r)) : ∀ r ∈ updateWhere p f t, P r := by
  intro r hr
  obtain ⟨q, hq, rfl⟩ := List.mem_map.mp hr
  split
  next hp => exact hf q hq hp
  next => exact ht q hq

theorem mem_of_mem_insertOrIgnore {clash : ρ → Bool} {new r : ρ} {t : List ρ}
    (h : r ∈ insertOrIgnore clash new t) : r ∈ t ∨ r = new := by
  unfold insertOrIgnore at h
  split at h
  · exact Or.inl h
  · exact (List.mem_append.mp h).imp_right List.mem_singleton.mp

theorem filter_deleteWhere_of_disjoint {p q : ρ → Bool} (hdis : ∀ r, q r = true → p r = false)
    (t : List ρ) : (deleteWhere p t).filter q = t.filter q := by
  unfold deleteWhere
  rw [List.filter_filter]
  refine List.filter_congr fun r _ => ?_
  cases hq : q r
  · rfl
  · simp [hdis r hq]

section InsertAll

/-- `INSERT OR IGNORE` of one row after the other; `clash new r` if `r` is in the way of `new`. -/
def insertAll (clash : ρ → ρ → Bool) (items t : List ρ) : List ρ :=
  items.foldl (fun t new => insertOrIgnore (clash new) new t) t

variable {clash : ρ → ρ → Bool} {mine : ρ → Bool} {K : List ρ}

theorem mem_insertOrIgnore_of_mem {p : ρ → Bool} {new r : ρ} {t : List ρ} (h : r ∈ t) :
    r ∈ insertOrIgnore p new t := by
  unfold insertOrIgnore
  split
  · exact h
  · exact List.mem_append_left _ h

theorem mem_insertAll_of_mem {items t : List ρ} {r : ρ} (h : r ∈ t) : r ∈ insertAll clash items t := by
  induction items generalizing t with
  | nil => exact h
  | cons new items ih => exact ih (mem_insertOrIgnore_of_mem h)

theorem mem_insertOrIgnore_filter
    (hmine : ∀ new r, mine new = true → clash new r = true → mine r = true)
    (hclash : ∀ new ∈ K, ∀ r ∈ K, clash new r = true → r = new) (hK : ∀ r ∈ K, mine r = true)
    {new : ρ} (hnew : new ∈ K) {t : List ρ} (ht : t.filter mine ⊆ K) {r : ρ} :
    r ∈ (insertOrIgnore (clash new) new t).filter mine ↔ r ∈ t.filter mine ∨ r = new := by
  unfold insertOrIgnore
  split
  next hany =>
    obtain ⟨q, hq, hnq⟩ := List.any_eq_true.mp hany
    have hqt : q ∈ t.filter mine := List.mem_filter.mpr ⟨hq, hmine new q (hK new hnew) hnq⟩
    obtain rfl := hclash new hnew q (ht hqt) hnq
    refine (or_iff_left_of_imp ?_).symm
    rintro rfl
    exact hqt
  next =>
    rw [List.filter_append, List.mem_append, List.filter_singleton, hK new hnew]
    exact or_congr_right List.mem_singleton

theorem mem_insertAll_filter
    (hmine : ∀ new r, mine new = true → clash new r = true → mine r = true)
    (hclash : ∀ new ∈ K, ∀ r ∈ K, clash new r = true → r = new) (hK : ∀ r ∈ K, mine r = true)
    {items : List ρ} (hitems : items ⊆ K) {t : List ρ} (ht : t.filter mine ⊆ K) {r : ρ} :
    r ∈ (insertAll clash items t).filter mine ↔ r ∈ t.filter mine ∨ r ∈ items := by
  induction items generalizing t with
  | nil => simp [insertAll]
  | cons new items ih =>
    have hnew : new ∈ K := hitems List.mem_cons_self
    have hstep : ∀ {q}, q ∈ (insertOrIgnore (clash new) new t).filter mine ↔ q ∈ t.filter mine ∨ q = new :=
      mem_insertOrIgnore_filter hmine hclash hK hnew ht
    have hnext : (insertOrIgnore (clash new) new t).filter mine ⊆ K := by
      intro q hq
      rcases hstep.mp hq with hq | rfl
      · exact ht hq
      · exact hnew
    have hrest := ih (fun q hq => hitems (List.mem_cons_of_mem new hq)) hnext
    refine hrest.trans ?_
    rw [hstep, List.mem_cons, or_assoc]

theorem find?_eq_self_iff {p : ρ → Bool} {q : ρ} {t : List ρ} (hq : p q = true)
    (huniq : ∀ r ∈ t, p r = true → r = q) : t.find? p = some q ↔ q ∈ t := by
  constructor
  · exact List.mem_of_find?_eq_some
  · intro hmem
    have hsome : (t.find? p).isSome = true := List.find?_isSome.mpr ⟨q, hmem, hq⟩
    obtain ⟨r, hr⟩ := Option.isSome_iff_exists.mp hsome
    rw [hr, huniq r (List.mem_of_find?_eq_some hr) (List.find?_some hr)]

theorem insertAll_append (items items' t : List ρ) :
    insertAll clash (items ++ items') t = insertAll clash items' (insertAll clash items t) :=
  List.foldl_append

/-- Of rows that clash, the first one is inserted, and only if none was there. -/
theorem mem_insertAll_iff (hrefl : ∀ a, clash a a = true)
    (hsymm : ∀ a b, clash a b = true → clash b a = true)
    (htrans : ∀ a b c, clash a b = true → clash b c = true → clash a c = true)
    {items t : List ρ} {q : ρ} : q ∈ insertAll clash items t ↔
      q ∈ t ∨ (∀ r ∈ t, clash q r = false) ∧ items.find? (clash q) = some q := by
  induction items generalizing t with
  | nil => simp [insertAll]
  | cons new items ih =>
    show q ∈ insertAll clash items (insertOrIgnore (clash new) new t) ↔ _
    rw [ih, List.find?_cons]
    unfold insertOrIgnore
    split
    next hany =>
      obtain ⟨r, hr, hnr⟩ := List.any_eq_true.mp hany
      cases hq : clash q new with
      | false => exact Iff.rfl
      | true =>
        -- the row that is in the way of the new one is in the way of `q`
        have hclash : ¬ ∀ r ∈ t, clash q r = false := by
          intro hnone
          exact absurd (htrans q new r hq hnr) (by simp [hnone r hr])
        exact or_congr_right (iff_of_false (fun h => hclash h.1) fun h => hclash h.1)
    next hnone =>
      have hfree : ∀ r ∈ t, clash new r = false := by simpa using hnone
      cases hq : clash q new with
      | false =>
        have hne : q ≠ new := by
          rintro rfl
          exact absurd (hrefl q) (by simp [hq])
        simp [hne, hq, or_imp, forall_and]
      | true =>
        have hfreeq : ∀ r ∈ t, clash q r = false := by
          intro r hr
          by_contra hqr
          exact absurd (htrans new q r (hsymm q new hq) (by simpa using hqr)) (by simp [hfree r hr])
        have hlast : ¬ ∀ r ∈ t ++ [new], clash q r = false := by
          intro h
          exact absurd (h new (List.mem_append_right t (List.mem_singleton.mpr rfl))) (by simp [hq])
        rw [List.mem_append, List.mem_singleton, or_iff_left fun h => hlast h.1]
        refine or_congr_right ⟨fun h => ⟨hfreeq, congrArg some h.symm⟩, fun h => ?_⟩
        exact (Option.some.inj h.2).symm

/-- Rows that do not clash with each other are inserted where nothing of the table is in the way. -/
theorem mem_insertAll_of_free {items t : List ρ}
    (hitems : ∀ new ∈ items, ∀ r ∈ items, clash r new = true → new = r) {q : ρ} :
    q ∈ insertAll clash items t ↔ q ∈ t ∨ (∀ r ∈ t, clash q r = false) ∧ q ∈ items := by
  induction items generalizing t with
  | nil => simp [insertAll]
  | cons new items ih =>
    have hrest : ∀ new ∈ items, ∀ r ∈ items, clash r new = true → new = r :=
      fun p hp r hr => hitems p (List.mem_cons_of_mem new hp) r (List.mem_cons_of_mem new hr)
    show q ∈ insertAll clash items (insertOrIgnore (clash new) new t) ↔ _
    rw [ih hrest, List.mem_cons]
    unfold insertOrIgnore
    split
    next hany =>
      refine or_congr_right (and_congr_right fun hfree => (or_iff_right ?_).symm)
      rintro rfl
      obtain ⟨r, hr, hclash⟩ := List.any_eq_true.mp hany
      exact absurd hclash (by simp [hfree r hr])
    next hnone =>
      have hfree : ∀ r ∈ t, clash new r = false := by simpa using hnone
      constructor
      · rintro (hq | ⟨hq, hitem⟩)
        · rcases List.mem_append.mp hq with hq | hq
          · exact Or.inl hq
          · obtain rfl := List.mem_singleton.mp hq
            exact Or.inr ⟨hfree, Or.inl rfl⟩
        · exact Or.inr ⟨fun r hr => hq r (List.mem_append_left _ hr), Or.inr hitem⟩
      · rintro (hq | ⟨hq, rfl | hitem⟩)
        · exact Or.inl (List.mem_append_left _ hq)
        · exact Or.inl (List.mem_append_right t (List.mem_singleton.mpr rfl))
        · cases hclash : clash q new with
          | true =>
            obtain rfl := hitems new List.mem_cons_self q (List.mem_cons_of_mem new hitem) hclash
            exact Or.inl (List.mem_append_right t (List.mem_singleton.mpr rfl))
          | false =>
            refine Or.inr ⟨fun r hr => ?_, hitem⟩
            rcases List.mem_append.mp hr with hr | hr
            · exact hq r hr
            · obtain rfl := List.mem_singleton.mp hr
              exact hclash

end InsertAll

end Table
