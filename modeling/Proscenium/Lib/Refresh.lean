import Proscenium.Lib.Table

/-! A cached list inside a table: the rows that stand for the list as it was
are deleted, and its entries are upserted one after the other. What this leaves
of a row depends on whether it was such a row and whether an entry has its key;
what a query sees that neither kind of row shows up in is left alone. -/

namespace Table

variable {κ ρ ι β : Type*} [DecidableEq κ]

structure Filing (key : ρ → κ) (ι : Type*) where
  stale : ρ → Bool
  keyOf : ι → κ
  row : ι → ρ
  update : ι → ρ → ρ
  key_row : ∀ i, key (row i) = keyOf i
  key_update : ∀ i r, key (update i r) = key r

variable {key : ρ → κ}

theorem nodup_upsert {k : κ} {new : ρ} {f : ρ → ρ} (hnew : key new = k) (hf : ∀ r, key (f r) = key r)
    {t : List ρ} (h : (t.map key).Nodup) : ((upsert key k new f t).map key).Nodup := by
  unfold upsert
  split
  next =>
    have hkeys : (t.map fun r => if key r = k then f r else r).map key = t.map key := by
      rw [List.map_map]
      refine List.map_congr_left fun r _ => ?_
      simp only [Function.comp_apply]
      split
      · exact hf r
      · rfl
    rwa [hkeys]
  next hany =>
    rw [List.map_append, List.map_singleton, hnew, List.nodup_append]
    refine ⟨h, List.nodup_singleton k, ?_⟩
    rintro a ha b hb rfl
    obtain rfl := List.mem_singleton.mp hb
    obtain ⟨r, hr, hrk⟩ := List.mem_map.mp ha
    exact hany (List.any_eq_true.mpr ⟨r, hr, by simpa using hrk⟩)

theorem find_eq_some_iff {k : κ} {t : List ρ} (h : (t.map key).Nodup) {r : ρ} :
    find key k t = some r ↔ r ∈ t ∧ key r = k := by
  constructor
  · intro hr
    exact ⟨List.mem_of_find?_eq_some hr, key_of_find hr⟩
  · rintro ⟨hr, rfl⟩
    cases hfind : find key (key r) t with
    | none =>
      have hno := List.find?_eq_none.mp hfind r hr
      simp at hno
    | some q =>
      have hq : q ∈ t := List.mem_of_find?_eq_some hfind
      have hkey : key q = key r := key_of_find hfind
      rw [List.inj_on_of_nodup_map h hq hr hkey]

section FilterMap

variable {ε : Type*} {key' : ε → κ} {g : ρ → Option ε} {t : List ρ}

omit [DecidableEq κ] in
theorem nodup_filterMap (hg : ∀ r e, g r = some e → key' e = key r) (h : (t.map key).Nodup) :
    ((t.filterMap g).map key').Nodup := by
  induction t with
  | nil => exact List.nodup_nil
  | cons r t ih =>
    rw [List.map_cons, List.nodup_cons] at h
    cases hgr : g r with
    | none =>
      rw [List.filterMap_cons_none hgr]
      exact ih h.2
    | some e =>
      rw [List.filterMap_cons_some hgr, List.map_cons, List.nodup_cons]
      refine ⟨fun hmem => h.1 ?_, ih h.2⟩
      obtain ⟨e', he', hkey⟩ := List.mem_map.mp hmem
      obtain ⟨r', hr', hgr'⟩ := List.mem_filterMap.mp he'
      have hkeys : key r' = key r := by rw [← hg r' e' hgr', hkey, hg r e hgr]
      exact hkeys ▸ List.mem_map_of_mem hr'

theorem find_filterMap {k : κ} (hg : ∀ r e, g r = some e → key' e = key r) (h : (t.map key).Nodup) :
    find key' k (t.filterMap g) = (find key k t).bind g := by
  ext e
  rw [find_eq_some_iff (nodup_filterMap hg h), Option.bind_eq_some_iff, List.mem_filterMap]
  constructor
  · rintro ⟨⟨r, hr, hgr⟩, rfl⟩
    exact ⟨r, (find_eq_some_iff h).mpr ⟨hr, (hg r e hgr).symm⟩, hgr⟩
  · rintro ⟨r, hfind, hgr⟩
    obtain ⟨hr, rfl⟩ := (find_eq_some_iff h).mp hfind
    exact ⟨⟨r, hr, hgr⟩, hg r e hgr⟩

end FilterMap

theorem find_deleteWhere {p : ρ → Bool} {k : κ} {t : List ρ} (h : (t.map key).Nodup) :
    find key k (deleteWhere p t) = (find key k t).filter fun r => !p r := by
  have hdel : ((deleteWhere p t).map key).Nodup := h.sublist (List.filter_sublist.map key)
  ext r
  rw [find_eq_some_iff hdel, Option.filter_eq_some_iff, find_eq_some_iff h]
  unfold deleteWhere
  rw [List.mem_filter, and_right_comm]

theorem filter_upsert_of_disjoint {p : ρ → Bool} {k : κ} {new : ρ} {f : ρ → ρ} (hnew : key new = k)
    (hf : ∀ r, key (f r) = key r) (hp : ∀ r, key r = k → p r = false) (t : List ρ) :
    (upsert key k new f t).filter p = t.filter p := by
  unfold upsert
  split
  · rw [List.filter_map]
    have hsame : (p ∘ fun r => if key r = k then f r else r) = p := by
      funext r
      simp only [Function.comp_apply]
      split
      next hk => rw [hp r hk, hp (f r) ((hf r).trans hk)]
      next => rfl
    rw [hsame]
    have hid : ∀ r ∈ t.filter p, (if key r = k then f r else r) = id r := by
      intro r hr
      have hne : key r ≠ k := by
        intro hk
        rw [List.mem_filter, hp r hk] at hr
        exact nomatch hr.2
      exact if_neg hne
    rw [List.map_congr_left hid, List.map_id]
  · rw [List.filter_append, List.filter_singleton, hp new hnew]
    simp

theorem map_filter_upsert_of_any {p : ρ → Bool} {v : ρ → β} {k : κ} {new : ρ} {f : ρ → ρ} {t : List ρ}
    (hany : t.any (fun r => key r = k) = true) (hp : ∀ r, key r = k → p (f r) = p r)
    (hv : ∀ r, key r = k → v (f r) = v r) :
    ((upsert key k new f t).filter p).map v = (t.filter p).map v := by
  unfold upsert
  rw [if_pos hany, List.filter_map, List.map_map]
  have hsame : (p ∘ fun r => if key r = k then f r else r) = p := by
    funext r
    simp only [Function.comp_apply]
    split
    next hk => exact hp r hk
    next => rfl
  rw [hsame]
  refine List.map_congr_left fun r _ => ?_
  simp only [Function.comp_apply]
  split
  next hk => exact hv r hk
  next => rfl

namespace Filing

variable (F : Filing key ι)

def file (t : List ρ) (i : ι) : List ρ := upsert key (F.keyOf i) (F.row i) (F.update i) t

def refresh (items : List ι) (t : List ρ) : List ρ := items.foldl F.file (deleteWhere F.stale t)

variable {F}

theorem find_file_self (i : ι) (t : List ρ) : find key (F.keyOf i) (F.file t i) =
    some (((find key (F.keyOf i) t).map (F.update i)).getD (F.row i)) :=
  find_upsert_self (F.key_update i) (F.key_row i) t

theorem find_file_of_ne {i : ι} {k : κ} (hne : k ≠ F.keyOf i) (t : List ρ) :
    find key k (F.file t i) = find key k t :=
  find_upsert_of_ne (F.key_update i) (F.key_row i) hne t

theorem any_file {k : κ} {t : List ρ} (i : ι) (h : t.any (fun r => key r = k) = true) :
    (F.file t i).any (fun r => key r = k) = true := by
  obtain ⟨r, hr, hrk⟩ := List.any_eq_true.mp h
  have hkey : key r = k := by simpa using hrk
  unfold file upsert
  split
  · refine List.any_eq_true.mpr ⟨_, List.mem_map_of_mem hr, ?_⟩
    split
    · simp [F.key_update, hkey]
    · exact hrk
  · exact List.any_eq_true.mpr ⟨r, List.mem_append_left _ hr, hrk⟩

theorem nodup_refresh {items : List ι} {t : List ρ} (h : (t.map key).Nodup) :
    ((F.refresh items t).map key).Nodup := by
  have hfold : ∀ t : List ρ, (t.map key).Nodup → ((items.foldl F.file t).map key).Nodup := by
    induction items with
    | nil => exact fun t ht => ht
    | cons i items ih =>
      intro t ht
      exact ih _ (nodup_upsert (F.key_row i) (F.key_update i) ht)
  exact hfold _ (h.sublist (List.filter_sublist.map key))

theorem filter_refresh {p : ρ → Bool} {items : List ι} {t : List ρ}
    (hstale : ∀ r ∈ t, p r = true → F.stale r = false)
    (hp : ∀ i ∈ items, ∀ r, key r = F.keyOf i → p r = false) :
    (F.refresh items t).filter p = t.filter p := by
  have hfold : ∀ t : List ρ, (items.foldl F.file t).filter p = t.filter p := by
    induction items with
    | nil => exact fun t => rfl
    | cons i items ih =>
      intro t
      have hrest := ih (fun j hj => hp j (List.mem_cons_of_mem i hj)) (F.file t i)
      rw [List.foldl_cons, hrest]
      exact filter_upsert_of_disjoint (F.key_row i) (F.key_update i) (hp i List.mem_cons_self) t
  rw [refresh, hfold]
  unfold deleteWhere
  rw [List.filter_filter]
  refine List.filter_congr fun r hr => ?_
  cases hpr : p r with
  | false => rfl
  | true => simp [hstale r hr hpr]

theorem find_refresh_of_ne {k : κ} {items : List ι} {t : List ρ} (h : (t.map key).Nodup)
    (hk : ∀ i ∈ items, F.keyOf i ≠ k) :
    find key k (F.refresh items t) = (find key k t).filter fun r => !F.stale r := by
  have hfold : ∀ t : List ρ, find key k (items.foldl F.file t) = find key k t := by
    induction items with
    | nil => exact fun t => rfl
    | cons i items ih =>
      intro t
      have hrest := ih (fun j hj => hk j (List.mem_cons_of_mem i hj)) (F.file t i)
      exact hrest.trans (find_file_of_ne (hk i List.mem_cons_self).symm t)
  rw [refresh, hfold, find_deleteWhere h]

theorem find_refresh_of_disjoint {k : κ} {items : List ι} {t : List ρ} (h : (t.map key).Nodup)
    (hk : ∀ i ∈ items, F.keyOf i ≠ k) (hstale : ∀ r, key r = k → F.stale r = false) :
    find key k (F.refresh items t) = find key k t := by
  rw [find_refresh_of_ne h hk]
  cases hr : find key k t with
  | none => rfl
  | some r => simp [Option.filter_some, hstale r (key_of_find hr)]

section View

variable {v : ρ → β} {k : κ} {items : List ι} (hv : ∀ i ∈ items, F.keyOf i = k → ∀ r, v (F.update i r) = v r)

include hv in
theorem view_foldl_of_some {t : List ρ} {b : β} (h : (find key k t).map v = some b) :
    (find key k (items.foldl F.file t)).map v = some b := by
  induction items generalizing t with
  | nil => exact h
  | cons i items ih =>
    refine ih (fun j hj => hv j (List.mem_cons_of_mem i hj)) ?_
    by_cases hk : F.keyOf i = k
    · subst hk
      obtain ⟨r, hr, rfl⟩ := Option.map_eq_some_iff.mp h
      rw [find_file_self, hr]
      exact congrArg some (hv i List.mem_cons_self rfl r)
    · rw [find_file_of_ne (Ne.symm hk)]
      exact h

include hv in
theorem view_foldl_of_mem {t : List ρ} {b : β} (hnew : ∀ i ∈ items, F.keyOf i = k → v (F.row i) = b)
    (hmem : ∃ i ∈ items, F.keyOf i = k) :
    (find key k (items.foldl F.file t)).map v = some (((find key k t).map v).getD b) := by
  induction items generalizing t with
  | nil =>
    obtain ⟨i, hi, -⟩ := hmem
    exact nomatch hi
  | cons i items ih =>
    have hrest : ∀ j ∈ items, F.keyOf j = k → ∀ r, v (F.update j r) = v r :=
      fun j hj => hv j (List.mem_cons_of_mem i hj)
    by_cases hk : F.keyOf i = k
    · subst hk
      apply view_foldl_of_some hrest
      rw [find_file_self]
      cases find key (F.keyOf i) t with
      | none => exact congrArg some (hnew i List.mem_cons_self rfl)
      | some r => exact congrArg some (hv i List.mem_cons_self rfl r)
    · have hrestMem : ∃ j ∈ items, F.keyOf j = k := by
        obtain ⟨j, hj, hjk⟩ := hmem
        rcases List.mem_cons.mp hj with rfl | hj
        · exact absurd hjk hk
        · exact ⟨j, hj, hjk⟩
      have hlater := ih hrest (t := F.file t i) (fun j hj => hnew j (List.mem_cons_of_mem i hj)) hrestMem
      rwa [find_file_of_ne (Ne.symm hk)] at hlater

include hv in
theorem view_refresh_of_mem {t : List ρ} (h : (t.map key).Nodup) {b : β}
    (hnew : ∀ i ∈ items, F.keyOf i = k → v (F.row i) = b) (hmem : ∃ i ∈ items, F.keyOf i = k) :
    (find key k (F.refresh items t)).map v =
      some ((((find key k t).filter fun r => !F.stale r).map v).getD b) := by
  rw [← find_deleteWhere h]
  exact view_foldl_of_mem hv hnew hmem

end View

/-- With the row of `k` kept, a query that reads nothing of what its updates change, and that no
other row of an entry shows up in, is left alone. -/
theorem map_filter_refresh {p : ρ → Bool} {v : ρ → β} {k : κ} {items : List ι} {t : List ρ}
    (hstale : ∀ r ∈ t, p r = true → F.stale r = false)
    (hother : ∀ i ∈ items, F.keyOf i ≠ k → ∀ r, key r = F.keyOf i → p r = false)
    (hself : ∀ i ∈ items, F.keyOf i = k → ∀ r, key r = k →
      p (F.update i r) = p r ∧ v (F.update i r) = v r)
    (hkept : ∃ r ∈ t, key r = k ∧ F.stale r = false) :
    ((F.refresh items t).filter p).map v = (t.filter p).map v := by
  have hfold : ∀ t : List ρ, t.any (fun r => key r = k) = true →
      ((items.foldl F.file t).filter p).map v = (t.filter p).map v := by
    induction items with
    | nil => exact fun t _ => rfl
    | cons i items ih =>
      intro t hany
      rw [List.foldl_cons, ih (fun j hj => hother j (List.mem_cons_of_mem i hj))
        (fun j hj => hself j (List.mem_cons_of_mem i hj)) _ (any_file i hany)]
      by_cases hk : F.keyOf i = k
      · subst hk
        have hi := hself i List.mem_cons_self rfl
        exact map_filter_upsert_of_any hany (fun r hr => (hi r hr).1) fun r hr => (hi r hr).2
      · exact congrArg (List.map v) (filter_upsert_of_disjoint (F.key_row i) (F.key_update i)
          (hother i List.mem_cons_self hk) t)
  obtain ⟨r, hr, hrk, hlive⟩ := hkept
  have hany : (deleteWhere F.stale t).any (fun r => key r = k) = true := by
    refine List.any_eq_true.mpr ⟨r, List.mem_filter.mpr ⟨hr, by simp [hlive]⟩, by simpa using hrk⟩
  rw [refresh, hfold _ hany]
  unfold deleteWhere
  rw [List.filter_filter]
  refine congrArg (List.map v) (List.filter_congr fun r hr => ?_)
  cases hpr : p r with
  | false => rfl
  | true => simp [hstale r hr hpr]

end Filing
end Table
