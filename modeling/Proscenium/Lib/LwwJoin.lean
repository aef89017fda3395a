import Proscenium.Lib.Lww

/-! Merging lists that may name a key more than once. Whatever the order of the
entries and however often one is repeated, a row ends as if the entry of its key
with the greatest stamp had come alone. -/

namespace Table

variable {κ ρ : Type*} [DecidableEq κ] {key : ρ → κ} {s t : List ρ}

theorem perm_of_find (hs : (s.map key).Nodup) (ht : (t.map key).Nodup)
    (hfind : ∀ k, find key k s = find key k t) : s.Perm t := by
  rw [List.perm_ext_iff_of_nodup hs.of_map ht.of_map]
  intro r
  have hleft : r ∈ s ↔ find key (key r) s = some r := by
    simp [find_eq_some_iff hs]
  have hright : r ∈ t ↔ find key (key r) t = some r := by
    simp [find_eq_some_iff ht]
  rw [hleft, hright, hfind]

end Table

namespace Lww.Wire

variable {κ ρ ε T : Type*} {key : ρ → κ}

/-- What an entry writes is what the row is exported as, and a row remembers of its entries only the
last one. -/
structure Faithful (W : Wire key ε T) : Prop where
  entry_row : ∀ e, W.entry (W.row e) = some e
  entry_update : ∀ e r, key r = W.keyOf e → W.entry (W.update e r) = some e
  update_row : ∀ e f, W.keyOf f = W.keyOf e → W.update e (W.row f) = W.row e
  update_update : ∀ e f r, W.update e (W.update f r) = W.update e r

variable {W : Wire key ε T} {e f : ε} {r : ρ}

section Settle

theorem Faithful.stamp_row (hW : W.Faithful) : W.stamp (W.row e) = W.stampOf e :=
  (W.stampOf_entry _ _ (hW.entry_row e)).symm

theorem Faithful.stamp_update (hW : W.Faithful) (hr : key r = W.keyOf e) :
    W.stamp (W.update e r) = W.stampOf e :=
  (W.stampOf_entry _ _ (hW.entry_update e r hr)).symm

variable [LinearOrder T] {b : Option ρ}

theorem settle_settle (hW : W.Faithful) (hkey : W.keyOf e = W.keyOf f)
    (hb : ∀ r, b = some r → key r = W.keyOf e) :
    W.settle f (W.settle e b) = if W.stampOf e < W.stampOf f then W.settle f b else W.settle e b := by
  cases b with
  | none =>
    have hstamp : W.stamp (W.row e) = W.stampOf e := hW.stamp_row
    have hrow : W.update f (W.row e) = W.row f := hW.update_row f e hkey
    simp [settle, hstamp, hrow]
  | some r =>
    by_cases hlt : W.stamp r < W.stampOf e
    · have hstamp : W.stamp (W.update e r) = W.stampOf e := hW.stamp_update (hb r rfl)
      have hupdate : W.update f (W.update e r) = W.update f r := hW.update_update f e r
      by_cases hef : W.stampOf e < W.stampOf f
      · have hrf : W.stamp r < W.stampOf f := hlt.trans hef
        simp [settle, hlt, hstamp, hef, hrf, hupdate]
      · simp [settle, hlt, hstamp, hef]
    · by_cases hef : W.stampOf e < W.stampOf f
      · simp [settle, hlt, hef]
      · have hrf : ¬ W.stamp r < W.stampOf f := by
          intro hrf
          apply hef
          exact (not_lt.mp hlt).trans_lt hrf
        simp [settle, hlt, hef, hrf]

theorem settle_of_le (hle : W.stampOf e ≤ W.stamp r) : W.settle e (some r) = some r := by
  have hlt : ¬ W.stamp r < W.stampOf e := not_lt.mpr hle
  simp [settle, hlt]

theorem exists_settle (hW : W.Faithful) (hb : ∀ r, b = some r → key r = W.keyOf e) :
    ∃ r, W.settle e b = some r ∧ W.stampOf e ≤ W.stamp r := by
  cases b with
  | none => exact ⟨W.row e, rfl, hW.stamp_row.ge⟩
  | some r =>
    by_cases hlt : W.stamp r < W.stampOf e
    · have hstamp : W.stamp (W.update e r) = W.stampOf e := hW.stamp_update (hb r rfl)
      exact ⟨W.update e r, by simp [settle, hlt], hstamp.ge⟩
    · exact ⟨r, settle_of_le (not_lt.mp hlt), not_lt.mp hlt⟩

end Settle

variable [DecidableEq κ] [LinearOrder T] {entries : List ε} {t : List ρ} {k : κ}

/-- Equal stamps under one key mean one entry, in the list and between the list and the table. -/
structure Consistent (W : Wire key ε T) (entries : List ε) (t : List ρ) : Prop where
  unique : ∀ e ∈ entries, ∀ f ∈ entries, W.keyOf e = W.keyOf f → W.stampOf e = W.stampOf f → e = f
  row : ∀ e ∈ entries, ∀ r ∈ t, key r = W.keyOf e → W.stamp r = W.stampOf e → W.entry r = some e

def Greatest (W : Wire key ε T) (entries : List ε) (e : ε) : Prop :=
  ∀ f ∈ entries, W.keyOf f = W.keyOf e → W.stampOf f ≤ W.stampOf e

/-- There is a row under the key of the entry, and the entry is not newer. -/
def Covers (W : Wire key ε T) (t : List ρ) (e : ε) : Prop :=
  ∃ r, Table.find key (W.keyOf e) t = some r ∧ W.stampOf e ≤ W.stamp r

section Covered

theorem mergeEntry_of_covers (h : W.Covers t e) : W.mergeEntry t e = t := by
  obtain ⟨r, hfind, hle⟩ := h
  have hlt : ¬ W.stamp r < W.stampOf e := not_lt.mpr hle
  simp [mergeEntry, hfind, hlt]

theorem covers_mergeEntry_self (hW : W.Faithful) : W.Covers (W.mergeEntry t e) e := by
  unfold Covers
  rw [find_mergeEntry_self]
  exact exists_settle hW fun r hr => Table.key_of_find hr

theorem Covers.mergeEntry (hW : W.Faithful) (h : W.Covers t e) (f : ε) :
    W.Covers (W.mergeEntry t f) e := by
  by_cases hkey : W.keyOf e = W.keyOf f
  · obtain ⟨r, hfind, hle⟩ := h
    have hr : key r = W.keyOf f := (Table.key_of_find hfind).trans hkey
    unfold Covers
    rw [hkey, find_mergeEntry_self, ← hkey, hfind]
    by_cases hlt : W.stamp r < W.stampOf f
    · have hstamp : W.stamp (W.update f r) = W.stampOf f := hW.stamp_update hr
      have hnewer : W.stampOf e ≤ W.stampOf f := hle.trans hlt.le
      exact ⟨W.update f r, by simp [settle, hlt], hnewer.trans hstamp.ge⟩
    · exact ⟨r, settle_of_le (not_lt.mp hlt), hle⟩
  · obtain ⟨r, hfind, hle⟩ := h
    exact ⟨r, (find_mergeEntry_of_ne hkey).trans hfind, hle⟩

theorem Covers.merge (hW : W.Faithful) (h : W.Covers t e) (entries : List ε) :
    W.Covers (W.merge entries t) e := by
  induction entries generalizing t with
  | nil => exact h
  | cons f entries ih => exact ih (h.mergeEntry hW f)

theorem covers_merge (hW : W.Faithful) (he : e ∈ entries) : W.Covers (W.merge entries t) e := by
  induction entries generalizing t with
  | nil => simp at he
  | cons f entries ih =>
    rcases List.mem_cons.mp he with rfl | he
    · exact (covers_mergeEntry_self hW).merge hW entries
    · exact ih he

theorem merge_of_covers (h : ∀ e ∈ entries, W.Covers t e) : W.merge entries t = t := by
  induction entries with
  | nil => rfl
  | cons e entries ih =>
    have hfirst : W.mergeEntry t e = t := mergeEntry_of_covers (h e (List.mem_cons_self ..))
    show W.merge entries (W.mergeEntry t e) = t
    rw [hfirst]
    exact ih fun f hf => h f (List.mem_cons_of_mem _ hf)

theorem merge_merge (hW : W.Faithful) {again : List ε} (h : ∀ e ∈ again, e ∈ entries) :
    W.merge again (W.merge entries t) = W.merge entries t := by
  apply merge_of_covers
  intro e he
  exact covers_merge hW (h e he)

end Covered

section Lists

theorem find_merge_of_covers (h : ∀ e ∈ entries, W.keyOf e = k → W.Covers t e) :
    Table.find key k (W.merge entries t) = Table.find key k t := by
  induction entries generalizing t with
  | nil => rfl
  | cons e entries ih =>
    have hfirst : Table.find key k (W.mergeEntry t e) = Table.find key k t := by
      by_cases hk : W.keyOf e = k
      · rw [mergeEntry_of_covers (h e (List.mem_cons_self ..) hk)]
      · exact find_mergeEntry_of_ne (Ne.symm hk)
    show Table.find key k (W.merge entries (W.mergeEntry t e)) = _
    rw [ih, hfirst]
    intro f hf hfk
    have hcovers := h f (List.mem_cons_of_mem _ hf) hfk
    unfold Covers at hcovers ⊢
    rw [hfk] at hcovers ⊢
    rwa [hfirst]

theorem find_merge_of_greatest (hW : W.Faithful)
    (hunique : ∀ f ∈ entries, W.keyOf e = W.keyOf f → W.stampOf e = W.stampOf f → e = f)
    (he : e ∈ entries) (hmax : W.Greatest entries e) :
    Table.find key (W.keyOf e) (W.merge entries t) = W.settle e (Table.find key (W.keyOf e) t) := by
  induction entries generalizing t with
  | nil => simp at he
  | cons f entries ih =>
    have hmax' : W.Greatest entries e := fun g hg => hmax g (List.mem_cons_of_mem _ hg)
    have hunique' := fun g hg => hunique g (List.mem_cons_of_mem _ hg)
    have hfirst : ∀ r, Table.find key (W.keyOf f) t = some r → key r = W.keyOf f :=
      fun r hr => Table.key_of_find hr
    show Table.find key (W.keyOf e) (W.merge entries (W.mergeEntry t f)) = _
    by_cases hrest : e ∈ entries
    · rw [ih hunique' hrest hmax']
      by_cases hkey : W.keyOf e = W.keyOf f
      · rw [hkey, find_mergeEntry_self, settle_settle hW hkey.symm hfirst]
        split
        next => rfl
        next hnot =>
          -- the two stamps are equal, and so the entries are
          have hle : W.stampOf f ≤ W.stampOf e := hmax f (List.mem_cons_self ..) hkey.symm
          have hsame : e = f := hunique f (List.mem_cons_self ..) hkey (le_antisymm (not_lt.mp hnot) hle)
          rw [hsame]
      · rw [find_mergeEntry_of_ne hkey]
    · obtain rfl : e = f := (List.mem_cons.mp he).resolve_right hrest
      rw [find_merge_of_covers, find_mergeEntry_self]
      intro g hg hgk
      obtain ⟨r, hfind, hle⟩ := covers_mergeEntry_self (t := t) (e := e) hW
      have hge : W.stampOf g ≤ W.stampOf e := hmax' g hg hgk
      exact ⟨r, hgk ▸ hfind, hge.trans hle⟩

theorem exists_greatest (h : ∃ e ∈ entries, W.keyOf e = k) :
    ∃ e ∈ entries, W.keyOf e = k ∧ W.Greatest entries e := by
  obtain ⟨e₀, he₀, hk₀⟩ := h
  let named := entries.filter fun e => W.keyOf e = k
  have hmem : ∀ {e}, e ∈ named ↔ e ∈ entries ∧ W.keyOf e = k := by
    intro e
    simp [named]
  have hne : named.argmax W.stampOf ≠ none := by
    rw [Ne, List.argmax_eq_none]
    exact List.ne_nil_of_mem (hmem.mpr ⟨he₀, hk₀⟩)
  obtain ⟨e, hargmax⟩ := Option.ne_none_iff_exists'.mp hne
  have he := hmem.mp (List.argmax_mem hargmax)
  refine ⟨e, he.1, he.2, fun f hf hkey => ?_⟩
  exact List.le_of_mem_argmax (hmem.mpr ⟨hf, hkey.trans he.2⟩) hargmax

theorem find_merge_congr {entries' : List ε} (hW : W.Faithful) (hc : W.Consistent entries t)
    (hmem : ∀ e, e ∈ entries' ↔ e ∈ entries) :
    Table.find key k (W.merge entries' t) = Table.find key k (W.merge entries t) := by
  by_cases hk : ∃ e ∈ entries, W.keyOf e = k
  · obtain ⟨e, he, rfl, hmax⟩ := exists_greatest hk
    have hmax' : W.Greatest entries' e := fun f hf => hmax f ((hmem f).mp hf)
    have hunique' := fun f hf => hc.unique e he f ((hmem f).mp hf)
    rw [find_merge_of_greatest hW (hc.unique e he) he hmax,
      find_merge_of_greatest hW hunique' ((hmem e).mpr he) hmax']
  · have hnone : ∀ e ∈ entries, W.keyOf e = k → W.Covers t e := fun e he hke => absurd ⟨e, he, hke⟩ hk
    have hnone' : ∀ e ∈ entries', W.keyOf e = k → W.Covers t e := fun e he => hnone e ((hmem e).mp he)
    rw [find_merge_of_covers hnone, find_merge_of_covers hnone']

theorem entry_of_greatest (hW : W.Faithful) (hc : W.Consistent entries t) (he : e ∈ entries)
    (hmax : W.Greatest entries e)
    (hrow : ∀ r, Table.find key (W.keyOf e) t = some r → W.stamp r ≤ W.stampOf e) :
    (Table.find key (W.keyOf e) (W.merge entries t)).bind W.entry = some e := by
  rw [find_merge_of_greatest hW (hc.unique e he) he hmax]
  cases hfind : Table.find key (W.keyOf e) t with
  | none => exact hW.entry_row e
  | some r =>
    have hr : key r = W.keyOf e := Table.key_of_find hfind
    by_cases hlt : W.stamp r < W.stampOf e
    · have hupdate : W.entry (W.update e r) = some e := hW.entry_update e r hr
      simp [settle, hlt, hupdate]
    · have hmem : r ∈ t := List.mem_of_find?_eq_some hfind
      have hsame : W.entry r = some e :=
        hc.row e he r hmem hr (le_antisymm (hrow r hfind) (not_lt.mp hlt))
      simp [settle, hlt, hsame]

end Lists

section Tables

variable {τ : Type*}

/-- `merge` joins the list into the table: each key ends with the greatest of its row and its
entries, and it does not matter how the list is ordered, what it repeats, or that it comes again. -/
structure Joins (W : Wire key ε T) (rows : τ → List ρ) (merge : List ε → τ → τ) (entries : List ε)
    (t : τ) : Prop where
  greatest : ∀ e ∈ entries, W.Greatest entries e →
    (∀ r, Table.find key (W.keyOf e) (rows t) = some r → W.stamp r ≤ W.stampOf e) →
    (Table.find key (W.keyOf e) (rows (merge entries t))).bind W.entry = some e
  kept : ∀ k r, Table.find key k (rows t) = some r →
    (∀ e ∈ entries, W.keyOf e = k → W.stampOf e ≤ W.stamp r) →
    Table.find key k (rows (merge entries t)) = some r
  others : ∀ k, (∀ e ∈ entries, W.keyOf e ≠ k) →
    Table.find key k (rows (merge entries t)) = Table.find key k (rows t)
  unordered : ∀ entries', (∀ e, e ∈ entries' ↔ e ∈ entries) →
    (rows (merge entries' t)).Perm (rows (merge entries t))
  idempotent : ∀ again, (∀ e ∈ again, e ∈ entries) → merge again (merge entries t) = merge entries t

theorem joins_of_merge {rows : τ → List ρ} {merge : List ε → τ → τ} {t : τ} (hW : W.Faithful)
    (hnodup : ∀ t, ((rows t).map key).Nodup)
    (hrows : ∀ entries t, rows (merge entries t) = W.merge entries (rows t))
    (hext : Function.Injective rows) (hc : W.Consistent entries (rows t)) :
    W.Joins rows merge entries t := by
  constructor
  case greatest =>
    intro e he hmax hrow
    rw [hrows]
    exact entry_of_greatest hW hc he hmax hrow
  case kept =>
    intro k r hfind hle
    rw [hrows, find_merge_of_covers, hfind]
    intro e he hk
    exact ⟨r, hk ▸ hfind, hle e he hk⟩
  case others =>
    intro k hne
    rw [hrows]
    apply find_merge_of_covers
    intro e he hk
    exact absurd hk (hne e he)
  case unordered =>
    intro entries' hmem
    apply Table.perm_of_find (hnodup _) (hnodup _)
    intro k
    rw [hrows, hrows]
    exact find_merge_congr hW hc hmem
  case idempotent =>
    intro again hagain
    apply hext
    rw [hrows, hrows]
    exact merge_merge hW hagain

end Tables

end Lww.Wire
