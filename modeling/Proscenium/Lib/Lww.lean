import Proscenium.Lib.Refresh

/-! Tables whose rows are registers where the last write wins. Two parties exchange
summaries of what they export, send each other the entries that are newer than
the other's, and merge what they receive. What this does to a key depends on its
two rows alone. -/

namespace Lww

variable {κ ρ ε T ν : Type*}

/-- How the rows of a table travel: the entry a row is exported as, if it is, and what an entry
that wins does to the table. -/
structure Wire (key : ρ → κ) (ε T : Type*) where
  keyOf : ε → κ
  stampOf : ε → T
  stamp : ρ → T
  entry : ρ → Option ε
  row : ε → ρ
  update : ε → ρ → ρ
  key_row : ∀ e, key (row e) = keyOf e
  key_update : ∀ e r, key (update e r) = key r
  keyOf_entry : ∀ r e, entry r = some e → keyOf e = key r
  stampOf_entry : ∀ r e, entry r = some e → stampOf e = stamp r

namespace Wire

variable {key : ρ → κ} (W : Wire key ε T)

def vector (t : List ρ) : List ε := t.filterMap W.entry

section Summary

variable {W} {t : List ρ} {k : κ}

theorem nodup_vector (h : (t.map key).Nodup) : ((W.vector t).map W.keyOf).Nodup :=
  Table.nodup_filterMap W.keyOf_entry h

variable [DecidableEq κ]

theorem find_vector (h : (t.map key).Nodup) :
    Table.find W.keyOf k (W.vector t) = (Table.find key k t).bind W.entry :=
  Table.find_filterMap W.keyOf_entry h

end Summary

section Exchange

variable [DecidableEq κ] [LinearOrder T]

def deltas (ours theirs : List ε) : List ε :=
  ours.filter fun e => (Table.find W.keyOf (W.keyOf e) theirs).all fun p => W.stampOf p < W.stampOf e

def mergeEntry (t : List ρ) (e : ε) : List ρ :=
  if (Table.find key (W.keyOf e) t).all fun r => W.stamp r < W.stampOf e then
    Table.upsert key (W.keyOf e) (W.row e) (W.update e) t
  else t

def merge (entries : List ε) (t : List ρ) : List ρ := entries.foldl W.mergeEntry t

def settle (e : ε) : Option ρ → Option ρ
  | none => some (W.row e)
  | some r => if W.stamp r < W.stampOf e then some (W.update e r) else some r

/-- What becomes of a row when the other party has `b` under its key. -/
def receive (a b : Option ρ) : Option ρ :=
  match b.bind W.entry with
  | none => a
  | some e => W.settle e a

variable {W} {t A B : List ρ} {k : κ}

theorem nodup_mergeEntry (e : ε) (h : (t.map key).Nodup) : ((W.mergeEntry t e).map key).Nodup := by
  unfold mergeEntry
  split
  · exact Table.nodup_upsert (W.key_row e) (W.key_update e) h
  · exact h

theorem nodup_merge (entries : List ε) (h : (t.map key).Nodup) :
    ((W.merge entries t).map key).Nodup := by
  induction entries generalizing t with
  | nil => exact h
  | cons e entries ih => exact ih (nodup_mergeEntry e h)

theorem find_mergeEntry_of_ne {e : ε} (hne : k ≠ W.keyOf e) :
    Table.find key k (W.mergeEntry t e) = Table.find key k t := by
  unfold mergeEntry
  split
  · exact Table.find_upsert_of_ne (W.key_update e) (W.key_row e) hne t
  · rfl

theorem find_mergeEntry_self (e : ε) : Table.find key (W.keyOf e) (W.mergeEntry t e) =
    W.settle e (Table.find key (W.keyOf e) t) := by
  unfold mergeEntry settle
  cases hfind : Table.find key (W.keyOf e) t with
  | none =>
    rw [Option.all_none, if_pos rfl, Table.find_upsert_self (W.key_update e) (W.key_row e), hfind]
    rfl
  | some r =>
    by_cases hlt : W.stamp r < W.stampOf e
    · rw [Option.all_some, if_pos (decide_eq_true hlt),
        Table.find_upsert_self (W.key_update e) (W.key_row e), hfind]
      simp [hlt]
    · simp [hlt, hfind]

theorem find_merge {entries : List ε} (h : (entries.map W.keyOf).Nodup) :
    Table.find key k (W.merge entries t) =
      match Table.find W.keyOf k entries with
      | none => Table.find key k t
      | some e => W.settle e (Table.find key k t) := by
  induction entries generalizing t with
  | nil => rfl
  | cons e entries ih =>
    rw [List.map_cons, List.nodup_cons] at h
    show Table.find key k (W.merge entries (W.mergeEntry t e)) = _
    rw [ih h.2]
    by_cases hk : W.keyOf e = k
    · obtain rfl := hk
      have hnone : Table.find W.keyOf (W.keyOf e) entries = none := by
        refine Table.find_eq_none_of_any fun hany => h.1 ?_
        obtain ⟨e', he', hkey⟩ := List.any_eq_true.mp hany
        exact List.mem_map.mpr ⟨e', he', of_decide_eq_true hkey⟩
      have hfirst : Table.find W.keyOf (W.keyOf e) (e :: entries) = some e := by
        simp [Table.find]
      rw [hnone, hfirst]
      exact find_mergeEntry_self e
    · have hrest : Table.find W.keyOf k (e :: entries) = Table.find W.keyOf k entries := by
        simp [Table.find, hk]
      rw [hrest, find_mergeEntry_of_ne (Ne.symm hk)]

theorem nodup_deltas {ours : List ε} (theirs : List ε) (h : (ours.map W.keyOf).Nodup) :
    ((W.deltas ours theirs).map W.keyOf).Nodup :=
  h.sublist (List.filter_sublist.map W.keyOf)

theorem find_deltas {ours theirs : List ε} (h : (ours.map W.keyOf).Nodup) :
    Table.find W.keyOf k (W.deltas ours theirs) =
      (Table.find W.keyOf k ours).filter fun e =>
        (Table.find W.keyOf k theirs).all fun p => W.stampOf p < W.stampOf e := by
  ext e
  rw [Table.find_eq_some_iff (nodup_deltas theirs h), Option.filter_eq_some_iff,
    Table.find_eq_some_iff h]
  unfold deltas
  rw [List.mem_filter]
  constructor
  · rintro ⟨⟨he, hnewer⟩, rfl⟩
    exact ⟨⟨he, rfl⟩, hnewer⟩
  · rintro ⟨⟨he, rfl⟩, hnewer⟩
    exact ⟨⟨he, hnewer⟩, rfl⟩

/-- A party that merges what the other sends on seeing its summary has, under every key, what its
row and the other's make. -/
theorem find_merge_deltas (hA : (A.map key).Nodup) (hB : (B.map key).Nodup) :
    Table.find key k (W.merge (W.deltas (W.vector B) (W.vector A)) A) =
      W.receive (Table.find key k A) (Table.find key k B) := by
  rw [find_merge (nodup_deltas _ (nodup_vector hB)), find_deltas (nodup_vector hB), find_vector hB,
    find_vector hA]
  unfold receive
  cases (Table.find key k B).bind W.entry with
  | none => rfl
  | some e =>
    cases hA : Table.find key k A with
    | none => rfl
    | some r =>
      cases hentry : W.entry r with
      | none => simp [Option.filter_some, hentry]
      | some p =>
        have hstamp := W.stampOf_entry r p hentry
        by_cases hlt : W.stamp r < W.stampOf e
        · simp [Option.filter_some, hentry, hstamp, hlt]
        · simp [Option.filter_some, hentry, hstamp, hlt, settle]

end Exchange

section Agreement

variable [LinearOrder T] {W}

/-- What two rows are compared by: all that an entry carries. -/
structure View (W : Wire key ε T) (ν : Type*) where
  view : ρ → ν
  viewOf : ε → ν
  view_row : ∀ e, view (W.row e) = viewOf e
  view_update : ∀ e r, view (W.update e r) = viewOf e
  view_entry : ∀ r e, W.entry r = some e → view r = viewOf e
  stamp_eq : ∀ r q, view r = view q → W.stamp r = W.stamp q

/-- The rows that two parties may have under a key: a row that the other one lacks, or that is newer
than the other's, is exported, and rows with equal stamps do not differ. -/
def Settles (V : View W ν) : Option ρ → Option ρ → Prop
  | none, none => True
  | some r, none => (W.entry r).isSome
  | none, some q => (W.entry q).isSome
  | some r, some q => V.view r = V.view q ∨ W.stamp r < W.stamp q ∧ (W.entry q).isSome ∨
      W.stamp q < W.stamp r ∧ (W.entry r).isSome

def Latest (a b c : Option ρ) : Prop :=
  (c = a ∨ c = b) ∧ ∀ r, a = some r ∨ b = some r → ∃ q, c = some q ∧ W.stamp r ≤ W.stamp q

/-- Both have the same in the end, and it is the latest of what they had. -/
def Agree (V : View W ν) (a b a' b' : Option ρ) : Prop :=
  ∃ c, Latest (W := W) a b c ∧ a'.map V.view = c.map V.view ∧ b'.map V.view = c.map V.view

variable {V : View W ν}

theorem view_receive_none (r : ρ) : (W.receive none (some r)).map V.view =
    if (W.entry r).isSome then some (V.view r) else none := by
  show (match W.entry r with | none => none | some e => W.settle e none).map V.view = _
  cases hentry : W.entry r with
  | none => rfl
  | some e =>
    have hview : V.view (W.row e) = V.view r := (V.view_row e).trans (V.view_entry r e hentry).symm
    exact congrArg some hview

theorem view_receive_some (r q : ρ) : (W.receive (some r) (some q)).map V.view =
    some (if W.stamp r < W.stamp q ∧ (W.entry q).isSome then V.view q else V.view r) := by
  show (match W.entry q with | none => some r | some e => W.settle e (some r)).map V.view = _
  cases hentry : W.entry q with
  | none => simp
  | some e =>
    have hstamp : W.stampOf e = W.stamp q := W.stampOf_entry q e hentry
    have hview : V.view (W.update e r) = V.view q :=
      (V.view_update e r).trans (V.view_entry q e hentry).symm
    show (if W.stamp r < W.stampOf e then some (W.update e r) else some r).map V.view = _
    rw [hstamp]
    by_cases hlt : W.stamp r < W.stamp q
    · simp [hlt, hview]
    · simp [hlt]

theorem agree_receive_none_iff {r : ρ} :
    Agree V (some r) none (W.receive (some r) none) (W.receive none (some r)) ↔
      (W.entry r).isSome := by
  have hlatest : Latest (W := W) (some r) none (some r) :=
    ⟨Or.inl rfl, fun q hq => ⟨r, rfl, by simp_all⟩⟩
  constructor
  · rintro ⟨c, hc, ha, hb⟩
    obtain ⟨q, rfl, -⟩ := hc.2 r (Or.inl rfl)
    rw [view_receive_none] at hb
    by_contra hno
    rw [if_neg hno] at hb
    exact nomatch hb
  · intro hsome
    refine ⟨some r, hlatest, rfl, ?_⟩
    rw [view_receive_none, if_pos hsome]
    rfl

theorem Agree.symm {a b a' b' : Option ρ} (h : Agree V a b a' b') : Agree V b a b' a' := by
  obtain ⟨c, ⟨hmem, hmax⟩, ha, hb⟩ := h
  exact ⟨c, ⟨hmem.symm, fun r hr => hmax r hr.symm⟩, hb, ha⟩

theorem agree_receive_some_iff {r q : ρ} :
    Agree V (some r) (some q) (W.receive (some r) (some q)) (W.receive (some q) (some r)) ↔
      Settles V (some r) (some q) := by
  have hlatest : ∀ {c : ρ}, c = r ∨ c = q → W.stamp r ≤ W.stamp c → W.stamp q ≤ W.stamp c →
      Latest (W := W) (some r) (some q) (some c) := by
    intro c hc hr hq
    refine ⟨hc.imp (congrArg some) (congrArg some), fun p hp => ⟨c, rfl, ?_⟩⟩
    rcases hp with hp | hp
    · exact Option.some.inj hp ▸ hr
    · exact Option.some.inj hp ▸ hq
  unfold Agree
  rw [view_receive_some, view_receive_some]
  constructor
  · rintro ⟨c, -, hr, hq⟩
    have hsame := Option.some.inj (hr.trans hq.symm)
    rcases lt_trichotomy (W.stamp r) (W.stamp q) with hlt | heq | hgt
    · by_cases hsome : (W.entry q).isSome
      · exact Or.inr (Or.inl ⟨hlt, hsome⟩)
      · rw [if_neg fun h => hsome h.2, if_neg fun h => hlt.not_gt h.1] at hsame
        exact Or.inl hsame
    · rw [if_neg fun h => h.1.ne heq, if_neg fun h => h.1.ne heq.symm] at hsame
      exact Or.inl hsame
    · by_cases hsome : (W.entry r).isSome
      · exact Or.inr (Or.inr ⟨hgt, hsome⟩)
      · rw [if_neg fun h => hgt.not_gt h.1, if_neg fun h => hsome h.2] at hsame
        exact Or.inl hsame
  · rintro (hview | ⟨hlt, hsome⟩ | ⟨hgt, hsome⟩)
    · have hstamp := V.stamp_eq r q hview
      refine ⟨some r, hlatest (Or.inl rfl) le_rfl hstamp.ge, ?_, ?_⟩
      · rw [hview, ite_self, Option.map_some, hview]
      · rw [hview, ite_self, Option.map_some, hview]
    · refine ⟨some q, hlatest (Or.inr rfl) hlt.le le_rfl, ?_, ?_⟩
      · rw [if_pos ⟨hlt, hsome⟩, Option.map_some]
      · rw [if_neg fun h => hlt.not_gt h.1, Option.map_some]
    · refine ⟨some r, hlatest (Or.inl rfl) le_rfl hgt.le, ?_, ?_⟩
      · rw [if_neg fun h => hgt.not_gt h.1, Option.map_some]
      · rw [if_pos ⟨hgt, hsome⟩, Option.map_some]

theorem agree_receive_iff {a b : Option ρ} :
    Agree V a b (W.receive a b) (W.receive b a) ↔ Settles V a b := by
  cases a with
  | none =>
    cases b with
    | none => exact iff_of_true ⟨none, ⟨Or.inl rfl, by simp⟩, rfl, rfl⟩ trivial
    | some q => exact ⟨fun h => agree_receive_none_iff.mp h.symm, fun h =>
        (agree_receive_none_iff.mpr h).symm⟩
  | some r =>
    cases b with
    | none => exact agree_receive_none_iff
    | some q => exact agree_receive_some_iff

end Agreement

end Wire
end Lww
