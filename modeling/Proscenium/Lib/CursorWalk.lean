import Proscenium.Lib.Timeline

/-! Walks through a table by its times: each query gives at most a page of the
rows that are strictly older than the cursor, and the oldest row of a page is
the next cursor. The rows of one time are then all on one page, or some of them
on none. -/

namespace Timeline

variable {ρ κ T : Type*}

/-- `ORDER BY time DESC`, with any order of equal times. -/
structure NewestFirst [LinearOrder T] (time : ρ → T) where
  sort : List ρ → List ρ
  perm : ∀ t, (sort t).Perm t
  desc : ∀ t, (sort t).Pairwise fun a b => time b ≤ time a

/-- `LIMIT`, which is none if it is negative. -/
def limited (limit : Int64) (t : List ρ) : List ρ := if limit < 0 then t else t.take limit.toInt.toNat

inductive Walk (query : Option κ → List ρ) (oldest : List ρ → Option κ) : Option κ → List (List ρ) → Prop
  | done {before : Option κ} : query before = [] → Walk query oldest before []
  | more {before : Option κ} {next : κ} {pages : List (List ρ)} : query before ≠ [] →
    oldest (query before) = some next → Walk query oldest (some next) pages →
    Walk query oldest before (query before :: pages)

section Queries

variable [LinearOrder T] (time : ρ → T)

def below (before : Option T) (t : List ρ) : List ρ := t.filter fun r => before.all (time r < ·)

/-- The rows of each time are on one page: the first of them, counted from the newest row, is on
the page of the last. -/
def FitsPages (size : Nat) (t : List ρ) : Prop :=
  ∀ r ∈ t, t.countP (time r < time ·) / size = (t.countP (time r ≤ time ·) - 1) / size

instance (size : Nat) (t : List ρ) : Decidable (FitsPages time size t) :=
  inferInstanceAs (Decidable (∀ r ∈ t, _))

variable {time} {size : Nat} {t : List ρ}

theorem fitsPages_congr {t' : List ρ} (h : t.Perm t') : FitsPages time size t ↔ FitsPages time size t' := by
  unfold FitsPages
  simp only [h.countP_eq, h.mem_iff]

theorem below_below {before next : T} (hle : next ≤ before) :
    below time (some next) (below time (some before) t) = below time (some next) t := by
  unfold below
  rw [List.filter_filter]
  refine List.filter_congr fun r _ => ?_
  have himp : time r < next → time r < before := fun h => h.trans_le hle
  simpa using himp

theorem countP_le_pos {r : ρ} (hr : r ∈ t) : 0 < t.countP (time r ≤ time ·) :=
  List.countP_pos_iff.mpr ⟨r, hr, by simp⟩

/-- Behind a full page of newer rows the counts are those of the rest, a page further. -/
theorem fitsPages_append {P R : List ρ} (hsize : 0 < size) (hP : P.length ≤ size)
    (hfull : R ≠ [] → P.length = size) (hlt : ∀ p ∈ P, ∀ x ∈ R, time x < time p) :
    FitsPages time size (P ++ R) ↔ FitsPages time size R := by
  have hhead : ∀ p ∈ P, (P ++ R).countP (time p < time ·) / size = ((P ++ R).countP (time p ≤ time ·) - 1) / size := by
    intro p hp
    -- nothing in the rest is as new as a row of the page
    have hnone : R.countP (time p ≤ time ·) = 0 := by
      rw [List.countP_eq_zero]
      intro x hx hle
      exact (hlt p hp x hx).not_ge (of_decide_eq_true hle)
    have hnewer : R.countP (time p < time ·) = 0 := by
      rw [List.countP_eq_zero]
      intro x hx hle
      exact (hlt p hp x hx).not_gt (of_decide_eq_true hle)
    have hstrict : P.countP (time p < time ·) < P.countP (time p ≤ time ·) := by
      have hself : 0 < P.countP (fun q => time p ≤ time q ∧ ¬ time p < time q) :=
        List.countP_pos_iff.mpr ⟨p, hp, by simp⟩
      have hsplit : P.countP (time p ≤ time ·) = P.countP (time p < time ·) +
          P.countP (fun q => time p ≤ time q ∧ ¬ time p < time q) := by
        rw [List.countP_eq_countP_filter_add P _ fun q => decide (time p < time q), List.countP_filter,
          List.countP_filter]
        congr 1
        · refine List.countP_congr fun q _ => ?_
          simpa using le_of_lt
        · refine List.countP_congr fun q _ => ?_
          simp
      omega
    have hle : P.countP (time p ≤ time ·) ≤ P.length := List.countP_le_length
    rw [List.countP_append, List.countP_append, hnone, hnewer, Nat.div_eq_of_lt (by omega), Nat.div_eq_of_lt (by omega)]
  have htail : ∀ x ∈ R, ((P ++ R).countP (time x < time ·) / size = ((P ++ R).countP (time x ≤ time ·) - 1) / size ↔
      R.countP (time x < time ·) / size = (R.countP (time x ≤ time ·) - 1) / size) := by
    intro x hx
    have hlen := hfull (List.ne_nil_of_mem hx)
    have hnewer : P.countP (time x < time ·) = size := by
      rw [← hlen, List.countP_eq_length]
      exact fun p hp => decide_eq_true (hlt p hp x hx)
    have hnot : P.countP (time x ≤ time ·) = size := by
      rw [← hlen, List.countP_eq_length]
      exact fun p hp => decide_eq_true (hlt p hp x hx).le
    have hpos : 0 < R.countP (time x ≤ time ·) := countP_le_pos hx
    rw [List.countP_append, List.countP_append, hnewer, hnot, Nat.add_sub_assoc hpos, Nat.add_div_left _ hsize,
      Nat.add_div_left _ hsize, Nat.succ_inj]
  unfold FitsPages
  rw [List.forall_mem_append, and_iff_right hhead]
  exact forall₂_congr htail

theorem lt_of_fitsPages {P R : List ρ} {r x : ρ} (hfits : FitsPages time size (P ++ R)) (hsize : 0 < size)
    (hP : P.length = size) (hr : r ∈ P) (hlast : ∀ p ∈ P, time r ≤ time p) (hR : ∀ x ∈ R, time x ≤ time r)
    (hx : x ∈ R) : time x < time r := by
  by_contra hnot
  have hrow := hfits r (List.mem_append_left R hr)
  have hnewer : R.countP (time r < time ·) = 0 := by
    rw [List.countP_eq_zero]
    intro y hy hlt
    exact (hR y hy).not_gt (of_decide_eq_true hlt)
  have hall : P.countP (time r ≤ time ·) = size := by
    rw [← hP, List.countP_eq_length]
    exact fun p hp => decide_eq_true (hlast p hp)
  have hsame : 0 < R.countP (time r ≤ time ·) :=
    List.countP_pos_iff.mpr ⟨x, hx, decide_eq_true (not_lt.mp hnot)⟩
  have hself : 0 < P.countP fun a => ¬ decide (time r < time a) = true := List.countP_pos_iff.mpr ⟨r, hr, by simp⟩
  have hlen := List.length_eq_countP_add_countP (fun a => decide (time r < time a)) (l := P)
  rw [List.countP_append, List.countP_append, hnewer, hall, Nat.div_eq_of_lt (by omega), Nat.add_sub_assoc hsame,
    Nat.add_div_left _ hsize] at hrow
  exact absurd hrow.symm (Nat.succ_ne_zero _)

theorem filter_lt_eq_self_iff {R : List ρ} {last : T} :
    R.filter (fun x => time x < last) = R ↔ ∀ x ∈ R, time x < last := by
  simp [List.filter_eq_self]

theorem fitsPages_append_iff {P R : List ρ} {r : ρ} (hsize : 0 < size) (hP : P.length ≤ size)
    (hfull : R ≠ [] → P.length = size) (hr : r ∈ P) (hlast : ∀ p ∈ P, time r ≤ time p)
    (hR : ∀ x ∈ R, time x ≤ time r) : FitsPages time size (P ++ R) ↔
      (∀ x ∈ R, time x < time r) ∧ FitsPages time size (R.filter fun x => time x < time r) := by
  have hrest : (∀ x ∈ R, time x < time r) →
      (FitsPages time size (P ++ R) ↔ FitsPages time size (R.filter fun x => time x < time r)) := fun hlt => by
    rw [filter_lt_eq_self_iff.mpr hlt]
    exact fitsPages_append hsize hP hfull fun p hp x hx => (hlt x hx).trans_le (hlast p hp)
  constructor
  · intro hfits
    have hlt : ∀ x ∈ R, time x < time r := fun x hx =>
      lt_of_fitsPages hfits hsize (hfull (List.ne_nil_of_mem hx)) hr hlast hR hx
    exact ⟨hlt, (hrest hlt).mp hfits⟩
  · rintro ⟨hlt, hfits⟩
    exact (hrest hlt).mpr hfits

end Queries

section Walks

variable [LinearOrder T] {time : ρ → T} {size : Nat} {t : List ρ}
variable {query : Option κ → List ρ} {oldest : List ρ → Option κ} {stamp : κ → T}

/-- What a query gives is the next page in some order, and its oldest row is the last of the page. -/
def Serves (sort : NewestFirst time) (stamp : κ → T) (size : Nat) (t : List ρ) (query : Option κ → List ρ)
    (oldest : List ρ → Option κ) : Prop :=
  ∀ before, (query before).Perm ((sort.sort (below time (before.map stamp) t)).take size) ∧
    (oldest (query before)).map stamp = ((sort.sort (below time (before.map stamp) t)).take size).getLast?.map time

variable {sort : NewestFirst time}

theorem Serves.mem_below (hq : Serves sort stamp size t query oldest) {before : Option κ} {x : ρ}
    (hx : x ∈ query before) : x ∈ below time (before.map stamp) t :=
  (sort.perm _).mem_iff.mp (List.mem_of_mem_take ((hq before).1.mem_iff.mp hx))

theorem Serves.exists_next (hq : Serves sort stamp size t query oldest) {before : Option κ} {next : κ}
    (hnext : oldest (query before) = some next) :
    ∃ r, ((sort.sort (below time (before.map stamp) t)).take size).getLast? = some r ∧ stamp next = time r ∧
      r ∈ below time (before.map stamp) t := by
  have hlast := (hq before).2
  rw [hnext, Option.map_some] at hlast
  obtain ⟨r, hr, htime⟩ := Option.map_eq_some_iff.mp hlast.symm
  exact ⟨r, hr, htime.symm, (sort.perm _).mem_iff.mp (List.mem_of_mem_take (List.mem_of_getLast? hr))⟩

theorem Serves.below_next (hq : Serves sort stamp size t query oldest) {before : Option κ} {next : κ}
    (hnext : oldest (query before) = some next) :
    below time (some (stamp next)) t = below time (some (stamp next)) (below time (before.map stamp) t) := by
  obtain ⟨r, -, htime, hr⟩ := hq.exists_next hnext
  cases before with
  | none => simp [below]
  | some b =>
    have hlt : time r < stamp b := by simpa [below] using (List.mem_filter.mp hr).2
    rw [htime, Option.map_some, below_below hlt.le]

theorem mem_below_of_walk (hq : Serves sort stamp size t query oldest) {before : Option κ} {pages : List (List ρ)}
    (hwalk : Walk query oldest before pages) : ∀ x ∈ pages.flatten, x ∈ below time (before.map stamp) t := by
  induction hwalk with
  | done => simp
  | more hne hnext _ ih =>
    intro x hx
    rw [List.flatten_cons] at hx
    rcases List.mem_append.mp hx with hx | hx
    · exact hq.mem_below hx
    · have hlater := ih x hx
      rw [Option.map_some, hq.below_next hnext] at hlater
      exact List.mem_of_mem_filter hlater

theorem Walk.unique {before : Option κ} {pages pages' : List (List ρ)} (h : Walk query oldest before pages)
    (h' : Walk query oldest before pages') : pages = pages' := by
  induction h generalizing pages' with
  | done hnil =>
    cases h' with
    | done => simp
    | more hne => exact absurd hnil hne
  | more hne hnext _ ih =>
    cases h' with
    | done hnil => exact absurd hnil hne
    | more _ hnext' hrest =>
      obtain rfl := Option.some.inj (hnext.symm.trans hnext')
      rw [ih hrest]

theorem length_take_of_drop_ne_nil {l : List ρ} (h : l.drop size ≠ []) : (l.take size).length = size := by
  have hlen := List.length_pos_iff.mpr h
  rw [List.length_drop] at hlen
  rw [List.length_take]
  omega

theorem le_of_getLast? {P : List ρ} {r : ρ} (hsorted : P.Pairwise fun a b => time b ≤ time a)
    (hr : P.getLast? = some r) : ∀ p ∈ P, time r ≤ time p := by
  obtain ⟨P', rfl⟩ := List.getLast?_eq_some_iff.mp hr
  intro p hp
  rcases List.mem_append.mp hp with hp | hp
  · exact (List.pairwise_append.mp hsorted).2.2 p hp r (List.mem_singleton_self r)
  · rw [List.mem_singleton.mp hp]

theorem perm_below_last {P R l : List ρ} {r : ρ} (hall : (P ++ R).Perm l) (hlast : ∀ p ∈ P, time r ≤ time p) :
    (below time (some (time r)) l).Perm (R.filter fun x => time x < time r) := by
  refine (hall.symm.filter _).trans ?_
  have hP : P.filter (fun x => (some (time r)).all (time x < ·)) = [] := by
    rw [List.filter_eq_nil_iff]
    intro p hp
    simpa using hlast p hp
  rw [List.filter_append, hP, List.nil_append]
  simp

/-- A walk ends, and it gives every row once exactly if the rows of each time fit on a page. -/
theorem exists_walk_from (hq : Serves sort stamp size t query oldest) (hsize : 0 < size) (before : Option κ) :
    ∃ pages, Walk query oldest before pages ∧
      (pages.flatten.Perm (below time (before.map stamp) t) ↔
        FitsPages time size (below time (before.map stamp) t)) := by
  induction hlen : (below time (before.map stamp) t).length using Nat.strong_induction_on generalizing before with
  | _ n ih =>
    have hperm := (hq before).1
    by_cases hnil : query before = []
    · -- nothing is left
      have hrest : below time (before.map stamp) t = [] := by
        have htake := List.nil_perm.mp (hnil ▸ hperm)
        have hsort := (List.take_eq_nil_iff.mp htake).resolve_left hsize.ne'
        exact List.nil_perm.mp (hsort ▸ sort.perm _)
      refine ⟨[], .done hnil, ?_⟩
      rw [hrest]
      simp [FitsPages]
    · obtain ⟨next, hnext⟩ : ∃ next, oldest (query before) = some next := by
        have hsome : ((oldest (query before)).map stamp).isSome := by
          rw [(hq before).2, Option.isSome_map, List.getLast?_isSome]
          exact fun htake => hnil (List.perm_nil.mp (htake ▸ hperm))
        exact Option.isSome_iff_exists.mp (by simpa using hsome)
      obtain ⟨r, hr, htime, hmem⟩ := hq.exists_next hnext
      have hbelow := hq.below_next hnext
      have hshorter : (below time (some (stamp next)) t).length < n := by
        rw [hbelow, ← hlen, htime]
        exact List.length_filter_lt_length_iff_exists.mpr ⟨r, hmem, by simp⟩
      obtain ⟨pages, hwalk, hiff⟩ := ih _ hshorter (some next) rfl
      refine ⟨query before :: pages, .more hnil hnext hwalk, ?_⟩
      -- the page `P` and the rest `R` in the order of the query
      have hsorted := sort.desc (below time (before.map stamp) t)
      have hall := sort.perm (below time (before.map stamp) t)
      have hfull : (sort.sort (below time (before.map stamp) t)).drop size ≠ [] →
          ((sort.sort (below time (before.map stamp) t)).take size).length = size := length_take_of_drop_ne_nil
      have hshort := List.length_take_le size (sort.sort (below time (before.map stamp) t))
      rw [← List.take_append_drop size (sort.sort _)] at hsorted hall
      generalize (sort.sort (below time (before.map stamp) t)).take size = P at *
      generalize (sort.sort (below time (before.map stamp) t)).drop size = R at *
      have hrP : r ∈ P := List.mem_of_getLast? hr
      obtain ⟨hPsorted, -, hcross⟩ := List.pairwise_append.mp hsorted
      have hlast : ∀ p ∈ P, time r ≤ time p := le_of_getLast? hPsorted hr
      have hnextRows := perm_below_last hall hlast
      rw [← htime, ← hbelow, htime] at hnextRows
      rw [Option.map_some, htime, hnextRows.congr_right, fitsPages_congr hnextRows] at hiff
      have hpages : (query before :: pages).flatten.Perm (below time (before.map stamp) t) ↔ pages.flatten.Perm R := by
        rw [List.flatten_cons, (hperm.append_right _).congr_left, ← hall.congr_right, List.perm_append_left_iff]
      rw [hpages, ← fitsPages_congr hall,
        fitsPages_append_iff hsize hshort hfull hrP hlast fun x hx => hcross r hrP x hx, ← hiff]
      -- what the later pages give is older than the cursor
      constructor
      · intro hrest
        have hlt : ∀ x ∈ R, time x < time r := fun x hx => by
          have hx' := mem_below_of_walk hq hwalk x (hrest.mem_iff.mpr hx)
          simpa [below, htime] using (List.mem_filter.mp hx').2
        rw [filter_lt_eq_self_iff.mpr hlt]
        exact ⟨hlt, hrest⟩
      · rintro ⟨hlt, hrest⟩
        rwa [filter_lt_eq_self_iff.mpr hlt] at hrest

end Walks

section Select

variable [LinearOrder T] {time : ρ → T}

/-- Rows with equal times stay in the order of the table. -/
def stable (time : ρ → T) : NewestFirst time where
  sort := ordered fun r => OrderDual.toDual (time r)
  perm := perm_ordered
  desc t := by
    have hsorted : (ordered (fun r => OrderDual.toDual (time r)) t).Pairwise fun a b =>
        OrderDual.toDual (time a) ≤ OrderDual.toDual (time b) := pairwise_ordered t
    exact hsorted.imp OrderDual.toDual_le_toDual.mp

/-- What `ORDER BY time DESC` may list. -/
structure Lists (time : ρ → T) (t l : List ρ) : Prop where
  perm : l.Perm t
  desc : l.Pairwise fun a b => time b ≤ time a

theorem NewestFirst.lists (sort : NewestFirst time) (t : List ρ) : Lists time t (sort.sort t) :=
  ⟨sort.perm t, sort.desc t⟩

theorem exists_lists_before {a b : ρ} {t : List ρ} (hab : [a, b].Subperm t) (hle : time b ≤ time a) :
    ∃ l, Lists time t l ∧ [a, b].Sublist l := by
  obtain ⟨pair, hpair, hsub⟩ := hab
  obtain ⟨rest, happend⟩ := hsub.exists_perm_append
  have hrest : t.Perm ([a, b] ++ rest) := happend.trans (hpair.append_right rest)
  let s := (stable time).sort (b :: rest)
  have hdesc : s.Pairwise fun a b => time b ≤ time a := (stable time).desc _
  have hperm : s.Perm (b :: rest) := (stable time).perm _
  have hsplit : (s.filter (time a < time ·) ++ s.filter fun x => ¬ time a < time x).Perm s := by
    have hparts := List.filter_append_perm (fun x => decide (time a < time x)) s
    simpa only [decide_not] using hparts
  refine ⟨s.filter (time a < time ·) ++ a :: s.filter fun x => ¬ time a < time x, ⟨?_, ?_⟩, ?_⟩
  · refine List.perm_middle.trans (List.Perm.trans ?_ hrest.symm)
    exact (hsplit.trans hperm).cons a
  · refine List.pairwise_append.mpr ⟨hdesc.filter _, List.pairwise_cons.mpr ⟨?_, hdesc.filter _⟩, ?_⟩
    · intro x hx
      have hx := of_decide_eq_true (List.mem_filter.mp hx).2
      exact not_lt.mp hx
    · intro x hx y hy
      have hx := of_decide_eq_true (List.mem_filter.mp hx).2
      rcases List.mem_cons.mp hy with rfl | hy
      · exact hx.le
      · have hy := of_decide_eq_true (List.mem_filter.mp hy).2
        exact (not_lt.mp hy).trans hx.le
  · have hb : b ∈ s.filter fun x => ¬ time a < time x :=
      List.mem_filter.mpr ⟨hperm.mem_iff.mpr List.mem_cons_self, decide_eq_true hle.not_gt⟩
    exact List.sublist_append_of_sublist_right ((List.singleton_sublist.mpr hb).cons_cons a)

theorem Lists.of_perm {t t' l : List ρ} (h : Lists time t l) (ht : t.Perm t') : Lists time t' l :=
  ⟨h.perm.trans ht, h.desc⟩

section Answers

variable {β : Type*} (time) (read : ρ → β)

/-- What a query may answer that reads its rows in this order. -/
def Answers (t : List ρ) (answer : List β) : Prop := ∃ l, Lists time t l ∧ l.map read = answer

variable {time read} {t t' : List ρ} {answer : List β}

theorem answers_of_perm (h : t.Perm t') : Answers time read t answer ↔ Answers time read t' answer := by
  constructor
  · rintro ⟨l, hl, hread⟩
    exact ⟨l, hl.of_perm h, hread⟩
  · rintro ⟨l, hl, hread⟩
    exact ⟨l, hl.of_perm h.symm, hread⟩

theorem Answers.replace {f : ρ → ρ} (hread : ∀ x ∈ t, read (f x) = read x)
    (hle : ∀ a ∈ t, ∀ b ∈ t, time b ≤ time a → time (f b) ≤ time (f a)) (h : Answers time read t answer) :
    Answers time read (t.map f) answer := by
  obtain ⟨l, ⟨hperm, hdesc⟩, rfl⟩ := h
  refine ⟨l.map f, ⟨hperm.map f, ?_⟩, ?_⟩
  · refine List.pairwise_map.mpr (hdesc.imp_of_mem fun ha hb hab => ?_)
    exact hle _ (hperm.mem_iff.mp ha) _ (hperm.mem_iff.mp hb) hab
  · rw [List.map_map]
    exact List.map_congr_left fun x hx => hread x (hperm.mem_iff.mp hx)

theorem exists_le_of_answers (h : ∀ answer, Answers time read t answer → Answers time read t' answer) {a b : ρ}
    (hab : [a, b].Subperm t) (hle : time b ≤ time a) :
    ∃ a' ∈ t', ∃ b' ∈ t', read a' = read a ∧ read b' = read b ∧ time b' ≤ time a' := by
  obtain ⟨l, hl, hsub⟩ := exists_lists_before hab hle
  obtain ⟨l', ⟨hperm, hdesc⟩, heq⟩ := h (l.map read) ⟨l, hl, rfl⟩
  have hsub' : [read a, read b].Sublist (l'.map read) := heq ▸ hsub.map read
  obtain ⟨pair, hpair, hread⟩ := List.sublist_map_iff.mp hsub'
  obtain ⟨a', rest, rfl, ha, hrest⟩ := List.map_eq_cons_iff.mp hread.symm
  obtain ⟨b', rest', rfl, hb, hnil⟩ := List.map_eq_cons_iff.mp hrest
  have hmem : ∀ x ∈ a' :: b' :: rest', x ∈ t' := fun x hx => hperm.mem_iff.mp (hpair.subset hx)
  refine ⟨a', hmem a' (by simp), b', hmem b' (by simp), ha, hb, ?_⟩
  exact List.rel_of_pairwise_cons (hdesc.sublist hpair) List.mem_cons_self

end Answers

/-- `SELECT … WHERE time < before AND shown ORDER BY time DESC LIMIT limit`. -/
def selectPage (sort : NewestFirst time) (stamp : κ → T) (shown : ρ → Bool) (t : List ρ) (limit : Int64)
    (before : Option κ) : List ρ :=
  limited limit (sort.sort (t.filter fun r => before.all (time r < stamp ·) ∧ shown r))

variable (time) in
def FitsLimit (limit : Int64) (t : List ρ) : Prop := limit < 0 ∨ FitsPages time limit.toInt.toNat t

variable {sort : NewestFirst time} {stamp : κ → T} {shown : ρ → Bool} {t : List ρ} {limit : Int64}

theorem fitsPages_of_length_lt {size : Nat} (h : t.length < size) : FitsPages time size t := by
  intro r _
  have hnewer : t.countP (time r < time ·) ≤ t.length := List.countP_le_length
  have hupto : t.countP (time r ≤ time ·) ≤ t.length := List.countP_le_length
  rw [Nat.div_eq_of_lt (by omega), Nat.div_eq_of_lt (by omega)]

theorem selectPage_eq (before : Option κ) : selectPage sort stamp shown t limit before =
    limited limit (sort.sort (below time (before.map stamp) (t.filter shown))) := by
  unfold selectPage below
  rw [List.filter_filter]
  refine congrArg (fun l => limited limit (sort.sort l)) (List.filter_congr fun r _ => ?_)
  cases before <;> simp

variable (time) in
theorem exists_size (hlimit : limit ≠ 0) (l : List ρ) : ∃ size, 0 < size ∧
    (∀ l' : List ρ, l'.length ≤ l.length → limited limit l' = l'.take size) ∧
    (FitsPages time size l ↔ FitsLimit time limit l) := by
  by_cases hneg : limit < 0
  · refine ⟨l.length + 1, by omega, fun l' hl' => ?_, ?_⟩
    · unfold limited
      rw [if_pos hneg, List.take_of_length_le (by omega)]
    · exact iff_of_true (fitsPages_of_length_lt (by omega)) (.inl hneg)
  · have hpos : 0 < limit.toInt := by
      have hnonneg := Int64.le_iff_toInt_le.mp (Int64.not_lt.mp hneg)
      have hne : limit.toInt ≠ 0 := fun h => hlimit (Int64.toInt_inj.mp h)
      rw [Int64.toInt_zero] at hnonneg
      omega
    refine ⟨limit.toInt.toNat, by omega, fun l' _ => ?_, ?_⟩
    · unfold limited
      rw [if_neg hneg]
    · unfold FitsLimit
      rw [or_iff_right hneg]

theorem exists_walk_selectPage (view : List ρ → List ρ) {oldest : List ρ → Option κ} (hview : ∀ p, (view p).Perm p)
    (holdest : ∀ p, (oldest (view p)).map stamp = p.getLast?.map time) (hlimit : limit ≠ 0) :
    ∃ pages, Walk (fun before => view (selectPage sort stamp shown t limit before)) oldest none pages ∧
      (pages.flatten.Perm (t.filter shown) ↔ FitsLimit time limit (t.filter shown)) := by
  obtain ⟨size, hsize, htake, hfits⟩ := exists_size time hlimit (t.filter shown)
  have hq : Serves sort stamp size (t.filter shown) (fun before => view (selectPage sort stamp shown t limit before))
      oldest := by
    intro before
    have hlen : (sort.sort (below time (before.map stamp) (t.filter shown))).length ≤ (t.filter shown).length := by
      rw [(sort.perm _).length_eq]
      exact List.length_filter_le _ _
    dsimp only
    rw [selectPage_eq, htake _ hlen]
    exact ⟨hview _, holdest _⟩
  obtain ⟨pages, hwalk, hiff⟩ := exists_walk_from hq hsize none
  have hnone : below time ((none : Option κ).map stamp) (t.filter shown) = t.filter shown := by
    simp [below]
  rw [hnone, hfits] at hiff
  exact ⟨pages, hwalk, hiff⟩

end Select
end Timeline
