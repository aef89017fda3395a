import Proscenium.Server.TrendingDefs

/-! What is counted for a trending hashtag. A tag is added once for each place
where it stands in a post, and only the newest ten thousand posts are read; a
count is right where the places too many are as many as the posts that are missed. -/

namespace Proscenium.Server

open Proscenium.Types Timeline

variable (U : CharCase)

/-- The run right behind a sign is maximal, and not empty. -/
def HasTag (tag : String) (content : List Char) : Prop :=
  ∃ before run rest, content = before ++ '#' :: run ++ rest ∧ run ≠ [] ∧ (∀ c ∈ run, U.isTagChar c) ∧
    (∀ c ∈ rest.head?, ¬ U.isTagChar c) ∧ tag = U.toLowercase run

def leadingTag : List Char → Option String
  | [] => none
  | c :: rest =>
    if c = '#' ∧ rest.takeWhile U.isTagChar ≠ [] then some (U.toLowercase (rest.takeWhile U.isTagChar)) else none

def tagsOf (content : List Char) : List String := content.tails.filterMap (leadingTag U)

variable {U}

theorem isTagChar_hash : U.isTagChar '#' = false := by
  unfold CharCase.isTagChar
  rw [U.isAlphanumeric_hash]
  decide

theorem tagsOf_nil : tagsOf U [] = [] := rfl

theorem tagsOf_cons (c : Char) (rest : List Char) :
    tagsOf U (c :: rest) = (leadingTag U (c :: rest)).toList ++ tagsOf U rest := by
  unfold tagsOf
  rw [List.tails_cons]
  cases h : leadingTag U (c :: rest) with
  | none => rw [List.filterMap_cons_none h, Option.toList_none, List.nil_append]
  | some tag => rw [List.filterMap_cons_some h, Option.toList_some, List.singleton_append]

theorem leadingTag_cons (c : Char) (rest : List Char) : leadingTag U (c :: rest) =
    if c = '#' ∧ rest.takeWhile U.isTagChar ≠ [] then some (U.toLowercase (rest.takeWhile U.isTagChar)) else none :=
  rfl

theorem leadingTag_of_ne {c : Char} (hc : c ≠ '#') (rest : List Char) : leadingTag U (c :: rest) = none := by
  rw [leadingTag_cons]
  exact if_neg fun h => hc h.1

theorem leadingTag_hash {rest : List Char} (hne : rest.takeWhile U.isTagChar ≠ []) :
    leadingTag U ('#' :: rest) = some (U.toLowercase (rest.takeWhile U.isTagChar)) := by
  rw [leadingTag_cons]
  exact if_pos ⟨rfl, hne⟩

theorem leadingTag_eq_some {tag : String} {chars : List Char} (h : leadingTag U chars = some tag) :
    ∃ rest, chars = '#' :: rest ∧ rest.takeWhile U.isTagChar ≠ [] ∧
      tag = U.toLowercase (rest.takeWhile U.isTagChar) := by
  cases chars with
  | nil => cases h
  | cons c rest =>
    rw [leadingTag_cons] at h
    by_cases hlead : c = '#' ∧ rest.takeWhile U.isTagChar ≠ []
    · rw [if_pos hlead] at h
      obtain ⟨rfl, hne⟩ := hlead
      exact ⟨rest, rfl, hne, (Option.some.inj h).symm⟩
    · rw [if_neg hlead] at h
      cases h

theorem tagsOf_dropWhile (chars : List Char) : tagsOf U (chars.dropWhile U.isTagChar) = tagsOf U chars := by
  induction chars with
  | nil => rfl
  | cons c chars ih =>
    rw [List.dropWhile_cons]
    split
    next htag =>
      have hne : c ≠ '#' := by
        rintro rfl
        exact absurd htag (by simp [isTagChar_hash])
      rw [ih, tagsOf_cons, leadingTag_of_ne hne, Option.toList_none, List.nil_append]
    next => rfl

theorem extractHashtags_eq (content : List Char) : extractHashtags U content = tagsOf U content := by
  induction content using extractHashtags.induct U with
  | case1 => rw [extractHashtags, tagsOf_nil]
  | case2 chars tag hempty ih =>
    have hrun : chars.takeWhile U.isTagChar = [] := List.isEmpty_iff.mp hempty
    have hlead : leadingTag U ('#' :: chars) = none := by simp [leadingTag_cons, hrun]
    rw [extractHashtags, if_pos rfl, if_pos hempty, ih, tagsOf_dropWhile, tagsOf_cons, hlead,
      Option.toList_none, List.nil_append]
  | case3 chars tag hrun ih =>
    have hne : chars.takeWhile U.isTagChar ≠ [] := fun h => hrun (List.isEmpty_iff.mpr h)
    rw [extractHashtags, if_pos rfl, if_neg hrun, ih, tagsOf_dropWhile, tagsOf_cons, leadingTag_hash hne,
      Option.toList_some, List.singleton_append]
  | case4 c chars hc ih =>
    rw [extractHashtags, if_neg hc, ih, tagsOf_cons, leadingTag_of_ne hc, Option.toList_none, List.nil_append]

theorem takeWhile_run {run rest : List Char} (hrun : ∀ c ∈ run, U.isTagChar c)
    (hrest : ∀ c ∈ rest.head?, ¬ U.isTagChar c) : (run ++ rest).takeWhile U.isTagChar = run := by
  rw [List.takeWhile_append_of_pos hrun]
  cases rest with
  | nil => simp
  | cons c rest =>
    have hc : ¬ U.isTagChar c := hrest c rfl
    rw [List.takeWhile_cons_of_neg hc, List.append_nil]

theorem mem_tagsOf {tag : String} {content : List Char} : tag ∈ tagsOf U content ↔ HasTag U tag content := by
  unfold tagsOf
  rw [List.mem_filterMap]
  constructor
  · rintro ⟨chars, hchars, hlead⟩
    obtain ⟨before, rfl⟩ := (List.mem_tails _ _).mp hchars
    obtain ⟨rest, rfl, hne, rfl⟩ := leadingTag_eq_some hlead
    have hsplit := List.takeWhile_append_dropWhile (p := U.isTagChar) (l := rest)
    refine ⟨before, rest.takeWhile U.isTagChar, rest.dropWhile U.isTagChar, ?_, hne, ?_, ?_, rfl⟩
    · rw [List.append_assoc, List.cons_append, hsplit]
    · intro c hc
      exact List.mem_takeWhile_imp hc
    · intro c hc
      have := List.head?_dropWhile_not U.isTagChar rest
      rw [hc] at this
      simpa using this
  · rintro ⟨before, run, rest, rfl, hne, hrun, hrest, rfl⟩
    refine ⟨'#' :: (run ++ rest), (List.mem_tails _ _).mpr ⟨before, by simp⟩, ?_⟩
    have htake := takeWhile_run hrun hrest
    rw [leadingTag_hash (htake.symm ▸ hne), htake]

instance (tag : String) (content : List Char) : Decidable (HasTag U tag content) :=
  decidable_of_iff _ mem_tagsOf

variable (U)

def occurrences (posts : List Post) : List (String × Post) :=
  posts.flatMap fun p => (tagsOf U p.content.toList).map fun tag => (tag, p)

def withTag (tag : String) (posts : List Post) : List Post := posts.filter fun p => HasTag U tag p.content.toList

def repeats (tag : String) (posts : List Post) : ℕ :=
  (posts.map fun p => (tagsOf U p.content.toList).count tag - 1).sum

variable {U} {posts : List Post} {tag : String}

theorem tagStats_eq (posts : List Post) :
    tagStats U posts = (occurrences U posts).foldl (fun m o => countTag o.2 m o.1) [] := by
  unfold tagStats occurrences
  rw [List.foldl_flatMap]
  congr 1
  funext m p
  rw [List.foldl_map]
  unfold countPost
  rw [extractHashtags_eq]

theorem mem_countTag {p : Post} {m : TagMap} {e : String × TagStats} (h : e ∈ countTag p m tag) :
    (e ∈ m ∧ e.1 ≠ tag) ∨
      (∃ stats, (tag, stats) ∈ m ∧
        e = (tag, ⟨stats.posts ++ [p.storedTimestamp], insert p.author stats.authors⟩)) ∨
      (∀ q ∈ m, q.1 ≠ tag) ∧ e = (tag, ⟨[p.storedTimestamp], {p.author}⟩) := by
  unfold countTag at h
  rcases Table.mem_upsert_iff.mp h with hold | ⟨q, hq, htag, rfl⟩ | hnew
  · exact Or.inl hold
  · subst htag
    exact Or.inr (Or.inl ⟨q.2, hq, rfl⟩)
  · exact Or.inr (Or.inr hnew)

theorem exists_mem_countTag {p : Post} {m : TagMap} {tag' : String} :
    (∃ e ∈ countTag p m tag, e.1 = tag') ↔ (∃ e ∈ m, e.1 = tag') ∨ tag = tag' := by
  have hany : ∀ t : TagMap, (∃ e ∈ t, e.1 = tag') ↔ t.any (fun e => e.1 = tag') = true := by
    intro t
    simp
  rw [hany, hany]
  unfold countTag
  by_cases htag : tag = tag'
  · subst htag
    rw [Table.any_upsert_self (by simp) (by simp)]
    simp
  · rw [Table.any_upsert_of_ne (by simpa using htag)]
    · simp [htag]
    · intro e he
      rfl

theorem exists_mem_append_singleton {α : Type} {p : α → Prop} {l : List α} {a : α} :
    (∃ x ∈ l ++ [a], p x) ↔ (∃ x ∈ l, p x) ∨ p a := by
  simp [or_and_right, exists_or]

/-- What the map says after the places `os`. -/
structure Tallied (os : List (String × Post)) (m : TagMap) : Prop where
  posts : ∀ e ∈ m, e.2.posts.length = os.countP (·.1 = e.1)
  authors : ∀ e ∈ m, ∀ a, a ∈ e.2.authors ↔ ∃ o ∈ os, o.1 = e.1 ∧ o.2.author = a
  listed : ∀ tag, (∃ e ∈ m, e.1 = tag) ↔ ∃ o ∈ os, o.1 = tag

namespace Tallied

variable {os : List (String × Post)} {m : TagMap}

theorem nil : Tallied [] [] := ⟨by simp, by simp, by simp⟩

theorem no_place (h : Tallied os m) (hnew : ∀ e ∈ m, e.1 ≠ tag) : ∀ o ∈ os, o.1 ≠ tag := by
  intro o ho htag
  obtain ⟨e, he, heq⟩ := (h.listed tag).mpr ⟨o, ho, htag⟩
  exact hnew e he heq

theorem countTag {o : String × Post} (h : Tallied os m) : Tallied (os ++ [o]) (countTag o.2 m o.1) := by
  refine ⟨fun e he => ?_, fun e he a => ?_, fun tag => ?_⟩
  · rw [List.countP_append, List.countP_singleton]
    rcases mem_countTag he with ⟨hm, hne⟩ | ⟨stats, hm, rfl⟩ | ⟨hnew, rfl⟩
    · simpa [hne.symm] using h.posts e hm
    · simpa using h.posts _ hm
    · have hzero : os.countP (·.1 = o.1) = 0 := by
        rw [List.countP_eq_zero]
        intro q hq hqo
        exact h.no_place hnew q hq (of_decide_eq_true hqo)
      simp [hzero]
  · rcases mem_countTag he with ⟨hm, hne⟩ | ⟨stats, hm, rfl⟩ | ⟨hnew, rfl⟩
    · have hother : ¬ (o.1 = e.1 ∧ o.2.author = a) := fun h => hne h.1.symm
      rw [exists_mem_append_singleton, or_iff_left hother]
      exact h.authors e hm a
    · have hstats := h.authors _ hm a
      rw [Finset.mem_insert, hstats, exists_mem_append_singleton, or_comm, eq_comm, and_iff_right rfl]
    · have hnone : ¬ ∃ q ∈ os, q.1 = o.1 ∧ q.2.author = a := by
        rintro ⟨q, hq, hqo, -⟩
        exact h.no_place hnew q hq hqo
      rw [Finset.mem_singleton, exists_mem_append_singleton, or_iff_right hnone, eq_comm, and_iff_right rfl]
  · rw [exists_mem_countTag, h.listed, exists_mem_append_singleton]

theorem foldl (os : List (String × Post)) : Tallied os (os.foldl (fun m o => Server.countTag o.2 m o.1) []) := by
  induction os using List.reverseRecOn with
  | nil => exact nil
  | append_singleton os o ih =>
    rw [List.foldl_append]
    exact ih.countTag

end Tallied

theorem mem_occurrences {o : String × Post} :
    o ∈ occurrences U posts ↔ o.2 ∈ posts ∧ HasTag U o.1 o.2.content.toList := by
  unfold occurrences
  rw [List.mem_flatMap]
  constructor
  · rintro ⟨p, hp, ho⟩
    obtain ⟨tag, htag, rfl⟩ := List.mem_map.mp ho
    exact ⟨hp, mem_tagsOf.mp htag⟩
  · rintro ⟨hp, htag⟩
    exact ⟨o.2, hp, List.mem_map.mpr ⟨o.1, mem_tagsOf.mpr htag, rfl⟩⟩

theorem countP_occurrences (tag : String) (posts : List Post) :
    (occurrences U posts).countP (·.1 = tag) = (withTag U tag posts).length + repeats U tag posts := by
  have hcount : ∀ p : Post, ((tagsOf U p.content.toList).map fun tag => (tag, p)).countP (·.1 = tag) =
      (tagsOf U p.content.toList).count tag := by
    intro p
    rw [List.countP_map]
    exact List.countP_congr fun t _ => by simp
  unfold occurrences
  induction posts with
  | nil => rfl
  | cons p posts ih =>
    rw [List.flatMap_cons, List.countP_append, ih, hcount]
    unfold withTag repeats
    rw [List.filter_cons, List.map_cons, List.sum_cons]
    by_cases htag : HasTag U tag p.content.toList
    · -- one of the places counts the post
      have hpos : 0 < (tagsOf U p.content.toList).count tag := List.count_pos_iff.mpr (mem_tagsOf.mpr htag)
      rw [if_pos (decide_eq_true htag), List.length_cons]
      omega
    · have hzero : (tagsOf U p.content.toList).count tag = 0 := List.count_eq_zero.mpr fun h => htag (mem_tagsOf.mp h)
      rw [if_neg (by simpa using htag), hzero]
      omega

section Window

variable (U) (order : NewestFirst Post.storedTimestamp) (s : Store) (since : Int64)

def Store.taggedPosts (tag : String) : List Post :=
  s.posts.filter fun p => s.isPublic p ∧ inWindow since p ∧ HasTag U tag p.content.toList

def missedPosts : List Post :=
  ((order.sort (s.posts.filter s.isPublic)).drop trendingLimit.toInt.toNat).filter (inWindow since)

structure CountedRight {F : Type} (e : TrendingHashtag F) : Prop where
  postCount : e.postCount = (s.taggedPosts U since e.tag).length
  uniqueAuthors : e.uniqueAuthors = ((s.taggedPosts U since e.tag).map Post.author).toFinset.card

/-- The repeats of a tag are as many as its posts that are missed, and no author is missed. -/
structure TagFits (tag : String) : Prop where
  repeats : repeats U tag (windowPosts order s since) = (withTag U tag (missedPosts order s since)).length
  authors : ∀ p ∈ missedPosts order s since, HasTag U tag p.content.toList →
    ∃ q ∈ windowPosts order s since, HasTag U tag q.content.toList ∧ q.author = p.author

variable {U order s since}

theorem taggedPosts_perm (U : CharCase) (order : NewestFirst Post.storedTimestamp) (s : Store) (since : Int64)
    (tag : String) : (s.taggedPosts U since tag).Perm
    (withTag U tag (windowPosts order s since) ++ withTag U tag (missedPosts order s since)) := by
  have hsplit : windowPosts order s since ++ missedPosts order s since =
      (order.sort (s.posts.filter s.isPublic)).filter (inWindow since) := by
    unfold windowPosts missedPosts Store.feedPage limited
    rw [if_neg (by decide), ← List.filter_append, List.take_append_drop]
  have hall : s.taggedPosts U since tag = withTag U tag ((s.posts.filter s.isPublic).filter (inWindow since)) := by
    unfold Store.taggedPosts withTag
    rw [List.filter_filter, List.filter_filter]
    refine List.filter_congr fun p _ => ?_
    by_cases hpublic : s.isPublic p = true <;> by_cases hin : inWindow since p = true <;> simp [hpublic, hin]
  rw [hall]
  unfold withTag
  rw [← List.filter_append, hsplit]
  exact (((order.perm _).filter _).filter _).symm

theorem mem_aggregate {F : Type} {score : Int64 → TagStats → F} {now : Int64} {P : TrendingHashtag F → Prop} :
    (∀ e ∈ aggregate U score now posts, P e) ↔ ∀ e ∈ tagStats U posts, P (toTrending score now e) :=
  List.forall_mem_map

theorem mem_authors_withTag {a : String} :
    a ∈ ((withTag U tag posts).map Post.author).toFinset ↔
      ∃ p ∈ posts, HasTag U tag p.content.toList ∧ p.author = a := by
  simp [withTag, and_assoc]

theorem card_union_eq_iff {α : Type} [DecidableEq α] {A B : Finset α} : A.card = (A ∪ B).card ↔ B ⊆ A := by
  constructor
  · intro h
    have heq : A = A ∪ B := Finset.eq_of_subset_of_card_le Finset.subset_union_left h.ge
    rw [heq]
    exact Finset.subset_union_right
  · intro h
    rw [Finset.union_eq_left.mpr h]

theorem of_mem_tagStats {e : String × TagStats} (he : e ∈ tagStats U posts) :
    e.2.posts.length = (withTag U e.1 posts).length + repeats U e.1 posts ∧
      e.2.authors = ((withTag U e.1 posts).map Post.author).toFinset := by
  have htallied := Tallied.foldl (occurrences U posts)
  rw [← tagStats_eq] at htallied
  refine ⟨?_, ?_⟩
  · rw [htallied.posts e he, countP_occurrences]
  · ext a
    rw [htallied.authors e he, mem_authors_withTag]
    constructor
    · rintro ⟨o, ho, htag, hauthor⟩
      obtain ⟨hp, hhas⟩ := mem_occurrences.mp ho
      exact ⟨o.2, hp, htag ▸ hhas, hauthor⟩
    · rintro ⟨p, hp, hhas, hauthor⟩
      exact ⟨(e.1, p), mem_occurrences.mpr ⟨hp, hhas⟩, rfl, hauthor⟩

theorem exists_mem_tagStats :
    (∃ e ∈ tagStats U posts, e.1 = tag) ↔ ∃ p ∈ posts, HasTag U tag p.content.toList := by
  have htallied := Tallied.foldl (occurrences U posts)
  rw [← tagStats_eq] at htallied
  rw [htallied.listed]
  constructor
  · rintro ⟨o, ho, rfl⟩
    exact ⟨o.2, mem_occurrences.mp ho⟩
  · rintro ⟨p, hp, hhas⟩
    exact ⟨(tag, p), mem_occurrences.mpr ⟨hp, hhas⟩, rfl⟩

theorem countedRight_iff {F : Type} {score : Int64 → TagStats → F} {now : Int64} {e : String × TagStats}
    (he : e ∈ tagStats U (windowPosts order s since)) :
    CountedRight U s since (toTrending score now e) ↔ TagFits U order s since e.1 := by
  obtain ⟨hposts, hauthors⟩ := of_mem_tagStats he
  have hperm := taggedPosts_perm U order s since e.1
  have hcount : (s.taggedPosts U since e.1).length =
      (withTag U e.1 (windowPosts order s since)).length + (withTag U e.1 (missedPosts order s since)).length := by
    rw [hperm.length_eq, List.length_append]
  have hunion : ((s.taggedPosts U since e.1).map Post.author).toFinset =
      ((withTag U e.1 (windowPosts order s since)).map Post.author).toFinset ∪
        ((withTag U e.1 (missedPosts order s since)).map Post.author).toFinset := by
    rw [List.toFinset_eq_of_perm _ _ (hperm.map Post.author), List.map_append, List.toFinset_append]
  -- a post that is missed costs no author who has another one in the window
  have hcard : e.2.authors.card = ((s.taggedPosts U since e.1).map Post.author).toFinset.card ↔
      ∀ p ∈ missedPosts order s since, HasTag U e.1 p.content.toList →
        ∃ q ∈ windowPosts order s since, HasTag U e.1 q.content.toList ∧ q.author = p.author := by
    rw [hauthors, hunion, card_union_eq_iff]
    constructor
    · intro hsub p hp hhas
      exact mem_authors_withTag.mp (hsub (mem_authors_withTag.mpr ⟨p, hp, hhas, rfl⟩))
    · intro hall a ha
      obtain ⟨p, hp, hhas, rfl⟩ := mem_authors_withTag.mp ha
      exact mem_authors_withTag.mpr (hall p hp hhas)
  constructor
  · intro h
    have hright : e.2.posts.length = (s.taggedPosts U since e.1).length := h.postCount
    exact ⟨by omega, hcard.mp h.uniqueAuthors⟩
  · intro h
    have hrepeats := h.repeats
    refine ⟨?_, hcard.mpr h.authors⟩
    show e.2.posts.length = (s.taggedPosts U since e.1).length
    omega

theorem tagFits_iff_of_few (hfew : (s.posts.filter s.isPublic).length ≤ trendingLimit.toInt.toNat) :
    TagFits U order s since tag ↔ repeats U tag (windowPosts order s since) = 0 := by
  have hnone : missedPosts order s since = [] := by
    have hlength : (order.sort (s.posts.filter s.isPublic)).length ≤ trendingLimit.toInt.toNat := by
      rw [(order.perm _).length_eq]
      exact hfew
    unfold missedPosts
    rw [List.drop_of_length_le hlength, List.filter_nil]
  constructor
  · intro h
    have hrepeats := h.repeats
    rwa [hnone] at hrepeats
  · intro h
    refine ⟨?_, ?_⟩
    · rw [h, hnone]
      rfl
    · simp [hnone]

end Window

theorem mem_aggregate_of_computeTrending {F : Type} {score : Int64 → TagStats → F}
    {order : NewestFirst Post.storedTimestamp} {byScore : List (TrendingHashtag F) → List (TrendingHashtag F)}
    (hsort : ∀ l, (byScore l).Perm l) {s : Store} {now : Int64} {windowHours : UInt64} {e : TrendingHashtag F}
    (h : e ∈ computeTrending U score order byScore s now windowHours) :
    e ∈ aggregate U score now (windowPosts order s (cutoff now windowHours)) :=
  (hsort _).mem_iff.mp (List.mem_of_mem_take h)

/-- A window is counted right if and only if what is counted twice makes up for what is missed. -/
theorem trending_counts_iff (U : CharCase) {F : Type} (score : Int64 → TagStats → F)
    (order : NewestFirst Post.storedTimestamp) (s : Store) (now : Int64) (windowHours : UInt64) :
    (∀ e ∈ aggregate U score now (windowPosts order s (cutoff now windowHours)),
        CountedRight U s (cutoff now windowHours) e) ↔
      ∀ p ∈ windowPosts order s (cutoff now windowHours), ∀ tag, HasTag U tag p.content.toList →
        TagFits U order s (cutoff now windowHours) tag := by
  rw [mem_aggregate]
  constructor
  · intro h p hp tag hhas
    obtain ⟨e, he, rfl⟩ := exists_mem_tagStats.mpr ⟨p, hp, hhas⟩
    exact (countedRight_iff he).mp (h e he)
  · intro h e he
    obtain ⟨p, hp, hhas⟩ := exists_mem_tagStats.mp ⟨e, he, rfl⟩
    exact (countedRight_iff he).mpr (h p hp e.1 hhas)

def ascii : CharCase where
  isAlphanumeric := Char.isAlphanum
  toLowercase run := String.ofList (run.map Char.toLower)
  isAlphanumeric_hash := by decide

def tagTwice : Store :=
  { Store.empty with
    registrations := [⟨"ab", 1, 1, none, none, none, "public", 1, none, none⟩]
    posts := [⟨"p1", "ab", "#a #a", 5, [], none, none, none, none, ""⟩] }

theorem not_counted_tag_twice : ¬ ∀ e ∈ aggregate ascii (fun _ _ => ()) 10
    (windowPosts (stable _) tagTwice (cutoff 10 1)), CountedRight ascii tagTwice (cutoff 10 1) e := by
  intro h
  have hmem : ("a", (⟨[5, 5], {"ab"}⟩ : TagStats)) ∈
      tagStats ascii (windowPosts (stable _) tagTwice (cutoff 10 1)) := by
    rw [tagStats_eq]
    decide
  have htwo := (mem_aggregate.mp h _ hmem).postCount
  exact absurd htwo (by decide)

end Proscenium.Server
