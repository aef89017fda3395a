import Proscenium.Client.SyncDefs

/-! A client that has nothing the server does not have. Whatever the counts make
the server decide, what it sends is what the client lacks: if as many posts are
newer than the client's newest one as it lacks, they are the ones it lacks. -/

namespace Proscenium.Client

open Proscenium.Types

section Counts

variable {ρ : Type*} {time : ρ → Int64} {C S : List ρ}

theorem toUInt64_pos_iff {t : Int64} : t.toUInt64 > 0 ↔ t ≠ 0 := by
  have hzero : t.toUInt64 = 0 ↔ t = 0 := by
    constructor
    · intro h
      rw [← Int64.toInt64_toUInt64 t, h]
      rfl
    · rintro rfl
      rfl
  rw [gt_iff_lt, UInt64.pos_iff_ne_zero]
  exact not_congr hzero

theorem afterCount_eq (hpos : ∀ r ∈ S, 0 < time r) (hsub : C ⊆ S) :
    (if (Timeline.newest time 0 C).toUInt64 > 0 then
        (Timeline.after time (Timeline.newest time 0 C).toUInt64.toInt64 S).length
      else S.length) = (Timeline.after time (Timeline.newest time 0 C) S).length := by
  split
  next => rw [Int64.toInt64_toUInt64]
  next hzero =>
    have hnewest : Timeline.newest time 0 C = 0 := by
      by_contra hne
      exact hzero (toUInt64_pos_iff.mpr hne)
    have hnil : C = [] := (Timeline.newest_eq_zero_iff fun r hr => hpos r (hsub hr)).mp hnewest
    rw [hnil, Timeline.after_newest_nil hpos]

end Counts

/-- What the client has of the author, the server has as well. -/
structure SyncPeer.Ahead (author : String) (c : ContentStore) (peer : SyncPeer) : Prop where
  posts : c.postsBy author ⊆ peer.content.postsBy author
  interactions : c.interactionsBy author ⊆ peer.content.interactionsBy author

structure ContentStore.Dated (author : String) (c : ContentStore) : Prop where
  posts : ∀ p ∈ c.postsBy author, 0 < p.storedTimestamp
  interactions : ∀ i ∈ c.interactionsBy author, 0 < i.storedTimestamp

namespace ContentStore

variable {author : String} {c : ContentStore}

theorem mem_postsBy {p : Post} : p ∈ c.postsBy author ↔ p ∈ c.posts ∧ p.author = author := by
  unfold postsBy
  rw [List.mem_filter, decide_eq_true_eq]

theorem mem_interactionsBy {i : Interaction} :
    i ∈ c.interactionsBy author ↔ i ∈ c.interactions ∧ i.author = author := by
  unfold interactionsBy
  rw [List.mem_filter, decide_eq_true_eq]

theorem Keyed.nodup_postsBy (h : c.Keyed) : (c.postsBy author).Nodup := by
  apply List.Pairwise.filter
  refine h.posts.imp ?_
  rintro p q hpq rfl
  exact hpq ⟨rfl, rfl⟩

theorem Keyed.nodup_interactionsBy (h : c.Keyed) : (c.interactionsBy author).Nodup := by
  apply List.Pairwise.filter
  refine h.interactions.imp ?_
  rintro i j hij rfl
  exact hij ⟨rfl, Or.inl rfl⟩

theorem Keyed.eq_of_id (h : c.Keyed) {p q : Post} (hp : p ∈ c.postsBy author)
    (hq : q ∈ c.postsBy author) (hid : p.id = q.id) : p = q := by
  obtain ⟨hp, hpa⟩ := mem_postsBy.mp hp
  obtain ⟨hq, hqa⟩ := mem_postsBy.mp hq
  by_contra hne
  have hsymm : Std.Symm fun p q : Post => ¬ (p.author = q.author ∧ p.id = q.id) :=
    ⟨fun p q hpq hqp => hpq ⟨hqp.1.symm, hqp.2.symm⟩⟩
  exact h.posts.forall hp hq hne ⟨hpa.trans hqa.symm, hid⟩

theorem Keyed.eq_of_clash (h : c.Keyed) {i j : Interaction} (hi : i ∈ c.interactionsBy author)
    (hj : j ∈ c.interactionsBy author)
    (hclash : i.id = j.id ∨ i.kind = j.kind ∧ i.targetPostId = j.targetPostId) : i = j := by
  obtain ⟨hi, hia⟩ := mem_interactionsBy.mp hi
  obtain ⟨hj, hja⟩ := mem_interactionsBy.mp hj
  by_contra hne
  have hsymm : Std.Symm fun i j : Interaction => ¬ (i.author = j.author ∧
      (i.id = j.id ∨ i.kind = j.kind ∧ i.targetPostId = j.targetPostId)) :=
    ⟨fun i j hij hji => hij ⟨hji.1.symm, hji.2.imp Eq.symm (And.imp Eq.symm Eq.symm)⟩⟩
  exact h.interactions.forall hi hj hne ⟨hia.trans hja.symm, hclash⟩

end ContentStore

theorem catchesUp_iff {serverCount count afterCount : Nat} :
    catchesUp serverCount count afterCount = true ↔ count + afterCount = serverCount := by
  unfold catchesUp
  rw [decide_eq_true_eq]
  omega

namespace SyncPeer

variable {peer : SyncPeer} {author : String} {c : ContentStore} {req : SyncRequest}

theorem counts_of_upToDate (h : peer.mode req = .upToDate) :
    req.postCount = peer.content.countPostsByAuthor req.author ∧ peer.interactionsMatch req = true := by
  simp only [mode] at h
  split at h
  next hmatch => exact hmatch
  next =>
    split at h
    · exact nomatch h
    · exact nomatch h

theorem catchesUp_of_catchUp (h : peer.mode req = .timestampCatchUp) :
    req.postCount + peer.postsAfterCount req = peer.content.countPostsByAuthor req.author := by
  simp only [mode] at h
  split at h
  next => exact nomatch h
  next =>
    split at h
    next hcatch => exact catchesUp_iff.mp hcatch
    next => exact nomatch h

section Select

variable (hc : c.Keyed) (hs : peer.content.Keyed) (hahead : peer.Ahead author c)
  (hdated : peer.content.Dated author)

include hahead hdated in
theorem postsAfterCount_eq : peer.postsAfterCount (syncRequest author c) =
    (Timeline.after Post.storedTimestamp (Timeline.newest Post.storedTimestamp 0 (c.postsBy author))
      (peer.content.postsBy author)).length :=
  afterCount_eq hdated.posts hahead.posts

include hahead hdated in
theorem interactionsAfterCount_eq : peer.interactionsAfterCount (syncRequest author c) =
    (Timeline.after Interaction.storedTimestamp
      (Timeline.newest Interaction.storedTimestamp 0 (c.interactionsBy author))
      (peer.content.interactionsBy author)).length :=
  afterCount_eq hdated.interactions hahead.interactions

include hs hahead in
theorem getPostsNotIn_perm :
    (peer.content.getPostsNotIn author (c.getPostIdsByAuthor author)).Perm
      ((peer.content.postsBy author).filter (· ∉ c.postsBy author)) := by
  have hids : ∀ p ∈ peer.content.postsBy author,
      (p.id ∈ c.getPostIdsByAuthor author ↔ p ∈ c.postsBy author) := by
    intro p hp
    unfold ContentStore.getPostIdsByAuthor
    rw [List.mem_map]
    constructor
    · rintro ⟨q, hq, hid⟩
      have hqc : q ∈ c.postsBy author := Timeline.mem_ordered.mp hq
      rwa [← hs.eq_of_id (hahead.posts hqc) hp hid]
    · intro hpc
      exact ⟨p, Timeline.mem_ordered.mpr hpc, rfl⟩
  have hfilter : (peer.content.postsBy author).filter (·.id ∉ c.getPostIdsByAuthor author) =
      (peer.content.postsBy author).filter (· ∉ c.postsBy author) := by
    refine List.filter_congr fun p hp => ?_
    rw [decide_eq_decide]
    exact not_congr (hids p hp)
  unfold ContentStore.getPostsNotIn
  split
  next hempty =>
    have hall : (peer.content.postsBy author).filter (·.id ∉ c.getPostIdsByAuthor author) =
        peer.content.postsBy author := by
      rw [List.isEmpty_iff.mp hempty]
      simp
    rw [← hfilter, hall]
    exact Timeline.perm_ordered _
  next =>
    rw [← hfilter]
    exact Timeline.perm_ordered _

include hc hs hahead hdated in
theorem selectPosts_perm :
    (peer.selectPosts (syncRequest author c) (c.getPostIdsByAuthor author)).Perm
      ((peer.content.postsBy author).filter (· ∉ c.postsBy author)) := by
  unfold selectPosts
  cases hmode : peer.mode (syncRequest author c) with
  | timestampCatchUp =>
    have hcount := catchesUp_of_catchUp hmode
    rw [postsAfterCount_eq hahead hdated] at hcount
    have hafter := (Timeline.after_newest_eq_missing_iff hc.nodup_postsBy hs.nodup_postsBy
      hahead.posts).mpr hcount
    rw [← hafter]
    exact Timeline.perm_ordered _
  | needIdDiff => exact getPostsNotIn_perm hs hahead
  | upToDate =>
    have hcount := (counts_of_upToDate hmode).1
    have hnil := (Timeline.missing_eq_nil_iff hc.nodup_postsBy hs.nodup_postsBy hahead.posts).mpr hcount
    rw [hnil]

include hc hs hahead hdated in
/-- All interactions that the client lacks are selected, and none of which the server knows nothing. -/
theorem mem_or_selectInteractions {i : Interaction} :
    i ∈ c.interactionsBy author ∨ i ∈ peer.selectInteractions (syncRequest author c) ↔
      i ∈ peer.content.interactionsBy author := by
  have hmissing : ∀ {t : List Interaction},
      (∀ j, j ∈ t ↔ j ∈ (peer.content.interactionsBy author).filter (· ∉ c.interactionsBy author)) →
      (i ∈ c.interactionsBy author ∨ i ∈ t ↔ i ∈ peer.content.interactionsBy author) := by
    intro t ht
    rw [ht, List.mem_filter, decide_eq_true_eq]
    constructor
    · rintro (hi | hi)
      · exact hahead.interactions hi
      · exact hi.1
    · intro hi
      by_cases hic : i ∈ c.interactionsBy author
      · exact Or.inl hic
      · exact Or.inr ⟨hi, hic⟩
  unfold selectInteractions
  split
  next hmatch =>
    have hcount : (c.interactionsBy author).length = (peer.content.interactionsBy author).length :=
      of_decide_eq_true hmatch
    apply hmissing
    rw [(Timeline.missing_eq_nil_iff hc.nodup_interactionsBy hs.nodup_interactionsBy
      hahead.interactions).mpr hcount]
    exact fun _ => Iff.rfl
  next =>
    split
    next hcatch =>
      have hcount := catchesUp_iff.mp hcatch
      rw [interactionsAfterCount_eq hahead hdated] at hcount
      have hafter := (Timeline.after_newest_eq_missing_iff hc.nodup_interactionsBy
        hs.nodup_interactionsBy hahead.interactions).mpr hcount
      apply hmissing
      intro j
      rw [← hafter]
      exact Timeline.mem_ordered
    next =>
      constructor
      · rintro (hi | hi)
        · exact hahead.interactions hi
        · exact Timeline.mem_ordered.mp hi
      · intro hi
        exact Or.inr (Timeline.mem_ordered.mpr hi)

end Select
/-- Every message of the session is within what its reader reads. -/
structure Readable (J : SerdeJson) (author : String) (c : ContentStore) (peer : SyncPeer) : Prop where
  summary : J.summaryLen (peer.summary (syncRequest author c)) ≤ maxSummarySize
  ids : peer.mode (syncRequest author c) = .needIdDiff →
    J.idsLen (c.getPostIdsByAuthor author) ≤ maxKnownIdsSize
  frames : ∀ frame ∈ peer.stream J (syncRequest author c)
    (sentIds (peer.mode (syncRequest author c)) author c), J.frameLen frame ≤ maxFrameSize

section Stream

variable {J : SerdeJson}

theorem readFrames_eq {frames : List SyncFrame} (h : ∀ frame ∈ frames, J.frameLen frame ≤ maxFrameSize) :
    readFrames J frames = some frames := by
  induction frames with
  | nil => rfl
  | cons frame frames ih =>
    have hsize : J.frameLen frame ≤ maxFrameSize := h frame List.mem_cons_self
    have hlt : J.frameLen frame < 2 ^ 32 := hsize.trans_lt (by decide)
    have hheader : J.header frame = J.frameLen frame := Nat.mod_eq_of_lt hlt
    have hpos := J.frameLen_pos frame
    have hstop : ¬ (J.header frame = 0 ∨ maxFrameSize < J.header frame) := by
      rw [hheader]
      omega
    rw [readFrames, if_neg hstop, if_pos hheader, ih fun f hf => h f (List.mem_cons_of_mem frame hf)]
    rfl

theorem batchSize_pos : 0 < batchSize := by decide

theorem frames_flatMap (posts : List Post) (interactions : List Interaction) :
    ((Timeline.batches batchSize posts 0).map SyncFrame.posts ++
        (Timeline.batches batchSize interactions 0).map SyncFrame.interactions).flatMap
          SyncFrame.posts? = posts ∧
      ((Timeline.batches batchSize posts 0).map SyncFrame.posts ++
        (Timeline.batches batchSize interactions 0).map SyncFrame.interactions).flatMap
          SyncFrame.interactions? = interactions := by
  have hposts := Timeline.flatten_batches batchSize_pos posts 0
  have hinteractions := Timeline.flatten_batches batchSize_pos interactions 0
  have hnone : ∀ {α β : Type} (l : List α), l.flatMap (fun _ => ([] : List β)) = [] :=
    fun _ => List.flatMap_eq_nil_iff.mpr fun _ _ => rfl
  constructor
  · rw [List.flatMap_append, List.flatMap_map, List.flatMap_map]
    simpa [SyncFrame.posts?, List.flatMap_id', hnone] using hposts
  · rw [List.flatMap_append, List.flatMap_map, List.flatMap_map]
    simpa [SyncFrame.interactions?, List.flatMap_id', hnone] using hinteractions

theorem stream_eq (J : SerdeJson) (c : ContentStore) (peer : SyncPeer) (req : SyncRequest)
    (hids : peer.mode req = .needIdDiff → J.idsLen (c.getPostIdsByAuthor req.author) ≤ maxKnownIdsSize) :
    peer.stream J req (sentIds (peer.mode req) req.author c) =
      (Timeline.batches batchSize (peer.selectPosts req (c.getPostIdsByAuthor req.author)) 0).map
          SyncFrame.posts ++
        (Timeline.batches batchSize (peer.selectInteractions req) 0).map SyncFrame.interactions := by
  unfold stream readKnownIds sentIds selectPosts
  cases hmode : peer.mode req with
  | needIdDiff => simp [Option.filter_some, hids hmode]
  | timestampCatchUp => rfl
  | upToDate => rfl

theorem syncFromPeer_eq {remote : String} (hadmits : peer.admits remote = true)
    (hread : peer.Readable J author c) :
    ∃ result, syncFromPeer J peer remote author c = some result ∧
      result.posts = peer.selectPosts (syncRequest author c) (c.getPostIdsByAuthor author) ∧
      result.interactions = peer.selectInteractions (syncRequest author c) := by
  have hsummary := hread.summary
  unfold syncFromPeer handleSync
  rw [if_pos hadmits]
  simp only [if_neg (Nat.not_lt.mpr hsummary)]
  split
  next hmode =>
    have hmode : peer.mode (syncRequest author c) = .upToDate := hmode
    refine ⟨_, rfl, ?_, ?_⟩
    · unfold selectPosts
      rw [hmode]
    · unfold selectInteractions
      rw [if_pos (counts_of_upToDate hmode).2]
  next =>
    have hframes := readFrames_eq hread.frames
    have hstream := stream_eq J c peer (syncRequest author c) hread.ids
    obtain ⟨hposts, hinteractions⟩ := frames_flatMap
      (peer.selectPosts (syncRequest author c) (c.getPostIdsByAuthor author))
      (peer.selectInteractions (syncRequest author c))
    refine ⟨_, congrArg (Option.map _) hframes, ?_, ?_⟩
    · exact (congrArg (List.flatMap SyncFrame.posts?) hstream).trans hposts
    · exact (congrArg (List.flatMap SyncFrame.interactions?) hstream).trans hinteractions

theorem readFrames_subset {frames received : List SyncFrame} (h : readFrames J frames = some received) :
    received ⊆ frames := by
  induction frames generalizing received with
  | nil =>
    obtain rfl := Option.some.inj h
    exact List.Subset.refl _
  | cons frame frames ih =>
    rw [readFrames] at h
    split at h
    · obtain rfl := Option.some.inj h
      exact List.nil_subset _
    · split at h
      · obtain ⟨rest, hrest, rfl⟩ := Option.map_eq_some_iff.mp h
        exact List.cons_subset_cons frame (ih hrest)
      · exact nomatch h

theorem selectPosts_subset {ids : List String} :
    peer.selectPosts req ids ⊆ peer.content.postsBy req.author := by
  intro p hp
  unfold selectPosts at hp
  split at hp
  · exact (Timeline.mem_after.mp (Timeline.mem_ordered.mp hp)).1
  · unfold ContentStore.getPostsNotIn at hp
    split at hp
    · exact Timeline.mem_ordered.mp hp
    · exact (List.mem_filter.mp (Timeline.mem_ordered.mp hp)).1
  · exact nomatch hp

theorem selectInteractions_subset :
    peer.selectInteractions req ⊆ peer.content.interactionsBy req.author := by
  intro i hi
  unfold selectInteractions at hi
  split at hi
  · exact nomatch hi
  · split at hi
    · exact (Timeline.mem_after.mp (Timeline.mem_ordered.mp hi)).1
    · exact Timeline.mem_ordered.mp hi

theorem stream_subset (J : SerdeJson) (req : SyncRequest) (body : Option (List String))
    (peer : SyncPeer) :
    (peer.stream J req body).flatMap SyncFrame.posts? ⊆ peer.content.postsBy req.author ∧
      (peer.stream J req body).flatMap SyncFrame.interactions? ⊆
        peer.content.interactionsBy req.author := by
  unfold stream
  split
  next => exact ⟨List.nil_subset _, List.nil_subset _⟩
  next ids _ =>
    obtain ⟨hposts, hinteractions⟩ := frames_flatMap (peer.selectPosts req ids) (peer.selectInteractions req)
    rw [hposts, hinteractions]
    exact ⟨selectPosts_subset, selectInteractions_subset⟩

theorem exists_frames_of_syncFromPeer {remote : String} {result : SyncResult}
    (h : syncFromPeer J peer remote author c = some result) :
    ∃ frames ⊆ peer.stream J (syncRequest author c) (sentIds (peer.mode (syncRequest author c)) author c),
      result.posts = frames.flatMap SyncFrame.posts? ∧
        result.interactions = frames.flatMap SyncFrame.interactions? := by
  unfold syncFromPeer handleSync at h
  split at h
  next => exact nomatch h
  next summary stream hhandle =>
    split at hhandle
    next =>
      obtain ⟨rfl, rfl⟩ := Prod.mk.inj (Option.some.inj hhandle)
      split at h
      · exact nomatch h
      · split at h
        · obtain rfl := Option.some.inj h
          exact ⟨[], List.nil_subset _, rfl, rfl⟩
        · obtain ⟨frames, hframes, rfl⟩ := Option.map_eq_some_iff.mp h
          exact ⟨frames, readFrames_subset hframes, rfl, rfl⟩
    next => exact nomatch hhandle

theorem syncFromPeer_subset {remote : String} {result : SyncResult}
    (h : syncFromPeer J peer remote author c = some result) :
    result.posts ⊆ peer.content.postsBy author ∧
      result.interactions ⊆ peer.content.interactionsBy author := by
  obtain ⟨frames, hsub, hposts, hinteractions⟩ := exists_frames_of_syncFromPeer h
  have hstream := stream_subset J (syncRequest author c) (sentIds (peer.mode (syncRequest author c)) author c) peer
  rw [hposts, hinteractions]
  constructor
  · intro p hp
    obtain ⟨frame, hframe, hp⟩ := List.mem_flatMap.mp hp
    exact hstream.1 (List.mem_flatMap.mpr ⟨frame, hsub hframe, hp⟩)
  · intro i hi
    obtain ⟨frame, hframe, hi⟩ := List.mem_flatMap.mp hi
    exact hstream.2 (List.mem_flatMap.mpr ⟨frame, hsub hframe, hi⟩)

theorem posts_of_unreadIds {remote : String} {result : SyncResult}
    (hmode : peer.mode (syncRequest author c) = .needIdDiff)
    (hlong : maxKnownIdsSize < J.idsLen (c.getPostIdsByAuthor author))
    (h : syncFromPeer J peer remote author c = some result) : result.posts = [] := by
  have hstream : peer.stream J (syncRequest author c) (sentIds .needIdDiff author c) = [] := by
    have hunread : peer.readKnownIds J (syncRequest author c) (sentIds .needIdDiff author c) = none := by
      simp [readKnownIds, hmode, sentIds, Option.filter_some, Nat.not_le.mpr hlong]
    unfold stream
    rw [hunread]
  obtain ⟨frames, hsub, hposts, -⟩ := exists_frames_of_syncFromPeer h
  rw [hmode, hstream] at hsub
  rw [hposts, List.subset_nil.mp hsub, List.flatMap_nil]

end Stream
end SyncPeer

namespace ContentStore

def saveInteractions (interactions : List Interaction) (c : ContentStore) : ContentStore :=
  interactions.foldl (fun c i => c.saveInteraction i) c

variable {author : String} {c : ContentStore}

theorem Keyed.insertPost (h : c.Keyed) (p : Post) : (c.insertPost p).Keyed := by
  refine ⟨?_, h.interactions⟩
  unfold ContentStore.insertPost Table.insertOrIgnore
  split
  next => exact h.posts
  next hnew =>
    apply List.pairwise_append.mpr
    refine ⟨h.posts, List.pairwise_singleton _ _, ?_⟩
    intro q hq r hr hclash
    obtain rfl := List.mem_singleton.mp hr
    exact hnew (List.any_eq_true.mpr ⟨q, hq, decide_eq_true hclash⟩)

theorem Keyed.saveInteraction (h : c.Keyed) (i : Interaction) : (c.saveInteraction i).Keyed := by
  refine ⟨h.posts, ?_⟩
  unfold ContentStore.saveInteraction Table.insertOrIgnore
  split
  next => exact h.interactions
  next hnew =>
    apply List.pairwise_append.mpr
    refine ⟨h.interactions, List.pairwise_singleton _ _, ?_⟩
    intro j hj k hk hclash
    obtain rfl := List.mem_singleton.mp hk
    exact hnew (List.any_eq_true.mpr ⟨j, hj, decide_eq_true hclash⟩)

theorem Keyed.saveInteractions (h : c.Keyed) (interactions : List Interaction) :
    (c.saveInteractions interactions).Keyed := by
  induction interactions generalizing c with
  | nil => exact h
  | cons i interactions ih => exact ih (h.saveInteraction i)

theorem Keyed.deletePost (h : c.Keyed) (id : String) : (c.deletePost id).Keyed :=
  ⟨h.posts.filter _, h.interactions⟩

theorem Keyed.deleteInteraction (h : c.Keyed) (id author : String) :
    (c.deleteInteraction id author).Keyed :=
  ⟨h.posts, h.interactions.filter _⟩

def insertPosts (posts : List Post) (c : ContentStore) : ContentStore :=
  posts.foldl (fun c p => c.insertPost p) c

theorem Keyed.insertPosts (h : c.Keyed) (posts : List Post) : (c.insertPosts posts).Keyed := by
  induction posts generalizing c with
  | nil => exact h
  | cons p posts ih => exact ih (h.insertPost p)

def postClash (p q : Post) : Bool := q.author = p.author ∧ q.id = p.id

def interactionClash (i j : Interaction) : Bool :=
  j.author = i.author ∧ (j.id = i.id ∨ j.kind = i.kind ∧ j.targetPostId = i.targetPostId)

theorem insertPosts_eq (posts : List Post) (c : ContentStore) :
    c.insertPosts posts = ⟨Table.insertAll postClash posts c.posts, c.interactions⟩ := by
  induction posts generalizing c with
  | nil => rfl
  | cons p posts ih => exact ih (c.insertPost p)

theorem saveInteractions_eq (interactions : List Interaction) (c : ContentStore) :
    c.saveInteractions interactions =
      ⟨c.posts, Table.insertAll interactionClash interactions c.interactions⟩ := by
  induction interactions generalizing c with
  | nil => rfl
  | cons i interactions ih => exact ih (c.saveInteraction i)

theorem mem_postsBy_insertPosts {s : ContentStore} (hs : s.Keyed)
    (hc : c.postsBy author ⊆ s.postsBy author) {posts : List Post} (hsub : posts ⊆ s.postsBy author)
    {p : Post} : p ∈ (c.insertPosts posts).postsBy author ↔ p ∈ c.postsBy author ∨ p ∈ posts := by
  rw [insertPosts_eq]
  apply Table.mem_insertAll_filter ?_ ?_ ?_ hsub hc
  · intro new q hnew hclash
    exact decide_eq_true ((of_decide_eq_true hclash).1.trans (of_decide_eq_true hnew))
  · intro new hnew q hq hclash
    exact hs.eq_of_id hq hnew (of_decide_eq_true hclash).2
  · intro q hq
    exact (List.mem_filter.mp hq).2

theorem mem_interactionsBy_saveInteractions {s : ContentStore} (hs : s.Keyed)
    (hc : c.interactionsBy author ⊆ s.interactionsBy author) {interactions : List Interaction}
    (hsub : interactions ⊆ s.interactionsBy author) {i : Interaction} :
    i ∈ (c.saveInteractions interactions).interactionsBy author ↔
      i ∈ c.interactionsBy author ∨ i ∈ interactions := by
  rw [saveInteractions_eq]
  apply Table.mem_insertAll_filter ?_ ?_ ?_ hsub hc
  · intro new j hnew hclash
    exact decide_eq_true ((of_decide_eq_true hclash).1.trans (of_decide_eq_true hnew))
  · intro new hnew j hj hclash
    exact hs.eq_of_clash hj hnew (of_decide_eq_true hclash).2
  · intro j hj
    exact (List.mem_filter.mp hj).2

end ContentStore

/-- A client that is behind receives exactly the posts it lacks, each once, and has exactly the
server's interactions after it stored those it received, in whichever mode it was served. -/
theorem sync_modes_agree {J : SerdeJson} {peer : SyncPeer} {remote author : String} {c : ContentStore}
    (hc : c.Keyed) (hs : peer.content.Keyed) (hahead : peer.Ahead author c)
    (hdated : peer.content.Dated author) (hadmits : peer.admits remote = true)
    (hread : peer.Readable J author c) :
    ∃ result, syncFromPeer J peer remote author c = some result ∧
      result.posts.Perm ((peer.content.postsBy author).filter (· ∉ c.postsBy author)) ∧
      ((c.saveInteractions result.interactions).interactionsBy author).Perm
        (peer.content.interactionsBy author) := by
  obtain ⟨result, hresult, hposts, hinteractions⟩ := SyncPeer.syncFromPeer_eq hadmits hread
  refine ⟨result, hresult, ?_, ?_⟩
  · rw [hposts]
    exact SyncPeer.selectPosts_perm hc hs hahead hdated
  · have hall : ∀ i, i ∈ c.interactionsBy author ∨ i ∈ result.interactions ↔
        i ∈ peer.content.interactionsBy author := by
      intro i
      rw [hinteractions]
      exact SyncPeer.mem_or_selectInteractions hc hs hahead hdated
    have hmem : ∀ i, i ∈ (c.saveInteractions result.interactions).interactionsBy author ↔
        i ∈ peer.content.interactionsBy author := by
      intro i
      have hsub : result.interactions ⊆ peer.content.interactionsBy author :=
        fun j hj => (hall j).mp (Or.inr hj)
      exact (ContentStore.mem_interactionsBy_saveInteractions hs hahead.interactions hsub).trans (hall i)
    exact (List.perm_ext_iff_of_nodup (hc.saveInteractions _).nodup_interactionsBy
      hs.nodup_interactionsBy).mpr hmem

section Examples

def note (id : String) (timestamp : UInt64) : Post :=
  ⟨id, "alice", "", timestamp, [], none, none, none, none, ""⟩

def likeOf (id target : String) (timestamp : UInt64) : Interaction :=
  ⟨id, "alice", .like, target, "bob", timestamp, ""⟩

def aliceNode (content : ContentStore) : SyncPeer := ⟨"alice", ⟨[], [], []⟩, content⟩

/-- Three posts, of which the client misses the newest one and one as old as its own. -/
def threeNotes : ContentStore := ⟨[note "a" 1, note "b" 1, note "c" 2], [likeOf "l" "x" 5]⟩

def oneNote : ContentStore := ⟨[note "a" 1], []⟩

theorem readable_threeNotes : (aliceNode threeNotes).Readable compactJson "alice" oneNote := by
  have hids : compactJson.idsLen (oneNote.getPostIdsByAuthor "alice") ≤ maxKnownIdsSize := by
    decide +kernel
  refine ⟨by decide +kernel, fun _ => hids, ?_⟩
  have hposts : (aliceNode threeNotes).selectPosts (syncRequest "alice" oneNote)
      (oneNote.getPostIdsByAuthor "alice") = [note "b" 1, note "c" 2] := by decide +kernel
  have hlikes : (aliceNode threeNotes).selectInteractions (syncRequest "alice" oneNote) =
      [likeOf "l" "x" 5] := by decide +kernel
  have hstream := SyncPeer.stream_eq compactJson oneNote (aliceNode threeNotes)
    (syncRequest "alice" oneNote) (fun _ => hids)
  rw [show (syncRequest "alice" oneNote).author = "alice" from rfl, hposts, hlikes,
    Timeline.batches_of_length_le (by simp) (by decide),
    Timeline.batches_of_length_le (by simp) (by decide)] at hstream
  rw [hstream]
  decide +kernel

theorem sync_modes_agree_threeNotes : ∃ result,
    syncFromPeer compactJson (aliceNode threeNotes) "bob's node" "alice" oneNote = some result ∧
      result.posts.Perm [note "b" 1, note "c" 2] ∧
      ((oneNote.saveInteractions result.interactions).interactionsBy "alice").Perm
        [likeOf "l" "x" 5] := by
  have hone : oneNote.Keyed := ⟨by simp [oneNote], by simp [oneNote]⟩
  have hthree : (aliceNode threeNotes).content.Keyed :=
    ⟨by simp [aliceNode, threeNotes, note], by simp [aliceNode, threeNotes]⟩
  have hahead : (aliceNode threeNotes).Ahead "alice" oneNote :=
    ⟨by decide +kernel, by decide +kernel⟩
  have hdated : (aliceNode threeNotes).content.Dated "alice" :=
    ⟨by decide +kernel, by decide +kernel⟩
  have hadmits : (aliceNode threeNotes).admits "bob's node" = true := by decide +kernel
  obtain ⟨result, hresult, hposts, hinteractions⟩ :=
    sync_modes_agree hone hthree hahead hdated hadmits readable_threeNotes
  exact ⟨result, hresult, hposts, hinteractions⟩

def longId : String := String.ofList (List.replicate 5000001 'a')

theorem longId_unread : maxKnownIdsSize < compactJson.idsLen [longId] := by
  have hlen := length_le_idsLen longId
  have htext : longId.toList.length = 5000001 := by
    unfold longId
    rw [String.toList_ofList, List.length_replicate]
  rw [htext] at hlen
  exact Nat.lt_of_lt_of_le (by decide) hlen

theorem longId_ne : longId ≠ "a" := by
  intro h
  have hlong : longId.toList.length = 5000001 := by
    unfold longId
    rw [String.toList_ofList, List.length_replicate]
  have hshort : "a".toList.length = 1 := by decide
  rw [h] at hlong
  omega

/-- The client has the newer of two posts, and its id is too long. -/
theorem not_sync_modes_agree_longId :
    ¬ ∀ (J : SerdeJson) (peer : SyncPeer) (remote author : String) (c : ContentStore),
      c.Keyed → peer.content.Keyed → peer.Ahead author c → peer.content.Dated author →
      peer.admits remote = true → ∃ result, syncFromPeer J peer remote author c = some result ∧
        result.posts.Perm ((peer.content.postsBy author).filter (· ∉ c.postsBy author)) ∧
        ((c.saveInteractions result.interactions).interactionsBy author).Perm
          (peer.content.interactionsBy author) := by
  intro h
  obtain ⟨id, hne, hlong⟩ : ∃ id, id ≠ "a" ∧ maxKnownIdsSize < compactJson.idsLen [id] :=
    ⟨longId, longId_ne, longId_unread⟩
  let c : ContentStore := ⟨[note id 2], []⟩
  let peer : SyncPeer := aliceNode ⟨[note "a" 1, note id 2], []⟩
  have hc : c.Keyed := ⟨List.pairwise_singleton _ _, List.Pairwise.nil⟩
  have hs : peer.content.Keyed := by
    refine ⟨List.pairwise_pair.mpr ?_, List.Pairwise.nil⟩
    intro hsame
    exact hne hsame.2.symm
  have hposts : c.postsBy "alice" = [note id 2] := rfl
  have hall : peer.content.postsBy "alice" = [note "a" 1, note id 2] := rfl
  have hahead : peer.Ahead "alice" c := by
    refine ⟨?_, List.Subset.refl _⟩
    rw [hposts, hall]
    exact List.subset_cons_self _ _
  have hdated : peer.content.Dated "alice" := by
    refine ⟨?_, fun i hi => nomatch hi⟩
    rw [hall]
    intro p hp
    rcases List.mem_pair.mp hp with rfl | rfl
    · exact (by decide : (0 : Int64) < (1 : UInt64).toInt64)
    · exact (by decide : (0 : Int64) < (2 : UInt64).toInt64)
  obtain ⟨result, hresult, hperm, -⟩ := h compactJson peer "bob's node" "alice" c hc hs hahead hdated rfl
  have hmode : peer.mode (syncRequest "alice" c) = .needIdDiff := rfl
  have hnone := SyncPeer.posts_of_unreadIds hmode hlong hresult
  have hmissing : note "a" 1 ∈ (peer.content.postsBy "alice").filter (· ∉ c.postsBy "alice") := by
    rw [hposts, hall, List.mem_filter]
    refine ⟨List.mem_cons_self, decide_eq_true ?_⟩
    intro hsame
    exact hne (congrArg Post.id (List.mem_singleton.mp hsame)).symm
  rw [hnone] at hperm
  exact absurd (hperm.mem_iff.mpr hmissing) List.not_mem_nil

end Examples

end Proscenium.Client
