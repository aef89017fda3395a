import Proscenium.Client.SyncDeletions
import Proscenium.Server.FrameIngestion

/-! The server's sync against a client's `handle_sync`. A client that finds one of
its posts at or below the server's mark asks for ids the server does not send,
and the sync brings nothing: that is every sync after the first, until the older
posts are gone. -/

namespace Proscenium.Server

open Proscenium.Types Client

/-- What arrives when the device of a user answers; on the second stream nothing is sent to it. -/
def deviceAnswer (J : SerdeJson) (peer : SyncPeer) (remote : String) (req : SyncRequest) :
    Option (SyncSummary × List SyncFrame) :=
  match peer.handleSync J remote req with
  | none => none
  | some (summary, stream) =>
    if maxSummarySize < J.summaryLen summary then none
    else some (summary, readIngestFrames J (stream none))

namespace Index

def postMark (pubkey : String) (ix : Index) : Int64 := (ix.lastPostTimestamp pubkey).getD 0

def interactionMark (pubkey : String) (ix : Index) : Int64 := (ix.lastInteractionTimestamp pubkey).getD 0

end Index

/-- Everything of the author above the watermarks of `ix` is stored in `ix'`. -/
structure StoredAbove (pubkey : String) (c : ContentStore) (ix ix' : Index) : Prop where
  posts : ∀ p ∈ c.postsBy pubkey, ix.postMark pubkey < p.storedTimestamp → p ∈ ix'.posts
  interactions : ∀ i ∈ c.interactionsBy pubkey,
    ix.interactionMark pubkey < i.storedTimestamp → i ∈ ix'.interactions

/-- What the device holds passes the ingestion of the server. -/
structure Ingestible (S : SignatureCrates) (env : IngestEnv) (pubkey : String) (c : ContentStore)
    (ix : Index) : Prop where
  posts : ∀ p ∈ c.postsBy pubkey, StoresPost S env ix p
  interactions : ∀ i ∈ c.interactionsBy pubkey, StoresInteraction S env ix i

/-- No post of the author is at or below a watermark that is not zero. -/
def AllAbove (pubkey : String) (c : ContentStore) (ix : Index) : Prop :=
  ix.postMark pubkey = 0 ∨ ∀ p ∈ c.postsBy pubkey, ix.postMark pubkey < p.storedTimestamp

/-- The newer posts and interactions, batch by batch; all interactions if some are not newer. -/
def newerFrames (pubkey : String) (c : ContentStore) (ix : Index) : List SyncFrame :=
  let newer := Timeline.after Interaction.storedTimestamp (ix.interactionMark pubkey)
    (c.interactionsBy pubkey)
  let interactions :=
    if ix.interactionMark pubkey = 0 ∨ newer = c.interactionsBy pubkey then newer
    else c.interactionsBy pubkey
  (Timeline.batches batchSize (Timeline.ordered Post.storedTimestamp
      (Timeline.after Post.storedTimestamp (ix.postMark pubkey) (c.postsBy pubkey))) 0).map
      SyncFrame.posts ++
    (Timeline.batches batchSize (Timeline.ordered Interaction.storedTimestamp interactions) 0).map
      SyncFrame.interactions

/-- The device answers and is asked for no ids, and an item that is new finds its key free and is
not in or behind a frame whose length does not fit in its header. -/
structure Transfers (J : SerdeJson) (peer : SyncPeer) (remote pubkey : String) (ix : Index) : Prop where
  admits : peer.admits remote = true
  summary : J.summaryLen (peer.summary (serverSyncRequest pubkey ix)) ≤ maxSummarySize
  above : AllAbove pubkey peer.content ix
  posts : ∀ p ∈ peer.content.postsBy pubkey, ix.postMark pubkey < p.storedTimestamp →
    p ∉ ix.posts → (∀ q ∈ ix.posts, Index.postClash p q = false) ∧
      p ∈ (readIngestFrames J (newerFrames pubkey peer.content ix)).flatMap SyncFrame.posts?
  interactions : ∀ i ∈ peer.content.interactionsBy pubkey,
    ix.interactionMark pubkey < i.storedTimestamp → i ∉ ix.interactions →
    (∀ j ∈ ix.interactions, Index.interactionClash i j = false) ∧
      i ∈ (readIngestFrames J (newerFrames pubkey peer.content ix)).flatMap SyncFrame.interactions?

section Request

variable {pubkey : String} {peer : SyncPeer} {ix : Index}

theorem getD_toUInt64 (ts : Option Int64) : (ts.map Int64.toUInt64).getD 0 = (ts.getD 0).toUInt64 := by
  cases ts <;> rfl

theorem ite_toUInt64_pos {t : Int64} {a b : Nat} :
    (if t.toUInt64 > 0 then a else b) = if t = 0 then b else a :=
  (if_congr toUInt64_pos_iff rfl rfl).trans (ite_not _ _ _)

theorem length_after_eq_iff {ρ : Type} {time : ρ → Int64} {mark : Int64} {t : List ρ} :
    (Timeline.after time mark t).length = t.length ↔ Timeline.after time mark t = t := by
  constructor
  · intro h
    have hsub : (Timeline.after time mark t).Sublist t := List.filter_sublist
    exact hsub.eq_of_length h
  · intro h
    rw [h]

theorem after_eq_self_iff {ρ : Type} {time : ρ → Int64} {mark : Int64} {t : List ρ} :
    Timeline.after time mark t = t ↔ ∀ r ∈ t, mark < time r := by
  unfold Timeline.after
  rw [List.filter_eq_self]
  simp only [decide_eq_true_eq]

theorem catchesUp_zero_iff {n m : Nat} : catchesUp n 0 m = true ↔ m = n := by
  rw [catchesUp_iff, Nat.zero_add]

theorem postsAfterCount_server : peer.postsAfterCount (serverSyncRequest pubkey ix) =
    if ix.postMark pubkey = 0 then (peer.content.postsBy pubkey).length
    else (Timeline.after Post.storedTimestamp (ix.postMark pubkey) (peer.content.postsBy pubkey)).length := by
  have hnewest : (serverSyncRequest pubkey ix).newestTimestamp = (ix.postMark pubkey).toUInt64 :=
    getD_toUInt64 _
  unfold SyncPeer.postsAfterCount ContentStore.countPostsAfter ContentStore.countPostsByAuthor
  rw [hnewest, Int64.toInt64_toUInt64, ite_toUInt64_pos]
  rfl

theorem interactionsAfterCount_server : peer.interactionsAfterCount (serverSyncRequest pubkey ix) =
    if ix.interactionMark pubkey = 0 then (peer.content.interactionsBy pubkey).length
    else (Timeline.after Interaction.storedTimestamp (ix.interactionMark pubkey)
      (peer.content.interactionsBy pubkey)).length := by
  have hnewest : (serverSyncRequest pubkey ix).newestInteractionTimestamp =
      (ix.interactionMark pubkey).toUInt64 := getD_toUInt64 _
  unfold SyncPeer.interactionsAfterCount ContentStore.countInteractionsAfter
    ContentStore.countInteractionsByAuthor
  rw [hnewest, Int64.toInt64_toUInt64, ite_toUInt64_pos]
  rfl

theorem interactionsMatch_server : peer.interactionsMatch (serverSyncRequest pubkey ix) = true ↔
    peer.content.interactionsBy pubkey = [] := by
  unfold SyncPeer.interactionsMatch ContentStore.countInteractionsByAuthor
  rw [decide_eq_true_eq]
  exact eq_comm.trans List.length_eq_zero_iff

theorem mode_server : peer.mode (serverSyncRequest pubkey ix) =
    if peer.content.postsBy pubkey = [] ∧ peer.content.interactionsBy pubkey = [] then .upToDate
    else if peer.postsAfterCount (serverSyncRequest pubkey ix) = (peer.content.postsBy pubkey).length
    then .timestampCatchUp else .needIdDiff := by
  have hposts : (serverSyncRequest pubkey ix).postCount = peer.content.countPostsByAuthor pubkey ↔
      peer.content.postsBy pubkey = [] := eq_comm.trans List.length_eq_zero_iff
  simp only [SyncPeer.mode]
  refine if_congr (and_congr hposts interactionsMatch_server) rfl (if_congr ?_ rfl rfl)
  exact catchesUp_zero_iff

theorem mode_eq_needIdDiff_iff :
    peer.mode (serverSyncRequest pubkey ix) = .needIdDiff ↔ ¬ AllAbove pubkey peer.content ix := by
  have hcount : peer.postsAfterCount (serverSyncRequest pubkey ix) =
      (peer.content.postsBy pubkey).length ↔ AllAbove pubkey peer.content ix := by
    rw [postsAfterCount_server]
    unfold AllAbove
    split
    next h => exact iff_of_true rfl (Or.inl h)
    next h => rw [length_after_eq_iff, after_eq_self_iff, or_iff_right h]
  rw [mode_server]
  split
  next hempty =>
    refine iff_of_false (by simp) (not_not.mpr (Or.inr ?_))
    rw [hempty.1]
    simp
  next =>
    split
    next h => exact iff_of_false (by simp) (not_not.mpr (hcount.mp h))
    next h => exact iff_of_true rfl fun habove => h (hcount.mpr habove)

theorem selectPosts_server (h : AllAbove pubkey peer.content ix) :
    peer.selectPosts (serverSyncRequest pubkey ix) [] = Timeline.ordered Post.storedTimestamp
      (Timeline.after Post.storedTimestamp (ix.postMark pubkey) (peer.content.postsBy pubkey)) := by
  have hnewest : (serverSyncRequest pubkey ix).newestTimestamp.toInt64 = ix.postMark pubkey := by
    rw [← Int64.toInt64_toUInt64 (ix.postMark pubkey)]
    exact congrArg _ (getD_toUInt64 _)
  unfold SyncPeer.selectPosts
  cases hmode : peer.mode (serverSyncRequest pubkey ix) with
  | needIdDiff => exact absurd h (mode_eq_needIdDiff_iff.mp hmode)
  | timestampCatchUp =>
    show ContentStore.getPostsAfter pubkey _ _ = _
    unfold ContentStore.getPostsAfter
    rw [hnewest]
  | upToDate =>
    have hnil : peer.content.postsBy pubkey = [] :=
      List.length_eq_zero_iff.mp (SyncPeer.counts_of_upToDate hmode).1.symm
    rw [hnil]
    rfl

theorem selectInteractions_server : peer.selectInteractions (serverSyncRequest pubkey ix) =
    Timeline.ordered Interaction.storedTimestamp
      (if ix.interactionMark pubkey = 0 ∨ Timeline.after Interaction.storedTimestamp
          (ix.interactionMark pubkey) (peer.content.interactionsBy pubkey) =
            peer.content.interactionsBy pubkey then
        Timeline.after Interaction.storedTimestamp (ix.interactionMark pubkey)
          (peer.content.interactionsBy pubkey)
      else peer.content.interactionsBy pubkey) := by
  have hnewest : (serverSyncRequest pubkey ix).newestInteractionTimestamp.toInt64 =
      ix.interactionMark pubkey := by
    rw [← Int64.toInt64_toUInt64 (ix.interactionMark pubkey)]
    exact congrArg _ (getD_toUInt64 _)
  have hcatch : catchesUp (peer.content.countInteractionsByAuthor pubkey) 0
      (peer.interactionsAfterCount (serverSyncRequest pubkey ix)) = true ↔
      ix.interactionMark pubkey = 0 ∨ Timeline.after Interaction.storedTimestamp
        (ix.interactionMark pubkey) (peer.content.interactionsBy pubkey) =
          peer.content.interactionsBy pubkey := by
    rw [catchesUp_zero_iff, interactionsAfterCount_server]
    split
    next h => exact iff_of_true rfl (Or.inl h)
    next h => exact length_after_eq_iff.trans (or_iff_right h).symm
  unfold SyncPeer.selectInteractions
  split
  next hmatch =>
    rw [interactionsMatch_server.mp hmatch]
    simp [Timeline.after, Timeline.ordered]
  next =>
    rw [apply_ite (Timeline.ordered Interaction.storedTimestamp)]
    refine if_congr hcatch ?_ rfl
    show ContentStore.getInteractionsAfter pubkey _ _ = _
    unfold ContentStore.getInteractionsAfter
    rw [hnewest]

theorem stream_server (J : SerdeJson) [Decidable (AllAbove pubkey peer.content ix)] :
    peer.stream J (serverSyncRequest pubkey ix) none =
      if AllAbove pubkey peer.content ix then newerFrames pubkey peer.content ix else [] := by
  unfold SyncPeer.stream SyncPeer.readKnownIds
  split
  next hnone =>
    rw [if_neg]
    apply mode_eq_needIdDiff_iff.mp
    by_contra hmode
    cases hm : peer.mode (serverSyncRequest pubkey ix) <;> simp_all
  next ids hids =>
    have hmode : peer.mode (serverSyncRequest pubkey ix) ≠ .needIdDiff := by
      intro hmode
      rw [hmode] at hids
      exact nomatch hids
    have habove : AllAbove pubkey peer.content ix := by
      by_contra h
      exact hmode (mode_eq_needIdDiff_iff.mpr h)
    obtain rfl : ids = [] := by
      cases hm : peer.mode (serverSyncRequest pubkey ix) <;> simp_all
    rw [if_pos habove, selectPosts_server habove, selectInteractions_server]
    rfl

theorem newerFrames_of_upToDate (h : peer.mode (serverSyncRequest pubkey ix) = .upToDate) :
    newerFrames pubkey peer.content ix = [] := by
  have hposts : peer.content.postsBy pubkey = [] :=
    List.length_eq_zero_iff.mp (SyncPeer.counts_of_upToDate h).1.symm
  have hinteractions := interactionsMatch_server.mp (SyncPeer.counts_of_upToDate h).2
  unfold newerFrames
  rw [hposts, hinteractions]
  simp [Timeline.after, Timeline.ordered]

end Request

/-- The session comes to the frames with the new items. -/
def Streams (J : SerdeJson) (peer : SyncPeer) (remote pubkey : String) (ix : Index) : Prop :=
  peer.admits remote = true ∧
    J.summaryLen (peer.summary (serverSyncRequest pubkey ix)) ≤ maxSummarySize ∧
    AllAbove pubkey peer.content ix

section Outcome

variable {S : SignatureCrates} {env : IngestEnv} {now : UInt64} {J : SerdeJson} {peer : SyncPeer}
  {remote pubkey : String} {ix : Index}

open Classical in
/-- As far as content goes, a sync is the loop over the frames that carry it. -/
theorem sync_content (J : SerdeJson) (peer : SyncPeer) (remote pubkey : String) (ix : Index) :
    let ix' := (syncFromPeerInner S env now pubkey (deviceAnswer J peer remote) ix).2
    let read := if Streams J peer remote pubkey ix then
      readIngestFrames J (newerFrames pubkey peer.content ix) else []
    ix'.posts = (takeFrames S env read ix).index.posts ∧
      ix'.interactions = (takeFrames S env read ix).index.interactions := by
  intro ix' read
  by_cases hadmits : peer.admits remote = true
  swap
  · have hread : read = [] := if_neg fun h => hadmits h.1
    have hix : ix' = ix := by
      show (syncFromPeerInner S env now pubkey (deviceAnswer J peer remote) ix).2 = ix
      unfold syncFromPeerInner deviceAnswer SyncPeer.handleSync
      rw [if_neg hadmits]
    rw [hread, hix]
    exact ⟨rfl, rfl⟩
  by_cases hsummary : J.summaryLen (peer.summary (serverSyncRequest pubkey ix)) ≤ maxSummarySize
  swap
  · have hread : read = [] := if_neg fun h => hsummary h.2.1
    have hix : ix' = ix := by
      show (syncFromPeerInner S env now pubkey (deviceAnswer J peer remote) ix).2 = ix
      unfold syncFromPeerInner deviceAnswer SyncPeer.handleSync
      rw [if_pos hadmits]
      simp only [if_pos (Nat.not_le.mp hsummary)]
    rw [hread, hix]
    exact ⟨rfl, rfl⟩
  have hread : read = readIngestFrames J (peer.stream J (serverSyncRequest pubkey ix) none) := by
    show (if Streams J peer remote pubkey ix then _ else _) = _
    rw [stream_server]
    by_cases habove : AllAbove pubkey peer.content ix
    · rw [if_pos ⟨hadmits, hsummary, habove⟩, if_pos habove]
    · rw [if_neg fun h => habove h.2.2, if_neg habove]
      rfl
  have hanswer : deviceAnswer J peer remote (serverSyncRequest pubkey ix) =
      some (peer.summary (serverSyncRequest pubkey ix), read) := by
    unfold deviceAnswer SyncPeer.handleSync
    rw [if_pos hadmits, hread]
    simp only [if_neg (Nat.not_lt.mpr hsummary)]
  show (syncFromPeerInner S env now pubkey _ ix).2.posts = _ ∧
    (syncFromPeerInner S env now pubkey _ ix).2.interactions = _
  unfold syncFromPeerInner
  rw [hanswer]
  by_cases hmode : peer.mode (serverSyncRequest pubkey ix) = .upToDate
  · have hnil : read = [] := by
      have habove : AllAbove pubkey peer.content ix := by
        by_contra h
        exact nomatch hmode.symm.trans (mode_eq_needIdDiff_iff.mpr h)
      rw [hread, stream_server, if_pos habove, newerFrames_of_upToDate hmode]
      rfl
    rw [hnil]
    simp only [SyncPeer.summary, hmode, if_true]
    exact ⟨Index.updateSyncState_posts, Index.updateSyncState_interactions⟩
  · simp only [SyncPeer.summary, hmode, if_false]
    exact ⟨Index.updateSyncState_posts, Index.updateSyncState_interactions⟩

theorem mem_readIngestFrames {frames : List SyncFrame} {frame : SyncFrame}
    (h : frame ∈ readIngestFrames J frames) : frame ∈ frames :=
  List.takeWhile_subset _ h

theorem mem_newerFrames_posts {c : ContentStore} {p : Post}
    (h : p ∈ (readIngestFrames J (newerFrames pubkey c ix)).flatMap SyncFrame.posts?) :
    p ∈ c.postsBy pubkey := by
  obtain ⟨frame, hframe, hp⟩ := List.mem_flatMap.mp h
  have hall : p ∈ (newerFrames pubkey c ix).flatMap SyncFrame.posts? :=
    List.mem_flatMap.mpr ⟨frame, mem_readIngestFrames hframe, hp⟩
  unfold newerFrames at hall
  rw [(SyncPeer.frames_flatMap _ _).1] at hall
  exact (Timeline.mem_after.mp (Timeline.mem_ordered.mp hall)).1

theorem mem_newerFrames_interactions {c : ContentStore} {i : Interaction}
    (h : i ∈ (readIngestFrames J (newerFrames pubkey c ix)).flatMap SyncFrame.interactions?) :
    i ∈ c.interactionsBy pubkey := by
  obtain ⟨frame, hframe, hi⟩ := List.mem_flatMap.mp h
  have hall : i ∈ (newerFrames pubkey c ix).flatMap SyncFrame.interactions? :=
    List.mem_flatMap.mpr ⟨frame, mem_readIngestFrames hframe, hi⟩
  unfold newerFrames at hall
  rw [(SyncPeer.frames_flatMap _ _).2] at hall
  have hany := Timeline.mem_ordered.mp hall
  split at hany
  · exact (Timeline.mem_after.mp hany).1
  · exact hany

theorem mem_posts_sync_iff (hkeyed : peer.content.Keyed)
    (hingest : Ingestible S env pubkey peer.content ix) {p : Post}
    (hp : p ∈ peer.content.postsBy pubkey) :
    p ∈ (syncFromPeerInner S env now pubkey (deviceAnswer J peer remote) ix).2.posts ↔
      p ∈ ix.posts ∨ Streams J peer remote pubkey ix ∧ (∀ q ∈ ix.posts, Index.postClash p q = false) ∧
        p ∈ (readIngestFrames J (newerFrames pubkey peer.content ix)).flatMap SyncFrame.posts? := by
  rw [(sync_content J peer remote pubkey ix).1, mem_posts_takeFrames]
  refine or_congr_right ?_
  split
  next hstreams =>
    rw [and_iff_right hstreams]
    refine and_congr_right fun _ => ?_
    rw [Table.find?_eq_self_iff, List.mem_filter, decide_eq_true_eq]
    · exact and_iff_left_of_imp fun hq => hingest.posts p (mem_newerFrames_posts hq)
    · exact Index.postClash_iff.mpr ⟨rfl, rfl⟩
    · intro q hq hclash
      have hq := mem_newerFrames_posts (List.mem_filter.mp hq).1
      exact hkeyed.eq_of_id hq hp (Index.postClash_iff.mp hclash).2
  next hstreams =>
    refine iff_of_false ?_ fun h => hstreams h.1
    rintro ⟨-, hfind⟩
    exact nomatch hfind

theorem mem_interactions_sync_iff (hkeyed : peer.content.Keyed)
    (hingest : Ingestible S env pubkey peer.content ix) {i : Interaction}
    (hi : i ∈ peer.content.interactionsBy pubkey) :
    i ∈ (syncFromPeerInner S env now pubkey (deviceAnswer J peer remote) ix).2.interactions ↔
      i ∈ ix.interactions ∨ Streams J peer remote pubkey ix ∧
        (∀ j ∈ ix.interactions, Index.interactionClash i j = false) ∧
        i ∈ (readIngestFrames J (newerFrames pubkey peer.content ix)).flatMap
          SyncFrame.interactions? := by
  rw [(sync_content J peer remote pubkey ix).2, mem_interactions_takeFrames]
  refine or_congr_right ?_
  split
  next hstreams =>
    rw [and_iff_right hstreams]
    refine and_congr_right fun _ => ?_
    rw [Table.find?_eq_self_iff, List.mem_filter, decide_eq_true_eq]
    · exact and_iff_left_of_imp fun hj => hingest.interactions i (mem_newerFrames_interactions hj)
    · exact Index.interactionClash_iff.mpr ⟨rfl, rfl⟩
    · intro j hj hclash
      have hj := mem_newerFrames_interactions (List.mem_filter.mp hj).1
      exact hkeyed.eq_of_clash hj hi (Or.inl (Index.interactionClash_iff.mp hclash).2)
  next hstreams =>
    refine iff_of_false ?_ fun h => hstreams h.1
    rintro ⟨-, hfind⟩
    exact nomatch hfind

/-- A sync brings everything above the watermarks, unless it is there already, exactly if the device
answers, asks for no ids, and sends what is new, under keys that are free, in frames that can be
read. -/
theorem sync_complete_iff (now : UInt64) (J : SerdeJson) (remote : String)
    (hkeyed : peer.content.Keyed) (hingest : Ingestible S env pubkey peer.content ix) :
    StoredAbove pubkey peer.content ix
        (syncFromPeerInner S env now pubkey (deviceAnswer J peer remote) ix).2 ↔
      StoredAbove pubkey peer.content ix ix ∨ Transfers J peer remote pubkey ix := by
  constructor
  · intro h
    by_cases hstreams : Streams J peer remote pubkey ix
    · refine Or.inr ⟨hstreams.1, hstreams.2.1, hstreams.2.2, ?_, ?_⟩
      · intro p hp hts hnew
        exact (((mem_posts_sync_iff hkeyed hingest hp).mp (h.posts p hp hts)).resolve_left hnew).2
      · intro i hi hts hnew
        exact (((mem_interactions_sync_iff hkeyed hingest hi).mp
          (h.interactions i hi hts)).resolve_left hnew).2
    · left
      constructor
      · intro p hp hts
        exact ((mem_posts_sync_iff hkeyed hingest hp).mp (h.posts p hp hts)).resolve_right
          fun hr => hstreams hr.1
      · intro i hi hts
        exact ((mem_interactions_sync_iff hkeyed hingest hi).mp (h.interactions i hi hts)).resolve_right
          fun hr => hstreams hr.1
  · rintro (h | h)
    · constructor
      · intro p hp hts
        exact (mem_posts_sync_iff hkeyed hingest hp).mpr (Or.inl (h.posts p hp hts))
      · intro i hi hts
        exact (mem_interactions_sync_iff hkeyed hingest hi).mpr (Or.inl (h.interactions i hi hts))
    · have hstreams : Streams J peer remote pubkey ix := ⟨h.admits, h.summary, h.above⟩
      constructor
      · intro p hp hts
        by_cases hold : p ∈ ix.posts
        · exact (mem_posts_sync_iff hkeyed hingest hp).mpr (Or.inl hold)
        · exact (mem_posts_sync_iff hkeyed hingest hp).mpr (Or.inr ⟨hstreams, h.posts p hp hts hold⟩)
      · intro i hi hts
        by_cases hold : i ∈ ix.interactions
        · exact (mem_interactions_sync_iff hkeyed hingest hi).mpr (Or.inl hold)
        · exact (mem_interactions_sync_iff hkeyed hingest hi).mpr
            (Or.inr ⟨hstreams, h.interactions i hi hts hold⟩)

end Outcome

section Examples

open Feed (signedNote aliceSignature frameLen_signedNote)

/-- Every statement succeeds, at time 20. -/
def quiet : IngestEnv := ⟨fun _ => (fun _ => false, 20), fun _ => (fun _ => false, 20)⟩

def registeredOnly : Index := ⟨["alice"], [], [], [], []⟩

def noteSignature (id : String) (timestamp : UInt64) : String :=
  hexEncode (checksumSign "alice" (postSigningBytes (note id timestamp)))

def sealedNote (id : String) (timestamp : UInt64) : Post :=
  ⟨id, "alice", "", timestamp, [], none, none, none, none, noteSignature id timestamp⟩

theorem storesPost_sealedNote {id : String} {timestamp : UInt64} (htime : timestamp ≤ 20) {ix : Index}
    (hreg : "alice" ∈ ix.registered) (hdelegations : ix.peerDelegations = []) :
    StoresPost checksumCrates quiet ix (sealedNote id timestamp) := by
  have hvalid : (validatePost 20 (sealedNote id timestamp)).toBool = true := by
    have hdrift : ¬ timestamp.toNat > (20 : UInt64).toNat + maxTimestampDriftMs := by
      have hle := UInt64.le_iff_toNat_le.mp htime
      unfold maxTimestampDriftMs
      omega
    have hcontent : ¬ "".utf8ByteSize > maxPostContentLen := by decide
    have hmedia : ¬ ([] : List MediaAttachment).length > maxMediaCount := by decide
    unfold validatePost sealedNote
    rw [if_neg hcontent, if_neg hmedia, if_neg hdrift]
    rfl
  have hsigner : signerOf checksumCrates (fun _ => false) "alice" ix = .ok (checksumKey "alice") := by
    unfold signerOf Index.getPeerSigningPubkey
    rw [hdelegations]
    rfl
  have hsigned : verifyPostSignature checksumCrates (sealedNote id timestamp) (checksumKey "alice") =
      .ok () := verifySigned_checksum "post" "alice" _
  have hsigns : signerAccepts checksumCrates (fun _ => false)
      (verifyPostSignature checksumCrates (sealedNote id timestamp)) "alice" ix = true := by
    unfold signerAccepts
    rw [hsigner]
    exact congrArg Except.toBool hsigned
  have haccepts : acceptsPost checksumCrates (fun _ => false) 20 (sealedNote id timestamp) ix = true := by
    unfold acceptsPost
    rw [hvalid, Bool.true_and]
    exact hsigns
  exact ⟨haccepts, rfl, hreg⟩

def firstNode (σ : String) : SyncPeer := aliceNode ⟨[signedNote σ], []⟩

theorem newerFrames_first (σ : String) : newerFrames "alice" (firstNode σ).content registeredOnly =
    [.posts [signedNote σ]] := by
  show (Timeline.batches batchSize [signedNote σ] 0).map SyncFrame.posts ++
    (Timeline.batches batchSize ([] : List Interaction) 0).map SyncFrame.interactions = _
  rw [Timeline.batches_nil, Timeline.batches_of_length_le (List.cons_ne_nil _ _) (by simp [batchSize])]
  rfl

theorem readIngestFrames_first : readIngestFrames compactJson
    (newerFrames "alice" (firstNode aliceSignature).content registeredOnly) =
      [.posts [signedNote aliceSignature]] := by
  have hlen := frameLen_signedNote
  have hpos := compactJson.frameLen_pos (.posts [signedNote aliceSignature])
  have hheader : compactJson.header (.posts [signedNote aliceSignature]) =
      compactJson.frameLen (.posts [signedNote aliceSignature]) :=
    Nat.mod_eq_of_lt (hlen.trans_lt (by decide))
  rw [newerFrames_first]
  unfold readIngestFrames
  rw [List.takeWhile_cons_of_pos, List.takeWhile_nil]
  exact decide_eq_true ⟨by omega, hheader⟩

theorem transfers_first :
    Transfers compactJson (firstNode aliceSignature) "server" "alice" registeredOnly where
  admits := rfl
  summary := by
    have hsummary : ∀ σ, (firstNode σ).summary (serverSyncRequest "alice" registeredOnly) =
        ⟨1, 0, 1, 0, .timestampCatchUp, none⟩ := fun _ => rfl
    rw [hsummary]
    decide +kernel
  above := Or.inl rfl
  posts p hp _ _ := by
    rw [readIngestFrames_first]
    exact ⟨fun q hq => (nomatch hq), hp⟩
  interactions i hi := nomatch hi

theorem ingestible_first :
    Ingestible checksumCrates quiet "alice" (firstNode aliceSignature).content registeredOnly where
  posts p hp := by
    obtain rfl : p = signedNote aliceSignature := List.mem_singleton.mp hp
    exact storesPost_sealedNote (by decide) (List.mem_singleton.mpr rfl) rfl
  interactions i hi := nomatch hi

theorem keyed_first (σ : String) : (firstNode σ).content.Keyed :=
  ⟨List.pairwise_singleton _ _, List.Pairwise.nil⟩

/-- The first sync brings the post. -/
theorem sync_complete_first : StoredAbove "alice" (firstNode aliceSignature).content registeredOnly
    (syncFromPeerInner checksumCrates quiet 20 "alice"
      (deviceAnswer compactJson (firstNode aliceSignature) "server") registeredOnly).2 :=
  (sync_complete_iff 20 compactJson "server" (keyed_first _) ingestible_first).mpr (Or.inr transfers_first)

def afterFirst (σ : String) : Index :=
  ⟨["alice"], [], [signedNote σ], [], [⟨"alice", 20, some 2, none⟩]⟩

theorem deviceAnswer_first : deviceAnswer compactJson (firstNode aliceSignature) "server"
    (serverSyncRequest "alice" registeredOnly) =
      some (⟨1, 0, 1, 0, .timestampCatchUp, none⟩, [.posts [signedNote aliceSignature]]) := by
  have hsummary : ∀ σ, (firstNode σ).summary (serverSyncRequest "alice" registeredOnly) =
      ⟨1, 0, 1, 0, .timestampCatchUp, none⟩ := fun _ => rfl
  have hsize := transfers_first.summary
  have hstream : readIngestFrames compactJson ((firstNode aliceSignature).stream compactJson
      (serverSyncRequest "alice" registeredOnly) none) = [.posts [signedNote aliceSignature]] := by
    classical
    rw [stream_server, if_pos transfers_first.above, readIngestFrames_first]
  unfold deviceAnswer SyncPeer.handleSync
  rw [if_pos transfers_first.admits]
  rw [hsummary] at hsize
  simp only [hstream, hsummary, if_neg (Nat.not_lt.mpr hsize)]

theorem sync_first : (syncFromPeerInner checksumCrates quiet 20 "alice"
    (deviceAnswer compactJson (firstNode aliceSignature) "server") registeredOnly).2 =
      afterFirst aliceSignature := by
  have hstores : StoresPost checksumCrates quiet registeredOnly (signedNote aliceSignature) :=
    ingestible_first.posts _ (List.mem_singleton.mpr rfl)
  have htake : takeFrames checksumCrates quiet [.posts [signedNote aliceSignature]] registeredOnly =
      ⟨⟨["alice"], [], [signedNote aliceSignature], [], []⟩, 1, 0, some 2, none⟩ := by
    show Progress.takePost checksumCrates quiet ⟨registeredOnly, 0, 0, none, none⟩
      (signedNote aliceSignature) = _
    unfold Progress.takePost ingestPost
    rw [if_pos (StoresPost.iff_and.mp hstores)]
    rfl
  unfold syncFromPeerInner
  rw [deviceAnswer_first]
  simp only [htake]
  rfl

def secondNode (σ : String) : SyncPeer := aliceNode ⟨[signedNote σ, sealedNote "c" 3], []⟩

/-- Alice writes another post after a first sync, and a second sync does not bring it. -/
theorem not_sync_complete_second :
    ¬ ∀ (S : SignatureCrates) (J : SerdeJson) (env₁ env₂ : IngestEnv) (now₁ now₂ : UInt64)
      (pubkey remote : String) (peer₁ peer₂ : SyncPeer) (ix₀ ix₁ : Index),
      (syncFromPeerInner S env₁ now₁ pubkey (deviceAnswer J peer₁ remote) ix₀).2 = ix₁ →
      peer₁.content.Keyed → peer₂.content.Keyed →
      Ingestible S env₁ pubkey peer₁.content ix₀ → Ingestible S env₂ pubkey peer₂.content ix₁ →
      peer₁.admits remote = true → peer₂.admits remote = true →
      StoredAbove pubkey peer₂.content ix₁
        (syncFromPeerInner S env₂ now₂ pubkey (deviceAnswer J peer₂ remote) ix₁).2 := by
  intro h
  have hingest : Ingestible checksumCrates quiet "alice" (secondNode aliceSignature).content
      (afterFirst aliceSignature) := by
    refine ⟨fun p hp => ?_, fun i hi => nomatch hi⟩
    have hreg : "alice" ∈ (afterFirst aliceSignature).registered := List.mem_singleton.mpr rfl
    rcases List.mem_pair.mp (show p ∈ [signedNote aliceSignature, sealedNote "c" 3] from hp) with
      rfl | rfl
    · exact @storesPost_sealedNote "b" 2 (by decide) _ hreg rfl
    · exact storesPost_sealedNote (by decide) hreg rfl
  have hkeyed : (secondNode aliceSignature).content.Keyed := by
    refine ⟨List.pairwise_pair.mpr ?_, List.Pairwise.nil⟩
    exact fun hsame => absurd hsame.2 (by decide : "b" ≠ "c")
  have hstored := h checksumCrates compactJson quiet quiet 20 20 "alice" "server"
    (firstNode aliceSignature) (secondNode aliceSignature) registeredOnly _ sync_first
    (keyed_first _) hkeyed ingestible_first hingest rfl rfl
  have hnew : sealedNote "c" 3 ∈ (secondNode aliceSignature).content.postsBy "alice" :=
    List.mem_cons_of_mem _ (List.mem_singleton.mpr rfl)
  have hmark : (afterFirst aliceSignature).postMark "alice" = 2 := rfl
  have hnot : sealedNote "c" 3 ∉ (afterFirst aliceSignature).posts := by
    intro hmem
    have hsame : sealedNote "c" 3 = signedNote aliceSignature := List.mem_singleton.mp hmem
    exact absurd (congrArg Post.id hsame) (by decide : "c" ≠ "b")
  have hbelow : ¬ AllAbove "alice" (secondNode aliceSignature).content (afterFirst aliceSignature) := by
    rintro (hzero | hall)
    · exact absurd (hmark.symm.trans hzero) (by decide)
    · have hlt := hall (signedNote aliceSignature) List.mem_cons_self
      exact absurd hlt (by decide : ¬ (2 : Int64) < 2)
  have hpost := hstored.posts (sealedNote "c" 3) hnew (by decide : (2 : Int64) < 3)
  rcases (mem_posts_sync_iff hkeyed hingest hnew).mp hpost with hold | ⟨hstreams, -⟩
  · exact hnot hold
  · exact hbelow hstreams.2.2

end Examples

end Proscenium.Server
