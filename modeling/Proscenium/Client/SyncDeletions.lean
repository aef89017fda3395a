import Proscenium.Lib.Machine
import Proscenium.Client.SyncCatchUp
import Proscenium.Types.ChecksumScheme

/-! An author's device and a follower that hears of some of what happens there
by gossip and syncs now and then. A sync only ever adds: what the follower
still holds of what the author deleted, it holds after the sync as well. -/

namespace Proscenium.Client

open Proscenium.Types

/-- The device of an author, and what one follower has stored. -/
structure Feed where
  peer : SyncPeer
  storage : Storage
  content : ContentStore
  deriving DecidableEq, Repr

namespace Feed

/-- `heard` if the gossip message that is sent reaches the follower and is processed there. -/
inductive Label where
  | createPost (p : Post) (heard : Bool)
  | likePost (i : Interaction) (heard : Bool)
  | deletePost (id : String) (heard : Bool)
  | unlikePost (targetPostId : String) (heard : Bool)
  | sync (now : UInt64)
  deriving DecidableEq, Repr

/-- A `DeletePost` by `author`, which looks the post up by its id. -/
def dropPost (author id : String) (c : ContentStore) : ContentStore :=
  match c.getPostById id with
  | some post => if post.author = author then c.deletePost id else c
  | none => c

def likeOn (author targetPostId : String) (c : ContentStore) : Option Interaction :=
  c.interactions.find? fun i => i.author = author ∧ i.kind = .like ∧ i.targetPostId = targetPostId

variable (J : SerdeJson) (S : SignatureCrates) (remote : String)

abbrev noFails : PeerFails := fun _ => false

/-- A session between the two, and what the follower makes of it. -/
def sync (now : UInt64) (w : Feed) : Feed :=
  match syncFromPeer J w.peer remote w.peer.nodeId w.content with
  | some result =>
    let stored := processSynced S noFails now w.peer.nodeId result w.storage w.content
    { w with
      storage := stored.1
      content := stored.2 }
  | none => w

def author (w : Feed) : String := w.peer.nodeId

def change (f g : ContentStore → ContentStore) (heard : Bool) (w : Feed) : Feed :=
  { w with
    peer := { w.peer with content := f w.peer.content }
    content := if heard then g w.content else w.content }

/-- Ids are drawn at random, and no two items of an author have the same one. -/
def step (w : Feed) : Label → Option Feed
  | .createPost p heard =>
    if p.author = w.author ∧ w.peer.content.posts.any (ContentStore.postClash p) = false then
      some (w.change (ContentStore.insertPost p) (ContentStore.insertPost p) heard)
    else none
  | .likePost i heard =>
    if i.author = w.author then
      some (w.change (ContentStore.saveInteraction i) (ContentStore.saveInteraction i) heard)
    else none
  | .deletePost id heard =>
    match w.peer.content.getPostById id with
    | some post =>
      if post.author = w.author then
        some (w.change (ContentStore.deletePost id) (dropPost w.author id) heard)
      else none
    | none => none
  | .unlikePost target heard =>
    match likeOn w.author target w.peer.content with
    | some i =>
      some (w.change (ContentStore.deleteInteraction i.id w.author)
        (ContentStore.deleteInteraction i.id w.author) heard)
    | none => some w
  | .sync now => some (w.sync J S remote now)

/-- After a session the follower has of the author what the author has. -/
def Converges (now : UInt64) (w : Feed) : Prop :=
  (∀ p, p ∈ (w.sync J S remote now).content.postsBy w.author ↔ p ∈ w.peer.content.postsBy w.author) ∧
    ∀ i, i ∈ (w.sync J S remote now).content.interactionsBy w.author ↔
      i ∈ w.peer.content.interactionsBy w.author

/-- The session is complete and everything in it is valid. -/
structure Complete (now : UInt64) (w : Feed) : Prop where
  admits : w.peer.admits remote = true
  readable : w.peer.Readable J w.author w.content
  dated : w.peer.content.Dated w.author
  posts : ∀ p ∈ w.peer.content.postsBy w.author, acceptsPost S noFails now p w.storage = true
  interactions : ∀ i ∈ w.peer.content.interactionsBy w.author,
    acceptsInteraction S noFails now i w.author w.storage = true

/-- Nothing the follower holds of the author is gone on the author's device. -/
def UpToDeletions (w : Feed) : Prop := w.peer.Ahead w.author w.content

/-- The follower hears of the deletion of whatever it holds, and finds it by its id; a like it hears
of is the author's only one of the post. -/
def HearsDeletions (w : Feed) : Label → Prop
  | .deletePost id heard => (∀ p ∈ w.content.postsBy w.author, p.id ≠ id) ∨
      heard = true ∧ ∃ p, w.content.getPostById id = some p ∧ p.author = w.author
  | .unlikePost target heard => heard = true ∨ ∀ i ∈ w.content.interactionsBy w.author,
      i.kind = .like → i.targetPostId ≠ target
  | .likePost i heard => heard = true →
      w.peer.content.interactions.any (ContentStore.interactionClash i) = false
  | _ => True

structure Keyed (w : Feed) : Prop where
  peer : w.peer.content.Keyed
  content : w.content.Keyed

variable {J S remote} {w : Feed} {now : UInt64}

/-- The posts and interactions of a session that pass their checks, and nothing else, are stored. -/
theorem content_processSynced {pubkey : String} {result : SyncResult} {st : Storage} {c : ContentStore} :
    (processSynced S noFails now pubkey result st c).2 =
      (c.insertPosts (result.posts.filter fun p => acceptsPost S noFails now p st)).saveInteractions
        (result.interactions.filter fun i => acceptsInteraction S noFails now i pubkey st) := by
  have hposts : ∀ (posts : List Post) (c : ContentStore),
      posts.foldl (fun c p => (processIncomingPost S noFails now p st c).2) c =
        c.insertPosts (posts.filter fun p => acceptsPost S noFails now p st) := by
    intro posts
    induction posts with
    | nil => exact fun _ => rfl
    | cons p posts ih =>
      intro c
      rw [List.foldl_cons, ih, List.filter_cons]
      unfold processIncomingPost
      cases acceptsPost S noFails now p st with
      | true => rfl
      | false => rfl
  have hprofile : (processSyncResult noFails.table pubkey result.profile st).peerDelegations =
      st.peerDelegations := by
    unfold processSyncResult
    split
    · refine Storage.peerDelegations_attempt ?_ st
      intro _
      rfl
    · rfl
  have haccepts : ∀ i, acceptsInteraction S noFails now i pubkey
      (processSyncResult noFails.table pubkey result.profile st) =
      acceptsInteraction S noFails now i pubkey st := by
    intro i
    unfold acceptsInteraction signerAccepts resolveSigner Storage.getPeerSigningPubkey
    rw [hprofile]
  have hinteractions : ∀ (interactions : List Interaction) (c : ContentStore),
      interactions.foldl (fun c i => processIncomingInteraction S noFails now i pubkey
          (processSyncResult noFails.table pubkey result.profile st) c) c =
        c.saveInteractions (interactions.filter fun i => acceptsInteraction S noFails now i pubkey st) := by
    intro interactions
    induction interactions with
    | nil => exact fun _ => rfl
    | cons i interactions ih =>
      intro c
      rw [List.foldl_cons, ih, List.filter_cons]
      unfold processIncomingInteraction
      rw [haccepts]
      cases acceptsInteraction S noFails now i pubkey st with
      | true => rfl
      | false => rfl
  unfold processSynced
  exact (hinteractions _ _).trans (congrArg _ (hposts _ _))

theorem content_sync (J : SerdeJson) (S : SignatureCrates) (remote : String) (now : UInt64) (w : Feed) :
    ∃ posts interactions, posts ⊆ w.peer.content.postsBy w.author ∧
    interactions ⊆ w.peer.content.interactionsBy w.author ∧
    (w.sync J S remote now).content = (w.content.insertPosts posts).saveInteractions interactions := by
  unfold sync
  split
  next result hresult =>
    obtain ⟨hposts, hinteractions⟩ := SyncPeer.syncFromPeer_subset hresult
    refine ⟨_, _, ?_, ?_, content_processSynced⟩
    · exact fun p hp => hposts (List.mem_filter.mp hp).1
    · exact fun i hi => hinteractions (List.mem_filter.mp hi).1
  next => exact ⟨[], [], List.nil_subset _, List.nil_subset _, rfl⟩

theorem peer_sync : (w.sync J S remote now).peer = w.peer := by
  unfold sync
  split
  · rfl
  · rfl

theorem postsBy_saveInteractions {c : ContentStore} {interactions : List Interaction} {author : String} :
    (c.saveInteractions interactions).postsBy author = c.postsBy author := by
  rw [ContentStore.saveInteractions_eq]
  rfl

theorem interactionsBy_insertPosts {c : ContentStore} {posts : List Post} {author : String} :
    (c.insertPosts posts).interactionsBy author = c.interactionsBy author := by
  rw [ContentStore.insertPosts_eq]
  rfl

theorem subset_sync (J : SerdeJson) (S : SignatureCrates) (remote : String) (now : UInt64) (w : Feed) :
    w.content.postsBy w.author ⊆ (w.sync J S remote now).content.postsBy w.author ∧
    w.content.interactionsBy w.author ⊆ (w.sync J S remote now).content.interactionsBy w.author := by
  obtain ⟨posts, interactions, -, -, hcontent⟩ := content_sync J S remote now w
  rw [hcontent]
  constructor
  · rw [postsBy_saveInteractions, ContentStore.insertPosts_eq]
    intro p hp
    obtain ⟨hp, hauthor⟩ := List.mem_filter.mp hp
    exact List.mem_filter.mpr ⟨Table.mem_insertAll_of_mem hp, hauthor⟩
  · rw [ContentStore.saveInteractions_eq, ContentStore.insertPosts_eq]
    intro i hi
    obtain ⟨hi, hauthor⟩ := List.mem_filter.mp hi
    exact List.mem_filter.mpr ⟨Table.mem_insertAll_of_mem hi, hauthor⟩

/-- A complete session with a follower that is behind. -/
theorem converges_of_upToDeletions (hkeyed : w.Keyed) (hcomplete : w.Complete J S remote now)
    (hahead : w.UpToDeletions) : w.Converges J S remote now := by
  obtain ⟨result, hresult, hposts, hinteractions⟩ :=
    SyncPeer.syncFromPeer_eq hcomplete.admits hcomplete.readable
  obtain ⟨hsubPosts, hsubInteractions⟩ := SyncPeer.syncFromPeer_subset hresult
  have hallPosts : result.posts.filter (fun p => acceptsPost S noFails now p w.storage) = result.posts := by
    rw [List.filter_eq_self]
    exact fun p hp => hcomplete.posts p (hsubPosts hp)
  have hallInteractions : result.interactions.filter (fun i =>
      acceptsInteraction S noFails now i w.author w.storage) = result.interactions := by
    rw [List.filter_eq_self]
    exact fun i hi => hcomplete.interactions i (hsubInteractions hi)
  have hcontent : (w.sync J S remote now).content =
      (w.content.insertPosts result.posts).saveInteractions result.interactions := by
    unfold sync
    rw [show syncFromPeer J w.peer remote w.peer.nodeId w.content = some result from hresult]
    refine content_processSynced.trans ?_
    rw [hallPosts, show w.peer.nodeId = w.author from rfl, hallInteractions]
  have hmissing := SyncPeer.selectPosts_perm hkeyed.content hkeyed.peer hahead hcomplete.dated
  unfold Converges
  rw [hcontent]
  constructor
  · intro p
    rw [postsBy_saveInteractions, ContentStore.mem_postsBy_insertPosts hkeyed.peer hahead.posts hsubPosts,
      hposts, hmissing.mem_iff, List.mem_filter, decide_eq_true_eq]
    constructor
    · rintro (hp | hp)
      · exact hahead.posts hp
      · exact hp.1
    · intro hp
      by_cases hheld : p ∈ w.content.postsBy w.author
      · exact Or.inl hheld
      · exact Or.inr ⟨hp, hheld⟩
  · intro i
    have hheld : (w.content.insertPosts result.posts).interactionsBy w.author ⊆
        w.peer.content.interactionsBy w.author := by
      rw [interactionsBy_insertPosts]
      exact hahead.interactions
    rw [ContentStore.mem_interactionsBy_saveInteractions hkeyed.peer hheld hsubInteractions,
      interactionsBy_insertPosts, hinteractions]
    exact SyncPeer.mem_or_selectInteractions hkeyed.content hkeyed.peer hahead hcomplete.dated

theorem converges_iff_upToDeletions (hkeyed : w.Keyed) (hcomplete : w.Complete J S remote now) :
    w.Converges J S remote now ↔ w.UpToDeletions := by
  constructor
  · obtain ⟨hposts, hinteractions⟩ := subset_sync J S remote now w
    rintro ⟨hsamePosts, hsameInteractions⟩
    exact ⟨fun p hp => (hsamePosts p).mp (hposts hp),
      fun i hi => (hsameInteractions i).mp (hinteractions hi)⟩
  · exact converges_of_upToDeletions hkeyed hcomplete

/-! What a history keeps. -/

theorem Keyed.change {f g : ContentStore → ContentStore} {heard : Bool} (h : w.Keyed)
    (hf : ∀ c : ContentStore, c.Keyed → (f c).Keyed) (hg : ∀ c : ContentStore, c.Keyed → (g c).Keyed) :
    (w.change f g heard).Keyed := by
  refine ⟨hf _ h.peer, ?_⟩
  unfold Feed.change
  cases heard with
  | true => exact hg _ h.content
  | false => exact h.content

theorem keyed_dropPost {author id : String} {c : ContentStore} (h : c.Keyed) :
    (dropPost author id c).Keyed := by
  unfold dropPost
  split
  · split
    · exact h.deletePost id
    · exact h
  · exact h

theorem Keyed.sync (h : w.Keyed) (now : UInt64) : (w.sync J S remote now).Keyed := by
  obtain ⟨posts, interactions, -, -, hcontent⟩ := content_sync J S remote now w
  refine ⟨?_, ?_⟩
  · rw [peer_sync]
    exact h.peer
  · rw [hcontent]
    exact (h.content.insertPosts posts).saveInteractions interactions

theorem step_spec {l : Label} {u : Feed} (h : w.step J S remote l = some u) :
    match l with
    | .createPost p heard => p.author = w.author ∧
        w.peer.content.posts.any (ContentStore.postClash p) = false ∧
        u = w.change (ContentStore.insertPost p) (ContentStore.insertPost p) heard
    | .likePost i heard => i.author = w.author ∧
        u = w.change (ContentStore.saveInteraction i) (ContentStore.saveInteraction i) heard
    | .deletePost id heard => u = w.change (ContentStore.deletePost id) (dropPost w.author id) heard
    | .unlikePost target heard => (likeOn w.author target w.peer.content = none ∧ u = w) ∨
        ∃ i, likeOn w.author target w.peer.content = some i ∧
          u = w.change (ContentStore.deleteInteraction i.id w.author)
            (ContentStore.deleteInteraction i.id w.author) heard
    | .sync now => u = w.sync J S remote now := by
  cases l with
  | createPost p heard =>
    obtain ⟨⟨hauthor, hfresh⟩, hu⟩ := Option.ite_none_right_eq_some.mp h
    exact ⟨hauthor, hfresh, (Option.some.inj hu).symm⟩
  | likePost i heard =>
    obtain ⟨hauthor, hu⟩ := Option.ite_none_right_eq_some.mp h
    exact ⟨hauthor, (Option.some.inj hu).symm⟩
  | deletePost id heard =>
    simp only [Feed.step] at h
    split at h
    · exact (Option.some.inj (Option.ite_none_right_eq_some.mp h).2).symm
    · exact nomatch h
  | unlikePost target heard =>
    simp only [Feed.step] at h
    split at h
    next i hi => exact Or.inr ⟨i, hi, (Option.some.inj h).symm⟩
    next hnone => exact Or.inl ⟨hnone, (Option.some.inj h).symm⟩
  | sync now => exact (Option.some.inj h).symm

theorem Keyed.step {l : Label} {u : Feed} (h : w.Keyed) (hstep : w.step J S remote l = some u) :
    u.Keyed := by
  have hspec := step_spec hstep
  cases l with
  | createPost p heard =>
    obtain ⟨-, -, rfl⟩ := hspec
    exact h.change (fun c hc => hc.insertPost p) fun c hc => hc.insertPost p
  | likePost i heard =>
    obtain ⟨-, rfl⟩ := hspec
    exact h.change (fun c hc => hc.saveInteraction i) fun c hc => hc.saveInteraction i
  | deletePost id heard =>
    obtain rfl : u = _ := hspec
    exact h.change (fun c hc => hc.deletePost id) fun c hc => keyed_dropPost hc
  | unlikePost target heard =>
    rcases hspec with ⟨-, rfl⟩ | ⟨i, -, rfl⟩
    · exact h
    · exact h.change (fun c hc => hc.deleteInteraction i.id w.author) fun c hc =>
        hc.deleteInteraction i.id w.author
  | sync now =>
    obtain rfl : u = _ := hspec
    exact h.sync now

theorem subset_insertOrIgnore {ρ : Type*} {mine clash : ρ → Bool} {new : ρ} {t t' : List ρ}
    (h : t.filter mine ⊆ t'.filter mine) (hnew : t'.any clash = false) :
    (Table.insertOrIgnore clash new t).filter mine ⊆ (Table.insertOrIgnore clash new t').filter mine := by
  intro r hr
  obtain ⟨hr, hmine⟩ := List.mem_filter.mp hr
  refine List.mem_filter.mpr ⟨?_, hmine⟩
  rcases Table.mem_of_mem_insertOrIgnore hr with hr | rfl
  · exact Table.mem_insertOrIgnore_of_mem (List.mem_filter.mp (h (List.mem_filter.mpr ⟨hr, hmine⟩))).1
  · unfold Table.insertOrIgnore
    rw [hnew]
    exact List.mem_append_right _ List.mem_cons_self

theorem mem_dropPost {author id : String} {c : ContentStore} {p : Post}
    (h : p ∈ (dropPost author id c).postsBy author) :
    p ∈ c.postsBy author ∧ ((∃ q, c.getPostById id = some q ∧ q.author = author) → p.id ≠ id) := by
  unfold dropPost at h
  split at h
  next post hpost =>
    split at h
    next =>
      obtain ⟨hp, hauthor⟩ := ContentStore.mem_postsBy.mp h
      obtain ⟨hp, hid⟩ := List.mem_filter.mp hp
      refine ⟨ContentStore.mem_postsBy.mpr ⟨hp, hauthor⟩, fun _ heq => ?_⟩
      simp [heq] at hid
    next hother =>
      refine ⟨h, ?_⟩
      rintro ⟨q, hq, hqa⟩
      obtain rfl := Option.some.inj (hpost.symm.trans hq)
      exact absurd hqa hother
  next hnone =>
    refine ⟨h, ?_⟩
    rintro ⟨q, hq, -⟩
    exact nomatch hnone.symm.trans hq

theorem likeOn_spec {author target : String} {c : ContentStore} {i : Interaction}
    (h : likeOn author target c = some i) :
    i ∈ c.interactionsBy author ∧ i.kind = .like ∧ i.targetPostId = target := by
  have hi := List.find?_some h
  obtain ⟨hauthor, hkind, htarget⟩ := of_decide_eq_true hi
  exact ⟨ContentStore.mem_interactionsBy.mpr ⟨List.mem_of_find?_eq_some h, hauthor⟩, hkind, htarget⟩

theorem subset_deleteInteraction {c s : ContentStore} {id author : String}
    (h : c.interactionsBy author ⊆ s.interactionsBy author)
    (hgone : ∀ j ∈ c.interactionsBy author, j.id ≠ id) :
    c.interactionsBy author ⊆ (s.deleteInteraction id author).interactionsBy author := by
  intro j hj
  obtain ⟨hjs, hauthor⟩ := ContentStore.mem_interactionsBy.mp (h hj)
  refine ContentStore.mem_interactionsBy.mpr ⟨List.mem_filter.mpr ⟨hjs, ?_⟩, hauthor⟩
  simp [hgone j hj]

theorem UpToDeletions.deletePost {id : String} {heard : Bool} (h : w.UpToDeletions)
    (hears : w.HearsDeletions (.deletePost id heard)) :
    (w.change (ContentStore.deletePost id) (dropPost w.author id) heard).UpToDeletions := by
  have hkeep : ∀ p ∈ w.content.postsBy w.author, p.id ≠ id →
      p ∈ (w.peer.content.deletePost id).postsBy w.author := by
    intro p hp hid
    obtain ⟨hps, hauthor⟩ := ContentStore.mem_postsBy.mp (h.posts hp)
    refine ContentStore.mem_postsBy.mpr ⟨List.mem_filter.mpr ⟨hps, ?_⟩, hauthor⟩
    simp [hid]
  have hinteractions : (dropPost w.author id w.content).interactionsBy w.author =
      w.content.interactionsBy w.author := by
    unfold dropPost
    split
    · split
      · rfl
      · rfl
    · rfl
  cases heard with
  | true =>
    refine ⟨fun p hp => ?_, fun i hi => h.interactions (hinteractions ▸ hi)⟩
    obtain ⟨hp, hfound⟩ := mem_dropPost hp
    rcases hears with hnone | ⟨-, hby⟩
    · exact hkeep p hp (hnone p hp)
    · exact hkeep p hp (hfound hby)
  | false =>
    refine ⟨fun p hp => ?_, h.interactions⟩
    rcases hears with hnone | ⟨hheard, -⟩
    · exact hkeep p hp (hnone p hp)
    · exact nomatch hheard

theorem UpToDeletions.unlikePost {target : String} {heard : Bool} {i : Interaction}
    (hkeyed : w.Keyed) (h : w.UpToDeletions) (hears : w.HearsDeletions (.unlikePost target heard))
    (hi : likeOn w.author target w.peer.content = some i) :
    (w.change (ContentStore.deleteInteraction i.id w.author)
      (ContentStore.deleteInteraction i.id w.author) heard).UpToDeletions := by
  obtain ⟨hmem, hkind, htarget⟩ := likeOn_spec hi
  cases heard with
  | true =>
    refine ⟨h.posts, fun j hj => ?_⟩
    obtain ⟨hj, hauthor⟩ := ContentStore.mem_interactionsBy.mp hj
    obtain ⟨hj, hnot⟩ := List.mem_filter.mp hj
    have hjs := (ContentStore.mem_interactionsBy.mp
      (h.interactions (ContentStore.mem_interactionsBy.mpr ⟨hj, hauthor⟩))).1
    exact ContentStore.mem_interactionsBy.mpr ⟨List.mem_filter.mpr ⟨hjs, hnot⟩, hauthor⟩
  | false =>
    refine ⟨h.posts, subset_deleteInteraction h.interactions fun j hj hid => ?_⟩
    -- the like itself would be held
    obtain rfl := hkeyed.peer.eq_of_clash (h.interactions hj) hmem (Or.inl hid)
    rcases hears with hheard | hnone
    · exact nomatch hheard
    · exact hnone j hj hkind htarget

theorem UpToDeletions.sync (hkeyed : w.Keyed) (h : w.UpToDeletions) (now : UInt64) :
    (w.sync J S remote now).UpToDeletions := by
  obtain ⟨posts, interactions, hposts, hinteractions, hcontent⟩ :=
    content_sync J S remote now w
  have hheld : (w.content.insertPosts posts).interactionsBy w.author ⊆
      w.peer.content.interactionsBy w.author := by
    rw [interactionsBy_insertPosts]
    exact h.interactions
  have hpeer : (w.sync J S remote now).peer = w.peer := peer_sync
  unfold UpToDeletions author
  rw [hpeer, hcontent]
  constructor
  · intro p hp
    rw [postsBy_saveInteractions] at hp
    rcases (ContentStore.mem_postsBy_insertPosts hkeyed.peer h.posts hposts).mp hp with hp | hp
    · exact h.posts hp
    · exact hposts hp
  · intro i hi
    rcases (ContentStore.mem_interactionsBy_saveInteractions hkeyed.peer hheld hinteractions).mp hi
      with hi | hi
    · exact hheld hi
    · exact hinteractions hi

theorem UpToDeletions.step {l : Label} {u : Feed} (hkeyed : w.Keyed) (h : w.UpToDeletions)
    (hears : w.HearsDeletions l) (hstep : w.step J S remote l = some u) : u.UpToDeletions := by
  have hspec := step_spec hstep
  cases l with
  | createPost p heard =>
    obtain ⟨-, hfresh, rfl⟩ := hspec
    cases heard with
    | true => exact ⟨subset_insertOrIgnore h.posts hfresh, h.interactions⟩
    | false =>
      refine ⟨fun q hq => ?_, h.interactions⟩
      obtain ⟨hq, hauthor⟩ := List.mem_filter.mp (h.posts hq)
      exact List.mem_filter.mpr ⟨Table.mem_insertOrIgnore_of_mem hq, hauthor⟩
  | likePost i heard =>
    obtain ⟨-, rfl⟩ := hspec
    cases heard with
    | true => exact ⟨h.posts, subset_insertOrIgnore h.interactions (hears rfl)⟩
    | false =>
      refine ⟨h.posts, fun j hj => ?_⟩
      obtain ⟨hj, hauthor⟩ := List.mem_filter.mp (h.interactions hj)
      exact List.mem_filter.mpr ⟨Table.mem_insertOrIgnore_of_mem hj, hauthor⟩
  | deletePost id heard =>
    obtain rfl : u = _ := hspec
    exact h.deletePost hears
  | unlikePost target heard =>
    rcases hspec with ⟨-, rfl⟩ | ⟨i, hi, rfl⟩
    · exact h
    · exact UpToDeletions.unlikePost hkeyed h hears hi
  | sync now =>
    obtain rfl : u = _ := hspec
    exact UpToDeletions.sync hkeyed h now

theorem keyed_and_upToDeletions {w₀ : Feed} {run : List Label} (hkeyed : w₀.Keyed)
    (hstart : w₀.UpToDeletions) (hears : Machine.Along (step J S remote) HearsDeletions w₀ run)
    (hrun : Machine.exec (step J S remote) w₀ run = some w) : w.Keyed ∧ w.UpToDeletions := by
  refine Machine.exec_invariant (I := fun u => u.Keyed ∧ u.UpToDeletions) ?_ ⟨hkeyed, hstart⟩ hears hrun
  intro u l v hu hl hstep
  exact ⟨hu.1.step hstep, UpToDeletions.step hu.1 hu.2 hl hstep⟩

theorem Keyed.exec {w₀ : Feed} {run : List Label} (h : w₀.Keyed)
    (hrun : Machine.exec (Feed.step J S remote) w₀ run = some w) : w.Keyed := by
  have hall : Machine.Along (Feed.step J S remote) (fun _ _ => True) w₀ run :=
    Machine.Along.of_forall fun _ _ => trivial
  refine Machine.exec_invariant ?_ h hall hrun
  intro u l v hu _ hstep
  exact hu.step hstep

/-- After any history of posts, likes and deletions, a complete session leaves the follower with
what the author has exactly if the follower holds nothing that the author deleted; so it does if
the follower heard of every deletion of something it held. -/
theorem sync_converges_iff {w₀ : Feed} {run : List Label} (hkeyed : w₀.Keyed)
    (hrun : Machine.exec (step J S remote) w₀ run = some w) (hcomplete : w.Complete J S remote now) :
    (w.Converges J S remote now ↔ w.UpToDeletions) ∧
      (w₀.UpToDeletions → Machine.Along (step J S remote) HearsDeletions w₀ run →
        w.Converges J S remote now) := by
  constructor
  · exact converges_iff_upToDeletions (hkeyed.exec hrun) hcomplete
  · intro hstart hears
    obtain ⟨hw, hahead⟩ := keyed_and_upToDeletions hkeyed hstart hears hrun
    exact converges_of_upToDeletions hw hcomplete hahead

section Examples

def blank : Feed := ⟨aliceNode ⟨[], []⟩, ⟨[], [], []⟩, ⟨[], []⟩⟩

theorem keyed_blank : blank.Keyed :=
  ⟨⟨List.Pairwise.nil, List.Pairwise.nil⟩, ⟨List.Pairwise.nil, List.Pairwise.nil⟩⟩

def signedNote (signature : String) : Post := { note "b" 2 with signature := signature }

def aliceSignature : String := hexEncode (checksumSign "alice" (postSigningBytes (note "b" 2)))

theorem acceptsPost_signedNote : acceptsPost checksumCrates noFails 9 (signedNote aliceSignature)
    ⟨[], [], []⟩ = true := by
  have hbytes : ∀ σ, postSigningBytes (signedNote σ) = postSigningBytes (note "b" 2) := fun _ => rfl
  have hsigned : verifyPostSignature checksumCrates (signedNote aliceSignature) (checksumKey "alice") =
      .ok () := by
    unfold verifyPostSignature
    rw [hbytes]
    exact verifySigned_checksum "post" "alice" _
  have hsigner : resolveSigner checksumCrates noFails.table "alice" ⟨[], [], []⟩ =
      some (checksumKey "alice") := rfl
  have hvalid : ∀ σ, (validatePost 9 (signedNote σ)).toBool = true := fun _ => rfl
  have haccepts : signerAccepts checksumCrates noFails
      (verifyPostSignature checksumCrates (signedNote aliceSignature)) "alice" ⟨[], [], []⟩ = true := by
    unfold signerAccepts
    rw [hsigner]
    exact congrArg Except.toBool hsigned
  unfold acceptsPost
  rw [hvalid, Bool.true_and]
  exact haccepts

def heardRun (σ : String) : List Label :=
  [.createPost (note "a" 1) true, .createPost (signedNote σ) false, .deletePost "a" true]

def afterHeard (σ : String) : Feed :=
  ⟨aliceNode ⟨[signedNote σ], []⟩, ⟨[], [], []⟩, ⟨[], []⟩⟩

theorem exec_heardRun (σ : String) :
    Machine.exec (step compactJson checksumCrates "bob's node") blank (heardRun σ) =
      some (afterHeard σ) := rfl

theorem hears_heardRun (σ : String) :
    Machine.Along (step compactJson checksumCrates "bob's node") HearsDeletions blank (heardRun σ) := by
  refine ⟨trivial, fun u hu => ⟨trivial, fun v hv => ⟨?_, fun _ _ => trivial⟩⟩⟩
  obtain rfl := Option.some.inj hu
  obtain rfl := Option.some.inj hv
  exact Or.inr ⟨rfl, note "a" 1, rfl, rfl⟩

theorem stream_afterHeard (σ : String) :
    (afterHeard σ).peer.stream compactJson (syncRequest "alice" (afterHeard σ).content)
      (sentIds ((afterHeard σ).peer.mode (syncRequest "alice" (afterHeard σ).content)) "alice"
        (afterHeard σ).content) = [.posts [signedNote σ]] := by
  have hposts : (afterHeard σ).peer.selectPosts (syncRequest "alice" (afterHeard σ).content)
      ((afterHeard σ).content.getPostIdsByAuthor "alice") = [signedNote σ] := rfl
  have hlikes : (afterHeard σ).peer.selectInteractions (syncRequest "alice" (afterHeard σ).content) =
      [] := rfl
  have hstream := SyncPeer.stream_eq compactJson (afterHeard σ).content (afterHeard σ).peer
    (syncRequest "alice" (afterHeard σ).content) (fun h => (nomatch h))
  rw [show (syncRequest "alice" (afterHeard σ).content).author = "alice" from rfl, hposts, hlikes,
    Timeline.batches_nil, Timeline.batches_of_length_le (List.cons_ne_nil _ _) (by simp [batchSize])] at hstream
  exact hstream

theorem summary_afterHeard (σ : String) :
    compactJson.summaryLen ((afterHeard σ).peer.summary (syncRequest "alice" (afterHeard σ).content)) ≤
      maxSummarySize := by
  have hsummary : (afterHeard σ).peer.summary (syncRequest "alice" (afterHeard σ).content) =
      ⟨1, 0, 1, 0, .timestampCatchUp, none⟩ := rfl
  rw [hsummary]
  decide +kernel

theorem frameLen_signedNote :
    compactJson.frameLen (.posts [signedNote aliceSignature]) ≤ maxFrameSize := by decide +kernel

theorem complete_afterHeard :
    (afterHeard aliceSignature).Complete compactJson checksumCrates "bob's node" 9 where
  admits := rfl
  readable := by
    refine ⟨summary_afterHeard _, fun h => (nomatch h), fun frame hframe => ?_⟩
    rw [show (afterHeard aliceSignature).author = "alice" from rfl, stream_afterHeard] at hframe
    obtain rfl := List.mem_singleton.mp hframe
    exact frameLen_signedNote
  dated := by
    refine ⟨fun p hp => ?_, fun i hi => (nomatch hi)⟩
    obtain rfl : p = signedNote aliceSignature := List.mem_singleton.mp hp
    exact (by decide : (0 : Int64) < (2 : UInt64).toInt64)
  posts p hp := by
    obtain rfl : p = signedNote aliceSignature := List.mem_singleton.mp hp
    exact acceptsPost_signedNote
  interactions i hi := nomatch hi

theorem sync_converges_heard : (afterHeard aliceSignature).UpToDeletions ∧
    (afterHeard aliceSignature).Converges compactJson checksumCrates "bob's node" 9 := by
  have hiff := sync_converges_iff keyed_blank (exec_heardRun aliceSignature) complete_afterHeard
  have hstart : blank.UpToDeletions := ⟨List.nil_subset _, List.nil_subset _⟩
  have hconverges := hiff.2 hstart (hears_heardRun aliceSignature)
  exact ⟨hiff.1.mp hconverges, hconverges⟩

def missedRun : List Label := [.createPost (note "a" 1) true, .deletePost "a" false]

def afterMissed : Feed := ⟨aliceNode ⟨[], []⟩, ⟨[], [], []⟩, ⟨[note "a" 1], []⟩⟩

theorem complete_afterMissed : afterMissed.Complete compactJson checksumCrates "bob's node" 9 where
  admits := rfl
  readable := by
    have hids : compactJson.idsLen (afterMissed.content.getPostIdsByAuthor "alice") ≤ maxKnownIdsSize := by
      decide +kernel
    refine ⟨by decide +kernel, fun _ => hids, ?_⟩
    have hposts : afterMissed.peer.selectPosts (syncRequest "alice" afterMissed.content)
        (afterMissed.content.getPostIdsByAuthor "alice") = [] := rfl
    have hlikes : afterMissed.peer.selectInteractions (syncRequest "alice" afterMissed.content) = [] :=
      rfl
    have hstream := SyncPeer.stream_eq compactJson afterMissed.content afterMissed.peer
      (syncRequest "alice" afterMissed.content) (fun _ => hids)
    rw [show (syncRequest "alice" afterMissed.content).author = "alice" from rfl, hposts, hlikes,
      Timeline.batches_nil, Timeline.batches_nil] at hstream
    intro frame hframe
    rw [show afterMissed.author = "alice" from rfl, hstream] at hframe
    exact nomatch hframe
  dated := ⟨fun p hp => (nomatch hp), fun i hi => (nomatch hi)⟩
  posts p hp := nomatch hp
  interactions i hi := nomatch hi

theorem not_sync_converges_missed :
    ¬ ∀ (J : SerdeJson) (S : SignatureCrates) (remote : String) (now : UInt64) (w₀ w : Feed)
      (run : List Label), w₀.Keyed → Machine.exec (step J S remote) w₀ run = some w →
      w.Complete J S remote now → w.Converges J S remote now := by
  intro h
  have hconverges := h compactJson checksumCrates "bob's node" 9 blank afterMissed missedRun keyed_blank
    rfl complete_afterMissed
  have hkept := (subset_sync compactJson checksumCrates "bob's node" 9 afterMissed).1
  have hheld : note "a" 1 ∈ afterMissed.content.postsBy afterMissed.author := List.mem_singleton.mpr rfl
  have hgone := (hconverges.1 (note "a" 1)).mp (hkept hheld)
  exact nomatch hgone

end Examples

end Feed

end Proscenium.Client
