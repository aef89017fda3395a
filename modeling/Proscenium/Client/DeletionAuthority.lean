import Proscenium.Client.GossipOrder

/-! Deletions of posts and of the notifications about them. Authors choose the
ids of their posts, and a deletion goes by the id: what it takes with it
depends on who else used that id. -/

namespace Proscenium.Client

open Proscenium.Types

structure Notification where
  id : String
  kind : String
  actor : String
  targetPostId : Option String
  postId : Option String
  timestamp : Int64
  read : Bool
  deriving DecidableEq, Repr

namespace Notification

def names (postId : String) (n : Notification) : Bool :=
  n.postId = some postId ∨ n.targetPostId = some postId

/-- The post it was made for is the actor's, and the one it is about is the user's. -/
def BelongsTo (me author postId : String) (n : Notification) : Prop :=
  n.actor = author ∧ n.postId = some postId ∨ me = author ∧ n.targetPostId = some postId

end Notification

/-- The content of a device with the notifications about it. -/
structure NoticeStore where
  content : ContentStore
  notifications : List Notification
  deriving DecidableEq, Repr

namespace NoticeStore

open Feed

def deletePost (id : String) (s : NoticeStore) : NoticeStore where
  content := s.content.deletePost id
  notifications := Table.deleteWhere (Notification.names id) s.notifications

def repostOf (author quoteOf : String) (s : NoticeStore) : Option Post :=
  s.content.posts.find? fun p => p.author = author ∧ p.quoteOf = some quoteOf

/-- The row is looked up with its author, and deleted by its id. -/
def deleteRepostByTarget (author quoteOf : String) (s : NoticeStore) : Option String × NoticeStore :=
  match s.repostOf author quoteOf with
  | some repost => (some repost.id, { s with content := s.content.deletePost repost.id })
  | none => (none, s)

variable (S : SignatureCrates) (me pk id author signature : String) (st : Storage)

def handleDeletePost (s : NoticeStore) : NoticeStore :=
  if author = pk ∧ deletionSigned S noFails (verifyDeletePostSignature S id author signature) pk st then
    match s.content.getPostById id with
    | some post => if post.author = pk then s.deletePost id else s
    | none => s
  else s

/-- Nothing of another author is gone, and no notification but those of this post. -/
structure KeepsOthers (postId : String) (s s' : NoticeStore) : Prop where
  posts : ∀ p ∈ s.content.posts, p.author ≠ pk → p ∈ s'.content.posts
  notifications : ∀ n ∈ s.notifications, ¬ n.BelongsTo me pk postId → n ∈ s'.notifications

/-- A `DeletePost` takes its author's post, if it is valid, and nothing else. -/
structure DeleteHonoured (s : NoticeStore) : Prop where
  keeps : KeepsOthers me pk id s (s.handleDeletePost S pk id author signature st)
  effective : author = pk →
    deletionSigned S noFails (verifyDeletePostSignature S id author signature) pk st = true →
      ∀ p ∈ (s.handleDeletePost S pk id author signature st).content.posts, p.author = pk → p.id ≠ id

/-- Nobody else used the id, in a post or in what a notification names. -/
structure Unshared (s : NoticeStore) : Prop where
  posts : ∀ q ∈ s.content.posts, q.id = id → q.author = pk
  notifications : ∀ n ∈ s.notifications, n.names id = true → n.BelongsTo me pk id

variable {S me pk id author signature st} {s : NoticeStore}

theorem content_handleDeletePost : (s.handleDeletePost S pk id author signature st).content =
    Client.handleDeletePost S noFails pk id author signature st s.content := by
  unfold handleDeletePost Client.handleDeletePost
  split
  · show _ = match s.content.getPostById id with
      | some post => if post.author = pk ∧ noFails .deletePost = false then s.content.deletePost id
          else s.content
      | none => s.content
    cases s.content.getPostById id with
    | none => rfl
    | some post =>
      by_cases hpost : post.author = pk
      · simp [hpost, deletePost, noFails]
      · simp [hpost]
  · rfl

theorem mem_posts_deletePost {p : Post} :
    p ∈ (s.deletePost id).content.posts ↔ p ∈ s.content.posts ∧ p.id ≠ id := by
  unfold deletePost ContentStore.deletePost Table.deleteWhere
  simp

theorem mem_notifications_deletePost {n : Notification} :
    n ∈ (s.deletePost id).notifications ↔ n ∈ s.notifications ∧ n.names id = false := by
  unfold deletePost Table.deleteWhere
  simp

theorem Notification.BelongsTo.names {n : Notification} (h : n.BelongsTo me pk id) : n.names id = true := by
  unfold Notification.names
  rcases h with ⟨-, h⟩ | ⟨-, h⟩
  · exact decide_eq_true (Or.inl h)
  · exact decide_eq_true (Or.inr h)

theorem keepsOthers_deletePost_iff : KeepsOthers me pk id s (s.deletePost id) ↔ s.Unshared me pk id := by
  constructor
  · intro h
    constructor
    · intro q hq hid
      by_contra hother
      exact (mem_posts_deletePost.mp (h.posts q hq hother)).2 hid
    · intro n hn hnames
      by_contra hother
      have hkept := (mem_notifications_deletePost.mp (h.notifications n hn hother)).2
      exact absurd hnames (by simp [hkept])
  · intro h
    constructor
    · intro q hq hother
      exact mem_posts_deletePost.mpr ⟨hq, fun hid => hother (h.posts q hq hid)⟩
    · intro n hn hother
      have hnot : n.names id = false := by
        by_contra hnames
        exact hother (h.notifications n hn (by simpa using hnames))
      exact mem_notifications_deletePost.mpr ⟨hn, hnot⟩

theorem KeepsOthers.refl (s : NoticeStore) : KeepsOthers me pk id s s :=
  ⟨fun _ hp _ => hp, fun _ hn _ => hn⟩

theorem handleDeletePost_of_found {post : Post} (hauthor : author = pk)
    (hsigned : deletionSigned S noFails (verifyDeletePostSignature S id author signature) pk st = true)
    (hfound : s.content.getPostById id = some post) (hpost : post.author = pk) :
    s.handleDeletePost S pk id author signature st = s.deletePost id := by
  unfold handleDeletePost
  rw [if_pos ⟨hauthor, hsigned⟩, hfound]
  exact if_pos hpost

theorem getPostById_spec {c : ContentStore} {post : Post} (h : c.getPostById id = some post) :
    post ∈ c.posts ∧ post.id = id := by
  have hid : decide (post.id = id) = true := List.find?_some (p := fun q : Post => decide (q.id = id)) h
  exact ⟨List.mem_of_find?_eq_some h, of_decide_eq_true hid⟩

theorem handleDeletePost_cases (S : SignatureCrates) (pk id author signature : String) (st : Storage)
    (s : NoticeStore) :
    s.handleDeletePost S pk id author signature st = s ∨
      s.handleDeletePost S pk id author signature st = s.deletePost id ∧
        author = pk ∧ deletionSigned S noFails (verifyDeletePostSignature S id author signature) pk st ∧
        ∃ p ∈ s.content.posts, p.author = pk ∧ p.id = id := by
  unfold handleDeletePost
  split
  next hvalid =>
    cases hfound : s.content.getPostById id with
    | none => exact Or.inl rfl
    | some post =>
      obtain ⟨hmem, hid⟩ := getPostById_spec hfound
      by_cases hpost : post.author = pk
      · exact Or.inr ⟨if_pos hpost, hvalid.1, hvalid.2, post, hmem, hpost, hid⟩
      · exact Or.inl (if_neg hpost)
  next => exact Or.inl rfl

theorem deleteHonoured_iff : s.DeleteHonoured S me pk id author signature st ↔
    (author = pk →
      deletionSigned S noFails (verifyDeletePostSignature S id author signature) pk st = true →
        (∃ p ∈ s.content.posts, p.author = pk ∧ p.id = id) → s.Unshared me pk id) := by
  constructor
  · rintro h hauthor hsigned ⟨p, hp, hpa, hpid⟩
    have hgone : p ∉ (s.handleDeletePost S pk id author signature st).content.posts :=
      fun hmem => h.effective hauthor hsigned p hmem hpa hpid
    rcases handleDeletePost_cases S pk id author signature st s with hsame | ⟨hdel, -⟩
    · rw [hsame] at hgone
      exact absurd hp hgone
    · have hkeeps := h.keeps
      rw [hdel] at hkeeps
      exact keepsOthers_deletePost_iff.mp hkeeps
  · intro h
    constructor
    · rcases handleDeletePost_cases S pk id author signature st s with
        hsame | ⟨hdel, hauthor, hsigned, hstored⟩
      · rw [hsame]
        exact KeepsOthers.refl s
      · rw [hdel]
        exact keepsOthers_deletePost_iff.mpr (h hauthor hsigned hstored)
    · intro hauthor hsigned p hp hpa hpid
      have hstored : p ∈ s.content.posts := by
        rcases handleDeletePost_cases S pk id author signature st s with hsame | ⟨hdel, -⟩
        · exact hsame ▸ hp
        · rw [hdel] at hp
          exact (mem_posts_deletePost.mp hp).1
      have hunshared := h hauthor hsigned ⟨p, hstored, hpa, hpid⟩
      -- whichever row with the id is found, it is the author's
      obtain ⟨post, hfound⟩ : ∃ post, s.content.getPostById id = some post := by
        rw [← Option.isSome_iff_exists, ContentStore.getPostById, List.find?_isSome]
        exact ⟨p, hstored, decide_eq_true hpid⟩
      obtain ⟨hmem, hid⟩ := getPostById_spec hfound
      have hpost := hunshared.posts post hmem hid
      rw [handleDeletePost_of_found hauthor hsigned hfound hpost] at hp
      exact (mem_posts_deletePost.mp hp).2 hpid

theorem keepsOthers_unrepost_iff {quoteOf : String} :
    (∀ postId, KeepsOthers me pk postId s (s.deleteRepostByTarget pk quoteOf).2) ↔
      ∀ repost, s.repostOf pk quoteOf = some repost → ∀ q ∈ s.content.posts, q.id = repost.id →
        q.author = pk := by
  unfold deleteRepostByTarget
  cases hfound : s.repostOf pk quoteOf with
  | none =>
    constructor
    · intro _ repost hrepost
      exact nomatch hrepost
    · intro _ postId
      exact KeepsOthers.refl s
  | some repost =>
    constructor
    · intro h repost' hrepost q hq hid
      obtain rfl := Option.some.inj hrepost
      by_contra hother
      have hkept := (h "").posts q hq hother
      exact (mem_posts_deletePost.mp hkept).2 hid
    · intro h postId
      refine ⟨fun q hq hother => ?_, fun _ hn _ => hn⟩
      exact mem_posts_deletePost.mpr ⟨hq, fun hid => hother (h repost rfl q hq hid)⟩

/-- A deletion is its author's alone exactly if whatever has the id that it names is the author's,
and an un-repost exactly if whatever has the repost's id is. -/
theorem deletion_authority_iff (S : SignatureCrates) (me pk id author signature quoteOf : String)
    (st : Storage) (s : NoticeStore) :
    (s.DeleteHonoured S me pk id author signature st ↔
      (author = pk →
        deletionSigned S noFails (verifyDeletePostSignature S id author signature) pk st = true →
          (∃ p ∈ s.content.posts, p.author = pk ∧ p.id = id) → s.Unshared me pk id)) ∧
    ((∀ postId, KeepsOthers me pk postId s (s.deleteRepostByTarget pk quoteOf).2) ↔
      ∀ repost, s.repostOf pk quoteOf = some repost → ∀ q ∈ s.content.posts, q.id = repost.id →
        q.author = pk) :=
  ⟨deleteHonoured_iff, keepsOthers_unrepost_iff⟩

section Examples

def sharedId : NoticeStore :=
  ⟨⟨[note "b" 2, { note "b" 2 with author := "mallory" }], []⟩, []⟩

/-- Alice's deletion takes Mallory's post with it; and where Mallory's is found first it is refused. -/
theorem not_deletion_authority_shared :
    ¬ sharedId.DeleteHonoured checksumCrates "bob" "alice" "b" "alice" GossipOrder.deleteSignature
      ⟨[], [], []⟩ := by
  intro h
  have hunshared := deleteHonoured_iff.mp h rfl GossipOrder.deletionSigned_deleteSignature
    ⟨note "b" 2, List.mem_cons_self, rfl, rfl⟩
  have hmallory := hunshared.posts { note "b" 2 with author := "mallory" }
    (List.mem_cons_of_mem _ (List.mem_singleton.mpr rfl)) rfl
  exact absurd hmallory (by decide)

end Examples
end NoticeStore
end Proscenium.Client
