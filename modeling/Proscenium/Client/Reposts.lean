import Proscenium.Client.DeletionAuthority
import Proscenium.Client.RotationContent

/-! Reposts. A repost is a post without content that names its target in
`quote_of`, and so does a quote, which has content of its own; the undo of a
repost deletes one post that names the target, whichever the query returns. -/

namespace Proscenium.Client

open Proscenium.Types Author

section Commands

variable (K : KeyCrates) (me : Author.Identity)

/-- What `repost` and `create_post` do with the post that they have made. -/
def publishPost (now : UInt64) (post : Post) (c : ContentStore) : Except String GossipMessage × ContentStore :=
  match validatePost now post with
  | .error e => (.error e, c)
  | .ok () =>
    let post := signPost K me.signingSecret post
    (.ok (.newPost post), c.insertPost post)

/-- The clock is read for the post and again for the validation. -/
def repost (id : String) (stamp now : UInt64) (targetPostId targetAuthor : String) :
    ContentStore → Except String GossipMessage × ContentStore :=
  publishPost K me now
    ⟨id, me.masterPubkey, "", stamp, [], none, none, some targetPostId, some targetAuthor, ""⟩

def createPost (id : String) (stamp now : UInt64) (content : String) (media : Option (List MediaAttachment))
    (replyTo replyToAuthor quoteOf quoteOfAuthor : Option String) :
    ContentStore → Except String GossipMessage × ContentStore :=
  publishPost K me now
    ⟨id, me.masterPubkey, content, stamp, media.getD [], replyTo, replyToAuthor, quoteOf, quoteOfAuthor, ""⟩

def signDeletePost (id author : String) (secret : SecretKey) : String :=
  signHex K secret (deletePostSigningBytes id author)

/-- `author=?1 AND quote_of=?2`. -/
def isAbout (author target : String) (p : Post) : Bool := p.author = author ∧ p.quoteOf = some target

/-- What `fetch_optional` may return: any row that matches, and none only if there is none. -/
def Fetched {ρ : Type} (p : ρ → Bool) (t : List ρ) : Option ρ → Prop
  | some r => r ∈ t ∧ p r
  | none => ∀ r ∈ t, ¬ p r

namespace ContentStore

/-- `row` is what the query returned. -/
def deleteRepostByTarget (row : Option Post) (c : ContentStore) : Option String × ContentStore :=
  match row with
  | some r => (some r.id, c.deletePost r.id)
  | none => (none, c)

structure PostCounts where
  likes : UInt32
  replies : UInt32
  reposts : UInt32
  likedByMe : Bool
  repostedByMe : Bool
  deriving DecidableEq, Repr

def getPostCounts (myPubkey targetPostId : String) (c : ContentStore) : PostCounts where
  likes := UInt32.ofNat (c.interactions.countP fun i => i.targetPostId = targetPostId ∧ i.kind = .like)
  replies := UInt32.ofNat (c.posts.countP fun p => p.replyTo = some targetPostId)
  reposts := UInt32.ofNat (c.posts.countP fun p => p.quoteOf = some targetPostId)
  likedByMe := c.interactions.any fun i => i.author = myPubkey ∧ i.kind = .like ∧ i.targetPostId = targetPostId
  repostedByMe := c.posts.any (isAbout myPubkey targetPostId)

end ContentStore

def unrepost (row : Option Post) (c : ContentStore) : Option GossipMessage × ContentStore :=
  let deleted := c.deleteRepostByTarget row
  (deleted.1.map fun id => .deletePost id me.masterPubkey (signDeletePost K id me.masterPubkey me.signingSecret),
    deleted.2)

end Commands

def isPlain (p : Post) : Bool := p.content = "" ∧ p.media = []

def NamesPost (message : GossipMessage) (p : Post) : Prop :=
  ∃ signature, message = .deletePost p.id p.author signature

section Undo

variable (K : KeyCrates) (me : Author.Identity) (target : String) (c : ContentStore)

/-- Whatever row the query of `unrepost` returns, this is so afterwards. -/
def AfterUnrepost (P : Option GossipMessage × ContentStore → Prop) : Prop :=
  ∀ row, Fetched (isAbout me.masterPubkey target) c.posts row → P (unrepost K me row c)

def NotReposted : Prop :=
  (∀ p ∈ c.posts, isAbout me.masterPubkey target p → isPlain p) →
    AfterUnrepost K me target c fun r => (r.2.getPostCounts me.masterPubkey target).repostedByMe = false

def KeepsWritten : Prop :=
  AfterUnrepost K me target c fun r => ∀ p ∈ c.postsBy me.masterPubkey, ¬ isPlain p → p ∈ r.2.posts

def Restores (id : String) (stamp now : UInt64) (targetAuthor : String) : Prop :=
  AfterUnrepost K me target (repost K me id stamp now target targetAuthor c).2 fun r =>
    r.2.postsBy me.masterPubkey = c.postsBy me.masterPubkey

/-- The removed posts are those that the broadcast names. -/
def Announced : Prop :=
  AfterUnrepost K me target c fun r => ∀ p ∈ c.posts, p ∉ r.2.posts ↔ ∃ message ∈ r.1, NamesPost message p

end Undo

section Facts

variable {K : KeyCrates} {me : Author.Identity} {target : String} {c : ContentStore}

theorem afterUnrepost_iff {P : Option GossipMessage × ContentStore → Prop} :
    AfterUnrepost K me target c P ↔
      (∀ r ∈ c.posts, isAbout me.masterPubkey target r → P (unrepost K me (some r) c)) ∧
        ((∀ r ∈ c.posts, ¬ isAbout me.masterPubkey target r) → P (none, c)) := by
  constructor
  · intro h
    exact ⟨fun r hr habout => h (some r) ⟨hr, habout⟩, fun hnone => h none hnone⟩
  · rintro ⟨hsome, hnone⟩ row hrow
    cases row with
    | none => exact hnone hrow
    | some r => exact hsome r hrow.1 hrow.2

theorem deleteRepostByTarget_eq (author : String) (s : NoticeStore) :
    Fetched (isAbout author target) s.content.posts (s.repostOf author target) ∧
      s.deleteRepostByTarget author target = ((s.content.deleteRepostByTarget (s.repostOf author target)).1,
        { s with content := (s.content.deleteRepostByTarget (s.repostOf author target)).2 }) := by
  unfold NoticeStore.deleteRepostByTarget ContentStore.deleteRepostByTarget
  cases hrow : s.repostOf author target with
  | none => exact ⟨List.find?_eq_none.mp hrow, rfl⟩
  | some r => exact ⟨⟨List.mem_of_find?_eq_some hrow, List.find?_some hrow⟩, rfl⟩

theorem mem_unrepost {r p : Post} : p ∈ (unrepost K me (some r) c).2.posts ↔ p ∈ c.posts ∧ p.id ≠ r.id := by
  simp [unrepost, ContentStore.deleteRepostByTarget, ContentStore.deletePost, Table.deleteWhere]

theorem mem_postsBy {author : String} {p : Post} : p ∈ c.postsBy author ↔ p ∈ c.posts ∧ p.author = author := by
  simp [ContentStore.postsBy]

theorem repostedByMe_eq_false {author : String} :
    (c.getPostCounts author target).repostedByMe = false ↔ ∀ p ∈ c.posts, ¬ isAbout author target p := by
  show c.posts.any (isAbout author target) = false ↔ _
  exact List.any_eq_false

theorem isAbout_author {author : String} {p : Post} (h : isAbout author target p = true) : p.author = author := by
  unfold isAbout at h
  exact (of_decide_eq_true h).1

theorem notReposted_iff : NotReposted K me target c ↔
    ((∀ p ∈ c.posts, isAbout me.masterPubkey target p → isPlain p) →
      ∀ p ∈ c.posts, isAbout me.masterPubkey target p →
        ∀ q ∈ c.posts, isAbout me.masterPubkey target q → p.id = q.id) := by
  unfold NotReposted
  refine imp_congr_right fun _ => ?_
  rw [afterUnrepost_iff]
  constructor
  · rintro ⟨h, -⟩ p hp hpa q hq hqa
    by_contra hne
    have hafter := repostedByMe_eq_false.mp (h q hq hqa) p (mem_unrepost.mpr ⟨hp, hne⟩)
    exact hafter hpa
  · intro h
    refine ⟨fun r hr hra => ?_, fun hnone => repostedByMe_eq_false.mpr hnone⟩
    rw [repostedByMe_eq_false]
    intro p hp hpa
    obtain ⟨hmem, hne⟩ := mem_unrepost.mp hp
    exact hne (h p hmem hpa r hr hra)

theorem keepsWritten_iff : KeepsWritten K me target c ↔
    ∀ r ∈ c.posts, isAbout me.masterPubkey target r →
      ∀ p ∈ c.postsBy me.masterPubkey, ¬ isPlain p → p.id ≠ r.id := by
  unfold KeepsWritten
  rw [afterUnrepost_iff]
  constructor
  · rintro ⟨h, -⟩ r hr hra p hp hplain
    exact (mem_unrepost.mp (h r hr hra p hp hplain)).2
  · intro h
    refine ⟨fun r hr hra p hp hplain => ?_, fun _ p hp _ => (mem_postsBy.mp hp).1⟩
    exact mem_unrepost.mpr ⟨(mem_postsBy.mp hp).1, h r hr hra p hp hplain⟩

theorem announced_iff : Announced K me target c ↔
    ∀ r ∈ c.posts, isAbout me.masterPubkey target r →
      ∀ p ∈ c.posts, p.id = r.id → p.author = me.masterPubkey := by
  unfold Announced
  rw [afterUnrepost_iff]
  have hnames : ∀ r p : Post, (∃ message ∈ (unrepost K me (some r) c).1, NamesPost message p) ↔
      p.id = r.id ∧ p.author = me.masterPubkey := by
    intro r p
    simp [unrepost, ContentStore.deleteRepostByTarget, NamesPost, eq_comm]
  constructor
  · rintro ⟨h, -⟩ r hr hra p hp hid
    have hgone : p ∉ (unrepost K me (some r) c).2.posts := fun hmem => (mem_unrepost.mp hmem).2 hid
    exact ((hnames r p).mp ((h r hr hra p hp).mp hgone)).2
  · intro h
    refine ⟨fun r hr hra p hp => ?_, fun _ p hp => by simp [hp]⟩
    rw [hnames, mem_unrepost, and_iff_right hp, not_not]
    exact (and_iff_left_of_imp (h r hr hra p hp)).symm

theorem publishPost_cases (K : KeyCrates) (me : Author.Identity) (now : UInt64) (post : Post) (c : ContentStore) :
    (publishPost K me now post c).2 = c ∨
      (∀ q ∈ c.postsBy post.author, q.id ≠ post.id) ∧
        (publishPost K me now post c).2 = { c with posts := c.posts ++ [signPost K me.signingSecret post] } := by
  unfold publishPost
  cases validatePost now post with
  | error e => exact Or.inl rfl
  | ok =>
    dsimp only [ContentStore.insertPost, Table.insertOrIgnore]
    split
    next => exact Or.inl rfl
    next hfree =>
      refine Or.inr ⟨fun q hq hid => hfree ?_, rfl⟩
      obtain ⟨hmem, hauthor⟩ := mem_postsBy.mp hq
      exact List.any_eq_true.mpr ⟨q, hmem, decide_eq_true ⟨hauthor, hid⟩⟩

theorem isAbout_signPost (K : KeyCrates) (secret : SecretKey) (author : String) (p : Post) :
    isAbout author target (signPost K secret p) = isAbout author target p := rfl

theorem repost_cases (K : KeyCrates) (me : Author.Identity) (target : String) (c : ContentStore) (id : String)
    (stamp now : UInt64) (targetAuthor : String) :
    (repost K me id stamp now target targetAuthor c).2 = c ∨
      ∃ p : Post, isAbout me.masterPubkey target p = true ∧ (∀ q ∈ c.postsBy me.masterPubkey, q.id ≠ p.id) ∧
        (repost K me id stamp now target targetAuthor c).2 = { c with posts := c.posts ++ [p] } := by
  let post : Post := ⟨id, me.masterPubkey, "", stamp, [], none, none, some target, some targetAuthor, ""⟩
  have habout : isAbout me.masterPubkey target post = true := by
    simp [isAbout, post]
  rcases publishPost_cases K me now post c with heq | ⟨hfree, heq⟩
  · exact Or.inl heq
  · refine Or.inr ⟨signPost K me.signingSecret post, ?_, hfree, heq⟩
    rw [isAbout_signPost]
    exact habout

theorem postsBy_undone {p : Post} (hfree : ∀ q ∈ c.postsBy me.masterPubkey, q.id ≠ p.id) :
    (unrepost K me (some p) { c with posts := c.posts ++ [p] }).2.postsBy me.masterPubkey =
      c.postsBy me.masterPubkey := by
  show (Table.deleteWhere (·.id = p.id) (c.posts ++ [p])).filter (·.author = me.masterPubkey) = _
  unfold Table.deleteWhere ContentStore.postsBy
  rw [List.filter_append, List.filter_append, List.filter_filter]
  have hnew : [p].filter (fun q => !decide (q.id = p.id)) = [] := by simp
  rw [hnew, List.filter_nil, List.append_nil]
  apply List.filter_congr
  intro q hq
  by_cases hauthor : q.author = me.masterPubkey
  · have hid := hfree q (mem_postsBy.mpr ⟨hq, hauthor⟩)
    simp [hauthor, hid]
  · simp [hauthor]

theorem restores_iff {id : String} {stamp now : UInt64} {targetAuthor : String} :
    Restores K me target c id stamp now targetAuthor ↔ ∀ r ∈ c.posts, ¬ isAbout me.masterPubkey target r := by
  unfold Restores
  have hcases := repost_cases K me target c id stamp now targetAuthor
  generalize (repost K me id stamp now target targetAuthor c).2 = after at hcases ⊢
  rw [afterUnrepost_iff]
  constructor
  · rintro ⟨h, -⟩ r hr hra
    -- the post that was there before may be the one that is deleted
    have hmem : r ∈ after.posts := by
      rcases hcases with rfl | ⟨p, -, -, rfl⟩
      · exact hr
      · exact List.mem_append_left _ hr
    have hown : r ∈ c.postsBy me.masterPubkey := mem_postsBy.mpr ⟨hr, isAbout_author hra⟩
    rw [← h r hmem hra] at hown
    exact (mem_unrepost.mp (mem_postsBy.mp hown).1).2 rfl
  · intro hnone
    rcases hcases with heq | ⟨p, hpa, hfree, rfl⟩
    · rw [heq]
      exact ⟨fun r hr hra => absurd hra (hnone r hr), fun _ => rfl⟩
    · refine ⟨fun r hr hra => ?_, fun habsent => ?_⟩
      · rcases List.mem_append.mp hr with hr | hr
        · exact absurd hra (hnone r hr)
        · obtain rfl := List.mem_singleton.mp hr
          exact postsBy_undone hfree
      · exact absurd hpa (habsent p (List.mem_append_right _ (List.mem_singleton.mpr rfl)))

end Facts

/-- What is undone without harm: one plain repost, and none of before a repost. -/
theorem unrepost_undoes_iff (K : KeyCrates) (me : Author.Identity) (target : String) (c : ContentStore) (id : String)
    (stamp now : UInt64) (targetAuthor : String) :
    (NotReposted K me target c ↔
      ((∀ p ∈ c.posts, isAbout me.masterPubkey target p → isPlain p) →
        ∀ p ∈ c.posts, isAbout me.masterPubkey target p →
          ∀ q ∈ c.posts, isAbout me.masterPubkey target q → p.id = q.id)) ∧
    (KeepsWritten K me target c ↔ ∀ r ∈ c.posts, isAbout me.masterPubkey target r →
      ∀ p ∈ c.postsBy me.masterPubkey, ¬ isPlain p → p.id ≠ r.id) ∧
    (Restores K me target c id stamp now targetAuthor ↔ ∀ r ∈ c.posts, ¬ isAbout me.masterPubkey target r) ∧
    (Announced K me target c ↔ ∀ r ∈ c.posts, isAbout me.masterPubkey target r →
      ∀ p ∈ c.posts, p.id = r.id → p.author = me.masterPubkey) :=
  ⟨notReposted_iff, keepsWritten_iff, restores_iff, announced_iff⟩

def zeroIdentity : Author.Identity := buildIdentity plainKeys (Vector.replicate 32 0) none "" 0 0

/-- An installation that has quoted a post, and nothing else. -/
def quoted : ContentStore :=
  (createPost plainKeys zeroIdentity "q" 0 0 "hello" none none none (some "t") (some "b") ⟨[], []⟩).2

theorem not_keepsWritten_quoted : ¬ KeepsWritten plainKeys zeroIdentity "t" quoted := by
  rw [keepsWritten_iff]
  intro h
  let quote := signPost plainKeys zeroIdentity.signingSecret
    ⟨"q", zeroIdentity.masterPubkey, "hello", 0, [], none, none, some "t", some "b", ""⟩
  have hmem : quote ∈ quoted.posts := List.mem_singleton.mpr rfl
  have habout : isAbout zeroIdentity.masterPubkey "t" quote = true := decide_eq_true ⟨rfl, rfl⟩
  have hown : quote ∈ quoted.postsBy zeroIdentity.masterPubkey := mem_postsBy.mpr ⟨hmem, rfl⟩
  have hcontent : ¬ isPlain quote := of_decide_eq_false rfl
  exact h quote hmem habout quote hown hcontent rfl

end Proscenium.Client
