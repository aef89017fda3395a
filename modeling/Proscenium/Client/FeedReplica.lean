import Proscenium.Client.ContentAuthenticity
import Proscenium.Client.GossipOrder
import Proscenium.Client.Reposts
import Proscenium.Client.RotationReach
import Proscenium.Client.SyncCatchUp
import Proscenium.Lib.Replica

/-! A follower's copy of what an author has posted and liked. A command writes
the author's tables first and broadcasts afterwards, and the keys that sign change
in between. Where the feed keeps its order and nothing is signed with a key that
the follower was not told of, the copy is at every moment what the author's tables
were at some time, and once nothing is under way it is what they are. -/

namespace Proscenium.Client

open Proscenium.Types

def ContentStore.ownedBy (author : String) (c : ContentStore) : ContentStore :=
  ⟨c.postsBy author, c.interactionsBy author⟩

namespace Author

open Feed

section Commands

variable (K : KeyCrates)

def signDeleteInteraction (id author : String) (secret : SecretKey) : String :=
  signHex K secret (deleteInteractionSigningBytes id author)

/-- What a command that writes the tables in this step has to broadcast next. -/
def Device.owes (w : Device) : Label → List GossipMessage
  | .task i true _ =>
    match w.tasks[i]? with
    | some (.insertPost p) => [.newPost p]
    | some (.saveInteraction x) => [.newInteraction x]
    | _ => []
  | .deletePost id =>
    match w.content.getPostById id with
    | some post =>
      if post.author = w.identity.masterPubkey then
        [.deletePost id w.identity.masterPubkey
          (signDeletePost K id w.identity.masterPubkey w.identity.signingSecret)]
      else []
    | none => []
  | .unlikePost target =>
    match w.content.interactions.find? fun i =>
        i.author = w.identity.masterPubkey ∧ i.kind = .like ∧ i.targetPostId = target with
    | some i => [.deleteInteraction i.id w.identity.masterPubkey
        (signDeleteInteraction K i.id w.identity.masterPubkey w.identity.signingSecret)]
    | none => []
  | _ => []

end Commands

namespace FeedCopy

/-- The two devices, what commands have written and not broadcast yet, how many of the broadcasts the
follower has handled in their order, and what the author's rows have been, newest first. -/
structure System where
  world : World
  unsent : List GossipMessage
  handled : Nat
  history : List ContentStore
  deriving DecidableEq, Repr

inductive Label where
  | world (l : World.Label)
  /-- With the row that the query returned. -/
  | unrepost (row : Option Post)
  /-- The command that wrote the `i`-th of what is unsent goes on. -/
  | broadcast (i : Nat) (ok : Bool)
  deriving DecidableEq, Repr

namespace System

variable (s : System)

def authorRows : ContentStore := s.world.author.content.ownedBy s.world.masterPubkey

def followerRows : ContentStore := s.world.follower.content.ownedBy s.world.masterPubkey

def record : System := { s with history := s.authorRows :: s.history }

def pending : List GossipMessage := s.world.broadcasts.drop s.handled ++ s.unsent

def start (world : World) : System :=
  ⟨world, [], world.broadcasts.length, [world.author.content.ownedBy world.masterPubkey]⟩

end System

section Steps

variable (K : KeyCrates) (J : SerdeJson) (you : String)

def unsentAfter (s : System) (l : Author.Label) : List GossipMessage :=
  match l with
  | .restart _ => []
  | _ => s.unsent ++ s.world.author.owes K l

def step (s : System) : Label → Option System
  | .world (.author l) => (s.world.step K J you (.author l)).map fun world =>
    { s with
      world
      unsent := unsentAfter K s l }.record
  | .world (.deliver (.gossip k) now) => (s.world.step K J you (.deliver (.gossip k) now)).map fun world =>
    { s with
      world
      handled := if k = s.handled then s.handled + 1 else s.handled }
  | .world l => (s.world.step K J you l).map fun world => { s with world }
  | .unrepost row =>
    let out := unrepost K s.world.author.identity row s.world.author.content
    some { s with
      world := { s.world with author := { s.world.author with content := out.2 } }
      unsent := s.unsent ++ out.1.toList }.record
  | .broadcast i ok => s.unsent[i]?.bind fun msg =>
    let unsent := s.unsent.eraseIdx i
    if ok then (s.world.step K J you (.broadcast msg)).map fun world => { s with world, unsent }
    else some { s with unsent }

end Steps

section Conditions

def isContent : GossipMessage → Bool
  | .newPost _ | .deletePost .. | .newInteraction _ | .deleteInteraction .. => true
  | _ => false

def hear (told : Option UInt32) : GossipMessage → Option UInt32
  | .signingKeyRotation r => if ∀ i ∈ told, i < r.newKeyIndex then some r.newKeyIndex else told
  | _ => told

variable (K : KeyCrates) (master : SecretKey)

/-- The author's own, and signed with the key of this index. -/
def SignedUnder (i : UInt32) : GossipMessage → Prop
  | .newPost p => SignedPost K master p i
  | .newInteraction x => SignedInteraction K master x i
  | .deletePost id author signature => author = publicText K master ∧
      signature = signHex K (deriveSigningKey K master i) (deletePostSigningBytes id author)
  | .deleteInteraction id author signature => author = publicText K master ∧
      signature = signHex K (deriveSigningKey K master i) (deleteInteractionSigningBytes id author)
  | _ => True

/-- The key that the follower will know when it has handled what is under way has signed the message. -/
def Announced (s : System) (msg : GossipMessage) : Prop :=
  ∃ i, s.pending.foldl hear s.world.told = some i ∧ SignedUnder K master i msg

/-- The follower's clock is not behind, and it has no post of another author under the id that is deleted. -/
def Handles (pk : String) (c : ContentStore) (now : UInt64) : GossipMessage → Prop
  | .newPost p => p.timestamp.toNat ≤ now.toNat + maxTimestampDriftMs
  | .newInteraction x => x.timestamp.toNat ≤ now.toNat + maxTimestampDriftMs
  | .deletePost id _ _ => c.shadows pk id = false
  | _ => True

/-- The author's side: what is written is signed with the key announced last, a rotation is broadcast and
the program closed when nothing is unsent, and what is broadcast is. -/
def AuthorOrderly (s : System) (l : Author.Label) : Prop :=
  (∀ msg ∈ s.world.author.owes K l, Announced K master s msg) ∧
    ((∃ r, GossipMessage.signingKeyRotation r ∈ s.world.author.broadcasts l) → s.unsent = []) ∧
    ((∃ now, l = .restart now) → s.unsent = [])

/-- The follower's side: the feed comes in its order, and other deliveries when nothing is under way. -/
def DeliveryOrderly (s : System) (now : UInt64) : Delivery → Prop
  | .gossip k => k = s.handled ∧ ∀ msg, s.world.broadcasts[k]? = some msg →
      Handles s.world.masterPubkey s.world.follower.content now msg
  | .identityResponse _ _ => s.pending = []
  | .push _ posts interactions _ => s.pending = [] ∧ posts ⊆ s.authorRows.posts ∧
      interactions ⊆ s.authorRows.interactions
  | .sync _ => s.pending = []

def Orderly (s : System) : Label → Prop
  | .world (.author l) => AuthorOrderly K master s l
  | .world (.deliver d now) => DeliveryOrderly s now d
  | .world (.broadcast msg) => isContent msg = false
  | .world (.follower _ _ content) =>
      content.ownedBy s.world.masterPubkey = s.world.follower.content.ownedBy s.world.masterPubkey
  | .world (.tables _) | .world (.ownFeed _) => True
  | .unrepost row =>
      ∀ msg ∈ (unrepost K s.world.author.identity row s.world.author.content).1, Announced K master s msg
  | .broadcast i ok => i = 0 ∧ ok = true ∧ s.world.mySender = true

end Conditions

/-- What a message makes of the rows of its author. -/
def effect : GossipMessage → ContentStore → ContentStore
  | .newPost p, c => c.insertPost p
  | .deletePost id _ _, c => c.deletePost id
  | .newInteraction x, c => c.saveInteraction x
  | .deleteInteraction id author _, c => c.deleteInteraction id author
  | _, c => c

section Rows

variable {K : KeyCrates} {master : SecretKey} {author : String} {c : ContentStore}

theorem ownedBy_insertPost {p : Post} (hp : p.author = author) :
    (c.insertPost p).ownedBy author = (c.ownedBy author).insertPost p := by
  have hposts : (c.insertPost p).postsBy author =
      Table.insertOrIgnore (fun q => q.author = p.author ∧ q.id = p.id) p (c.postsBy author) := by
    refine GossipOrder.filter_insertOrIgnore (decide_eq_true hp) fun q hq => ?_
    exact decide_eq_true ((of_decide_eq_true hq).1.trans hp)
  unfold ContentStore.ownedBy
  rw [hposts]
  rfl

theorem ownedBy_saveInteraction {x : Interaction} (hx : x.author = author) :
    (c.saveInteraction x).ownedBy author = (c.ownedBy author).saveInteraction x := by
  have hinteractions : (c.saveInteraction x).interactionsBy author =
      Table.insertOrIgnore (fun j => j.author = x.author ∧
        (j.id = x.id ∨ j.kind = x.kind ∧ j.targetPostId = x.targetPostId)) x (c.interactionsBy author) := by
    refine GossipOrder.filter_insertOrIgnore (decide_eq_true hx) fun j hj => ?_
    exact decide_eq_true ((of_decide_eq_true hj).1.trans hx)
  unfold ContentStore.ownedBy
  rw [hinteractions]
  rfl

theorem ownedBy_deletePost (id : String) :
    (c.deletePost id).ownedBy author = (c.ownedBy author).deletePost id := by
  have hposts : (c.deletePost id).postsBy author = Table.deleteWhere (·.id = id) (c.postsBy author) :=
    GossipOrder.filter_deleteWhere
  unfold ContentStore.ownedBy
  rw [hposts]
  rfl

theorem ownedBy_deleteInteraction (id : String) :
    (c.deleteInteraction id author).ownedBy author = (c.ownedBy author).deleteInteraction id author := by
  have hinteractions : (c.deleteInteraction id author).interactionsBy author =
      Table.deleteWhere (fun i => i.id = id ∧ i.author = author) (c.interactionsBy author) :=
    GossipOrder.filter_deleteWhere
  unfold ContentStore.ownedBy
  rw [hinteractions]
  rfl

theorem ownedBy_effect {msg : GossipMessage} {i : UInt32} (h : SignedUnder K master i msg) :
    (effect msg c).ownedBy (publicText K master) = effect msg (c.ownedBy (publicText K master)) := by
  cases msg with
  | newPost p => exact ownedBy_insertPost h.author
  | deletePost id author signature => exact ownedBy_deletePost id
  | newInteraction x => exact ownedBy_saveInteraction h.author
  | deleteInteraction id author signature =>
    obtain ⟨rfl, -⟩ := h
    exact ownedBy_deleteInteraction id
  | profileUpdate | linkedDevices | signingKeyRotation | other => rfl

theorem effect_of_not_content {msg : GossipMessage} (h : isContent msg = false) : effect msg c = c := by
  cases msg with
  | newPost | deletePost | newInteraction | deleteInteraction => exact nomatch h
  | profileUpdate | linkedDevices | signingKeyRotation | other => rfl

end Rows

section Receiving

variable {S : SignatureCrates} {you : String} {now : UInt64} {store : PeerStore}

theorem content_finish (l : Client.Label) (w : Node) (t : Client.Task) :
    (finish l w t).store.content = w.store.content := by
  have hrun := content_runTask (w := w) (l := l) t
  unfold finish
  split
  next w' heq =>
    rw [heq] at hrun
    exact hrun
  next w' next heq =>
    rw [heq] at hrun
    exact (content_runTask next).trans hrun

theorem content_foldl_finish (l : Client.Label) (tasks : List Client.Task) (w : Node) :
    (tasks.foldl (finish l) w).store.content = w.store.content := by
  induction tasks generalizing w with
  | nil => rfl
  | cons t tasks ih => exact (ih _).trans (content_finish l w t)

theorem content_receive (e : Event) : (receive S you now store e).content =
    (Node.handle S you ⟨.event e, now, noFails⟩ ⟨store, []⟩ e).store.content :=
  content_foldl_finish _ _ _

end Receiving

section Handling

variable {K : KeyCrates} {master : SecretKey} {i : UInt32} {you : String} {now : UInt64} {store : PeerStore}

theorem resolveSigner_known (hK : K.Lawful) {st : Storage} (h : Knows K master (some i) st) :
    resolveSigner K.toSignatureCrates noFails.table (publicText K master) st =
      some (K.publicKey (deriveSigningKey K master i)) := by
  have hrow : st.getPeerSigningPubkey (publicText K master) = some (publicText K (deriveSigningKey K master i)) :=
    h.signingPubkey
  have hno : noFails.table .signingPubkey = false := rfl
  simp [resolveSigner, hno, hrow, parse_publicText hK, Except.toOption]

/-- What is signed with the key that the follower knows takes effect. -/
theorem handle_signed (hK : K.Lawful) {msg : GossipMessage} (hcontent : isContent msg = true)
    (hknows : Knows K master (some i) store.storage) (hsigned : SignedUnder K master i msg)
    (hhandles : Handles (publicText K master) store.content now msg) :
    ((eventsOf (publicText K master) msg).foldl (receive K.toSignatureCrates you now) store).content =
      effect msg store.content := by
  have hsigner := resolveSigner_known hK hknows
  have hdeletion : ∀ what bytes, deletionSigned K.toSignatureCrates noFails (verifySigned K.toSignatureCrates what
      bytes (signHex K (deriveSigningKey K master i) bytes)) (publicText K master) store.storage = true := by
    intro what bytes
    unfold deletionSigned
    rw [hsigner]
    exact Checks.toBool_eq_true.mpr ((verifySigned_derived hK).mpr rfl)
  cases msg with
  | newPost p =>
    have haccepts : acceptsPost K.toSignatureCrates noFails now p store.storage = true := by
      unfold Client.acceptsPost Client.signerAccepts
      rw [hsigned.author, hsigner, Bool.and_eq_true, Device.validatePost_iff hsigned, Checks.toBool_eq_true,
        verifyPostSignature, hsigned.signature, verifySigned_derived hK]
      exact ⟨hhandles, rfl⟩
    refine (content_receive _).trans ?_
    have hfeed : ∀ pk ∈ some (publicText K master), p.author = pk := by
      rintro _ ⟨⟩
      exact hsigned.author
    simp only [Node.handle]
    rw [if_pos hfeed, processIncomingPost, if_pos ⟨haccepts, rfl⟩]
    rfl
  | deletePost id author signature =>
    obtain ⟨rfl, rfl⟩ := hsigned
    refine (content_receive _).trans ?_
    show handleDeletePost K.toSignatureCrates noFails _ id _ _ store.storage store.content = _
    rw [GossipOrder.handleDeletePost_eq, if_pos ⟨rfl, hdeletion _ _, hhandles⟩]
    rfl
  | newInteraction x =>
    have haccepts : acceptsInteraction K.toSignatureCrates noFails now x (publicText K master) store.storage =
        true := by
      unfold Client.acceptsInteraction Client.signerAccepts
      rw [hsigned.author, hsigner, Bool.and_eq_true, Bool.and_eq_true, Device.validateInteraction_iff,
        Checks.toBool_eq_true, verifyInteractionSignature, hsigned.signature, verifySigned_derived hK]
      exact ⟨⟨decide_eq_true rfl, hhandles⟩, rfl⟩
    refine (content_receive _).trans ?_
    show processIncomingInteraction K.toSignatureCrates noFails now x _ store.storage store.content = _
    rw [processIncomingInteraction, if_pos ⟨haccepts, rfl⟩]
    rfl
  | deleteInteraction id author signature =>
    obtain ⟨rfl, rfl⟩ := hsigned
    refine (content_receive _).trans ?_
    show handleDeleteInteraction K.toSignatureCrates noFails _ id _ _ store.storage store.content = _
    rw [handleDeleteInteraction, if_pos ⟨rfl, hdeletion _ _, rfl⟩]
    rfl
  | profileUpdate | linkedDevices | signingKeyRotation | other => exact absurd hcontent Bool.false_ne_true

theorem handle_other (pk : String) {msg : GossipMessage} (hcontent : isContent msg = false) :
    ((eventsOf pk msg).foldl (receive K.toSignatureCrates you now) store).content = store.content := by
  cases msg with
  | newPost | deletePost | newInteraction | deleteInteraction => exact nomatch hcontent
  | profileUpdate profile => exact content_receive _
  | linkedDevices a =>
    refine (content_receive _).trans ?_
    simp only [Node.handle]
    split <;> rfl
  | signingKeyRotation rotation =>
    refine (content_receive _).trans ?_
    simp only [Node.handle]
    split <;> rfl
  | other => rfl

def Known (c : ContentStore) : Event → Prop
  | .post _ p => p ∈ c.posts
  | .interaction _ x => x ∈ c.interactions
  | .identity _ | .pushProfile .. | .syncProfile .. => True
  | _ => False

theorem content_receive_known {e : Event} (he : Known store.content e) :
    (receive K.toSignatureCrates you now store e).content = store.content := by
  refine (content_receive e).trans ?_
  cases e with
  | post sender p =>
    have hknown : store.content.insertPost p = store.content := by
      unfold ContentStore.insertPost Table.insertOrIgnore
      rw [if_pos (List.any_eq_true.mpr ⟨p, he, decide_eq_true ⟨rfl, rfl⟩⟩)]
    simp only [Node.handle]
    split
    · show (processIncomingPost _ _ _ p store.storage store.content).2 = _
      unfold processIncomingPost
      split
      · exact hknown
      · rfl
    · rfl
  | interaction sender x =>
    have hknown : store.content.saveInteraction x = store.content := by
      unfold ContentStore.saveInteraction Table.insertOrIgnore
      rw [if_pos (List.any_eq_true.mpr ⟨x, he, decide_eq_true ⟨rfl, Or.inl rfl⟩⟩)]
    show processIncomingInteraction _ _ _ x sender store.storage store.content = _
    unfold processIncomingInteraction
    split
    · exact hknown
    · rfl
  | identity identity =>
    simp only [Node.handle]
    split <;> rfl
  | pushProfile | syncProfile => rfl
  | followResponse | followRequest | linkedDevices | signingKeyRotation | deviceAnnouncement | hiddenContent
  | deletePost | deleteInteraction | profileUpdate => exact False.elim he

theorem content_receive_all {events : List Event} (h : ∀ e ∈ events, Known store.content e) :
    (events.foldl (receive K.toSignatureCrates you now) store).content = store.content := by
  induction events generalizing store with
  | nil => rfl
  | cons e events ih =>
    have hfirst : (receive K.toSignatureCrates you now store e).content = store.content :=
      content_receive_known (h e List.mem_cons_self)
    rw [List.foldl_cons, ih, hfirst]
    intro e' he'
    rw [hfirst]
    exact h e' (List.mem_cons_of_mem _ he')

end Handling

section Commands

variable {K : KeyCrates} {master : SecretKey} {w t : Device} {l : Author.Label}

/-- What a command has to broadcast says what it has done to the author's rows. -/
theorem rows_step (hw : Device.Inv K master w) (hstep : w.step K l = some t) :
    t.content.ownedBy (publicText K master) =
      Replica.replay effect (w.owes K l) (w.content.ownedBy (publicText K master)) := by
  have hme := hw.identity.masterPubkey
  cases l with
  | createPost draft id now nowValidate =>
    obtain rfl := Option.some.inj hstep
    unfold Device.createPost
    dsimp only
    split <;> rfl
  | likePost | rotateSigningKey | restart =>
    obtain rfl := Option.some.inj hstep
    rfl
  | deletePost id =>
    obtain rfl := Option.some.inj hstep
    unfold Device.deletePost Device.owes
    dsimp only
    cases w.content.getPostById id with
    | none => rfl
    | some post =>
      by_cases hmine : post.author = w.identity.masterPubkey
      · simp only [if_pos hmine]
        exact ownedBy_deletePost id
      · simp only [if_neg hmine]
        rfl
  | unlikePost target =>
    obtain rfl := Option.some.inj hstep
    unfold Device.unlikePost Device.owes
    dsimp only
    rw [hme]
    cases w.content.interactions.find? _ with
    | none => rfl
    | some i => exact ownedBy_deleteInteraction i.id
  | task i ok now =>
    obtain ⟨task, htask, rfl⟩ := Option.map_eq_some_iff.mp hstep
    have hmem := List.mem_of_getElem? htask
    cases ok with
    | true =>
      unfold Device.owes
      dsimp only
      rw [htask]
      cases task with
      | insertPost p =>
        obtain ⟨i, hi⟩ := hw.insertPost p hmem
        exact ownedBy_insertPost (hw.signedPosts p i hi).author
      | saveInteraction x =>
        obtain ⟨i, hi⟩ := hw.saveInteraction x hmem
        exact ownedBy_saveInteraction (hw.signedInteractions x i hi).author
      | rotate plan phase => cases phase <;> rfl
    | false =>
      cases task with
      | insertPost | saveInteraction => rfl
      | rotate plan phase => cases phase <;> rfl

theorem owes_content {msg : GossipMessage} (h : msg ∈ w.owes K l) : isContent msg = true := by
  unfold Device.owes at h
  split at h
  · split at h
    · obtain rfl := List.mem_singleton.mp h
      rfl
    · obtain rfl := List.mem_singleton.mp h
      rfl
    · exact nomatch h
  · split at h
    · split at h
      · obtain rfl := List.mem_singleton.mp h
        rfl
      · exact nomatch h
    · exact nomatch h
  · split at h
    · obtain rfl := List.mem_singleton.mp h
      rfl
    · exact nomatch h
  · exact nomatch h

theorem owes_cases (w : Device) (l : Author.Label) : w.owes K l = [] ∨
    (∃ msg, w.owes K l = [msg]) ∧ w.broadcasts l = [] := by
  unfold Device.owes
  split
  next i now =>
    unfold Device.broadcasts
    dsimp only
    cases htask : w.tasks[i]? with
    | none => exact Or.inl rfl
    | some task =>
      cases task with
      | insertPost p => exact Or.inr ⟨⟨_, rfl⟩, rfl⟩
      | saveInteraction x => exact Or.inr ⟨⟨_, rfl⟩, rfl⟩
      | rotate plan phase => exact Or.inl rfl
  · split
    · split
      · exact Or.inr ⟨⟨_, rfl⟩, rfl⟩
      · exact Or.inl rfl
    · exact Or.inl rfl
  · split
    · exact Or.inr ⟨⟨_, rfl⟩, rfl⟩
    · exact Or.inl rfl
  · exact Or.inl rfl

theorem broadcasts_cases (w : Device) (l : Author.Label) : w.broadcasts l = [] ∨
    ∃ msg, w.broadcasts l = [msg] ∧ isContent msg = false := by
  unfold Device.broadcasts
  split
  · split
    · exact Or.inr ⟨_, rfl, rfl⟩
    · exact Or.inr ⟨_, rfl, rfl⟩
    · exact Or.inl rfl
  · exact Or.inl rfl

end Commands

section Signed

variable (K : KeyCrates) (master : SecretKey)

def SignedFeed (told : Option UInt32) : List GossipMessage → Prop
  | [] => True
  | msg :: rest => (isContent msg = true → ∃ i, told = some i ∧ SignedUnder K master i msg) ∧
      SignedFeed (hear told msg) rest

variable {K} {master} {told : Option UInt32} {msg : GossipMessage} {as bs : List GossipMessage}

theorem signedFeed_append : SignedFeed K master told (as ++ bs) ↔
    SignedFeed K master told as ∧ SignedFeed K master (as.foldl hear told) bs := by
  induction as generalizing told with
  | nil => exact (and_iff_right trivial).symm
  | cons msg as ih =>
    show (_ ∧ SignedFeed K master (hear told msg) (as ++ bs)) ↔ _
    rw [ih, ← and_assoc]
    rfl

theorem signedFeed_insert (h : SignedFeed K master told (as ++ bs)) (hcontent : isContent msg = false)
    (hear_msg : bs = [] ∨ ∀ told, hear told msg = told) : SignedFeed K master told (as ++ msg :: bs) := by
  rw [signedFeed_append] at h ⊢
  refine ⟨h.1, fun htrue => absurd (hcontent.symm.trans htrue) Bool.false_ne_true, ?_⟩
  rcases hear_msg with rfl | hsame
  · trivial
  · rw [hsame]
    exact h.2

theorem hear_of_not_rotation (h : ∀ r, msg ≠ .signingKeyRotation r) : hear told msg = told := by
  cases msg with
  | signingKeyRotation r => exact absurd rfl (h r)
  | newPost | deletePost | newInteraction | deleteInteraction | profileUpdate | linkedDevices | other => rfl

end Signed

/-- The copy is behind the author's rows by what is under way. -/
structure InStep (K : KeyCrates) (master : SecretKey) (s : System) : Prop where
  honest : s.world.Honest K master
  handled : s.handled ≤ s.world.broadcasts.length
  unsent : ∀ msg ∈ s.unsent, isContent msg = true
  signed : SignedFeed K master s.world.told s.pending
  tracks : Replica.Tracks effect s.history s.pending s.authorRows s.followerRows

section Invariant

variable {K : KeyCrates} {J : SerdeJson} {you : String} {master : SecretKey} {s t : System}

theorem InStep.settled (h : InStep K master s) {world : World} (hhonest : world.Honest K master)
    (hsent : world.broadcasts = s.world.broadcasts) (hauthor : world.author = s.world.author)
    (hpending : s.pending = [])
    (hrows : world.follower.content.ownedBy world.masterPubkey = s.followerRows) :
    InStep K master { s with world } := by
  have hnone : ({ s with world } : System).pending = [] := by
    unfold System.pending
    rw [hsent]
    exact hpending
  have hown : ({ s with world } : System).authorRows = s.authorRows := by
    unfold System.authorRows World.masterPubkey
    rw [hauthor]
  refine ⟨hhonest, hsent ▸ h.handled, h.unsent, ?_, ?_⟩
  · rw [hnone]
    trivial
  · have htracks := h.tracks
    rw [hpending] at htracks
    rw [hnone, hown]
    show Replica.Tracks effect s.history [] s.authorRows (world.follower.content.ownedBy world.masterPubkey)
    rw [hrows]
    exact htracks

theorem drop_send (h : s.handled ≤ s.world.broadcasts.length) (msgs : List GossipMessage) :
    ∃ sent, (sent = [] ∨ sent = msgs) ∧ s.handled ≤ (s.world.send msgs).broadcasts.length ∧
      (s.world.send msgs).broadcasts.drop s.handled = s.world.broadcasts.drop s.handled ++ sent := by
  unfold World.send
  split
  · refine ⟨msgs, Or.inr rfl, ?_, List.drop_append_of_le_length h⟩
    show s.handled ≤ (s.world.broadcasts ++ msgs).length
    rw [List.length_append]
    omega
  · exact ⟨[], Or.inl rfl, h, (List.append_nil _).symm⟩

/-- The author's rows change, and what says so is unsent. -/
theorem InStep.written (h : InStep K master s) {world : World} (hhonest : world.Honest K master)
    (hsent : world.broadcasts = s.world.broadcasts) (htold : world.told = s.world.told)
    (hfollower : world.follower = s.world.follower) {msg : GossipMessage} (hcontent : isContent msg = true)
    (hannounced : Announced K master s msg)
    (hrows : world.author.content.ownedBy world.masterPubkey = effect msg s.authorRows) :
    InStep K master ({ s with
      world
      unsent := s.unsent ++ [msg] } : System).record := by
  have hpending : ({ s with
      world
      unsent := s.unsent ++ [msg] } : System).record.pending = s.pending ++ [msg] := by
    show world.broadcasts.drop s.handled ++ (s.unsent ++ [msg]) = _
    rw [hsent, ← List.append_assoc]
    rfl
  have hcopy : world.follower.content.ownedBy world.masterPubkey = s.followerRows := by
    unfold System.followerRows
    rw [hfollower, hhonest.masterPubkey, h.honest.masterPubkey]
  refine ⟨hhonest, ?_, ?_, ?_, ?_⟩
  · show s.handled ≤ world.broadcasts.length
    rw [hsent]
    exact h.handled
  · intro m hm
    rcases List.mem_append.mp hm with hm | hm
    · exact h.unsent m hm
    · obtain rfl := List.mem_singleton.mp hm
      exact hcontent
  · rw [hpending, signedFeed_append]
    show SignedFeed K master world.told s.pending ∧ SignedFeed K master (s.pending.foldl hear world.told) [msg]
    rw [htold]
    exact ⟨h.signed, fun _ => hannounced, trivial⟩
  · rw [hpending]
    show Replica.Tracks effect (world.author.content.ownedBy world.masterPubkey :: s.history) _
      (world.author.content.ownedBy world.masterPubkey) (world.follower.content.ownedBy world.masterPubkey)
    rw [hcopy, hrows]
    exact h.tracks.publish msg

/-- The author's rows stay, and what is broadcast meanwhile does not change them. -/
theorem InStep.unwritten (h : InStep K master s) {world : World} (hhonest : world.Honest K master)
    {msgs : List GossipMessage} (hsent : world.broadcasts = (s.world.send msgs).broadcasts)
    (htold : world.told = s.world.told) (hfollower : world.follower = s.world.follower)
    (hother : msgs = [] ∨ ∃ msg, msgs = [msg] ∧ isContent msg = false ∧
      ((∃ r, msg = .signingKeyRotation r) → s.unsent = []))
    (hrows : world.author.content.ownedBy world.masterPubkey = s.authorRows) :
    InStep K master { s with world } := by
  obtain ⟨sent, hcases, hlength, hdrop⟩ := drop_send h.handled msgs
  have hcopy : world.follower.content.ownedBy world.masterPubkey = s.followerRows := by
    unfold System.followerRows
    rw [hfollower, hhonest.masterPubkey, h.honest.masterPubkey]
  have hpending : ({ s with world } : System).pending = s.world.broadcasts.drop s.handled ++ (sent ++ s.unsent) := by
    show world.broadcasts.drop s.handled ++ s.unsent = _
    rw [hsent, hdrop, List.append_assoc]
  have hsigned := h.signed
  have htracks := h.tracks
  have hboth : SignedFeed K master s.world.told (s.world.broadcasts.drop s.handled ++ (sent ++ s.unsent)) ∧
      Replica.Tracks effect s.history (s.world.broadcasts.drop s.handled ++ (sent ++ s.unsent)) s.authorRows
        s.followerRows := by
    rcases hcases with rfl | rfl
    · exact ⟨hsigned, htracks⟩
    · rcases hother with rfl | ⟨msg, rfl, hcontent, hrotation⟩
      · exact ⟨hsigned, htracks⟩
      · refine ⟨signedFeed_insert hsigned hcontent ?_, htracks.insert fun _ => effect_of_not_content hcontent⟩
        by_cases hrot : ∃ r, msg = .signingKeyRotation r
        · exact Or.inl (hrotation hrot)
        · exact Or.inr fun _ => hear_of_not_rotation fun r hr => hrot ⟨r, hr⟩
  refine ⟨hhonest, hsent ▸ hlength, h.unsent, ?_, ?_⟩
  · rw [hpending]
    show SignedFeed K master world.told _
    rw [htold]
    exact hboth.1
  · rw [hpending]
    show Replica.Tracks effect s.history _ (world.author.content.ownedBy world.masterPubkey)
      (world.follower.content.ownedBy world.masterPubkey)
    rw [hcopy, hrows]
    exact hboth.2

theorem InStep.record (h : InStep K master s) : InStep K master s.record where
  honest := h.honest
  handled := h.handled
  unsent := h.unsent
  signed := h.signed
  tracks := h.tracks.record s.authorRows

theorem inStep_author (hK : K.Lawful) (h : InStep K master s) {l : Author.Label} (hord : AuthorOrderly K master s l)
    (hstep : step K J you s (.world (.author l)) = some t) : InStep K master t := by
  obtain ⟨hannounced, hrotations, hrestarts⟩ := hord
  obtain ⟨world, hworld, rfl⟩ := Option.map_eq_some_iff.mp hstep
  have hhonest := World.honest_step hK h.honest hworld
  obtain ⟨author, hauthor, rfl⟩ := Option.map_eq_some_iff.mp hworld
  obtain ⟨hfollower, htold, -⟩ := World.follower_send (w := s.world) (s.world.author.broadcasts l)
  have hunsent : unsentAfter K s l = s.unsent ++ s.world.author.owes K l := by
    cases l with
    | restart now =>
      -- what has not been sent would be lost, so an orderly author has nothing of it
      have hnone := hrestarts ⟨now, rfl⟩
      rw [hnone]
      rfl
    | _ => rfl
  have hrows : author.content.ownedBy author.identity.masterPubkey =
      Replica.replay effect (s.world.author.owes K l) s.authorRows := by
    have hmine : author.identity.masterPubkey = publicText K master := hhonest.masterPubkey
    have hown : s.world.masterPubkey = publicText K master := h.honest.masterPubkey
    unfold System.authorRows
    rw [hmine, hown]
    exact rows_step h.honest.author hauthor
  rw [hunsent]
  -- a command that writes a row sends nothing itself, its task does so later
  rcases owes_cases s.world.author l with hnone | ⟨⟨msg, hmsg⟩, hquiet⟩
  · rw [hnone, List.append_nil]
    rw [hnone] at hrows
    refine (h.unwritten hhonest rfl htold hfollower ?_ hrows).record
    rcases broadcasts_cases s.world.author l with hbroadcasts | ⟨msg, hmsg, hcontent⟩
    · exact Or.inl hbroadcasts
    · refine Or.inr ⟨msg, hmsg, hcontent, ?_⟩
      rintro ⟨r, rfl⟩
      exact hrotations ⟨r, hmsg ▸ List.mem_singleton.mpr rfl⟩
  · have hmem : msg ∈ s.world.author.owes K l := hmsg ▸ List.mem_singleton.mpr rfl
    rw [hmsg] at hrows ⊢
    refine h.written hhonest ?_ htold hfollower (owes_content hmem) (hannounced msg hmem) hrows
    show (s.world.send (s.world.author.broadcasts l)).broadcasts = _
    rw [hquiet]
    unfold World.send
    split
    · exact List.append_nil _
    · rfl

theorem inStep_unrepost (h : InStep K master s) {row : Option Post} (hord : Orderly K master s (.unrepost row))
    (hstep : step K J you s (.unrepost row) = some t) : InStep K master t := by
  obtain rfl := Option.some.inj hstep
  cases row with
  | none =>
    show InStep K master ({ s with unsent := s.unsent ++ [] } : System).record
    rw [List.append_nil]
    exact h.record
  | some r =>
    let author : Device := { s.world.author with content := s.world.author.content.deletePost r.id }
    have hauthor : Device.Inv K master author :=
      { h.honest.author with
        posts := fun p hp => h.honest.author.posts p (List.mem_of_mem_filter hp) }
    have hissues : author.Issues K master := ⟨h.honest.issues.keyIndex, h.honest.issues.issued⟩
    have hhonest : World.Honest K master { s.world with author } :=
      ⟨hauthor, hissues, h.honest.broadcasts, h.honest.knows⟩
    refine h.written hhonest rfl rfl rfl rfl (hord _ rfl) ?_
    exact ownedBy_deletePost r.id

/-- A command goes on: what was the first of the unsent is the last of what was sent. -/
theorem inStep_broadcast (hK : K.Lawful) (h : InStep K master s) {i : Nat} {ok : Bool}
    (hord : Orderly K master s (.broadcast i ok)) (hstep : step K J you s (.broadcast i ok) = some t) :
    InStep K master t := by
  obtain ⟨rfl, rfl, hup⟩ := hord
  obtain ⟨msg, hmsg, hsent⟩ := Option.bind_eq_some_iff.mp hstep
  obtain ⟨world, hworld, rfl⟩ := Option.map_eq_some_iff.mp hsent
  have hhonest := World.honest_step hK h.honest hworld
  have hcontent := h.unsent msg (List.mem_of_getElem? hmsg)
  obtain rfl : world = s.world.send [msg] := by
    cases msg with
    | newPost | deletePost | newInteraction | deleteInteraction => exact (Option.some.inj hworld).symm
    | profileUpdate | linkedDevices | signingKeyRotation | other => exact nomatch hcontent
  have hunsent : s.unsent = msg :: s.unsent.eraseIdx 0 := by
    cases hlist : s.unsent with
    | nil =>
      rw [hlist] at hmsg
      exact nomatch hmsg
    | cons m rest =>
      rw [hlist] at hmsg
      obtain rfl := Option.some.inj hmsg
      rfl
  have hbroadcasts : (s.world.send [msg]).broadcasts = s.world.broadcasts ++ [msg] := by
    unfold World.send
    rw [if_pos hup]
  have hpending : ({ s with
      world := s.world.send [msg]
      unsent := s.unsent.eraseIdx 0 } : System).pending = s.pending := by
    show (s.world.send [msg]).broadcasts.drop s.handled ++ s.unsent.eraseIdx 0 =
      s.world.broadcasts.drop s.handled ++ s.unsent
    rw [hbroadcasts, List.drop_append_of_le_length h.handled, List.append_assoc, hunsent]
    rfl
  obtain ⟨hfollower, htold, hauthor⟩ := World.follower_send (w := s.world) [msg]
  refine ⟨hhonest, ?_, fun m hm => h.unsent m (List.mem_of_mem_eraseIdx hm), ?_, ?_⟩
  · show s.handled ≤ (s.world.send [msg]).broadcasts.length
    rw [hbroadcasts, List.length_append]
    exact Nat.le_add_right_of_le h.handled
  · rw [hpending]
    show SignedFeed K master (s.world.send [msg]).told s.pending
    rw [htold]
    exact h.signed
  · rw [hpending]
    unfold System.authorRows System.followerRows World.masterPubkey
    dsimp only
    rw [hfollower, hauthor]
    exact h.tracks

theorem inStep_gossip (hK : K.Lawful) (h : InStep K master s) {k : Nat} {now : UInt64}
    (hord : DeliveryOrderly s now (.gossip k))
    (hstep : step K J you s (.world (.deliver (.gossip k) now)) = some t) : InStep K master t := by
  obtain ⟨rfl, hhandles⟩ := hord
  obtain ⟨world, hworld, rfl⟩ := Option.map_eq_some_iff.mp hstep
  have hhonest := World.honest_step hK h.honest hworld
  obtain ⟨events, hevents, rfl⟩ := Option.map_eq_some_iff.mp hworld
  obtain ⟨msg, hmsg, rfl⟩ := Option.map_eq_some_iff.mp hevents
  have hmine := h.honest.masterPubkey
  obtain ⟨hlength, hget⟩ := List.getElem?_eq_some_iff.mp hmsg
  have hdrop : s.world.broadcasts.drop s.handled = msg :: s.world.broadcasts.drop (s.handled + 1) := by
    rw [List.drop_eq_getElem_cons hlength, hget]
  have hpending : s.pending = msg :: (s.world.broadcasts.drop (s.handled + 1) ++ s.unsent) := by
    unfold System.pending
    rw [hdrop]
    rfl
  have hheard : s.world.heard (.gossip s.handled) = hear s.world.told msg := by
    unfold World.heard
    dsimp only
    rw [hmsg]
    cases msg <;> rfl
  have hsigned := h.signed
  have htracks := h.tracks
  rw [hpending] at hsigned htracks
  have hcopy : ((eventsOf s.world.masterPubkey msg).foldl (receive K.toSignatureCrates you now)
      s.world.follower).content.ownedBy s.world.masterPubkey = effect msg s.followerRows := by
    cases hcontent : isContent msg with
    | false =>
      rw [handle_other _ hcontent, effect_of_not_content hcontent]
      rfl
    | true =>
      -- the follower's newest key of the author is the one that it was last told
      obtain ⟨i, htold, hunder⟩ := hsigned.1 hcontent
      have hknows := h.honest.knows
      rw [htold] at hknows
      have hready := hhandles msg hmsg
      unfold System.followerRows
      rw [hmine] at hready ⊢
      rw [handle_signed hK hcontent hknows hunder hready]
      exact ownedBy_effect hunder
  rw [if_pos rfl]
  refine ⟨hhonest, hlength, h.unsent, ?_, ?_⟩
  · show SignedFeed K master (s.world.heard (.gossip s.handled)) (s.world.broadcasts.drop (s.handled + 1) ++ s.unsent)
    rw [hheard]
    exact hsigned.2
  · show Replica.Tracks effect s.history (s.world.broadcasts.drop (s.handled + 1) ++ s.unsent) s.authorRows
      (((eventsOf s.world.masterPubkey msg).foldl (receive K.toSignatureCrates you now)
        s.world.follower).content.ownedBy s.world.masterPubkey)
    rw [hcopy]
    exact htracks.receive

/-- Once the feed has been handled, the other deliveries bring nothing that is not there. -/
theorem inStep_deliver (hK : K.Lawful) (h : InStep K master s) {d : Delivery} {now : UInt64} {world : World}
    (hworld : s.world.step K J you (.deliver d now) = some world) (hgossip : ∀ k, d ≠ .gossip k)
    (hord : DeliveryOrderly s now d) : InStep K master { s with world } := by
  have hhonest := World.honest_step hK h.honest hworld
  obtain ⟨events, hevents, rfl⟩ := Option.map_eq_some_iff.mp hworld
  have hrows : ∀ hnone : s.pending = [], s.followerRows = s.authorRows := by
    intro hnone
    have htracks := h.tracks
    rw [hnone] at htracks
    exact htracks.caught_up
  have hposts : s.followerRows.posts ⊆ s.world.follower.content.posts := List.filter_sublist.subset
  have hinteractions : s.followerRows.interactions ⊆ s.world.follower.content.interactions :=
    List.filter_sublist.subset
  -- a row that is already there is not inserted again
  suffices hknown : s.pending = [] ∧ ∀ e ∈ events, Known s.world.follower.content e by
    refine h.settled hhonest rfl rfl hknown.1 ?_
    show ((events.foldl (receive K.toSignatureCrates you now) s.world.follower).content).ownedBy _ = _
    rw [content_receive_all hknown.2]
    rfl
  cases d with
  | gossip k => exact absurd rfl (hgossip k)
  | identityResponse ids profile =>
    obtain rfl := Option.some.inj hevents
    refine ⟨hord, fun e he => ?_⟩
    obtain rfl := List.mem_singleton.mp he
    trivial
  | push remote posts interactions profile =>
    obtain ⟨hnone, hpushed, hpushed'⟩ := hord
    rw [← hrows hnone] at hpushed hpushed'
    unfold World.events at hevents
    dsimp only at hevents
    split at hevents
    · obtain rfl := Option.some.inj hevents
      refine ⟨hnone, fun e he => ?_⟩
      simp only [List.mem_append, List.mem_map, List.mem_singleton] at he
      rcases he with (⟨p, hp, rfl⟩ | ⟨x, hx, rfl⟩) | rfl
      · exact hposts (hpushed hp)
      · exact hinteractions (hpushed' hx)
      · trivial
    · exact nomatch hevents
  | sync remote =>
    obtain ⟨result, hresult, rfl⟩ := Option.map_eq_some_iff.mp hevents
    obtain ⟨hsub, hsub'⟩ := SyncPeer.syncFromPeer_subset hresult
    have hcaught := hrows hord
    refine ⟨hord, fun e he => ?_⟩
    simp only [List.mem_append, List.mem_map] at he
    rcases he with (⟨p, hp, rfl⟩ | ⟨profile, -, rfl⟩) | ⟨x, hx, rfl⟩
    · refine hposts ?_
      rw [hcaught]
      exact hsub hp
    · trivial
    · refine hinteractions ?_
      rw [hcaught]
      exact hsub' hx

theorem step_world {l : World.Label} (hauthor : ∀ l', l ≠ .author l')
    (hgossip : ∀ k now, l ≠ .deliver (.gossip k) now) :
    step K J you s (.world l) = (s.world.step K J you l).map fun world => { s with world } := by
  cases l with
  | author l => exact absurd rfl (hauthor l)
  | deliver d now =>
    cases d with
    | gossip k => exact absurd rfl (hgossip k now)
    | _ => rfl
  | _ => rfl

/-- What the author does not do, and the feed does not bring, leaves the copy where it is. -/
theorem inStep_world (hK : K.Lawful) (h : InStep K master s) {l : World.Label} (hauthor : ∀ l', l ≠ .author l')
    (hgossip : ∀ k now, l ≠ .deliver (.gossip k) now) (hord : Orderly K master s (.world l)) {world : World}
    (hworld : s.world.step K J you l = some world) : InStep K master { s with world } := by
  have hhonest := World.honest_step hK h.honest hworld
  cases l with
  | author l => exact absurd rfl (hauthor l)
  | deliver d now =>
    exact inStep_deliver hK h hworld (fun k hd => hgossip k now (congrArg (World.Label.deliver · now) hd)) hord
  | tables st =>
    obtain rfl := Option.some.inj hworld
    exact { h with honest := hhonest }
  | ownFeed up =>
    obtain rfl := Option.some.inj hworld
    exact { h with honest := hhonest }
  | broadcast msg =>
    have hcontent : isContent msg = false := hord
    obtain ⟨hfollower, htold, hstays⟩ := World.follower_send (w := s.world) [msg]
    -- a rotation is broadcast by its command, never by itself
    have hrotation : ∀ r, msg ≠ .signingKeyRotation r := by
      rintro r rfl
      have hnone : (none : Option World) = some world := hworld
      cases hnone
    obtain rfl : world = s.world.send [msg] := by
      cases msg with
      | signingKeyRotation r => exact absurd rfl (hrotation r)
      | newPost | deletePost | newInteraction | deleteInteraction | profileUpdate | linkedDevices | other =>
        exact (Option.some.inj hworld).symm
    refine h.unwritten hhonest rfl htold hfollower (Or.inr ⟨msg, rfl, hcontent, ?_⟩) ?_
    · rintro ⟨r, hr⟩
      exact absurd hr (hrotation r)
    · unfold System.authorRows World.masterPubkey
      rw [hstays]
  | follower profiles socialGraph content =>
    obtain rfl := Option.some.inj hworld
    have hrows : content.ownedBy s.world.masterPubkey = s.followerRows := hord
    refine ⟨hhonest, h.handled, h.unsent, h.signed, ?_⟩
    show Replica.Tracks effect s.history s.pending s.authorRows (content.ownedBy s.world.masterPubkey)
    rw [hrows]
    exact h.tracks

theorem inStep_step (hK : K.Lawful) (h : InStep K master s) {l : Label} (hord : Orderly K master s l)
    (hstep : step K J you s l = some t) : InStep K master t := by
  cases l with
  | unrepost row => exact inStep_unrepost h hord hstep
  | broadcast i ok => exact inStep_broadcast hK h hord hstep
  | world l =>
    by_cases hauthor : ∃ l', l = .author l'
    · obtain ⟨l', rfl⟩ := hauthor
      exact inStep_author hK h hord hstep
    by_cases hgossip : ∃ k now, l = .deliver (.gossip k) now
    · obtain ⟨k, now, rfl⟩ := hgossip
      exact inStep_gossip hK h hord hstep
    have hnotAuthor : ∀ l', l ≠ .author l' := not_exists.mp hauthor
    have hnotGossip : ∀ k now, l ≠ .deliver (.gossip k) now := fun k now hl => hgossip ⟨k, now, hl⟩
    rw [step_world hnotAuthor hnotGossip] at hstep
    obtain ⟨world, hworld, rfl⟩ := Option.map_eq_some_iff.mp hstep
    exact inStep_world hK h hnotAuthor hnotGossip hord hworld

theorem honest_run (hK : K.Lawful) {u w : World} (h : u.Honest K master) {before : List World.Label}
    (hbefore : Machine.exec (World.step K J you) u before = some w) : w.Honest K master := by
  have hany : Machine.Along (World.step K J you) (fun _ _ => True) u before :=
    Machine.Along.of_forall fun _ _ => trivial
  exact Machine.exec_invariant (fun _ _ _ hu _ hv => World.honest_step hK hu hv) h hany hbefore

end Invariant

/-- Whatever the author and the follower have done before, if they have the same rows of the author: in every
orderly run the follower's copy is at each moment what the author's rows were at some time, and once nothing
is under way it is what they are. -/
theorem copy_of_feed {K : KeyCrates} (hK : K.Lawful) (J : SerdeJson) (you : String) (master : SecretKey)
    (indexFile : Option UInt32) (dmPubkey : String) (dmKeyIndex : UInt32) (now : UInt64)
    (devices : List DeviceEntry) (tables : Storage) (before : List World.Label) (w : World)
    (hbefore : Machine.exec (World.step K J you) (.start (buildIdentity K master indexFile dmPubkey dmKeyIndex now)
      indexFile devices tables) before = some w)
    (hsame : w.follower.content.ownedBy w.masterPubkey = w.author.content.ownedBy w.masterPubkey)
    (run : List Label) (t : System) (horderly : Machine.Along (step K J you) (Orderly K master) (.start w) run)
    (hrun : Machine.exec (step K J you) (.start w) run = some t) :
    t.followerRows ∈ t.history ∧ (t.pending = [] → t.followerRows = t.authorRows) := by
  have hhonest : w.Honest K master :=
    honest_run hK (World.honest_start indexFile dmPubkey dmKeyIndex now devices tables) hbefore
  have hnone : (System.start w).pending = [] := by
    unfold System.pending System.start
    rw [List.drop_length]
    rfl
  have hcopy : (System.start w).followerRows = (System.start w).authorRows := hsame
  have hstart : InStep K master (.start w) := by
    refine ⟨hhonest, Nat.le_refl _, fun m hm => (nomatch hm), ?_, ?_⟩
    · rw [hnone]
      trivial
    · rw [hnone, hcopy]
      exact Replica.Tracks.start _
  have ht : InStep K master t :=
    Machine.exec_invariant (fun _ _ _ hu hok hv => inStep_step hK hu hok hv) hstart horderly hrun
  refine ⟨ht.tracks.seen, fun hdone => ?_⟩
  have htracks := ht.tracks
  rw [hdone] at htracks
  exact htracks.caught_up

section Examples

def askedRun : List World.Label := [.deliver (.identityResponse [] none) 1, .ownFeed true]

def repostedRun : List Label :=
  [.world (.author (.createPost (Draft.repost "post" "friend") "p" 2 2)), .world (.author (.task 0 true 2)),
    .broadcast 0 true, .world (.deliver (.gossip 0) 3)]

theorem orderly_repostedRun {w : World} (hw : Machine.exec (World.step plainKeys compactJson "bob") listedAuthor
    askedRun = some w) : Machine.Along (step plainKeys compactJson "bob") (Orderly plainKeys zeroSecret) (.start w)
      repostedRun := by
  obtain rfl := Option.some.inj hw
  have hpost : validatePost 2 (listedAuthor.author.draftPost (Draft.repost "post" "friend") "p" 2) = .ok () := by
    decide +kernel
  refine ⟨⟨fun msg hmsg => (nomatch hmsg), ?_, ?_⟩, fun s hs => ?_⟩
  · rintro ⟨r, hr⟩
    exact nomatch hr
  · rintro ⟨now, hnow⟩
    exact nomatch hnow
  obtain rfl := Option.some.inj hs
  refine ⟨⟨fun msg hmsg => ?_, ?_, ?_⟩, fun s hs => ?_⟩
  · obtain rfl := List.mem_singleton.mp hmsg
    have hme : Device.IdentityOf plainKeys zeroSecret listedAuthor.author.identity :=
      Device.identityOf_buildIdentity none "" 0 0
    exact ⟨0, rfl, Device.signedPost_of_validate hme rfl hpost⟩
  · rintro ⟨r, hr⟩
    exact nomatch hr
  · rintro ⟨now, hnow⟩
    exact nomatch hnow
  obtain rfl := Option.some.inj hs
  refine ⟨⟨rfl, rfl, rfl⟩, fun s hs => ?_⟩
  obtain rfl := Option.some.inj hs
  refine ⟨⟨rfl, fun msg hmsg => ?_⟩, fun s hs => trivial⟩
  obtain rfl := Option.some.inj hmsg
  show _ ≤ _
  decide

theorem exec_repostedRun {w : World} (hw : Machine.exec (World.step plainKeys compactJson "bob") listedAuthor
    askedRun = some w) : ∃ t, Machine.exec (step plainKeys compactJson "bob") (.start w) repostedRun = some t ∧
      t.pending = [] ∧ t.authorRows.posts.map Post.id = ["p"] := by
  obtain rfl := Option.some.inj hw
  refine ⟨_, rfl, rfl, ?_⟩
  decide +kernel

/-- What Alice reposts, Bob has. -/
theorem copy_of_feed_reposted : ∃ w t, Machine.exec (World.step plainKeys compactJson "bob") listedAuthor
      askedRun = some w ∧ Machine.exec (step plainKeys compactJson "bob") (.start w) repostedRun = some t ∧
      t.followerRows = t.authorRows ∧ t.followerRows.posts.map Post.id = ["p"] := by
  obtain ⟨w, hw, hsame⟩ : ∃ w, Machine.exec (World.step plainKeys compactJson "bob") listedAuthor askedRun = some w ∧
      w.follower.content.ownedBy w.masterPubkey = w.author.content.ownedBy w.masterPubkey := by
    refine ⟨_, rfl, congrArg _ ?_⟩
    exact content_receive_known trivial
  obtain ⟨t, ht, hdone, hposts⟩ := exec_repostedRun hw
  have hcopy := (copy_of_feed plainKeys_lawful compactJson "bob" zeroSecret none "" 0 0 [] listedTables askedRun w hw
    hsame repostedRun t (orderly_repostedRun hw) ht).2 hdone
  refine ⟨w, t, hw, ht, hcopy, ?_⟩
  rw [hcopy]
  exact hposts

end Examples

end FeedCopy
end Author
end Proscenium.Client
