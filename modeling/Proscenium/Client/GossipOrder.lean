import Proscenium.Lib.Unordered
import Proscenium.Client.ModerationDefs
import Proscenium.Client.SyncDeletions

/-! The content messages on the topic of a followed author. Gossip keeps no
order and may deliver twice, and the handlers keep no record of what was
deleted: the deletion of a post that is not there yet does nothing. -/

namespace Proscenium.Client

open Proscenium.Types

/-- The messages that change the content of a topic's author. -/
inductive FeedMessage where
  | newPost (p : Post)
  | deletePost (id author signature : String)
  | newInteraction (i : Interaction)
  | deleteInteraction (id author signature : String)
  deriving DecidableEq, Repr

section Handlers

variable (S : SignatureCrates) (fails : PeerFails) (pk : String) (m : Moderation) (now : UInt64)

def handleNewPost (p : Post) (st : Storage) (c : ContentStore) : ContentStore :=
  if p.author ≠ pk then c
  else if m.isHidden pk then c
  else (processIncomingPost S fails now p st c).2

def handleNewInteraction (i : Interaction) (st : Storage) (c : ContentStore) : ContentStore :=
  if i.author ≠ pk then c
  else if m.isHidden pk then c
  else processIncomingInteraction S fails now i pk st c

def handleFollowMessage (st : Storage) (c : ContentStore) : FeedMessage → ContentStore
  | .newPost p => handleNewPost S fails pk m now p st c
  | .deletePost id author signature => handleDeletePost S fails pk id author signature st c
  | .newInteraction i => handleNewInteraction S fails pk m now i st c
  | .deleteInteraction id author signature =>
    handleDeleteInteraction S fails pk id author signature st c

end Handlers

namespace FeedMessage

/-- At this time the message is not dated ahead by more than the tolerance. -/
def TimelyAt (now : UInt64) : FeedMessage → Prop
  | .newPost p => p.timestamp.toNat ≤ now.toNat + maxTimestampDriftMs
  | .newInteraction i => i.timestamp.toNat ≤ now.toNat + maxTimestampDriftMs
  | _ => True

def madeAt : FeedMessage → UInt64
  | .newPost p => p.timestamp
  | .newInteraction i => i.timestamp
  | _ => 0

theorem timelyAt_madeAt (msg : FeedMessage) : msg.TimelyAt msg.madeAt := by
  cases msg with
  | newPost p => exact Nat.le_add_right _ _
  | newInteraction i => exact Nat.le_add_right _ _
  | deletePost _ _ _ => trivial
  | deleteInteraction _ _ _ => trivial

end FeedMessage

def ContentStore.shadows (pk id : String) (c : ContentStore) : Bool :=
  match c.getPostById id with
  | some post => post.author ≠ pk
  | none => false

namespace GossipOrder

open Feed Unordered

variable (S : SignatureCrates) (pk : String) (m : Moderation) (st : Storage)

/-- What a follower makes of messages that arrive in this order, each at a time of its own. -/
def receive (deliveries : List (FeedMessage × UInt64)) (c : ContentStore) : ContentStore :=
  deliveries.foldl (fun c d => handleFollowMessage S noFails pk m d.2 st c d.1) c

/-- Exactly the messages of a set arrive, each at least once and none before its time. -/
structure Received (M : List FeedMessage) (deliveries : List (FeedMessage × UInt64)) : Prop where
  covers : Covers M (deliveries.map Prod.fst)
  timely : ∀ d ∈ deliveries, d.1.TimelyAt d.2

/-- Whatever the order, the follower has the same content of the author. -/
def OrderIndependent (M : List FeedMessage) (c : ContentStore) : Prop :=
  ∀ ds ds', Received M ds → Received M ds' →
    (∀ p, p ∈ (receive S pk m st ds c).postsBy pk ↔ p ∈ (receive S pk m st ds' c).postsBy pk) ∧
      ∀ i, i ∈ (receive S pk m st ds c).interactionsBy pk ↔
        i ∈ (receive S pk m st ds' c).interactionsBy pk

/-- What a message does to the author's posts. -/
def postEffect (c : ContentStore) : FeedMessage → Option (Change Post String)
  | .newPost p =>
    if p.author = pk ∧ m.isHidden pk = false ∧ acceptsPost S noFails p.timestamp p st then
      some (.insert p)
    else none
  | .deletePost id author signature =>
    if author = pk ∧ deletionSigned S noFails (verifyDeletePostSignature S id author signature) pk st ∧
        c.shadows pk id = false then
      some (.remove id)
    else none
  | _ => none

def interactionEffect : FeedMessage → Option (Change Interaction String)
  | .newInteraction i =>
    if i.author = pk ∧ m.isHidden pk = false ∧ acceptsInteraction S noFails i.timestamp i pk st then
      some (.insert i)
    else none
  | .deleteInteraction id author signature =>
    if author = pk ∧
        deletionSigned S noFails (verifyDeleteInteractionSignature S id author signature) pk st then
      some (.remove id)
    else none
  | _ => none

/-- No item that could be stored is deleted by a message of the set, is in the way of another one,
or finds something in its way that a message of the set deletes. -/
structure Commuting (M : List FeedMessage) (c : ContentStore) : Prop where
  posts : Independent ContentStore.postClash Post.id (postEffect S pk m st c) M (c.postsBy pk)
  interactions : Independent ContentStore.interactionClash Interaction.id
    (interactionEffect S pk m st) M (c.interactionsBy pk)

variable {S pk m st} {c : ContentStore} {now : UInt64}

section Steps

theorem acceptsPost_timely {p : Post} (h : (FeedMessage.newPost p).TimelyAt now) :
    acceptsPost S noFails now p st = acceptsPost S noFails p.timestamp p st := by
  have hvalid : ∀ t : UInt64, p.timestamp.toNat ≤ t.toNat + maxTimestampDriftMs →
      validatePost t p = if p.content.utf8ByteSize > maxPostContentLen then
        .error ("post content too long: " ++ toString p.content.utf8ByteSize ++ " bytes (max " ++
          toString maxPostContentLen ++ ")")
      else if p.media.length > maxMediaCount then
        .error ("too many media attachments: " ++ toString p.media.length ++ " (max " ++
          toString maxMediaCount ++ ")")
      else .ok () := by
    intro t ht
    unfold validatePost
    rw [if_neg (Nat.not_lt.mpr ht)]
  unfold acceptsPost
  rw [hvalid now h, hvalid p.timestamp (Nat.le_add_right _ _)]

theorem acceptsInteraction_timely {i : Interaction} (h : (FeedMessage.newInteraction i).TimelyAt now) :
    acceptsInteraction S noFails now i pk st = acceptsInteraction S noFails i.timestamp i pk st := by
  have hvalid : ∀ t : UInt64, i.timestamp.toNat ≤ t.toNat + maxTimestampDriftMs →
      validateInteraction t i = .ok () := fun t ht => if_neg (Nat.not_lt.mpr ht)
  unfold acceptsInteraction
  rw [hvalid now h, hvalid i.timestamp (Nat.le_add_right _ _)]

theorem filter_insertOrIgnore {ρ : Type*} {clash mine : ρ → Bool} {new : ρ} {t : List ρ}
    (hnew : mine new = true) (hclash : ∀ r, clash r = true → mine r = true) :
    (Table.insertOrIgnore clash new t).filter mine = Table.insertOrIgnore clash new (t.filter mine) := by
  have hany : (t.filter mine).any clash = t.any clash := by
    rw [List.any_filter]
    refine congrArg t.any (funext fun r => ?_)
    cases hr : clash r with
    | true => rw [hclash r hr]; rfl
    | false => exact Bool.and_false _
  unfold Table.insertOrIgnore
  rw [hany]
  split
  · rfl
  · rw [List.filter_append, List.filter_singleton, hnew]
    rfl

theorem filter_deleteWhere {ρ : Type*} {gone mine : ρ → Bool} {t : List ρ} :
    (Table.deleteWhere gone t).filter mine = (t.filter mine).filter fun r => !gone r := by
  unfold Table.deleteWhere
  exact List.filter_comm ..

theorem shadows_insertPost {p : Post} {id : String} (hp : p.author = pk) :
    (c.insertPost p).shadows pk id = c.shadows pk id := by
  unfold ContentStore.insertPost Table.insertOrIgnore
  split
  · rfl
  · unfold ContentStore.shadows ContentStore.getPostById
    dsimp only
    rw [List.find?_append]
    cases hfound : c.posts.find? fun q => q.id = id with
    | some q => rfl
    | none =>
      by_cases hid : p.id = id
      · simp [hid, hp]
      · simp [hid]

theorem shadows_deletePost {id id' : String} (h : c.shadows pk id' = false) :
    (c.deletePost id').shadows pk id = c.shadows pk id := by
  have hfind : (c.deletePost id').getPostById id = if id = id' then none else c.getPostById id := by
    unfold ContentStore.deletePost ContentStore.getPostById Table.deleteWhere
    dsimp only
    rw [List.find?_filter]
    split
    next hid =>
      refine List.find?_eq_none.mpr fun q _ => ?_
      simp [hid]
    next hid =>
      refine congrArg (fun f => c.posts.find? f) (funext fun q => ?_)
      by_cases hq : q.id = id
      · simp [hq, hid]
      · simp [hq]
  by_cases hid : id = id'
  · unfold ContentStore.shadows at h ⊢
    rw [hfind, if_pos hid, hid, h]
  · unfold ContentStore.shadows
    rw [hfind, if_neg hid]

theorem handleDeletePost_eq {id author signature : String} :
    handleDeletePost S noFails pk id author signature st c =
      if author = pk ∧ deletionSigned S noFails (verifyDeletePostSignature S id author signature) pk st ∧
          c.shadows pk id = false then
        c.deletePost id
      else c := by
  unfold handleDeletePost ContentStore.shadows
  by_cases hsigned : author = pk ∧
      deletionSigned S noFails (verifyDeletePostSignature S id author signature) pk st
  · rw [if_pos hsigned]
    show (match c.getPostById id with
      | some post => if post.author = pk ∧ noFails .deletePost = false then c.deletePost id else c
      | none => c) = _
    cases hfound : c.getPostById id with
    | none =>
      have hkeep : ∀ q ∈ c.posts, (!decide (q.id = id)) = true := by
        intro q hq
        simpa using List.find?_eq_none.mp hfound q hq
      rw [if_pos ⟨hsigned.1, hsigned.2, rfl⟩]
      unfold ContentStore.deletePost Table.deleteWhere
      rw [List.filter_eq_self.mpr hkeep]
    | some post =>
      by_cases hpost : post.author = pk
      · have hhere : decide (post.author ≠ pk) = false := by simp [hpost]
        rw [if_pos ⟨hsigned.1, hsigned.2, hhere⟩]
        exact if_pos ⟨hpost, rfl⟩
      · simp [hpost]
  · rw [if_neg hsigned, if_neg fun h => hsigned ⟨h.1, h.2.1⟩]

/-- What a message makes of the author's posts, and which ids are another author's stays. -/
theorem handle_posts (msg : FeedMessage) (h : msg.TimelyAt now) :
    (handleFollowMessage S noFails pk m now st c msg).postsBy pk =
        apply ContentStore.postClash Post.id (postEffect S pk m st c) (c.postsBy pk) msg ∧
      ∀ id, (handleFollowMessage S noFails pk m now st c msg).shadows pk id = c.shadows pk id := by
  cases msg with
  | newPost p =>
    have hhandle : handleFollowMessage S noFails pk m now st c (.newPost p) =
        if p.author = pk ∧ m.isHidden pk = false ∧ acceptsPost S noFails p.timestamp p st then
          c.insertPost p
        else c := by
      show handleNewPost S noFails pk m now p st c = _
      unfold handleNewPost processIncomingPost
      rw [acceptsPost_timely h]
      by_cases hp : p.author = pk
      · cases hm : m.isHidden pk with
        | true => simp [hp]
        | false =>
          cases ha : acceptsPost S noFails p.timestamp p st with
          | true => simp [hp, noFails]
          | false => simp [hp]
      · simp [hp]
    rw [hhandle]
    unfold apply postEffect
    dsimp only
    split
    next hins =>
      refine ⟨?_, fun id => shadows_insertPost hins.1⟩
      refine filter_insertOrIgnore (decide_eq_true hins.1) fun r hr => ?_
      exact decide_eq_true ((of_decide_eq_true hr).1.trans hins.1)
    next => exact ⟨rfl, fun _ => rfl⟩
  | deletePost id author signature =>
    show (handleDeletePost S noFails pk id author signature st c).postsBy pk = _ ∧
      ∀ id', (handleDeletePost S noFails pk id author signature st c).shadows pk id' = _
    rw [handleDeletePost_eq]
    unfold apply postEffect
    dsimp only
    split
    next hrem =>
      refine ⟨?_, fun id' => shadows_deletePost hrem.2.2⟩
      refine filter_deleteWhere.trans ?_
      simp [ContentStore.postsBy]
    next => exact ⟨rfl, fun _ => rfl⟩
  | newInteraction i =>
    show (handleNewInteraction S noFails pk m now i st c).postsBy pk = _ ∧
      ∀ id', (handleNewInteraction S noFails pk m now i st c).shadows pk id' = _
    have hposts : (handleNewInteraction S noFails pk m now i st c).posts = c.posts := by
      unfold handleNewInteraction processIncomingInteraction
      split_ifs <;> rfl
    unfold ContentStore.shadows ContentStore.getPostById ContentStore.postsBy
    rw [hposts]
    exact ⟨rfl, fun _ => rfl⟩
  | deleteInteraction id author signature =>
    show (handleDeleteInteraction S noFails pk id author signature st c).postsBy pk = _ ∧
      ∀ id', (handleDeleteInteraction S noFails pk id author signature st c).shadows pk id' = _
    have hposts : (handleDeleteInteraction S noFails pk id author signature st c).posts = c.posts := by
      unfold handleDeleteInteraction
      split <;> rfl
    unfold ContentStore.shadows ContentStore.getPostById ContentStore.postsBy
    rw [hposts]
    exact ⟨rfl, fun _ => rfl⟩

theorem handle_interactions (msg : FeedMessage) (h : msg.TimelyAt now) :
    (handleFollowMessage S noFails pk m now st c msg).interactionsBy pk =
      apply ContentStore.interactionClash Interaction.id (interactionEffect S pk m st)
        (c.interactionsBy pk) msg := by
  cases msg with
  | newPost p =>
    show (handleNewPost S noFails pk m now p st c).interactionsBy pk = c.interactionsBy pk
    unfold handleNewPost processIncomingPost
    split_ifs <;> rfl
  | deletePost id author signature =>
    show (handleDeletePost S noFails pk id author signature st c).interactionsBy pk = c.interactionsBy pk
    unfold handleDeletePost
    split
    · split
      · split <;> rfl
      · rfl
    · rfl
  | newInteraction i =>
    have hhandle : handleFollowMessage S noFails pk m now st c (.newInteraction i) =
        if i.author = pk ∧ m.isHidden pk = false ∧ acceptsInteraction S noFails i.timestamp i pk st then
          c.saveInteraction i
        else c := by
      show handleNewInteraction S noFails pk m now i st c = _
      unfold handleNewInteraction processIncomingInteraction
      rw [acceptsInteraction_timely h]
      by_cases hi : i.author = pk
      · cases hm : m.isHidden pk with
        | true => simp [hi]
        | false =>
          cases ha : acceptsInteraction S noFails i.timestamp i pk st with
          | true => simp [hi, noFails]
          | false => simp [hi]
      · simp [hi]
    rw [hhandle]
    unfold apply interactionEffect
    dsimp only
    split
    next hins =>
      refine filter_insertOrIgnore (decide_eq_true hins.1) fun r hr => ?_
      exact decide_eq_true ((of_decide_eq_true hr).1.trans hins.1)
    next => rfl
  | deleteInteraction id author signature =>
    show (handleDeleteInteraction S noFails pk id author signature st c).interactionsBy pk = _
    unfold handleDeleteInteraction apply interactionEffect
    dsimp only
    by_cases hsigned : author = pk ∧
        deletionSigned S noFails (verifyDeleteInteractionSignature S id author signature) pk st
    · rw [if_pos ⟨hsigned.1, hsigned.2, rfl⟩, if_pos hsigned]
      refine filter_deleteWhere.trans ?_
      refine List.filter_congr fun i hi => ?_
      have hauthor : i.author = author := (ContentStore.mem_interactionsBy.mp hi).2.trans hsigned.1.symm
      simp [hauthor]
    · rw [if_neg fun h => hsigned ⟨h.1, h.2.1⟩, if_neg hsigned]

end Steps

section Runs

variable {M : List FeedMessage}

theorem shadows_postEffect {c' : ContentStore} (h : ∀ id, c'.shadows pk id = c.shadows pk id) :
    postEffect S pk m st c' = postEffect S pk m st c := by
  funext msg
  unfold postEffect
  simp only [h]

theorem postsBy_receive {ds : List (FeedMessage × UInt64)} (h : ∀ d ∈ ds, d.1.TimelyAt d.2) :
    (receive S pk m st ds c).postsBy pk = process ContentStore.postClash Post.id
      (postEffect S pk m st c) (ds.map Prod.fst) (c.postsBy pk) := by
  induction ds generalizing c with
  | nil => rfl
  | cons d ds ih =>
    obtain ⟨hfirst, hrest⟩ := List.forall_mem_cons.mp h
    obtain ⟨hposts, hshadows⟩ : _ ∧ ∀ id,
        (handleFollowMessage S noFails pk m d.2 st c d.1).shadows pk id = c.shadows pk id :=
      handle_posts d.1 hfirst
    have htail := ih (c := handleFollowMessage S noFails pk m d.2 st c d.1) hrest
    rw [shadows_postEffect hshadows, hposts] at htail
    exact htail

theorem interactionsBy_receive {ds : List (FeedMessage × UInt64)} (h : ∀ d ∈ ds, d.1.TimelyAt d.2) :
    (receive S pk m st ds c).interactionsBy pk = process ContentStore.interactionClash Interaction.id
      (interactionEffect S pk m st) (ds.map Prod.fst) (c.interactionsBy pk) := by
  induction ds generalizing c with
  | nil => rfl
  | cons d ds ih =>
    obtain ⟨hfirst, hrest⟩ := List.forall_mem_cons.mp h
    have htail := ih (c := handleFollowMessage S noFails pk m d.2 st c d.1) hrest
    rw [handle_interactions d.1 hfirst] at htail
    exact htail

theorem map_fst_madeAt (order : List FeedMessage) :
    (order.map fun msg => (msg, msg.madeAt)).map Prod.fst = order := by
  rw [List.map_map]
  exact List.map_id order

theorem received_madeAt {order : List FeedMessage} (h : Covers M order) :
    Received M (order.map fun msg => (msg, msg.madeAt)) where
  covers := (map_fst_madeAt order).symm ▸ h
  timely := by
    intro d hd
    obtain ⟨msg, -, rfl⟩ := List.mem_map.mp hd
    exact msg.timelyAt_madeAt

theorem postClash_self (p : Post) : ContentStore.postClash p p = true := decide_eq_true ⟨rfl, rfl⟩

theorem interactionClash_self (i : Interaction) : ContentStore.interactionClash i i = true :=
  decide_eq_true ⟨rfl, Or.inl rfl⟩

theorem OrderIndependent.posts (h : OrderIndependent S pk m st M c) :
    Independent ContentStore.postClash Post.id (postEffect S pk m st c) M (c.postsBy pk) := by
  apply (order_independent_iff postClash_self).mp
  intro order order' hcov hcov' p
  have hds := received_madeAt hcov
  have hds' := received_madeAt hcov'
  have hsame := (h _ _ hds hds').1 p
  rwa [postsBy_receive hds.timely, postsBy_receive hds'.timely, map_fst_madeAt, map_fst_madeAt] at hsame

theorem OrderIndependent.interactions (h : OrderIndependent S pk m st M c) :
    Independent ContentStore.interactionClash Interaction.id (interactionEffect S pk m st) M
      (c.interactionsBy pk) := by
  apply (order_independent_iff interactionClash_self).mp
  intro order order' hcov hcov' i
  have hds := received_madeAt hcov
  have hds' := received_madeAt hcov'
  have hsame := (h _ _ hds hds').2 i
  rwa [interactionsBy_receive hds.timely, interactionsBy_receive hds'.timely, map_fst_madeAt,
    map_fst_madeAt] at hsame

/-- The content a follower has of an author after a set of messages, whatever their order and their
repetitions, is the same exactly if the messages commute: if nothing that could be stored is deleted
by one of them, or is in the way of something else. -/
theorem order_independent_iff_commuting (S : SignatureCrates) (pk : String) (m : Moderation)
    (st : Storage) (M : List FeedMessage) (c : ContentStore) :
    OrderIndependent S pk m st M c ↔ Commuting S pk m st M c := by
  constructor
  · exact fun h => ⟨h.posts, h.interactions⟩
  · intro h ds ds' hds hds'
    rw [postsBy_receive hds.timely, postsBy_receive hds'.timely, interactionsBy_receive hds.timely,
      interactionsBy_receive hds'.timely]
    have hposts := (order_independent_iff postClash_self).mpr h.posts
    have hinteractions := (order_independent_iff interactionClash_self).mpr h.interactions
    exact ⟨hposts _ _ hds.covers hds'.covers, hinteractions _ _ hds.covers hds'.covers⟩

end Runs

section Examples

def deleteSignature : String := hexEncode (checksumSign "alice" (deletePostSigningBytes "b" "alice"))

def postAndDelete (σ δ : String) : List FeedMessage :=
  [.newPost (signedNote σ), .deletePost "b" "alice" δ]

theorem postEffect_signedNote (c : ContentStore) :
    postEffect checksumCrates "alice" Moderation.empty ⟨[], [], []⟩ c
      (.newPost (signedNote aliceSignature)) = some (.insert (signedNote aliceSignature)) := by
  have htimely : ∀ σ, (FeedMessage.newPost (signedNote σ)).TimelyAt 9 := by
    intro σ
    show (2 : UInt64).toNat ≤ (9 : UInt64).toNat + maxTimestampDriftMs
    decide
  have haccepts := acceptsPost_signedNote
  rw [acceptsPost_timely (htimely aliceSignature)] at haccepts
  exact if_pos ⟨rfl, rfl, haccepts⟩

theorem deletionSigned_deleteSignature : deletionSigned checksumCrates noFails
    (verifyDeletePostSignature checksumCrates "b" "alice" deleteSignature) "alice" ⟨[], [], []⟩ = true := by
  have hsigner : resolveSigner checksumCrates noFails.table "alice" ⟨[], [], []⟩ =
      some (checksumKey "alice") := rfl
  unfold deletionSigned
  rw [hsigner]
  exact congrArg Except.toBool (verifySigned_checksum "delete post" "alice" _)

theorem postEffect_delete {c : ContentStore} (h : c.shadows "alice" "b" = false) :
    postEffect checksumCrates "alice" Moderation.empty ⟨[], [], []⟩ c
      (.deletePost "b" "alice" deleteSignature) = some (.remove "b") :=
  if_pos ⟨rfl, deletionSigned_deleteSignature, h⟩

/-- A deletion that overtakes its post leaves the post there. -/
theorem not_order_independent_delete : ¬ OrderIndependent checksumCrates "alice" Moderation.empty
    ⟨[], [], []⟩ (postAndDelete aliceSignature deleteSignature) ⟨[], []⟩ := by
  intro h
  have hfree : Free ContentStore.postClash Post.id
      (postEffect checksumCrates "alice" Moderation.empty ⟨[], [], []⟩ ⟨[], []⟩)
      (postAndDelete aliceSignature deleteSignature) [] (signedNote aliceSignature) :=
    ⟨⟨_, List.mem_cons_self, postEffect_signedNote _⟩, fun _ hq => nomatch hq⟩
  have hkept := h.posts.kept (signedNote aliceSignature) hfree
  exact hkept ⟨_, List.mem_cons_of_mem _ (List.mem_singleton.mpr rfl), postEffect_delete rfl⟩

end Examples
end GossipOrder
end Proscenium.Client
