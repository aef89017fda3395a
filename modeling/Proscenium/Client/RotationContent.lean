import Proscenium.Client.RotationDefs
import Proscenium.Server.IngestionDefs
import Proscenium.Types.ChecksumScheme

/-! Content and rotation. Everything an author stores was signed with the key of
some index, and a peer or a server that has cached the author's delegation
verifies with the key of the current index only. So of the stored content the
part since the last rotation is accepted, and what is older is not. -/

namespace Proscenium.Client.Author

open Proscenium.Types

/-- What is relied on of the crates: texts of keys and signatures are read back, a signature
verifies under the key of its signer and under no other, and different indices give different
keys. -/
structure KeyCrates.Lawful (K : KeyCrates) : Prop where
  parse_keyText : ∀ k, K.parsePublicKey (K.keyText k) = .ok k
  size_hexEncode : ∀ bytes, (K.hexEncode bytes).utf8ByteSize = 2 * bytes.length
  hexDecode_hexEncode : ∀ bytes, K.hexDecode (K.hexEncode bytes) = .ok bytes
  verify_sign : ∀ secret msg, K.verify (K.publicKey secret) msg (K.sign secret msg) = true
  verify_only : ∀ key secret msg, K.verify key msg (K.sign secret msg) = true →
    key = K.publicKey secret
  publicKey_derive : ∀ master i j, K.publicKey (deriveSigningKey K master i) =
    K.publicKey (deriveSigningKey K master j) → i = j

section Signatures

variable {K : KeyCrates}

theorem hexToSignature_signHex (hK : K.Lawful) (secret : SecretKey) (bytes : Bytes) :
    hexToSignature K.toSignatureCrates (signHex K secret bytes) = .ok (K.sign secret bytes) := by
  have hsize : (signHex K secret bytes).utf8ByteSize = 128 := by
    rw [signHex, hK.size_hexEncode, Vector.length_toList]
  have hdecode : K.hexDecode (signHex K secret bytes) = .ok (K.sign secret bytes).toList :=
    hK.hexDecode_hexEncode _
  unfold hexToSignature
  rw [hsize, if_neg (by decide), hdecode]
  simp [Vector.toList]

theorem verifySigned_derived (hK : K.Lawful) {what : String} {bytes : Bytes} {master : SecretKey}
    {i j : UInt32} :
    verifySigned K.toSignatureCrates what bytes (signHex K (deriveSigningKey K master i) bytes)
      (K.publicKey (deriveSigningKey K master j)) = .ok () ↔ i = j := by
  rw [verifySigned_eq_ok]
  simp only [hexToSignature_signHex hK, Except.ok.injEq, exists_eq_left']
  constructor
  · intro hver
    exact (hK.publicKey_derive master j i (hK.verify_only _ _ _ hver)).symm
  · rintro rfl
    exact hK.verify_sign _ _

end Signatures

/-- A post that passed its checks when it was written, signed with the key of index `i`. -/
structure SignedPost (K : KeyCrates) (master : SecretKey) (p : Post) (i : UInt32) : Prop where
  author : p.author = publicText K master
  signature : p.signature = signHex K (deriveSigningKey K master i) (postSigningBytes p)
  content : p.content.utf8ByteSize ≤ maxPostContentLen
  media : p.media.length ≤ maxMediaCount

structure SignedInteraction (K : KeyCrates) (master : SecretKey) (x : Interaction) (i : UInt32) :
    Prop where
  author : x.author = publicText K master
  signature : x.signature = signHex K (deriveSigningKey K master i) (interactionSigningBytes x)

namespace Device

variable (K : KeyCrates) (master : SecretKey)

/-- The identity is the one of its master key and index. -/
structure IdentityOf (me : Identity) : Prop where
  masterSecret : me.masterSecret = master
  masterPubkey : me.masterPubkey = publicText K master
  signingSecret : me.signingSecret = deriveSigningKey K master me.signingKeyIndex
  delegated : me.delegation.signingPubkey = publicText K me.signingSecret

structure PlanOf (plan : Plan) : Prop where
  newSecret : plan.newSecret = deriveSigningKey K master plan.newIndex
  delegated : plan.newDelegation.signingPubkey = publicText K plan.newSecret

structure Inv (w : Device) : Prop where
  identity : IdentityOf K master w.identity
  plans : ∀ plan phase, Task.rotate plan phase ∈ w.tasks → PlanOf K master plan
  signedPosts : ∀ p i, (p, i) ∈ w.signedPosts → SignedPost K master p i
  signedInteractions : ∀ x i, (x, i) ∈ w.signedInteractions → SignedInteraction K master x i
  posts : ∀ p ∈ w.content.posts, ∃ i, (p, i) ∈ w.signedPosts
  interactions : ∀ x ∈ w.content.interactions, ∃ i, (x, i) ∈ w.signedInteractions
  insertPost : ∀ p, Task.insertPost p ∈ w.tasks → ∃ i, (p, i) ∈ w.signedPosts
  saveInteraction : ∀ x, Task.saveInteraction x ∈ w.tasks → ∃ i, (x, i) ∈ w.signedInteractions

variable {K : KeyCrates} {master : SecretKey}

theorem identityOf_buildIdentity (indexFile : Option UInt32) (dmPubkey : String)
    (dmKeyIndex : UInt32) (now : UInt64) :
    IdentityOf K master (buildIdentity K master indexFile dmPubkey dmKeyIndex now) :=
  ⟨rfl, rfl, rfl, rfl⟩

theorem inv_start (indexFile : Option UInt32) (dmPubkey : String) (dmKeyIndex : UInt32)
    (now : UInt64) (devices : List DeviceEntry) :
    Inv K master (start (buildIdentity K master indexFile dmPubkey dmKeyIndex now) indexFile
      devices) where
  identity := identityOf_buildIdentity indexFile dmPubkey dmKeyIndex now
  plans _ _ h := nomatch h
  signedPosts _ _ h := nomatch h
  signedInteractions _ _ h := nomatch h
  posts _ h := nomatch h
  interactions _ h := nomatch h
  insertPost _ h := nomatch h
  saveInteraction _ h := nomatch h

theorem signedPost_of_validate {me : Identity} (hme : IdentityOf K master me) {p : Post}
    (hauthor : p.author = me.masterPubkey) {now : UInt64} (hvalid : validatePost now p = .ok ()) :
    SignedPost K master (signPost K me.signingSecret p) me.signingKeyIndex := by
  unfold validatePost at hvalid
  simp only [Checks.reject_eq_ok, Nat.not_lt] at hvalid
  refine ⟨?_, ?_, hvalid.1, hvalid.2.1⟩
  · exact hauthor.trans hme.masterPubkey
  · rw [← hme.signingSecret]
    rfl

theorem inv_createPost {w : Device} (h : Inv K master w) (draft : Draft) (id : String)
    (now nowValidate : UInt64) : Inv K master (w.createPost K draft id now nowValidate) := by
  unfold createPost
  dsimp only
  split
  next => exact h
  next hvalid =>
    have hsigned := signedPost_of_validate h.identity
      (p := w.draftPost draft id now) rfl hvalid
    have hgrow : ∀ p : Post, (∃ i, (p, i) ∈ w.signedPosts) →
        ∃ i, (p, i) ∈ w.signedPosts ++ [(signPost K w.identity.signingSecret
          (w.draftPost draft id now), w.identity.signingKeyIndex)] :=
      fun p ⟨i, hi⟩ => ⟨i, List.mem_append_left _ hi⟩
    refine { h with
      plans := ?_
      signedPosts := ?_
      posts := fun p hp => hgrow p (h.posts p hp)
      insertPost := ?_
      saveInteraction := ?_ }
    · intro plan phase hmem
      exact h.plans plan phase (by simpa using hmem)
    · intro p i hmem
      rcases List.mem_append.mp hmem with hmem | hmem
      · exact h.signedPosts p i hmem
      · obtain ⟨rfl, rfl⟩ := Prod.mk.inj (List.mem_singleton.mp hmem)
        exact hsigned
    · intro p hmem
      rcases List.mem_append.mp hmem with hmem | hmem
      · exact hgrow p (h.insertPost p hmem)
      · obtain rfl := Task.insertPost.inj (List.mem_singleton.mp hmem)
        exact ⟨_, List.mem_append_right _ List.mem_cons_self⟩
    · intro x hmem
      exact h.saveInteraction x (by simpa using hmem)

theorem inv_likePost {w : Device} (h : Inv K master w) (target author id : String) (now : UInt64) :
    Inv K master (w.likePost K target author id now) := by
  unfold likePost
  dsimp only
  have hsigned : SignedInteraction K master (signInteraction K w.identity.signingSecret
      ⟨id, w.identity.masterPubkey, .like, target, author, now, ""⟩) w.identity.signingKeyIndex := by
    refine ⟨h.identity.masterPubkey, ?_⟩
    rw [← h.identity.signingSecret]
    rfl
  have hgrow : ∀ x : Interaction, (∃ i, (x, i) ∈ w.signedInteractions) →
      ∃ i, (x, i) ∈ w.signedInteractions ++ [(signInteraction K w.identity.signingSecret
        ⟨id, w.identity.masterPubkey, .like, target, author, now, ""⟩,
        w.identity.signingKeyIndex)] :=
    fun x ⟨i, hi⟩ => ⟨i, List.mem_append_left _ hi⟩
  refine { h with
    plans := ?_
    signedInteractions := ?_
    interactions := fun x hx => hgrow x (h.interactions x hx)
    insertPost := ?_
    saveInteraction := ?_ }
  · intro plan phase hmem
    exact h.plans plan phase (by simpa using hmem)
  · intro x i hmem
    rcases List.mem_append.mp hmem with hmem | hmem
    · exact h.signedInteractions x i hmem
    · obtain ⟨rfl, rfl⟩ := Prod.mk.inj (List.mem_singleton.mp hmem)
      exact hsigned
  · intro p hmem
    exact h.insertPost p (by simpa using hmem)
  · intro x hmem
    rcases List.mem_append.mp hmem with hmem | hmem
    · exact hgrow x (h.saveInteraction x hmem)
    · obtain rfl := Task.saveInteraction.inj (List.mem_singleton.mp hmem)
      exact ⟨_, List.mem_append_right _ List.mem_cons_self⟩

theorem inv_deletePost {w : Device} (h : Inv K master w) (id : String) :
    Inv K master (w.deletePost id) := by
  unfold deletePost
  split
  · split
    · exact { h with posts := fun p hp => h.posts p (List.mem_of_mem_filter hp) }
    · exact h
  · exact h

theorem inv_unlikePost {w : Device} (h : Inv K master w) (target : String) :
    Inv K master (w.unlikePost target) := by
  unfold unlikePost
  split
  · exact { h with interactions := fun x hx => h.interactions x (List.mem_of_mem_filter hx) }
  · exact h

theorem planOf_plan {w : Device} (h : Inv K master w) (now : UInt64) :
    PlanOf K master (w.plan K now) := by
  refine ⟨?_, rfl⟩
  simp only [plan, h.identity.masterSecret]

theorem inv_withTasks {w : Device} (h : Inv K master w) {tasks : List Task}
    (htasks : ∀ t ∈ tasks, t ∈ w.tasks ∨ ∃ plan phase, t = .rotate plan phase ∧ PlanOf K master plan) :
    Inv K master { w with tasks := tasks } := by
  refine { h with
    plans := ?_
    insertPost := ?_
    saveInteraction := ?_ }
  · intro plan phase hmem
    rcases htasks _ hmem with hmem | ⟨plan', phase', heq, hplan⟩
    · exact h.plans plan phase hmem
    · obtain ⟨rfl, -⟩ := Task.rotate.inj heq
      exact hplan
  · intro p hmem
    rcases htasks _ hmem with hmem | ⟨_, _, heq, -⟩
    · exact h.insertPost p hmem
    · exact nomatch heq
  · intro x hmem
    rcases htasks _ hmem with hmem | ⟨_, _, heq, -⟩
    · exact h.saveInteraction x hmem
    · exact nomatch heq

theorem inv_runRotate {w : Device} (h : Inv K master w) {plan : Plan} (hplan : PlanOf K master plan)
    (ok : Bool) (now : UInt64) (phase : RotatePhase) :
    Inv K master (w.runRotate K ok now plan phase).1 := by
  cases phase with
  | broadcastRotation =>
    simp only [runRotate]
    split
    · exact { h with }
    · exact h
  | getLinkedDevices =>
    simp only [runRotate]
    split <;> exact h
  | getVersion devices => exact h
  | cacheAnnouncement a => exact { h with }
  | broadcastLinkedDevices a => exact h
  | registerAgain => exact h
  | writeIndex =>
    simp only [runRotate]
    split
    · exact { h with }
    · exact h
  | setIdentity =>
    refine { h with identity := ?_ }
    exact ⟨h.identity.masterSecret, h.identity.masterPubkey, hplan.newSecret, hplan.delegated⟩

theorem tasks_runRotate (w : Device) (ok : Bool) (now : UInt64) (plan : Plan) (phase : RotatePhase) :
    (w.runRotate K ok now plan phase).1.tasks = w.tasks := by
  cases phase <;> simp only [runRotate] <;> split <;> rfl

theorem inv_task {w : Device} (h : Inv K master w) {i : Nat} {t : Task} (ht : w.tasks[i]? = some t)
    (ok : Bool) (now : UInt64) : Inv K master
      { (w.runTask K ok now t).1 with tasks := Tasks.advance w.tasks i (w.runTask K ok now t).2 } := by
  have hmem : t ∈ w.tasks := List.mem_of_getElem? ht
  have hrest : ∀ u ∈ w.tasks.eraseIdx i, u ∈ w.tasks := fun u hu => List.mem_of_mem_eraseIdx hu
  cases t with
  | insertPost p =>
    simp only [runTask]
    split
    · refine { inv_withTasks h (fun u hu => Or.inl (hrest u hu)) with posts := ?_ }
      intro q hq
      rcases Table.mem_of_mem_insertOrIgnore hq with hq | rfl
      · exact h.posts q hq
      · exact h.insertPost q hmem
    · exact inv_withTasks h fun u hu => Or.inl (hrest u hu)
  | saveInteraction x =>
    simp only [runTask]
    split
    · refine { inv_withTasks h (fun u hu => Or.inl (hrest u hu)) with interactions := ?_ }
      intro y hy
      rcases Table.mem_of_mem_insertOrIgnore hy with hy | rfl
      · exact h.interactions y hy
      · exact h.saveInteraction y hmem
    · exact inv_withTasks h fun u hu => Or.inl (hrest u hu)
  | rotate plan phase =>
    have hplan := h.plans plan phase hmem
    refine inv_withTasks (inv_runRotate h hplan ok now phase) fun u hu => ?_
    rw [tasks_runRotate]
    rcases (Tasks.mem_advance ht).mp hu with hu | hu
    · obtain ⟨phase', -, rfl⟩ := Option.map_eq_some_iff.mp hu
      exact Or.inr ⟨plan, phase', rfl, hplan⟩
    · exact Or.inl (hrest u hu)

theorem inv_step {w t : Device} {l : Label} (h : Inv K master w) (hstep : w.step K l = some t) :
    Inv K master t := by
  cases l with
  | createPost draft id now nowValidate =>
    obtain rfl := Option.some.inj hstep
    exact inv_createPost h draft id now nowValidate
  | likePost target author id now =>
    obtain rfl := Option.some.inj hstep
    exact inv_likePost h target author id now
  | deletePost id =>
    obtain rfl := Option.some.inj hstep
    exact inv_deletePost h id
  | unlikePost target =>
    obtain rfl := Option.some.inj hstep
    exact inv_unlikePost h target
  | rotateSigningKey now =>
    obtain rfl := Option.some.inj hstep
    refine inv_withTasks h fun u hu => (List.mem_append.mp hu).imp_right fun hu => ?_
    exact ⟨_, _, List.mem_singleton.mp hu, planOf_plan h now⟩
  | task i ok now =>
    obtain ⟨u, hu, rfl⟩ := Option.map_eq_some_iff.mp hstep
    exact inv_task h hu ok now
  | restart now =>
    obtain rfl := Option.some.inj hstep
    refine { inv_withTasks h (fun u (hu : u ∈ []) => (nomatch hu)) with identity := ?_ }
    have hid := h.identity
    simp only [hid.masterSecret]
    exact identityOf_buildIdentity ..

/-- The client has cached the author's current delegation. -/
def CachedBy (w : Device) (st : Storage) : Prop :=
  st.getPeerSigningPubkey w.identity.masterPubkey = some w.identity.delegation.signingPubkey

def CachedByServer (w : Device) (ix : Server.Index) : Prop :=
  ix.getPeerSigningPubkey w.identity.masterPubkey = some w.identity.delegation.signingPubkey

/-- An item of this time, signed with the key of index `i`, passes at this clock: it is not too far
ahead of it, and there was no rotation since. -/
def Admits (w : Device) (timestamp clock : UInt64) (i : UInt32) : Prop :=
  timestamp.toNat ≤ clock.toNat + maxTimestampDriftMs ∧ i = w.identity.signingKeyIndex

instance (w : Device) (timestamp clock : UInt64) (i : UInt32) :
    Decidable (w.Admits timestamp clock i) := by
  unfold Admits
  infer_instance

section Acceptance

variable {w : Device}

theorem parse_delegated (hK : K.Lawful) (h : IdentityOf K master w.identity) :
    K.parsePublicKey w.identity.delegation.signingPubkey =
      .ok (K.publicKey (deriveSigningKey K master w.identity.signingKeyIndex)) := by
  rw [h.delegated, h.signingSecret]
  exact hK.parse_keyText _

theorem resolveSigner_cached (hK : K.Lawful) (h : IdentityOf K master w.identity) {st : Storage}
    (hst : w.CachedBy st) {fails : PeerFails} (hread : fails (.table .signingPubkey) = false) :
    resolveSigner K.toSignatureCrates fails.table (publicText K master) st =
      some (K.publicKey (deriveSigningKey K master w.identity.signingKeyIndex)) := by
  have hrow : st.getPeerSigningPubkey (publicText K master) =
      some w.identity.delegation.signingPubkey := h.masterPubkey ▸ hst
  have hno : fails.table .signingPubkey = false := hread
  simp [resolveSigner, hno, hrow, parse_delegated hK h, Except.toOption]

theorem signerOf_cached (hK : K.Lawful) (h : IdentityOf K master w.identity) {ix : Server.Index}
    (hix : w.CachedByServer ix) {fails : Server.IngestFails}
    (hread : fails .signingPubkey = false) :
    Server.signerOf K.toSignatureCrates fails (publicText K master) ix =
      .ok (K.publicKey (deriveSigningKey K master w.identity.signingKeyIndex)) := by
  have hrow : ix.getPeerSigningPubkey (publicText K master) =
      some w.identity.delegation.signingPubkey := h.masterPubkey ▸ hix
  simp [Server.signerOf, hread, hrow, parse_delegated hK h]

theorem validatePost_iff {p : Post} {i : UInt32} (hp : SignedPost K master p i) (clock : UInt64) :
    (validatePost clock p).toBool = true ↔
      p.timestamp.toNat ≤ clock.toNat + maxTimestampDriftMs := by
  rw [Checks.toBool_eq_true]
  unfold validatePost
  simp only [Checks.reject_eq_ok, Nat.not_lt, gt_iff_lt, and_true]
  exact ⟨fun h => h.2.2, fun h => ⟨hp.content, hp.media, h⟩⟩

theorem validateInteraction_iff (x : Interaction) (clock : UInt64) :
    (validateInteraction clock x).toBool = true ↔
      x.timestamp.toNat ≤ clock.toNat + maxTimestampDriftMs := by
  rw [Checks.toBool_eq_true]
  unfold validateInteraction
  simp only [Checks.reject_eq_ok, Nat.not_lt, gt_iff_lt, and_true]

theorem acceptsPost_iff (hK : K.Lawful) (h : IdentityOf K master w.identity) {p : Post} {i : UInt32}
    (hp : SignedPost K master p i) {st : Storage} (hst : w.CachedBy st) {fails : PeerFails}
    (hread : fails (.table .signingPubkey) = false) (clock : UInt64) :
    Client.acceptsPost K.toSignatureCrates fails clock p st = true ↔ w.Admits p.timestamp clock i := by
  unfold Client.acceptsPost Client.signerAccepts
  rw [hp.author, resolveSigner_cached hK h hst hread, Bool.and_eq_true, validatePost_iff hp,
    Checks.toBool_eq_true, verifyPostSignature, hp.signature, verifySigned_derived hK]
  exact Iff.rfl

theorem acceptsInteraction_iff (hK : K.Lawful) (h : IdentityOf K master w.identity) {x : Interaction}
    {i : UInt32} (hx : SignedInteraction K master x i) {st : Storage} (hst : w.CachedBy st)
    {fails : PeerFails} (hread : fails (.table .signingPubkey) = false) (clock : UInt64) :
    Client.acceptsInteraction K.toSignatureCrates fails clock x (publicText K master) st = true ↔
      w.Admits x.timestamp clock i := by
  unfold Client.acceptsInteraction Client.signerAccepts
  rw [hx.author, resolveSigner_cached hK h hst hread, Bool.and_eq_true, Bool.and_eq_true,
    validateInteraction_iff, Checks.toBool_eq_true, verifyInteractionSignature, hx.signature,
    verifySigned_derived hK, decide_eq_true_iff]
  exact and_congr_left fun _ => and_iff_right rfl

theorem server_acceptsPost_iff (hK : K.Lawful) (h : IdentityOf K master w.identity) {p : Post}
    {i : UInt32} (hp : SignedPost K master p i) {ix : Server.Index} (hix : w.CachedByServer ix)
    {fails : Server.IngestFails} (hread : fails .signingPubkey = false) (clock : UInt64) :
    Server.acceptsPost K.toSignatureCrates fails clock p ix = true ↔
      w.Admits p.timestamp clock i := by
  unfold Server.acceptsPost Server.signerAccepts
  rw [hp.author, signerOf_cached hK h hix hread, Bool.and_eq_true, validatePost_iff hp,
    Checks.toBool_eq_true, verifyPostSignature, hp.signature, verifySigned_derived hK]
  exact Iff.rfl

theorem server_acceptsInteraction_iff (hK : K.Lawful) (h : IdentityOf K master w.identity)
    {x : Interaction} {i : UInt32} (hx : SignedInteraction K master x i) {ix : Server.Index}
    (hix : w.CachedByServer ix) {fails : Server.IngestFails} (hread : fails .signingPubkey = false)
    (clock : UInt64) :
    Server.acceptsInteraction K.toSignatureCrates fails clock x ix = true ↔
      w.Admits x.timestamp clock i := by
  unfold Server.acceptsInteraction Server.signerAccepts
  rw [hx.author, signerOf_cached hK h hix hread, Bool.and_eq_true, validateInteraction_iff,
    Checks.toBool_eq_true, verifyInteractionSignature, hx.signature, verifySigned_derived hK]
  exact Iff.rfl

end Acceptance

/-- The post is stored by whoever has cached the current delegation, or refused, according to the
index it was signed under. -/
structure PostFate (K : KeyCrates) (w : Device) (p : Post) (i : UInt32) : Prop where
  client : ∀ (st : Storage) (c : ContentStore) (fails : PeerFails) (clock : UInt64), w.CachedBy st →
    fails (.table .signingPubkey) = false → fails .insertPost = false →
    processIncomingPost K.toSignatureCrates fails clock p st c =
      if w.Admits p.timestamp clock i then (true, c.insertPost p) else (false, c)
  server : ∀ (ix : Server.Index) (fails : Server.IngestFails) (clock : UInt64),
    w.CachedByServer ix → fails .signingPubkey = false → fails .insertPost = false →
    p.author ∈ ix.registered →
    Server.ingestPost K.toSignatureCrates fails clock p ix =
      if w.Admits p.timestamp clock i then ix.insertPost p else ix

structure InteractionFate (K : KeyCrates) (w : Device) (x : Interaction) (i : UInt32) : Prop where
  client : ∀ (st : Storage) (c : ContentStore) (fails : PeerFails) (clock : UInt64), w.CachedBy st →
    fails (.table .signingPubkey) = false → fails .saveInteraction = false →
    processIncomingInteraction K.toSignatureCrates fails clock x w.identity.masterPubkey st c =
      if w.Admits x.timestamp clock i then c.saveInteraction x else c
  server : ∀ (ix : Server.Index) (fails : Server.IngestFails) (clock : UInt64),
    w.CachedByServer ix → fails .signingPubkey = false → fails .insertInteraction = false →
    x.author ∈ ix.registered →
    Server.ingestInteraction K.toSignatureCrates fails clock x ix =
      if w.Admits x.timestamp clock i then ix.insertInteraction x else ix

theorem postFate {w : Device} (hK : K.Lawful) (h : IdentityOf K master w.identity) {p : Post}
    {i : UInt32} (hp : SignedPost K master p i) : PostFate K w p i where
  client st c fails clock hst hread hwrite := by
    unfold processIncomingPost
    simp only [acceptsPost_iff hK h hp hst hread, hwrite, and_true]
  server ix fails clock hix hread hwrite hreg := by
    unfold Server.ingestPost
    simp only [server_acceptsPost_iff hK h hp hix hread, hwrite, hreg, and_true]

theorem interactionFate {w : Device} (hK : K.Lawful) (h : IdentityOf K master w.identity)
    {x : Interaction} {i : UInt32} (hx : SignedInteraction K master x i) :
    InteractionFate K w x i where
  client st c fails clock hst hread hwrite := by
    unfold processIncomingInteraction
    rw [h.masterPubkey]
    simp only [acceptsInteraction_iff hK h hx hst hread, hwrite, and_true]
  server ix fails clock hix hread hwrite hreg := by
    unfold Server.ingestInteraction
    simp only [server_acceptsInteraction_iff hK h hx hix hread, hwrite, hreg, and_true]

theorem inv_exec {indexFile : Option UInt32} {dmPubkey : String} {dmKeyIndex : UInt32} {now : UInt64}
    {devices : List DeviceEntry} {run : List Label} {w : Device}
    (hrun : Machine.exec (step K) (start (buildIdentity K master indexFile dmPubkey dmKeyIndex now)
      indexFile devices) run = some w) : Inv K master w := by
  have hok : Machine.Along (step K) (fun _ _ => True) (start (buildIdentity K master indexFile
      dmPubkey dmKeyIndex now) indexFile devices) run := Machine.Along.of_forall fun _ _ => trivial
  refine Machine.exec_invariant ?_ (inv_start indexFile dmPubkey dmKeyIndex now devices) hok hrun
  intro u l u' hu _ hstep
  exact inv_step hu hstep

/-- Whatever the author still stores after any run of posts, likes, deletions and rotations is
accepted from there on if it was signed with the current key, and refused if not. -/
theorem stored_content_fate (hK : K.Lawful) {indexFile : Option UInt32} {dmPubkey : String}
    {dmKeyIndex : UInt32} {now : UInt64} {devices : List DeviceEntry} {run : List Label} {w : Device}
    (hrun : Machine.exec (step K) (start (buildIdentity K master indexFile dmPubkey dmKeyIndex now)
      indexFile devices) run = some w) :
    (∀ p ∈ w.content.posts, (∃ i, (p, i) ∈ w.signedPosts) ∧
      ∀ i, (p, i) ∈ w.signedPosts → PostFate K w p i) ∧
    ∀ x ∈ w.content.interactions, (∃ i, (x, i) ∈ w.signedInteractions) ∧
      ∀ i, (x, i) ∈ w.signedInteractions → InteractionFate K w x i := by
  have hinv : Inv K master w := inv_exec hrun
  constructor
  · intro p hp
    exact ⟨hinv.posts p hp, fun i hi => postFate hK hinv.identity (hinv.signedPosts p i hi)⟩
  · intro x hx
    refine ⟨hinv.interactions x hx, fun i hi => ?_⟩
    exact interactionFate hK hinv.identity (hinv.signedInteractions x i hi)

end Device

section Examples

/-- Keys that are their own public halves, written in hexadecimal. -/
def plainKeys : KeyCrates where
  parsePublicKey s :=
    match hexDecode s.toUTF8.toList with
    | .ok bytes => if h : bytes.length = 32 then .ok ⟨bytes.toArray, h⟩ else .error "invalid length"
    | .error e => .error e
  hexDecode s := hexDecode s.toUTF8.toList
  verify key msg sig := sig.toList = key.toList ++ msg.sum :: List.replicate 31 0
  hkdf salt key _ := ⟨((salt ++ key ++ List.replicate 32 0).take 32).toArray, by simp; omega⟩
  publicKey secret := secret
  sign secret msg := ⟨(secret.toList ++ msg.sum :: List.replicate 31 0).toArray, by simp⟩
  keyText key := hexEncode key.toList
  hexEncode := hexEncode

theorem bigEndian_injective {i j : UInt32} (h : bigEndian i = bigEndian j) : i = j := by
  simp only [bigEndian, List.map_cons, List.map_nil, List.cons.injEq, and_true] at h
  obtain ⟨h₃, h₂, h₁, h₀⟩ := h
  have hi := i.toNat_lt
  have hj := j.toNat_lt
  replace h₃ := congrArg UInt8.toNat h₃
  replace h₂ := congrArg UInt8.toNat h₂
  replace h₁ := congrArg UInt8.toNat h₁
  replace h₀ := congrArg UInt8.toNat h₀
  simp only [UInt8.toNat_ofNat'] at h₃ h₂ h₁ h₀
  apply UInt32.toNat_inj.mp
  omega

theorem plainKeys_lawful : plainKeys.Lawful where
  parse_keyText k := by
    have hlength : k.toList.length = 32 := Vector.length_toList
    show (match hexDecode (hexEncode k.toList).toUTF8.toList with
      | .ok bytes => if h : bytes.length = 32 then .ok ⟨bytes.toArray, h⟩ else .error "invalid length"
      | .error e => .error e) = Except.ok k
    rw [hexDecode_hexEncode]
    simp [Vector.toList]
  size_hexEncode := utf8ByteSize_hexEncode
  hexDecode_hexEncode := hexDecode_hexEncode
  verify_sign secret msg := by
    simp [plainKeys, Vector.toList]
  verify_only key secret msg h := by
    simp only [plainKeys, decide_eq_true_eq] at h
    have hkeys : secret.toList = key.toList := List.append_cancel_right h
    exact (Vector.toList_inj.mp hkeys).symm
  publicKey_derive master i j h := by
    have hsalt : ∀ n : UInt32, (deriveSigningKey plainKeys master n).toList.take 4 = bigEndian n := by
      intro n
      have hlength : (bigEndian n).length = 4 := rfl
      show ((bigEndian n ++ master.toList ++ List.replicate 32 0).take 32).take 4 = bigEndian n
      rw [List.take_take, List.append_assoc, show min 4 32 = 4 from rfl, ← hlength,
        List.take_left]
    have hkeys : deriveSigningKey plainKeys master i = deriveSigningKey plainKeys master j := h
    have hsame := congrArg (fun key : SecretKey => key.toList.take 4) hkeys
    exact bigEndian_injective (by simpa only [hsalt] using hsame)

def zeroSecret : SecretKey := Vector.replicate 32 0

def firstDevice : Device := .start (buildIdentity plainKeys zeroSecret none "" 0 0) none []

def repostRun (id : String) (now : UInt64) : List Label :=
  [.createPost (Draft.repost "post" "friend") id now now, .task 0 true now]

def rotateRun (now : UInt64) : List Label :=
  .rotateSigningKey now :: List.replicate 8 (.task 0 true now)

/-- How many posts there are, the current index, and the indices of what was signed. -/
def Device.summary (w : Device) : Nat × UInt32 × List UInt32 :=
  (w.content.posts.length, w.identity.signingKeyIndex, w.signedPosts.map Prod.snd)

theorem stored_content_fate_reposts :
    ∃ w, Machine.exec (Device.step plainKeys) firstDevice
        (repostRun "p" 1 ++ rotateRun 2 ++ repostRun "q" 3) = some w ∧
      w.summary = (2, 1, [0, 1]) ∧ ∀ p ∈ w.content.posts, (∃ i, (p, i) ∈ w.signedPosts) ∧
        ∀ i, (p, i) ∈ w.signedPosts → Device.PostFate plainKeys w p i := by
  have hend : (Machine.exec (Device.step plainKeys) firstDevice
      (repostRun "p" 1 ++ rotateRun 2 ++ repostRun "q" 3)).map Device.summary =
        some (2, 1, [0, 1]) := rfl
  obtain ⟨w, hrun, hw⟩ := Option.map_eq_some_iff.mp hend
  exact ⟨w, hrun, hw, (Device.stored_content_fate plainKeys_lawful hrun).1⟩

/-- The author rotates after a repost: a peer that has cached the new delegation refuses the
repost, which the author still stores. -/
theorem not_stored_content_accepted :
    ¬ ∀ (K : KeyCrates), K.Lawful → ∀ (master : SecretKey) (run : List Label) (w : Device),
      Machine.exec (Device.step K) (.start (buildIdentity K master none "" 0 0) none []) run = some w →
      ∀ p ∈ w.content.posts, ∀ (st : Storage) (c : ContentStore) (clock : UInt64), w.CachedBy st →
        p.timestamp.toNat ≤ clock.toNat + maxTimestampDriftMs →
        (processIncomingPost K.toSignatureCrates (fun _ => false) clock p st c).1 = true := by
  intro hall
  have hend : (Machine.exec (Device.step plainKeys) firstDevice
      (repostRun "p" 1 ++ rotateRun 2)).map Device.summary = some (1, 1, [0]) := rfl
  obtain ⟨w, hrun, hw⟩ := Option.map_eq_some_iff.mp hend
  obtain ⟨hposts, hw⟩ := Prod.mk.inj hw
  obtain ⟨hindex, hsigned⟩ := Prod.mk.inj hw
  obtain ⟨p, hp⟩ := List.length_eq_one_iff.mp hposts
  have hinv := Device.inv_exec hrun
  obtain ⟨i, hi⟩ := hinv.posts p (by rw [hp]; exact List.mem_cons_self)
  have hzero : i = 0 := by
    have hmem : i ∈ w.signedPosts.map Prod.snd := List.mem_map_of_mem hi
    rw [hsigned] at hmem
    exact List.mem_singleton.mp hmem
  -- a peer that knows the author's current delegation and nothing else
  let st : Storage := ⟨[], [⟨w.identity.masterPubkey, w.identity.delegation.signingPubkey, "",
    w.identity.delegation, [], 0⟩], []⟩
  have hst : w.CachedBy st := by
    simp [Device.CachedBy, st, Storage.getPeerSigningPubkey, Table.find]
  have hfate := (Device.postFate plainKeys_lawful hinv.identity (hinv.signedPosts p i hi)).client st
    ⟨[], []⟩ (fun _ => false) p.timestamp hst rfl rfl
  have hrefused : ¬ w.Admits p.timestamp p.timestamp i := by
    rw [Device.Admits, hindex, hzero]
    exact fun h => absurd h.2 (by decide)
  rw [if_neg hrefused] at hfate
  have haccepted := hall plainKeys plainKeys_lawful zeroSecret _ w hrun p
    (by rw [hp]; exact List.mem_cons_self) st ⟨[], []⟩ p.timestamp hst (Nat.le_add_right _ _)
  rw [hfate] at haccepted
  exact nomatch haccepted

end Examples
end Proscenium.Client.Author
