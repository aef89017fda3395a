import Proscenium.Client.IdentityDefs

/-! The author's side: posts and likes are signed with the signing key of the
moment, which is derived from the master key and an index, and a rotation moves
on to the next index. A command that awaits is a task: a rotation can complete
while a post that it did not sign is still to be stored. -/

namespace Proscenium.Client.Author

open Proscenium.Types

abbrev SecretKey := Vector UInt8 32

/-- What is used of `hkdf`, `iroh` and `hex` to make keys and signatures. -/
structure KeyCrates extends SignatureCrates where
  /-- The arguments are salt, key and info. -/
  hkdf : Bytes → Bytes → Bytes → SecretKey
  publicKey : SecretKey → PublicKey
  sign : SecretKey → Bytes → Signature
  keyText : PublicKey → String
  hexEncode : Bytes → String

variable (K : KeyCrates)

def bigEndian (n : UInt32) : Bytes :=
  [n.toNat / 2 ^ 24, n.toNat / 2 ^ 16, n.toNat / 2 ^ 8, n.toNat].map UInt8.ofNat

def deriveSigningKey (masterSecret : SecretKey) (index : UInt32) : SecretKey :=
  K.hkdf (bigEndian index) masterSecret.toList "proscenium/signing-key".toUTF8.toList

def signHex (secret : SecretKey) (bytes : Bytes) : String := K.hexEncode (K.sign secret bytes).toList

def publicText (secret : SecretKey) : String := K.keyText (K.publicKey secret)

def signDelegation (masterSecret : SecretKey) (signingPubkey : String) (keyIndex : UInt32)
    (dmPubkey : String) (dmKeyIndex : UInt32) (issuedAt : UInt64) : SigningKeyDelegation :=
  let d : SigningKeyDelegation :=
    ⟨publicText K masterSecret, signingPubkey, keyIndex, dmPubkey, dmKeyIndex, issuedAt, ""⟩
  { d with signature := signHex K masterSecret (delegationSigningBytes d) }

def signRotation (masterSecret : SecretKey) (oldSigningPubkey newSigningPubkey : String)
    (newKeyIndex : UInt32) (timestamp : UInt64) (newDelegation : SigningKeyDelegation) :
    SigningKeyRotation :=
  let r : SigningKeyRotation := ⟨publicText K masterSecret, oldSigningPubkey, newSigningPubkey,
    newKeyIndex, timestamp, "", newDelegation⟩
  { r with signature := signHex K masterSecret (rotationSigningBytes r) }

def signPost (secret : SecretKey) (p : Post) : Post :=
  { p with signature := signHex K secret (postSigningBytes p) }

def signInteraction (secret : SecretKey) (i : Interaction) : Interaction :=
  { i with signature := signHex K secret (interactionSigningBytes i) }

def signLinkedDevicesAnnouncement (secret : SecretKey) (a : LinkedDevicesAnnouncement) :
    LinkedDevicesAnnouncement :=
  { a with signature := signHex K secret (linkedDevicesSigningBytes a) }

structure Identity where
  masterSecret : SecretKey
  masterPubkey : String
  signingSecret : SecretKey
  signingKeyIndex : UInt32
  dmPubkey : String
  dmKeyIndex : UInt32
  delegation : SigningKeyDelegation
  deriving DecidableEq, Repr

def buildIdentity (masterSecret : SecretKey) (indexFile : Option UInt32) (dmPubkey : String)
    (dmKeyIndex : UInt32) (now : UInt64) : Identity :=
  let index := indexFile.getD 0
  let signing := deriveSigningKey K masterSecret index
  ⟨masterSecret, publicText K masterSecret, signing, index, dmPubkey, dmKeyIndex,
    signDelegation K masterSecret (publicText K signing) index dmPubkey dmKeyIndex now⟩

/-- What a rotation has decided on before it first awaits. -/
structure Plan where
  newIndex : UInt32
  newSecret : SecretKey
  newDelegation : SigningKeyDelegation
  rotation : SigningKeyRotation
  now : UInt64
  deriving DecidableEq, Repr

inductive RotatePhase where
  | broadcastRotation
  | getLinkedDevices
  | getVersion (devices : List DeviceEntry)
  | cacheAnnouncement (a : LinkedDevicesAnnouncement)
  | broadcastLinkedDevices (a : LinkedDevicesAnnouncement)
  /-- The new delegation goes to the servers; their answers are only logged. -/
  | registerAgain
  | writeIndex
  | setIdentity
  deriving DecidableEq, Repr

inductive Task where
  | insertPost (p : Post)
  | saveInteraction (i : Interaction)
  | rotate (plan : Plan) (phase : RotatePhase)
  deriving DecidableEq, Repr

/-- The arguments of `create_post`. -/
structure Draft where
  content : String
  media : List MediaAttachment
  replyTo : Option String
  replyToAuthor : Option String
  quoteOf : Option String
  quoteOfAuthor : Option String
  deriving DecidableEq, Repr

/-- What `repost` posts. -/
def Draft.repost (targetPostId targetAuthor : String) : Draft :=
  ⟨"", [], none, none, some targetPostId, some targetAuthor⟩

inductive Label where
  /-- The clock is read for the timestamp and once more for its check. -/
  | createPost (draft : Draft) (id : String) (now nowValidate : UInt64)
  | likePost (targetPostId targetAuthor id : String) (now : UInt64)
  | deletePost (id : String)
  | unlikePost (targetPostId : String)
  | rotateSigningKey (now : UInt64)
  /-- A task goes on to its next await; `ok` is how the one it is at ends. -/
  | task (i : Nat) (ok : Bool) (now : UInt64)
  | restart (now : UInt64)
  deriving DecidableEq, Repr

structure Device where
  identity : Identity
  /-- The file `signing_key_index`. -/
  indexFile : Option UInt32
  linkedDevices : List DeviceEntry
  announcements : List AnnouncementRow
  content : ContentStore
  tasks : List Task
  rotations : List SigningKeyRotation
  /-- What was signed, with the index of the key. -/
  signedPosts : List (Post × UInt32)
  signedInteractions : List (Interaction × UInt32)
  deriving DecidableEq, Repr

namespace Device

def start (identity : Identity) (indexFile : Option UInt32) (linkedDevices : List DeviceEntry) :
    Device := ⟨identity, indexFile, linkedDevices, [], ⟨[], []⟩, [], [], [], []⟩

def draftPost (w : Device) (draft : Draft) (id : String) (now : UInt64) : Post :=
  ⟨id, w.identity.masterPubkey, draft.content, now, draft.media, draft.replyTo, draft.replyToAuthor,
    draft.quoteOf, draft.quoteOfAuthor, ""⟩

/-- `create_post` and `repost` up to the insert. -/
def createPost (w : Device) (draft : Draft) (id : String) (now nowValidate : UInt64) : Device :=
  let post := w.draftPost draft id now
  match validatePost nowValidate post with
  | .error _ => w
  | .ok _ =>
    let post := signPost K w.identity.signingSecret post
    { w with
      tasks := w.tasks ++ [.insertPost post]
      signedPosts := w.signedPosts ++ [(post, w.identity.signingKeyIndex)] }

def likePost (w : Device) (targetPostId targetAuthor id : String) (now : UInt64) : Device :=
  let interaction := signInteraction K w.identity.signingSecret
    ⟨id, w.identity.masterPubkey, .like, targetPostId, targetAuthor, now, ""⟩
  { w with
    tasks := w.tasks ++ [.saveInteraction interaction]
    signedInteractions := w.signedInteractions ++ [(interaction, w.identity.signingKeyIndex)] }

def deletePost (w : Device) (id : String) : Device :=
  match w.content.getPostById id with
  | some post =>
    if post.author = w.identity.masterPubkey then { w with content := w.content.deletePost id } else w
  | none => w

def unlikePost (w : Device) (targetPostId : String) : Device :=
  match w.content.interactions.find? fun i =>
      i.author = w.identity.masterPubkey ∧ i.kind = .like ∧ i.targetPostId = targetPostId with
  | some i => { w with content := w.content.deleteInteraction i.id w.identity.masterPubkey }
  | none => w

def plan (w : Device) (now : UInt64) : Plan :=
  let me := w.identity
  let newIndex := me.signingKeyIndex + 1
  let oldPub := publicText K (deriveSigningKey K me.masterSecret me.signingKeyIndex)
  let newSecret := deriveSigningKey K me.masterSecret newIndex
  let newPub := publicText K newSecret
  let newDelegation :=
    signDelegation K me.masterSecret newPub newIndex me.dmPubkey me.dmKeyIndex now
  ⟨newIndex, newSecret, newDelegation,
    signRotation K me.masterSecret oldPub newPub newIndex now newDelegation, now⟩

def announcement (w : Device) (plan : Plan) (devices : List DeviceEntry) (version : UInt64) :
    LinkedDevicesAnnouncement :=
  signLinkedDevicesAnnouncement K plan.newSecret
    ⟨w.identity.masterPubkey, plan.newDelegation, devices, version, plan.now, ""⟩

def announcementVersion (w : Device) : Option UInt64 :=
  (Table.find AnnouncementRow.masterPubkey w.identity.masterPubkey w.announcements).map fun r =>
    r.version.toUInt64

/-- `rotate_signing_key` from one await to the next. -/
def runRotate (w : Device) (ok : Bool) (now : UInt64) (plan : Plan) :
    RotatePhase → Device × Option RotatePhase
  | .broadcastRotation =>
    if ok then ({ w with rotations := w.rotations ++ [plan.rotation] }, some .getLinkedDevices)
    else (w, none)
  | .getLinkedDevices => if ok then (w, some (.getVersion w.linkedDevices)) else (w, none)
  | .getVersion devices =>
    let current := (if ok then w.announcementVersion else none).getD (UInt64.ofNat devices.length)
    (w, some (.cacheAnnouncement (w.announcement K plan devices (current + 1))))
  | .cacheAnnouncement a =>
    let announcements := if ok then
        Table.upsert AnnouncementRow.masterPubkey a.masterPubkey
          ⟨a.masterPubkey, a, a.version.toInt64, now.toInt64⟩
          (fun r => ⟨r.masterPubkey, a, a.version.toInt64, now.toInt64⟩) w.announcements
      else w.announcements
    ({ w with announcements }, some (.broadcastLinkedDevices a))
  | .broadcastLinkedDevices _ => (w, if ok then some .registerAgain else none)
  | .registerAgain => (w, if ok then some .writeIndex else none)
  | .writeIndex =>
    if ok then ({ w with indexFile := some plan.newIndex }, some .setIdentity) else (w, none)
  | .setIdentity =>
    let identity := { w.identity with
      signingKeyIndex := plan.newIndex
      signingSecret := plan.newSecret
      delegation := plan.newDelegation }
    ({ w with identity }, none)

def runTask (w : Device) (ok : Bool) (now : UInt64) : Task → Device × Option Task
  | .insertPost p => (if ok then { w with content := w.content.insertPost p } else w, none)
  | .saveInteraction i => (if ok then { w with content := w.content.saveInteraction i } else w, none)
  | .rotate plan phase =>
    let out := w.runRotate K ok now plan phase
    (out.1, out.2.map (.rotate plan))

def step (w : Device) : Label → Option Device
  | .createPost draft id now nowValidate => some (w.createPost K draft id now nowValidate)
  | .likePost target author id now => some (w.likePost K target author id now)
  | .deletePost id => some (w.deletePost id)
  | .unlikePost target => some (w.unlikePost target)
  | .rotateSigningKey now =>
    some { w with tasks := w.tasks ++ [.rotate (w.plan K now) .broadcastRotation] }
  | .task i ok now => w.tasks[i]?.map fun t =>
    let out := w.runTask K ok now t
    { out.1 with tasks := Tasks.advance w.tasks i out.2 }
  | .restart now =>
    let me := w.identity
    let identity := buildIdentity K me.masterSecret w.indexFile me.dmPubkey me.dmKeyIndex now
    some { w with
      identity
      tasks := [] }

end Device
end Proscenium.Client.Author
