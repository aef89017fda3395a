import Proscenium.Client.AnnouncementVersions
import Proscenium.DeviceSync.DeltaDefs
import Proscenium.Lib.Base64
import Proscenium.Lib.Tasks

/-! Linking a device. The existing device waits with a one-time secret and answers
one request with a bundle of its keys and lists, under a Noise transport; the new
device imports the lists and writes the keys to its files, from which the next
start makes its identity. -/

namespace Proscenium.Link

open Proscenium.Types Client DeviceSync
open Client.Author (KeyCrates SecretKey bigEndian deriveSigningKey deriveTransportKey transportNodeId
  publicText signDelegation signLinkedDevicesAnnouncement upsertLinkedDevice)

structure RatchetSessionExport where
  peerPubkey : String
  stateJson : String
  updatedAt : UInt64
  deriving DecidableEq, Repr

structure RatchetSessionRow where
  peerPubkey : String
  stateJson : String
  updatedAt : Option Int64
  deriving DecidableEq, Repr

structure LinkBundleData where
  signingSecretKey : String
  dmSecretKey : String
  delegation : SigningKeyDelegation
  transportSecretKey : String
  deviceIndex : UInt32
  masterSecretKey : Option String
  profile : Option Profile
  follows : List SocialGraphEntry
  bookmarks : List String
  blockedUsers : List String
  mutedUsers : List String
  ratchetSessions : List RatchetSessionExport
  deriving DecidableEq

/-- The tables that a bundle is read from, and imported to. -/
structure LinkStore where
  profiles : List ProfileRow
  graph : SocialGraph
  bookmarks : List Bookmark
  moderation : Moderation
  sessions : List RatchetSessionRow

/-- What is used of `snow`, `serde_json` and of the conversion of keys to X25519. -/
structure LinkCrates extends KeyCrates where
  dmPublicText : SecretKey → String
  x25519Secret : SecretKey → SecretKey
  Transport : Type
  Handshake : Type
  /-- The arguments are the private key, the PSK, what is drawn for the ephemeral key, and the
  message; `ok` has the transport and the response. -/
  respond : SecretKey → SecretKey → Bytes → Bytes → Except String (Transport × Bytes)
  complete : Handshake → Bytes → Except String Transport
  encrypt : Transport → Bytes → Except String Bytes
  decrypt : Transport → Bytes → Except String Bytes
  bundleToVec : LinkBundleData → Bytes
  bundleFromSlice : Bytes → Except String LinkBundleData
  /-- The two fields of a `LinkBundle`, or another response. -/
  responseFromSlice : Bytes → Except String (Option (Bytes × Bytes))

/-- The queries of an export; one that fails leaves its part of the bundle empty. -/
inductive LinkQuery where
  | profile
  | follows
  | bookmarks
  | blockedUsers
  | mutedUsers
  | ratchetSessions
  deriving DecidableEq, Repr

namespace LinkStore

def getProfile (pubkey : String) (st : LinkStore) : Option Profile :=
  (Table.find ProfileRow.pubkey pubkey st.profiles).map fun r =>
    ⟨r.displayName, r.bio, r.avatarHash, r.avatarTicket, Storage.visibilityOf (some r), r.signature⟩

def getAllBookmarkIds (st : LinkStore) : List String :=
  (st.bookmarks.insertionSort fun a b => b.createdAt ≤ a.createdAt).map Bookmark.postId

/-- `get_blocked_pubkeys` and `get_muted_pubkeys`. -/
def getPubkeys (kind : String) (st : LinkStore) : List String :=
  ((st.moderation.rows.filter fun r => r.kind = kind ∧ r.state = "active").insertionSort
    fun a b => b.createdAt ≤ a.createdAt).map ModerationRow.pubkey

def exportRatchetSessions (st : LinkStore) : List RatchetSessionExport :=
  st.sessions.map fun r => ⟨r.peerPubkey, r.stateJson, (r.updatedAt.getD 0).toUInt64⟩

def exportLinkBundle (st : LinkStore) (reads : LinkQuery → Bool) (masterPubkey : String)
    (signingSecret dmSecret : SecretKey) (delegation : SigningKeyDelegation) (transportSecret : SecretKey)
    (deviceIndex : UInt32) (masterSecret : Option SecretKey) : LinkBundleData :=
  let b64 := fun key : SecretKey => Base64.Engine.standard.encode key.toList
  { signingSecretKey := b64 signingSecret
    dmSecretKey := b64 dmSecret
    delegation
    transportSecretKey := b64 transportSecret
    deviceIndex
    masterSecretKey := masterSecret.map b64
    profile := if reads .profile then st.getProfile masterPubkey else none
    follows := if reads .follows then st.graph.getFollows masterPubkey else []
    bookmarks := if reads .bookmarks then st.getAllBookmarkIds else []
    blockedUsers := if reads .blockedUsers then st.getPubkeys "block" else []
    mutedUsers := if reads .mutedUsers then st.getPubkeys "mute" else []
    ratchetSessions := if reads .ratchetSessions then st.exportRatchetSessions else [] }

end LinkStore

variable (C : LinkCrates)

structure Identity where
  masterSecret : SecretKey
  masterPubkey : String
  signingSecret : SecretKey
  signingKeyIndex : UInt32
  dmSecret : SecretKey
  dmPubkey : String
  dmKeyIndex : UInt32
  transportNodeId : String
  delegation : SigningKeyDelegation
  deriving DecidableEq, Repr

structure DataDir where
  masterKey : Option Bytes
  signingKey : Option Bytes
  signingKeyIndex : Option UInt32
  dmKeyIndex : Option UInt32
  transportKey : Option Bytes
  deviceIndex : Option UInt32
  deriving DecidableEq, Repr

def deriveDmKey (masterSecret : SecretKey) (index : UInt32) : SecretKey :=
  C.hkdf (bigEndian index) masterSecret.toList "proscenium/dm-key".toUTF8.toList

/-- A file of another length than a key's makes the program panic; one that is missing is made. -/
def loadOrCreateKeyBytes (file : Option Bytes) (fresh : SecretKey) : Option SecretKey :=
  match file with
  | some bytes => if h : bytes.length = 32 then some ⟨bytes.toArray, h⟩ else none
  | none => some fresh

/-- What the rest of `build_identity` makes of the master key. -/
def identityOf (masterSecret : SecretKey) (files : DataDir) (now : UInt64) : Identity :=
  let signingKeyIndex := files.signingKeyIndex.getD 0
  let signingSecret := deriveSigningKey C.toKeyCrates masterSecret signingKeyIndex
  let dmKeyIndex := files.dmKeyIndex.getD 0
  let dmSecret := deriveDmKey C masterSecret dmKeyIndex
  { masterSecret
    masterPubkey := publicText C.toKeyCrates masterSecret
    signingSecret
    signingKeyIndex
    dmSecret
    dmPubkey := C.dmPublicText dmSecret
    dmKeyIndex
    transportNodeId := transportNodeId C.toKeyCrates masterSecret 0
    delegation := signDelegation C.toKeyCrates masterSecret (publicText C.toKeyCrates signingSecret)
      signingKeyIndex (C.dmPublicText dmSecret) dmKeyIndex now }

def buildIdentity (files : DataDir) (fresh : SecretKey) (now : UInt64) : Option Identity :=
  (loadOrCreateKeyBytes files.masterKey fresh).map fun masterSecret => identityOf C masterSecret files now

section Existing

/-- `number` counts the sessions. -/
structure PendingLink where
  number : Nat
  psk : SecretKey
  x25519Private : SecretKey
  expiresAt : UInt64
  transferMasterKey : Bool
  deriving DecidableEq, Repr

def linkSessionTtlMs : UInt64 := 60000

/-- What goes out: a `LinkBundle`. -/
structure Release where
  noiseResponse : Bytes
  encryptedBundle : Bytes
  deriving DecidableEq, Repr

/-- Where `handle_link_request` awaits; what it holds by then goes along. -/
inductive LinkPhase where
  | lock (noiseInit : Bytes)
  | nextDeviceIndex (session : PendingLink) (transport : C.Transport) (noiseResponse : Bytes)
  | readIdentity (session : PendingLink) (transport : C.Transport) (noiseResponse : Bytes) (index : UInt32)
  | exportBundle (session : PendingLink) (transport : C.Transport) (noiseResponse : Bytes) (index : UInt32)
      (me : Identity)
  | send (session : PendingLink) (release : Release) (index : UInt32) (me : Identity)
  | register (index : UInt32) (me : Identity)
  | announce (index : UInt32) (me : Identity) (now : UInt64)

/-- A command or a connection that is under way; a start has its session ready for the slot. -/
inductive LinkTask where
  | startSession (session : PendingLink)
  | cancelSession
  | request (phase : LinkPhase C)

inductive LinkEvent where
  | started (session : PendingLink)
  | cancelled
  | taken (number : Nat) (now : UInt64)
  | sent (number : Nat) (release : Release) (bundle : LinkBundleData)
  deriving DecidableEq

structure LinkHost where
  identity : Identity
  store : LinkStore
  linkedDevices : List DeviceEntry
  slot : Option PendingLink
  tasks : List (LinkTask C)
  /-- The sessions that were started. -/
  count : Nat
  events : List LinkEvent
  broadcasts : List LinkedDevicesAnnouncement

/-- How an await ends, and what is drawn and read on the way to the next one. -/
structure Await where
  ok : Bool
  now : UInt64
  ephemeral : Bytes
  reads : LinkQuery → Bool
  /-- Is the own feed up? -/
  feed : Bool

namespace LinkHost

def new (identity : Identity) (store : LinkStore) (linkedDevices : List DeviceEntry) : LinkHost C :=
  ⟨identity, store, linkedDevices, none, [], 0, [], []⟩

def newDevice (index : UInt32) (me : Identity) (now : UInt64) : DeviceEntry :=
  ⟨transportNodeId C.toKeyCrates me.masterSecret index, "Device " ++ toString index.toNat, false, now⟩

variable {C}
variable (h : LinkHost C)

def nextDeviceIndex : UInt32 := UInt32.ofNat h.linkedDevices.length

def record (e : LinkEvent) : LinkHost C := { h with events := h.events ++ [e] }

/-- The session is taken out of the slot, if it has expired or not. -/
def takeSession (now : UInt64) : LinkHost C × Option PendingLink :=
  match h.slot with
  | none => (h, none)
  | some session =>
    ({ h.record (.taken session.number now) with slot := none },
      if session.expiresAt < now then none else some session)

def bundle (reads : LinkQuery → Bool) (session : PendingLink) (index : UInt32) (me : Identity) : LinkBundleData :=
  h.store.exportLinkBundle reads me.masterPubkey me.signingSecret me.dmSecret me.delegation
    (deriveTransportKey C.toKeyCrates me.masterSecret index) index
    (if session.transferMasterKey then some me.masterSecret else none)

def announcement (index : UInt32) (me : Identity) (now : UInt64) : LinkedDevicesAnnouncement :=
  signLinkedDevicesAnnouncement C.toKeyCrates me.signingSecret
    ⟨me.masterPubkey, me.delegation, h.linkedDevices, (index + 1).toUInt64, now, ""⟩

/-- `handle_link_request` from one await to the next. -/
def runRequest (a : Await) : LinkPhase C → LinkHost C × Option (LinkPhase C)
  | .lock noiseInit =>
    let out := h.takeSession a.now
    match out.2 with
    | none => (out.1, none)
    | some session =>
      match C.respond session.x25519Private session.psk a.ephemeral noiseInit with
      | .error _ => (out.1, none)
      | .ok (transport, noiseResponse) => (out.1, some (.nextDeviceIndex session transport noiseResponse))
  | .nextDeviceIndex session transport noiseResponse =>
    (h, if a.ok then some (.readIdentity session transport noiseResponse h.nextDeviceIndex) else none)
  | .readIdentity session transport noiseResponse index =>
    (h, some (.exportBundle session transport noiseResponse index h.identity))
  | .exportBundle session transport noiseResponse index me =>
    let bundle := h.bundle a.reads session index me
    match C.encrypt transport (C.bundleToVec bundle) with
    | .error _ => (h, none)
    | .ok encryptedBundle =>
      -- from here on the response is written, in whole or in part
      let release := ⟨noiseResponse, encryptedBundle⟩
      (h.record (.sent session.number release bundle), some (.send session release index me))
  | .send _ _ index me => (h, if a.ok then some (.register index me) else none)
  | .register index me =>
    let linkedDevices :=
      if a.ok then upsertLinkedDevice (newDevice C index me a.now) h.linkedDevices else h.linkedDevices
    ({ h with linkedDevices }, some (.announce index me a.now))
  | .announce index me now =>
    let broadcasts :=
      if a.ok && a.feed then h.broadcasts ++ [h.announcement index me now] else h.broadcasts
    ({ h with broadcasts }, none)

def runTask (a : Await) : LinkTask C → LinkHost C × Option (LinkTask C)
  | .startSession session => ({ h.record (.started session) with slot := some session }, none)
  | .cancelSession => ({ h.record .cancelled with slot := none }, none)
  | .request phase =>
    let out := h.runRequest a phase
    (out.1, out.2.map .request)

inductive Label where
  /-- `start_link_session` up to its lock. -/
  | startLinkSession (transferMasterKey : Bool) (psk : SecretKey) (now : UInt64)
  | cancelLinkSession
  | linkRequest (noiseInit : Bytes)
  | task (i : Nat) (a : Await)
  /-- Anything else that the device does. -/
  | other (identity : Identity) (store : LinkStore) (linkedDevices : List DeviceEntry)

def startLinkSession (transferMasterKey : Bool) (psk : SecretKey) (now : UInt64) : LinkHost C :=
  let x25519Private := C.x25519Secret (deriveTransportKey C.toKeyCrates h.identity.masterSecret 0)
  { h with
    tasks := h.tasks ++
      [.startSession ⟨h.count, psk, x25519Private, now + linkSessionTtlMs, transferMasterKey⟩]
    count := h.count + 1 }

def step : Label → Option (LinkHost C)
  | .startLinkSession transferMasterKey psk now => some (h.startLinkSession transferMasterKey psk now)
  | .cancelLinkSession => some { h with tasks := h.tasks ++ [.cancelSession] }
  | .linkRequest noiseInit => some { h with tasks := h.tasks ++ [.request (.lock noiseInit)] }
  | .task i a => h.tasks[i]?.map fun t =>
    let out := h.runTask a t
    { out.1 with tasks := Tasks.advance h.tasks i out.2 }
  | .other identity store linkedDevices => some { h with identity, store, linkedDevices }

/-- A request that nothing comes in between, to its end or as far as the awaits go. -/
def runRequests (h : LinkHost C) (phase : LinkPhase C) : List Await → LinkHost C
  | [] => h
  | a :: awaits =>
    let out := h.runRequest a phase
    match out.2 with
    | none => out.1
    | some next => runRequests out.1 next awaits

def handleLinkRequest (noiseInit : Bytes) (awaits : List Await) : LinkHost C :=
  h.runRequests (.lock noiseInit) awaits

end LinkHost
end Existing

section NewDevice

inductive ImportStatement where
  | saveProfile (profile : Profile)
  | follow (entry : SocialGraphEntry)
  | toggleBookmark (postId : String)
  | blockUser (pubkey : String)
  | muteUser (pubkey : String)
  | saveRatchetSession (session : RatchetSessionExport)
  deriving DecidableEq

def LinkBundleData.statements (bundle : LinkBundleData) : List ImportStatement :=
  bundle.profile.toList.map .saveProfile ++ bundle.follows.map .follow ++
    bundle.bookmarks.map .toggleBookmark ++ bundle.blockedUsers.map .blockUser ++
    bundle.mutedUsers.map .muteUser ++ bundle.ratchetSessions.map .saveRatchetSession

namespace LinkStore

variable (masterPubkey : String) (now : UInt64)

def toggleBookmark (postId : String) (st : LinkStore) : LinkStore :=
  if st.bookmarks.any (·.postId = postId) then
    { st with bookmarks := Table.deleteWhere (·.postId = postId) st.bookmarks }
  else { st with bookmarks := st.bookmarks ++ [(⟨postId, now.toInt64⟩ : Bookmark)] }

def saveProfile (pubkey : String) (p : Profile) (st : LinkStore) : LinkStore :=
  { st with profiles := ((⟨st.profiles, [], []⟩ : Storage).saveProfile pubkey p).profiles }

def saveRatchetSession (peerPubkey stateJson : String) (updatedAt : UInt64) (st : LinkStore) : LinkStore :=
  { st with
    sessions := Table.upsert RatchetSessionRow.peerPubkey peerPubkey
      ⟨peerPubkey, stateJson, some updatedAt.toInt64⟩
      (fun r => { r with stateJson, updatedAt := some updatedAt.toInt64 }) st.sessions }

/-- The time of a ratchet session is when it is imported. -/
def execute (st : LinkStore) : ImportStatement → LinkStore
  | .saveProfile profile => st.saveProfile masterPubkey profile
  | .follow entry => { st with graph := st.graph.follow masterPubkey entry now }
  | .toggleBookmark postId => st.toggleBookmark now postId
  | .blockUser pubkey => { st with moderation := st.moderation.blockUser pubkey now }
  | .muteUser pubkey => { st with moderation := st.moderation.muteUser pubkey now }
  | .saveRatchetSession session => st.saveRatchetSession session.peerPubkey session.stateJson now

end LinkStore

def ImportStatement.checked : ImportStatement → Bool
  | .toggleBookmark _ => false
  | _ => true

abbrev Outcomes := Nat → Bool × UInt64

/-- `import_link_bundle`, with the tables it leaves and if it succeeds. -/
def importStatements (masterPubkey : String) : Outcomes → List ImportStatement → LinkStore → LinkStore × Bool
  | _, [], st => (st, true)
  | outcome, s :: rest, st =>
    let (ok, now) := outcome 0
    if ok then importStatements masterPubkey (fun n => outcome (n + 1)) rest (st.execute masterPubkey now s)
    else if s.checked then (st, false)
    else importStatements masterPubkey (fun n => outcome (n + 1)) rest st

structure NewDevice where
  store : LinkStore
  files : DataDir

/-- How the writes of the files end; one that fails leaves the file with that content. -/
structure FileWrites where
  signingKey : Except (Option Bytes) Unit
  signingKeyIndex : Except (Option UInt32) Unit
  dmKeyIndex : Except (Option UInt32) Unit
  transportKey : Except (Option Bytes) Unit
  deviceIndex : Except (Option UInt32) Unit
  masterKey : Except (Option Bytes) Unit

def written {α : Type} (content : α) : Except (Option α) Unit → Option α
  | .ok () => some content
  | .error left => left

inductive FileWrite where
  | signingKey (content : Option Bytes)
  | signingKeyIndex (content : Option UInt32)
  | dmKeyIndex (content : Option UInt32)
  | transportKey (content : Option Bytes)
  | deviceIndex (content : Option UInt32)
  | masterKey (content : Option Bytes)
  deriving DecidableEq, Repr

def DataDir.write (f : DataDir) : FileWrite → DataDir
  | .signingKey content => { f with signingKey := content }
  | .signingKeyIndex content => { f with signingKeyIndex := content }
  | .dmKeyIndex content => { f with dmKeyIndex := content }
  | .transportKey content => { f with transportKey := content }
  | .deviceIndex content => { f with deviceIndex := content }
  | .masterKey content => { f with masterKey := content }

/-- A write and if it succeeds, unless there is no key to write. -/
abbrev FileStep := Option (FileWrite × Bool)

/-- The decoded key is written to its file; its length is not looked at. -/
def writeKey (text : String) (outcome : Except (Option Bytes) Unit) (file : Option Bytes → FileWrite) : FileStep :=
  (Base64.Engine.urlSafeNoPad.decode text).map fun bytes => (file (written bytes outcome), outcome.toBool)

def writeIndex (index : UInt32) (outcome : Except (Option UInt32) Unit) (file : Option UInt32 → FileWrite) :
    FileStep :=
  some (file (written index outcome), outcome.toBool)

/-- The writes of `link_with_device`, in order. -/
def fileSteps (bundle : LinkBundleData) (w : FileWrites) : List FileStep :=
  [writeKey bundle.signingSecretKey w.signingKey .signingKey,
    writeIndex bundle.delegation.keyIndex w.signingKeyIndex .signingKeyIndex,
    writeIndex bundle.delegation.dmKeyIndex w.dmKeyIndex .dmKeyIndex,
    writeKey bundle.transportSecretKey w.transportKey .transportKey,
    writeIndex bundle.deviceIndex w.deviceIndex .deviceIndex] ++
  bundle.masterSecretKey.toList.map fun text => writeKey text w.masterKey .masterKey

def runSteps : List FileStep → DataDir → DataDir × Bool
  | [], f => (f, true)
  | none :: _, f => (f, false)
  | some (x, ok) :: rest, f => if ok then runSteps rest (f.write x) else (f.write x, false)

/-- The bundle in the response, once the handshake is complete. -/
def receiveBundle (hs : C.Handshake) (respBytes : Bytes) : Except String LinkBundleData := do
  match ← C.responseFromSlice respBytes with
  | none => .error "unexpected response type"
  | some (noiseResponse, encryptedBundle) =>
    let transport ← C.complete hs noiseResponse
    let bundleJson ← C.decrypt transport encryptedBundle
    C.bundleFromSlice bundleJson

/-- `link_with_device` from the response on, and if it succeeds. -/
def NewDevice.linkWithDevice (d : NewDevice) (masterPubkey : String) (hs : C.Handshake) (respBytes : Bytes)
    (outcome : Outcomes) (w : FileWrites) : NewDevice × Bool :=
  match receiveBundle C hs respBytes with
  | .error _ => (d, false)
  | .ok bundle =>
    let imported := importStatements masterPubkey outcome bundle.statements d.store
    if imported.2 then
      let out := runSteps (fileSteps bundle w) d.files
      (⟨imported.1, out.1⟩, out.2)
    else (⟨imported.1, d.files⟩, false)

end NewDevice

section Examples

/-- A handshake that only looks at the length of the first message and mixes the PSK into what
follows, and a serializer that knows one bundle. -/
def plainLinks (bundle : LinkBundleData) : LinkCrates where
  toKeyCrates := Client.Author.plainKeys
  dmPublicText key := hexEncode key.toList
  x25519Secret key := key
  Transport := SecretKey
  Handshake := SecretKey
  respond _ psk ephemeral message :=
    if message.length = 96 then .ok (psk, ephemeral) else .error "input error"
  complete psk _ := .ok psk
  encrypt psk plaintext := .ok (psk.toList ++ plaintext)
  decrypt psk ciphertext :=
    if ciphertext.take 32 = psk.toList then .ok (ciphertext.drop 32) else .error "decrypt error"
  bundleToVec _ := [123]
  bundleFromSlice bytes := if bytes = [123] then .ok bundle else .error "expected value"
  responseFromSlice bytes := .ok (some (bytes.take 32, bytes.drop 32))

def emptyStore : LinkStore := ⟨[], .empty, [], .empty, []⟩

/-- The identity of a new installation with this master key. -/
def plainIdentity (bundle : LinkBundleData) (masterSecret : SecretKey) : Identity :=
  identityOf (plainLinks bundle) masterSecret ⟨none, none, none, none, none, none⟩ 0

/-- An await that succeeds. -/
def awaits (now : UInt64) : Await := ⟨true, now, List.replicate 32 7, fun _ => true, true⟩

/-- The bundle of an installation that has nothing, with keys that are written without padding. -/
def emptyBundle (masterSecret : SecretKey) : LinkBundleData :=
  let b64 := fun key : SecretKey => Base64.Engine.urlSafeNoPad.encode key.toList
  { signingSecretKey := b64 masterSecret
    dmSecretKey := b64 masterSecret
    delegation := ⟨"", "", 0, "", 0, 0, ""⟩
    transportSecretKey := b64 masterSecret
    deviceIndex := 1
    masterSecretKey := some (b64 masterSecret)
    profile := none
    follows := []
    bookmarks := []
    blockedUsers := []
    mutedUsers := []
    ratchetSessions := [] }

end Examples
end Proscenium.Link
