import Proscenium.Lib.Table
import Proscenium.Types.Signing

/-! The registration endpoints of the discovery server (`server/src/api/auth.rs`)
over the tables of `server/src/storage.rs` they write. A clock is read in
several places and every statement may fail, so both are inputs of a call. A
stored `delegation_json` is the delegation it is the text of. -/

namespace Proscenium.Server

open Proscenium.Types

structure Registration where
  pubkey : String
  registeredAt : Int64
  lastSeen : Int64
  displayName : Option String
  bio : Option String
  avatarHash : Option String
  visibility : String
  isActive : Int
  transportNodeId : Option String
  delegationJson : Option SigningKeyDelegation
  deriving DecidableEq, Repr

structure PeerDelegation where
  masterPubkey : String
  signingPubkey : String
  delegationJson : SigningKeyDelegation
  transportNodeId : Option String
  cachedAt : Int64
  deriving DecidableEq, Repr

/-- A row of `posts` or of `interactions`, as far as these endpoints look at it. -/
structure Authored where
  author : String
  id : String
  deriving DecidableEq, Repr

structure SyncState where
  pubkey : String
  lastPostTimestamp : Option Int64
  deriving DecidableEq, Repr

structure Storage where
  registrations : List Registration
  peerDelegations : List PeerDelegation
  posts : List Authored
  interactions : List Authored
  syncState : List SyncState
  deriving DecidableEq, Repr

structure ServerConfig where
  publicUrl : String
  registrationOpen : Bool
  deriving DecidableEq, Repr

inductive Statement where
  | getRegistration
  | registerUser
  | cachePeerDelegation
  | deleteInteractions
  | deletePosts
  | deleteSyncState
  | deactivate
  | updateProfile
  | delegatedNode
  | registeredNode
  deriving DecidableEq, Repr

/-- What a call does not decide: the clock where it is read, which statements
fail with which text, which texts are node ids, and whether a new gossip
subscription succeeds. -/
structure Env where
  nowValidate : UInt64
  nowRegister : UInt64
  nowStore : UInt64
  nowCache : UInt64
  fails : Statement → Option String
  parsesNodeId : String → Bool
  subscribes : Bool

structure ServerState where
  storage : Storage
  subscriptions : List String
  deriving DecidableEq, Repr

inductive StatusCode where
  | ok
  | created
  | badRequest
  | forbidden
  | notFound
  | internalServerError
  deriving DecidableEq, Repr

structure RegisterResponse where
  pubkey : String
  registeredAt : UInt64
  message : String
  deriving DecidableEq, Repr

structure ProfileUpdateRequest where
  masterPubkey : String
  transportNodeId : String
  serverUrl : String
  timestamp : UInt64
  visibility : String
  displayName : Option String
  bio : Option String
  avatarHash : Option String
  signature : String
  delegation : SigningKeyDelegation
  deriving DecidableEq, Repr

abbrev Reply (α : Type) := Except (StatusCode × String) α × ServerState

namespace Storage

variable (env : Env)

def run (stmt : Statement) (st : Storage) (f : Storage → Storage) : Except String Unit × Storage :=
  match env.fails stmt with
  | some e => (.error e, st)
  | none => (.ok (), f st)

def cachePeerDelegation (masterPubkey signingPubkey : String) (delegation : SigningKeyDelegation)
    (transportNodeId : Option String) (st : Storage) : Except String Unit × Storage :=
  let now := env.nowCache.toInt64
  run env .cachePeerDelegation st fun st => { st with
    peerDelegations := Table.upsert PeerDelegation.masterPubkey masterPubkey
      ⟨masterPubkey, signingPubkey, delegation, transportNodeId, now⟩
      (fun r => { r with
        signingPubkey := signingPubkey
        delegationJson := delegation
        transportNodeId := transportNodeId <|> r.transportNodeId
        cachedAt := now }) st.peerDelegations }

def upsertRegistration (pubkey visibility : String) (profile : Option Profile)
    (transportNodeId : Option String) (delegation : Option SigningKeyDelegation) (st : Storage) :
    Storage :=
  let now := env.nowStore.toInt64
  let displayName := profile.map Profile.displayName
  let bio := profile.map Profile.bio
  let avatarHash := profile.bind Profile.avatarHash
  { st with
    registrations := Table.upsert Registration.pubkey pubkey
      { pubkey, registeredAt := now, lastSeen := now, displayName, bio, avatarHash, visibility,
        isActive := 1, transportNodeId, delegationJson := delegation }
      (fun r => { r with
        lastSeen := now
        displayName := displayName <|> r.displayName
        bio := bio <|> r.bio
        avatarHash := avatarHash <|> r.avatarHash
        visibility := visibility
        isActive := 1
        transportNodeId := transportNodeId <|> r.transportNodeId
        delegationJson := delegation <|> r.delegationJson }) st.registrations }

def registerUser (pubkey visibility : String) (profile : Option Profile)
    (transportNodeId : Option String) (delegation : Option SigningKeyDelegation) (st : Storage) :
    Except String Unit × Storage :=
  match run env .registerUser st
      (upsertRegistration env pubkey visibility profile transportNodeId delegation) with
  | (.error e, st) => (.error e, st)
  | (.ok _, st) =>
    match delegation, transportNodeId with
    -- the outcome of caching is dropped
    | some d, some node => (.ok (), (cachePeerDelegation env pubkey d.signingPubkey d (some node) st).2)
    | _, _ => (.ok (), st)

def getRegistration (pubkey : String) (st : Storage) : Except String (Option Registration) :=
  match env.fails .getRegistration with
  | some e => .error e
  | none => .ok (st.registrations.find? fun r => r.pubkey = pubkey ∧ r.isActive = 1)

def deleteInteractions (pubkey : String) (st : Storage) : Storage :=
  { st with interactions := Table.deleteWhere (·.author = pubkey) st.interactions }

def deletePosts (pubkey : String) (st : Storage) : Storage :=
  { st with posts := Table.deleteWhere (·.author = pubkey) st.posts }

def deleteSyncState (pubkey : String) (st : Storage) : Storage :=
  { st with syncState := Table.deleteWhere (·.pubkey = pubkey) st.syncState }

def deactivate (pubkey : String) (st : Storage) : Storage :=
  { st with
    registrations := Table.updateWhere (·.pubkey = pubkey) (fun r => { r with isActive := 0 })
      st.registrations }

/-- Four statements without a transaction: what ran before a failure stays. -/
def unregisterUser (pubkey : String) (st : Storage) : Except String Unit × Storage :=
  match run env .deleteInteractions st (deleteInteractions pubkey) with
  | (.error e, st) => (.error e, st)
  | (.ok _, st) =>
    match run env .deletePosts st (deletePosts pubkey) with
    | (.error e, st) => (.error e, st)
    | (.ok _, st) =>
      match run env .deleteSyncState st (deleteSyncState pubkey) with
      | (.error e, st) => (.error e, st)
      | (.ok _, st) => run env .deactivate st (deactivate pubkey)

/-- `true` when a row was updated. -/
def updateProfile (pubkey : String) (profile : Profile) (st : Storage) :
    Except String Bool × Storage :=
  match env.fails .updateProfile with
  | some e => (.error e, st)
  | none =>
    (.ok (st.registrations.any fun r => r.pubkey = pubkey ∧ r.isActive = 1),
      { st with
        registrations := Table.updateWhere (fun r => r.pubkey = pubkey ∧ r.isActive = 1)
          (fun r => { r with
            displayName := some profile.displayName
            bio := some profile.bio
            avatarHash := profile.avatarHash
            visibility := profile.visibility.toText
            lastSeen := env.nowStore.toInt64 }) st.registrations })

/-- The delegation that is cached comes first, then the registration. -/
def getTransportNodeId (masterPubkey : String) (st : Storage) : Except String (Option String) :=
  match env.fails .delegatedNode with
  | some e => .error e
  | none =>
    match (Table.find PeerDelegation.masterPubkey masterPubkey st.peerDelegations).bind
        PeerDelegation.transportNodeId with
    | some nodeId => .ok (some nodeId)
    | none =>
      match env.fails .registeredNode with
      | some e => .error e
      | none => .ok ((st.registrations.find? fun r => r.pubkey = masterPubkey ∧ r.isActive = 1).bind
          Registration.transportNodeId)

def bootstrap (pubkey : String) (st : Storage) : List String :=
  match st.getTransportNodeId env pubkey with
  | .ok (some nodeId) => if env.parsesNodeId nodeId then [nodeId] else []
  | _ => []

end Storage

variable (S : SignatureCrates) (config : ServerConfig) (env : Env)

def timestampToleranceMs : Nat := 5 * 60 * 1000

def absDiff (a b : UInt64) : Nat := max a.toNat b.toNat - min a.toNat b.toNat

def validateRegistration (req : RegistrationRequest) : Except (StatusCode × String) Unit :=
  match verifyRegistrationSignature S req with
  | .error e => .error (.badRequest, "invalid signature: " ++ e)
  | .ok _ =>
    if absDiff req.timestamp env.nowValidate > timestampToleranceMs then
      .error (.badRequest, "timestamp too far from server time")
    else if req.serverUrl ≠ config.publicUrl then .error (.badRequest, "server_url mismatch")
    else if req.visibility = .isPrivate then
      .error (.forbidden, "private users cannot register with servers")
    else if !config.registrationOpen then .error (.forbidden, "registration is closed")
    else .ok ()

/-- `subscribe` does nothing for a known topic, and fails without a node to join through; its failure is
only logged. -/
def subscribe (pubkey : String) (srv : ServerState) : ServerState :=
  if srv.subscriptions.contains pubkey then srv
  else if (srv.storage.bootstrap env pubkey).isEmpty then srv
  else if env.subscribes then { srv with subscriptions := pubkey :: srv.subscriptions }
  else srv

def unsubscribe (pubkey : String) (srv : ServerState) : ServerState :=
  { srv with subscriptions := srv.subscriptions.filter (· ≠ pubkey) }

def register (req : RegistrationRequest) (srv : ServerState) :
    Reply (StatusCode × RegisterResponse) :=
  if req.action = some "unregister" then
    (.error (.badRequest, "use DELETE endpoint for unregistration"), srv)
  else
    match validateRegistration S config env req with
    | .error e => (.error e, srv)
    | .ok _ =>
      let stored := srv.storage.registerUser env req.masterPubkey req.visibility.toText none
        (some req.transportNodeId) (some req.delegation)
      let srv' := { srv with storage := stored.2 }
      match srv.storage.getRegistration env req.masterPubkey with
      -- a failed lookup counts as not registered
      | .ok (some existing) =>
        match stored.1 with
        | .error e => (.error (.internalServerError, "failed to update registration: " ++ e), srv')
        | .ok _ => (.ok (.ok, ⟨req.masterPubkey, existing.registeredAt.toUInt64,
            "registration updated"⟩), srv')
      | _ =>
        match stored.1 with
        | .error e => (.error (.internalServerError, "failed to register: " ++ e), srv')
        | .ok _ =>
          (.ok (.created, ⟨req.masterPubkey, env.nowRegister, "registered successfully"⟩),
            if req.visibility = .isPublic then subscribe env req.masterPubkey srv' else srv')

def unregister (req : RegistrationRequest) (srv : ServerState) : Reply String :=
  if req.action ≠ some "unregister" then
    (.error (.badRequest, "action must be 'unregister'"), srv)
  else
    match verifyRegistrationSignature S req with
    | .error e => (.error (.badRequest, "invalid signature: " ++ e), srv)
    | .ok _ =>
      let srv := unsubscribe req.masterPubkey srv
      let out := srv.storage.unregisterUser env req.masterPubkey
      let srv := { srv with storage := out.2 }
      match out.1 with
      | .error e => (.error (.internalServerError, "failed to unregister: " ++ e), srv)
      | .ok _ => (.ok "unregistered successfully", srv)

/-- The request that is verified in place of a profile update: the profile itself
is not part of it. -/
def ProfileUpdateRequest.registration (req : ProfileUpdateRequest) (visibility : Visibility) :
    RegistrationRequest :=
  { masterPubkey := req.masterPubkey
    transportNodeId := req.transportNodeId
    serverUrl := req.serverUrl
    timestamp := req.timestamp
    visibility := visibility
    action := none
    signature := req.signature
    delegation := req.delegation }

def updateProfile (req : ProfileUpdateRequest) (srv : ServerState) : Reply String :=
  match Visibility.fromStr req.visibility with
  | .error _ => (.error (.badRequest, "invalid visibility"), srv)
  | .ok visibility =>
    match verifyRegistrationSignature S (req.registration visibility) with
    | .error e => (.error (.badRequest, "invalid signature: " ++ e), srv)
    | .ok _ =>
      let profile : Profile :=
        ⟨req.displayName.getD "", req.bio.getD "", req.avatarHash, none, visibility, ""⟩
      let out := srv.storage.updateProfile env req.masterPubkey profile
      let srv := { srv with storage := out.2 }
      match out.1 with
      | .error e => (.error (.internalServerError, "failed to update profile: " ++ e), srv)
      | .ok updated =>
        if updated then (.ok "profile updated", srv)
        else (.error (.notFound, "user not registered"), srv)

end Proscenium.Server
