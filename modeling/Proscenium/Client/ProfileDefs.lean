import Proscenium.Lib.Table
import Proscenium.Types.Signing

/-! The profile table of the client and every function that writes it: the
user's own commands, and what remote peers reach through identity responses,
gossip, pushes and syncs. The tables these read to decide (cached identities
and the social graph) are part of the state; of a push or a sync only the
profile is followed. -/

namespace Proscenium.Client

open Proscenium.Types

structure ProfileRow where
  pubkey : String
  displayName : String
  bio : String
  avatarHash : Option String
  avatarTicket : Option String
  visibility : String
  signature : String
  deriving DecidableEq, Repr

structure PeerIdentityRow where
  masterPubkey : String
  signingPubkey : String
  dmPubkey : String
  delegationJson : SigningKeyDelegation
  transportNodeIds : List String
  cachedAt : Int64
  deriving DecidableEq, Repr

structure SocialRow where
  follower : String
  followee : String
  state : String
  firstSeen : Option UInt64
  deriving DecidableEq, Repr

structure Storage where
  profiles : List ProfileRow
  peerDelegations : List PeerIdentityRow
  socialGraph : List SocialRow
  deriving DecidableEq, Repr

structure IdentityResponse where
  masterPubkey : String
  delegation : SigningKeyDelegation
  transportNodeIds : List String
  profile : Option Profile
  deriving DecidableEq, Repr

/-- A push, with the number of posts and interactions it carries. -/
structure PushMessage where
  author : String
  posts : Nat
  interactions : Nat
  profile : Option Profile
  deriving DecidableEq, Repr

inductive Statement where
  | saveProfile
  | cachePeerIdentity
  | visibility
  | transportLookup
  | follower
  | follows
  | mutual
  | signingPubkey
  | upsertFollower
  deriving DecidableEq, Repr

abbrev Fails := Statement → Bool

namespace Storage

def saveProfile (pubkey : String) (p : Profile) (st : Storage) : Storage :=
  { st with
    profiles := Table.upsert ProfileRow.pubkey pubkey
      ⟨pubkey, p.displayName, p.bio, p.avatarHash, p.avatarTicket, p.visibility.toText, p.signature⟩
      (fun r => ⟨r.pubkey, p.displayName, p.bio, p.avatarHash, p.avatarTicket, p.visibility.toText,
        p.signature⟩) st.profiles }

def profileOf (st : Storage) (pubkey : String) : Option ProfileRow :=
  Table.find ProfileRow.pubkey pubkey st.profiles

def visibilityOf (row : Option ProfileRow) : Visibility :=
  (row.bind fun r => (Visibility.fromStr r.visibility).toOption).getD .isPublic

def getVisibility (st : Storage) (pubkey : String) : Visibility := visibilityOf (st.profileOf pubkey)

def cachePeerIdentity (r : IdentityResponse) (now : UInt64) (st : Storage) : Storage :=
  { st with
    peerDelegations := Table.upsert PeerIdentityRow.masterPubkey r.masterPubkey
      ⟨r.masterPubkey, r.delegation.signingPubkey, r.delegation.dmPubkey, r.delegation,
        r.transportNodeIds, now.toInt64⟩
      (fun row => ⟨row.masterPubkey, r.delegation.signingPubkey, r.delegation.dmPubkey,
        r.delegation, r.transportNodeIds, now.toInt64⟩) st.peerDelegations }

def getMasterPubkeyForTransport (transportId : String) (st : Storage) : Option String :=
  (st.peerDelegations.find? fun r => transportId ∈ r.transportNodeIds).map PeerIdentityRow.masterPubkey

def getPeerSigningPubkey (masterPubkey : String) (st : Storage) : Option String :=
  (Table.find PeerIdentityRow.masterPubkey masterPubkey st.peerDelegations).map
    PeerIdentityRow.signingPubkey

def isFollower (me pubkey : String) (st : Storage) : Bool :=
  st.socialGraph.any fun r => r.follower = pubkey ∧ r.followee = me

def isFollowing (me pubkey : String) (st : Storage) : Bool :=
  st.socialGraph.any fun r => r.follower = me ∧ r.followee = pubkey ∧ r.state = "active"

def isMutual (me pubkey : String) (st : Storage) : Bool :=
  st.isFollower me pubkey && st.isFollowing me pubkey

def getFollowers (me : String) (st : Storage) : List String :=
  (st.socialGraph.filter fun r => r.followee = me ∧ r.firstSeen.isSome).map SocialRow.follower

def getFollows (me : String) (st : Storage) : List String :=
  (st.socialGraph.filter fun r => r.follower = me ∧ r.state = "active").map SocialRow.followee

def upsertFollower (me pubkey : String) (now : UInt64) (st : Storage) : Storage :=
  { st with
    socialGraph := Table.upsert (fun r => (r.follower, r.followee)) (pubkey, me)
      ⟨pubkey, me, "active", some now⟩ id st.socialGraph }

theorem profileOf_saveProfile_self (me : String) (p : Profile) (st : Storage) :
    (st.saveProfile me p).profileOf me = some ⟨me, p.displayName, p.bio, p.avatarHash,
      p.avatarTicket, p.visibility.toText, p.signature⟩ := by
  simp only [profileOf, saveProfile]
  rw [Table.find_upsert_self ?_ ?_]
  rotate_left
  · intro _
    rfl
  · rfl
  cases hrow : Table.find ProfileRow.pubkey me st.profiles with
  | none => rfl
  | some r =>
    have hkey : r.pubkey = me := Table.key_of_find hrow
    simp [hkey]

theorem profileOf_saveProfile_of_ne {me pubkey : String} (hne : pubkey ≠ me) (p : Profile)
    (st : Storage) : (st.saveProfile pubkey p).profileOf me = st.profileOf me := by
  unfold profileOf saveProfile
  refine Table.find_upsert_of_ne ?_ ?_ hne.symm _
  · intro _
    rfl
  · rfl

theorem getVisibility_saveProfile_self (me : String) (p : Profile) (st : Storage) :
    (st.saveProfile me p).getVisibility me = p.visibility := by
  rw [getVisibility, profileOf_saveProfile_self]
  simp only [visibilityOf, Option.bind_some, Visibility.fromStr_toText]
  rfl

theorem find_cachePeerIdentity_self (i : IdentityResponse) (now : UInt64) (st : Storage) :
    Table.find PeerIdentityRow.masterPubkey i.masterPubkey
      (st.cachePeerIdentity i now).peerDelegations = some ⟨i.masterPubkey,
        i.delegation.signingPubkey, i.delegation.dmPubkey, i.delegation, i.transportNodeIds,
        now.toInt64⟩ := by
  simp only [cachePeerIdentity]
  rw [Table.find_upsert_self ?_ ?_]
  rotate_left
  · intro _
    rfl
  · rfl
  cases hrow : Table.find PeerIdentityRow.masterPubkey i.masterPubkey st.peerDelegations with
  | none => rfl
  | some r =>
    have hkey : r.masterPubkey = i.masterPubkey := Table.key_of_find hrow
    simp [hkey]

theorem find_cachePeerIdentity_of_ne {i : IdentityResponse} {masterPubkey : String}
    (hne : masterPubkey ≠ i.masterPubkey) (now : UInt64) (st : Storage) :
    Table.find PeerIdentityRow.masterPubkey masterPubkey (st.cachePeerIdentity i now).peerDelegations =
      Table.find PeerIdentityRow.masterPubkey masterPubkey st.peerDelegations := by
  refine Table.find_upsert_of_ne ?_ ?_ hne _
  · intro _
    rfl
  · rfl

def attempt (fails : Fails) (stmt : Statement) (st : Storage) (f : Storage → Storage) : Storage :=
  if fails stmt then st else f st

theorem peerDelegations_attempt {fails : Fails} {stmt : Statement} {f : Storage → Storage}
    (hf : ∀ st, (f st).peerDelegations = st.peerDelegations) (st : Storage) :
    (st.attempt fails stmt f).peerDelegations = st.peerDelegations := by
  unfold attempt
  split
  · rfl
  · exact hf st

end Storage

variable (S : SignatureCrates) (me : String) (fails : Fails)

/-- The arguments of `save_my_profile`. -/
structure ProfileRequest where
  displayName : String
  bio : String
  avatarHash : Option String
  avatarTicket : Option String
  visibility : String
  deriving DecidableEq, Repr

/-- The profile the request stands for, checked and signed with the signing key `sign`. -/
def ProfileRequest.prepare (sign : Bytes → String) (req : ProfileRequest) : Except String Profile := do
  let visibility ← Visibility.fromStr req.visibility
  let profile : Profile :=
    ⟨req.displayName, req.bio, req.avatarHash, req.avatarTicket, visibility, ""⟩
  validateProfile profile
  return { profile with signature := sign (profileSigningBytes profile) }

/-- `save_my_profile` up to its write; `transition` is the outcome of
`handle_visibility_change`. -/
def saveMyProfile (sign : Bytes → String) (req : ProfileRequest) (transition : Except String Unit)
    (st : Storage) : Except String Unit × Storage :=
  match req.prepare sign with
  | .error e => (.error e, st)
  | .ok profile =>
    let oldVisibility := if fails .visibility then .isPublic else st.getVisibility me
    match if oldVisibility ≠ profile.visibility then transition else .ok () with
    | .error e => (.error e, st)
    | .ok _ =>
      if fails .saveProfile then (.error "database error", st)
      else (.ok (), st.saveProfile me profile)

/-- The part of `import_link_bundle` that writes a profile. -/
def importLinkBundle (profile : Option Profile) (st : Storage) : Storage :=
  match profile with
  | some p => st.attempt fails .saveProfile (Storage.saveProfile me p)
  | none => st

/-- What an identity response is used for: neither the delegation nor the profile in it is
checked, and both are stored under the master key it names. -/
def storeIdentity (identity : IdentityResponse) (now : UInt64) (st : Storage) : Storage :=
  let st := st.attempt fails .cachePeerIdentity (Storage.cachePeerIdentity identity now)
  match identity.profile with
  | some p => st.attempt fails .saveProfile (Storage.saveProfile identity.masterPubkey p)
  | none => st

def resolvePeerIdentity (identity : IdentityResponse) (now : UInt64) (st : Storage) : Storage :=
  storeIdentity fails identity now st

/-- `NeighborUp` on the own feed; `none` when the identity query fails. -/
def neighborUp (transportId : String) (identity : Option IdentityResponse) (now : UInt64)
    (st : Storage) : Storage :=
  match identity with
  | some identity =>
    (storeIdentity fails identity now st).attempt fails .upsertFollower
      (Storage.upsertFollower me identity.masterPubkey now)
  | none => st.attempt fails .upsertFollower (Storage.upsertFollower me transportId now)

def resolveSigner (masterPubkey : String) (st : Storage) : Option PublicKey :=
  let cached := if fails .signingPubkey then none else st.getPeerSigningPubkey masterPubkey
  match cached.bind fun k => (S.parsePublicKey k).toOption with
  | some key => some key
  | none => (S.parsePublicKey masterPubkey).toOption

/-- Does a `ProfileUpdate` on the topic of `pk` pass the checks? -/
def gossipAccepts (pk : String) (p : Profile) (st : Storage) : Bool :=
  (validateProfile p).toBool &&
    match resolveSigner S fails pk st with
    | some signer => (verifyProfileSignature S p signer).toBool
    | none => true

def handleProfileUpdate (pk : String) (p : Profile) (st : Storage) : Storage :=
  if gossipAccepts S fails pk p st then st.attempt fails .saveProfile (Storage.saveProfile pk p)
  else st

def processSyncResult (pubkey : String) (profile : Option Profile) (st : Storage) : Storage :=
  match profile with
  | some p => st.attempt fails .saveProfile (Storage.saveProfile pubkey p)
  | none => st

def maxPushPosts : Nat := 50
def maxPushInteractions : Nat := 200

def pushSender (remote : String) (st : Storage) : String :=
  (if fails .transportLookup then none else st.getMasterPubkeyForTransport remote).getD remote

def pushAllowed (sender : String) (st : Storage) : Bool :=
  match if fails .visibility then .isPublic else st.getVisibility me with
  | .isPublic | .listed =>
    (!fails .follower && st.isFollower me sender) || (!fails .follows && st.isFollowing me sender)
  | .isPrivate => !fails .mutual && st.isMutual me sender

/-- With no usable signing key cached the profile is let through. -/
def pushSignerOk (sender : String) (p : Profile) (st : Storage) : Bool :=
  match if fails .signingPubkey then none else st.getPeerSigningPubkey sender with
  | some signingPubkey =>
    match S.parsePublicKey signingPubkey with
    | .ok key => (verifyProfileSignature S p key).toBool
    | .error _ => true
  | none => true

/-- The profile a push makes `handle_push` store, if it passes every check. -/
def pushedProfile (remote : String) (msg : PushMessage) (st : Storage) : Option Profile :=
  let sender := pushSender fails remote st
  if msg.author = sender ∧ pushAllowed me fails sender st = true ∧ msg.posts ≤ maxPushPosts ∧
      msg.interactions ≤ maxPushInteractions then
    msg.profile.filter fun p => (validateProfile p).toBool && pushSignerOk S fails sender p st
  else none

def handlePush (remote : String) (msg : PushMessage) (st : Storage) : Storage :=
  match pushedProfile S me fails remote msg st with
  | some p => st.attempt fails .saveProfile (Storage.saveProfile (pushSender fails remote st) p)
  | none => st

end Proscenium.Client
