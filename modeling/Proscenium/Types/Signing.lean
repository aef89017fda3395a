import Proscenium.Lib.Checks
import Proscenium.Lib.Json

/-! Signed objects of `proscenium-types`: a profile, a delegation of a signing
key by a master key, and the registration request signed by that signing key.
Ed25519 and the hex decoder are parameters. -/

namespace Proscenium.Types

abbrev Bytes := List UInt8

abbrev PublicKey := Vector UInt8 32

abbrev Signature := Vector UInt8 64

/-- What is used of `iroh` and `hex`; errors are given by their display text. -/
structure SignatureCrates where
  parsePublicKey : String → Except String PublicKey
  hexDecode : String → Except String Bytes
  verify : PublicKey → Bytes → Signature → Bool

inductive Visibility where
  | isPublic
  | listed
  | isPrivate
  deriving DecidableEq, Repr

def Visibility.toText : Visibility → String
  | .isPublic => "public"
  | .listed => "listed"
  | .isPrivate => "private"

def Visibility.fromStr (s : String) : Except String Visibility :=
  if s = "public" then .ok .isPublic
  else if s = "listed" then .ok .listed
  else if s = "private" then .ok .isPrivate
  else .error ("unknown visibility: " ++ s)

theorem Visibility.fromStr_toText (v : Visibility) : fromStr v.toText = .ok v := by
  cases v <;> rfl

structure Profile where
  displayName : String
  bio : String
  avatarHash : Option String
  avatarTicket : Option String
  visibility : Visibility
  signature : String
  deriving DecidableEq, Repr

structure SigningKeyDelegation where
  masterPubkey : String
  signingPubkey : String
  keyIndex : UInt32
  dmPubkey : String
  dmKeyIndex : UInt32
  issuedAt : UInt64
  signature : String
  deriving DecidableEq, Repr

structure RegistrationRequest where
  masterPubkey : String
  transportNodeId : String
  serverUrl : String
  timestamp : UInt64
  visibility : Visibility
  action : Option String
  signature : String
  delegation : SigningKeyDelegation
  deriving DecidableEq, Repr

variable (S : SignatureCrates)

def hexToSignature (hexStr : String) : Except String Signature :=
  if hexStr.utf8ByteSize ≠ 128 then
    .error ("invalid signature hex length: " ++ toString hexStr.utf8ByteSize)
  else
    match S.hexDecode hexStr with
    | .error e => .error ("invalid hex: " ++ e)
    | .ok bytes =>
      if h : bytes.length = 64 then .ok ⟨bytes.toArray, h⟩ else .error "invalid signature length"

def optionStr (o : Option String) : Json.Scalar := o.elim .null .str

def delegationSigningBytes (d : SigningKeyDelegation) : Bytes :=
  Json.toVec [("master_pubkey", .str d.masterPubkey), ("signing_pubkey", .str d.signingPubkey),
    ("key_index", .num d.keyIndex.toNat), ("dm_pubkey", .str d.dmPubkey),
    ("dm_key_index", .num d.dmKeyIndex.toNat), ("issued_at", .num d.issuedAt.toNat)]

def registrationSigningBytes (r : RegistrationRequest) : Bytes :=
  Json.toVec [("action", optionStr r.action), ("master_pubkey", .str r.masterPubkey),
    ("server_url", .str r.serverUrl), ("timestamp", .num r.timestamp.toNat),
    ("transport_node_id", .str r.transportNodeId), ("visibility", .str r.visibility.toText)]

def profileSigningBytes (p : Profile) : Bytes :=
  Json.toVec [("display_name", .str p.displayName), ("bio", .str p.bio),
    ("avatar_hash", optionStr p.avatarHash), ("avatar_ticket", optionStr p.avatarTicket),
    ("visibility", .str p.visibility.toText)]

def verifyProfileSignature (p : Profile) (signerPubkey : PublicKey) : Except String Unit := do
  let sig ← hexToSignature S p.signature
  if S.verify signerPubkey (profileSigningBytes p) sig then .ok ()
  else .error "profile signature verification failed"

def maxDisplayNameLen : Nat := 200
def maxBioLen : Nat := 2000

def validateProfile (p : Profile) : Except String Unit :=
  if p.displayName.utf8ByteSize > maxDisplayNameLen then
    .error ("display name too long: " ++ toString p.displayName.utf8ByteSize ++ " bytes (max " ++
      toString maxDisplayNameLen ++ ")")
  else if p.bio.utf8ByteSize > maxBioLen then
    .error ("bio too long: " ++ toString p.bio.utf8ByteSize ++ " bytes (max " ++
      toString maxBioLen ++ ")")
  else .ok ()

def verifyDelegation (d : SigningKeyDelegation) : Except String Unit := do
  let sig ← hexToSignature S d.signature
  let masterPubkey ← Except.mapError ("invalid master pubkey: " ++ ·) (S.parsePublicKey d.masterPubkey)
  let _ ← Except.mapError ("invalid signing pubkey: " ++ ·) (S.parsePublicKey d.signingPubkey)
  if S.verify masterPubkey (delegationSigningBytes d) sig then .ok ()
  else .error "delegation signature verification failed"

theorem verifyDelegation_eq_ok {S : SignatureCrates} {d : SigningKeyDelegation} :
    verifyDelegation S d = .ok () ↔ ∃ (sig : Signature) (master signing : PublicKey),
      hexToSignature S d.signature = .ok sig ∧ S.parsePublicKey d.masterPubkey = .ok master ∧
      S.parsePublicKey d.signingPubkey = .ok signing ∧
      S.verify master (delegationSigningBytes d) sig = true := by
  unfold verifyDelegation
  simp only [Checks.bind_eq_ok, Checks.mapError_eq_ok, Checks.accept_eq_ok]
  constructor
  · rintro ⟨sig, hsig, master, hmaster, signing, hsigning, hver⟩
    exact ⟨sig, master, signing, hsig, hmaster, hsigning, hver⟩
  · rintro ⟨sig, master, signing, hsig, hmaster, hsigning, hver⟩
    exact ⟨sig, hsig, master, hmaster, signing, hsigning, hver⟩

/-- The signing key is taken from the delegation; the delegation itself is not looked at. -/
def verifyRegistrationSignature (r : RegistrationRequest) : Except String Unit := do
  let sig ← hexToSignature S r.signature
  let signingPubkey ← Except.mapError ("invalid signing pubkey in delegation: " ++ ·)
    (S.parsePublicKey r.delegation.signingPubkey)
  if S.verify signingPubkey (registrationSigningBytes r) sig then .ok ()
  else .error "registration signature verification failed"

end Proscenium.Types
