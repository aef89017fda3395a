import Proscenium.Types.Content

/-! What ties the keys of a user together: the rotation of a signing key, the
list of linked devices and the follow request, each with its signature and with
the delegation that it carries. -/

namespace Proscenium.Types

structure DeviceEntry where
  nodeId : String
  deviceName : String
  isPrimary : Bool
  addedAt : UInt64
  deriving DecidableEq, Repr

structure LinkedDevicesAnnouncement where
  masterPubkey : String
  delegation : SigningKeyDelegation
  devices : List DeviceEntry
  version : UInt64
  timestamp : UInt64
  signature : String
  deriving DecidableEq, Repr

structure SigningKeyRotation where
  masterPubkey : String
  oldSigningPubkey : String
  newSigningPubkey : String
  newKeyIndex : UInt32
  timestamp : UInt64
  signature : String
  newDelegation : SigningKeyDelegation
  deriving DecidableEq, Repr

structure FollowRequest where
  requester : String
  timestamp : UInt64
  signature : String
  delegation : SigningKeyDelegation
  deriving DecidableEq, Repr

/-- The messages on the feed of a user; the ones about stages and the heartbeat are one. -/
inductive GossipMessage where
  | newPost (p : Post)
  | deletePost (id author signature : String)
  | newInteraction (i : Interaction)
  | deleteInteraction (id author signature : String)
  | profileUpdate (profile : Profile)
  | linkedDevices (a : LinkedDevicesAnnouncement)
  | signingKeyRotation (rotation : SigningKeyRotation)
  | other
  deriving DecidableEq, Repr

def deviceFields (d : DeviceEntry) : List (String × Json.Atom) :=
  [("node_id", .scalar (.str d.nodeId)), ("device_name", .scalar (.str d.deviceName)),
    ("is_primary", .bool d.isPrimary), ("added_at", .scalar (.num d.addedAt.toNat))]

def linkedDevicesSigningBytes (a : LinkedDevicesAnnouncement) : Bytes :=
  Json.entriesToVec [("master_pubkey", .atom (.scalar (.str a.masterPubkey))),
    ("devices", .objects (a.devices.map deviceFields)),
    ("version", .atom (.scalar (.num a.version.toNat))),
    ("timestamp", .atom (.scalar (.num a.timestamp.toNat)))]

def rotationSigningBytes (r : SigningKeyRotation) : Bytes :=
  Json.toVec [("action", .str "signing_key_rotation"), ("master_pubkey", .str r.masterPubkey),
    ("old_signing_pubkey", .str r.oldSigningPubkey), ("new_signing_pubkey", .str r.newSigningPubkey),
    ("new_key_index", .num r.newKeyIndex.toNat), ("timestamp", .num r.timestamp.toNat)]

def followRequestSigningBytes (requester : String) (timestamp : UInt64) : Bytes :=
  Json.toVec [("requester", .str requester), ("timestamp", .num timestamp.toNat)]

variable (S : SignatureCrates)

def verifyRotation (r : SigningKeyRotation) : Except String Unit := do
  let sig ← hexToSignature S r.signature
  let masterPubkey ← Except.mapError ("invalid master pubkey: " ++ ·) (S.parsePublicKey r.masterPubkey)
  if ¬ S.verify masterPubkey (rotationSigningBytes r) sig then
    .error "rotation signature verification failed"
  else
    verifyDelegation S r.newDelegation
    if r.newDelegation.masterPubkey ≠ r.masterPubkey then
      .error "rotation delegation master_pubkey mismatch"
    else if r.newDelegation.signingPubkey ≠ r.newSigningPubkey then
      .error "rotation delegation signing_pubkey mismatch"
    else if r.newDelegation.keyIndex ≠ r.newKeyIndex then
      .error "rotation delegation key_index mismatch"
    else .ok ()

def verifyLinkedDevicesAnnouncement (a : LinkedDevicesAnnouncement) : Except String Unit := do
  verifyDelegation S a.delegation
  if a.delegation.masterPubkey ≠ a.masterPubkey then
    .error "announcement master_pubkey does not match delegation"
  else
    let signer ← Except.mapError ("invalid signing pubkey in delegation: " ++ ·)
      (S.parsePublicKey a.delegation.signingPubkey)
    verifySigned S "linked devices announcement" (linkedDevicesSigningBytes a) a.signature signer

theorem verifyRotation_delegation {r : SigningKeyRotation} (h : verifyRotation S r = .ok ()) :
    verifyDelegation S r.newDelegation = .ok () ∧ r.newDelegation.masterPubkey = r.masterPubkey ∧
      r.newDelegation.keyIndex = r.newKeyIndex := by
  unfold verifyRotation at h
  simp only [Checks.bind_eq_ok, Checks.reject_eq_ok, Decidable.not_not] at h
  obtain ⟨sig, -, master, -, -, ⟨⟩, hdelegation, hmaster, -, hindex, -⟩ := h
  exact ⟨hdelegation, hmaster, hindex⟩

theorem verifyLinkedDevicesAnnouncement_eq_ok {a : LinkedDevicesAnnouncement} :
    verifyLinkedDevicesAnnouncement S a = .ok () ↔ verifyDelegation S a.delegation = .ok () ∧
      a.delegation.masterPubkey = a.masterPubkey ∧ ∃ signer,
        S.parsePublicKey a.delegation.signingPubkey = .ok signer ∧
        verifySigned S "linked devices announcement" (linkedDevicesSigningBytes a) a.signature
          signer = .ok () := by
  unfold verifyLinkedDevicesAnnouncement
  simp only [Checks.bind_eq_ok, Checks.mapError_eq_ok, Checks.reject_eq_ok, Decidable.not_not]
  constructor
  · rintro ⟨⟨⟩, hdelegation, hmaster, signer⟩
    exact ⟨hdelegation, hmaster, signer⟩
  · rintro ⟨hdelegation, hmaster, signer⟩
    exact ⟨(), hdelegation, hmaster, signer⟩

def verifyFollowRequest (r : FollowRequest) (signerPubkey : PublicKey) : Except String Unit :=
  verifySigned S "follow request" (followRequestSigningBytes r.requester r.timestamp) r.signature
    signerPubkey

end Proscenium.Types
