import Proscenium.Types.Signing

/-! The authentication of the mixed audio of a stage (`stage/auth.rs`). The host
chains the hashes of its frames and signs the chain at every checkpoint; a
listener follows the chain from the first checkpoint it gets. SHA-256 and
Ed25519 are parameters. -/

namespace Proscenium.Stage

open Proscenium.Types

abbrev Hash := Vector UInt8 32

abbrev SecretKey := Vector UInt8 32

/-- What is used of `sha2` and `iroh`. -/
structure AuthCrates where
  sha256 : Bytes → Hash
  publicKey : SecretKey → PublicKey
  sign : SecretKey → Bytes → Signature
  verify : PublicKey → Bytes → Signature → Bool

def tagNormal : UInt8 := 0x00

def tagCheckpoint : UInt8 := 0x01

def checkpointInterval : UInt64 := 50

def checkpointExtra : Nat := 96

def zeroHash : Hash := Vector.replicate 32 0

structure HostAuthState where
  chainHash : Hash
  sequence : UInt64
  signingKey : SecretKey
  deriving DecidableEq, Repr

inductive AuthResult where
  | ok
  | unverified
  | verified
  | tamperDetected
  | invalidSignature
  deriving DecidableEq, Repr

structure ListenerAuthState where
  chainHash : Hash
  verified : Bool
  compromised : Bool
  hostPubkey : PublicKey
  deriving DecidableEq, Repr

/-- A frame as `verify_frame` gets it. -/
structure Frame where
  opus : Bytes
  tag : UInt8
  checkpoint : Option (Hash × Signature)
  deriving DecidableEq, Repr

def decodeCheckpointPayload (payload : Bytes) : Except String (Hash × Signature × Bytes) :=
  if h : payload.length < checkpointExtra then
    .error ("checkpoint payload too short: " ++ toString payload.length ++ " bytes")
  else
    .ok (⟨(payload.take 32).toArray, by simp only [checkpointExtra] at h; simp; omega⟩,
      ⟨((payload.drop 32).take 64).toArray, by simp only [checkpointExtra] at h; simp; omega⟩,
      payload.drop 96)

variable (C : AuthCrates)

/-- `SHA256(chain_hash ‖ opus)`. -/
def extendChain (chainHash : Hash) (opus : Bytes) : Hash := C.sha256 (chainHash.toList ++ opus)

namespace HostAuthState

def new (signingKey : SecretKey) : HostAuthState := ⟨zeroHash, 0, signingKey⟩

/-- The tag and the payload that go on the wire. -/
def process (opus : Bytes) (s : HostAuthState) : (UInt8 × Bytes) × HostAuthState :=
  let chainHash := extendChain C s.chainHash opus
  let sequence := s.sequence + 1
  let wire :=
    if sequence % checkpointInterval = 0 then
      let sig := C.sign s.signingKey chainHash.toList
      (tagCheckpoint, chainHash.toList ++ sig.toList ++ opus)
    else (tagNormal, opus)
  (wire, { s with chainHash, sequence })

def stream (s : HostAuthState) : List Bytes → List (UInt8 × Bytes)
  | [] => []
  | opus :: rest => (s.process C opus).1 :: stream (s.process C opus).2 rest

end HostAuthState

namespace ListenerAuthState

def new (hostPubkey : PublicKey) : ListenerAuthState := ⟨zeroHash, false, false, hostPubkey⟩

def verifyFrame (f : Frame) (s : ListenerAuthState) : AuthResult × ListenerAuthState :=
  if s.compromised then (.tamperDetected, s)
  else if !s.verified then
    match f.checkpoint with
    | none => (.unverified, s)
    -- the hash is adopted; the payload of the frame is not looked at
    | some (wireHash, wireSig) =>
      if C.verify s.hostPubkey wireHash.toList wireSig then
        (.verified, { s with chainHash := wireHash, verified := true })
      else (.invalidSignature, { s with compromised := true })
  else
    let s := { s with chainHash := extendChain C s.chainHash f.opus }
    if f.tag = tagNormal then (.ok, s)
    else
      match f.checkpoint with
      | none => (.ok, s)
      | some (wireHash, wireSig) =>
        if s.chainHash ≠ wireHash then (.tamperDetected, { s with compromised := true })
        else if C.verify s.hostPubkey wireHash.toList wireSig then (.verified, s)
        else (.invalidSignature, { s with compromised := true })

end ListenerAuthState

def splitWire (tag : UInt8) (payload : Bytes) : Except String Frame :=
  if tag = tagCheckpoint then
    (decodeCheckpointPayload payload).map fun (hash, sig, opus) => ⟨opus, tag, some (hash, sig)⟩
  else .ok ⟨payload, tag, none⟩

/-- `run_listener_once`, as far as it is about authentication: the results of `verify_frame`,
and the reason of the `AuthFailed` event if one ended the loop. -/
def runListener (s : ListenerAuthState) : List (UInt8 × Bytes) → List AuthResult × Option String
  | [] => ([], none)
  | (tag, payload) :: rest =>
    match splitWire tag payload with
    | .error _ => runListener s rest
    | .ok f =>
      match s.verifyFrame C f with
      | (.tamperDetected, _) => ([.tamperDetected], some "tamper_detected")
      | (.invalidSignature, _) => ([.invalidSignature], some "invalid_signature")
      | (result, s) => (result :: (runListener s rest).1, (runListener s rest).2)

/-- The host's counter after `n` frames is at a checkpoint. -/
def isCheckpoint (n : Nat) : Bool := UInt64.ofNat n % checkpointInterval = 0

def AuthCrates.Verifies (key : SecretKey) : Prop :=
  ∀ hash : Hash, C.verify (C.publicKey key) hash.toList (C.sign key hash.toList) = true

end Proscenium.Stage
