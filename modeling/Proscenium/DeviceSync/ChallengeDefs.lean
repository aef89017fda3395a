import Proscenium.Lib.Machine
import Proscenium.Types.Signing

/-! The challenge exchange that opens a device sync. The devices of one user
hold its signing key; the attacker opens connections of its own to them, is
connected to when its node is taken for a device, and sends what it likes.
A connection is authenticated by its transport, so what is read on it was
written by its other end. What the devices replicate is left open. -/

namespace Proscenium.DeviceSync

open Proscenium.Types

section Challenge

def deviceSyncChallengeSigningBytes (challenge : Bytes) : Bytes :=
  "proscenium-device-sync-v1:".toUTF8.toList ++ challenge

def signDeviceSyncChallenge (sign : Bytes → String) (challenge : Bytes) : String :=
  sign (deviceSyncChallengeSigningBytes challenge)

def verifyDeviceSyncChallenge (S : SignatureCrates) (challenge : Bytes) (signature : String)
    (signerPubkey : PublicKey) : Except String Unit := do
  let sig ← hexToSignature S signature
  if S.verify signerPubkey (deviceSyncChallengeSigningBytes challenge) sig then .ok ()
  else .error "device sync challenge verification failed"

end Challenge

/-- A store `σ` with the vectors `V` that summarise it and the frames `F` that carry a part of
it; `import_deltas` may stop at a frame it cannot store. -/
structure Replica (σ V F : Type) where
  buildDeviceSyncVector : σ → V
  sendDeltas : σ → V → V → List F
  importDeltas : σ → List F → σ

inductive Party where
  | device (id : Nat)
  | attacker
  deriving DecidableEq, Repr

structure DeviceSyncRequest (V : Type) where
  challenge : Bytes
  challengeSig : String
  vector : V
  deriving DecidableEq, Repr

inductive PeerResponse (V : Type) where
  | deviceSyncAccepted (challengeResponse : String) (vector : V)
  | other
  deriving DecidableEq, Repr

structure Connection (V F : Type) where
  initiator : Party
  responder : Party
  request : DeviceSyncRequest V
  response : Option (PeerResponse V)
  responderFrames : List F
  initiatorFrames : List F
  /-- The outcome of the verification in `handle_device_sync`, once it has run. -/
  responderCheck : Option (Except String Unit)
  /-- The outcome of the verification in `sync_with_device`, once it has run. -/
  initiatorCheck : Option (Except String Unit)
  deriving DecidableEq

structure Network (σ V F : Type) where
  stores : List σ
  connections : List (Connection V F)
  deriving DecidableEq

inductive Label (σ V F : Type) where
  | syncWithDevice (device : Nat) (target : Party) (challenge : Vector UInt8 32)
  | attackerRequest (device : Nat) (request : DeviceSyncRequest V)
  | handleDeviceSync (i : Nat)
  | attackerResponse (i : Nat) (response : PeerResponse V) (frames : List F)
  | readResponse (i : Nat)
  | attackerFrames (i : Nat) (frames : List F)
  | importDeltas (i : Nat)
  | edit (device : Nat) (store : σ)

namespace Connection

variable {σ V F : Type}

def opened (initiator responder : Party) (request : DeviceSyncRequest V) : Connection V F :=
  ⟨initiator, responder, request, none, [], [], none, none⟩

variable (S : SignatureCrates) (sign : Bytes → String) (signingPubkey : PublicKey)
  (R : Replica σ V F)

/-- `handle_device_sync` until its deltas are sent. -/
def handleDeviceSync (store : σ) (c : Connection V F) : Connection V F :=
  match verifyDeviceSyncChallenge S c.request.challenge c.request.challengeSig signingPubkey with
  | .error _ => { c with responderCheck := some (.error "challenge verification failed") }
  | .ok () =>
    let ourVector := R.buildDeviceSyncVector store
    { c with
      responderCheck := some (.ok ())
      response := some (.deviceSyncAccepted
        (signDeviceSyncChallenge sign c.request.challenge) ourVector)
      responderFrames := R.sendDeltas store ourVector c.request.vector }

/-- The rest of `sync_with_device` from the response on. -/
def readResponse (store : σ) (c : Connection V F) : PeerResponse V → σ × Connection V F
  | .other => (store, { c with
      initiatorCheck := some (.error "unexpected response type for device sync") })
  | .deviceSyncAccepted challengeResponse peerVector =>
    match verifyDeviceSyncChallenge S c.request.challenge challengeResponse signingPubkey with
    | .error reason => (store, { c with
        initiatorCheck := some (.error ("peer failed challenge: " ++ reason)) })
    | .ok () =>
      let imported := R.importDeltas store c.responderFrames
      (imported, { c with
        initiatorCheck := some (.ok ())
        initiatorFrames := R.sendDeltas imported c.request.vector peerVector })

end Connection

namespace Network

variable {σ V F : Type} (S : SignatureCrates) (sign : Bytes → String) (signingPubkey : PublicKey)
  (R : Replica σ V F)

def setConnection (w : Network σ V F) (i : Nat) (c : Connection V F) : Network σ V F :=
  { w with connections := w.connections.set i c }

def setStore (w : Network σ V F) (d : Nat) (store : σ) : Network σ V F :=
  { w with stores := w.stores.set d store }

def addConnection (w : Network σ V F) (c : Connection V F) : Network σ V F :=
  { w with connections := w.connections ++ [c] }

def step (w : Network σ V F) : Label σ V F → Option (Network σ V F)
  | .syncWithDevice d target challenge =>
    w.stores[d]?.map fun store => w.addConnection (.opened (.device d) target
      ⟨challenge.toList, signDeviceSyncChallenge sign challenge.toList,
        R.buildDeviceSyncVector store⟩)
  | .attackerRequest d request => some (w.addConnection (.opened .attacker (.device d) request))
  | .handleDeviceSync i =>
    w.connections[i]?.bind fun c =>
      match c.responder, c.responderCheck with
      | .device d, none => w.stores[d]?.map fun store =>
          w.setConnection i (c.handleDeviceSync S sign signingPubkey R store)
      | _, _ => none
  | .attackerResponse i response frames =>
    w.connections[i]?.bind fun c =>
      match c.responder, c.response with
      | .attacker, none =>
        some (w.setConnection i { c with response := some response, responderFrames := frames })
      | _, _ => none
  | .readResponse i =>
    w.connections[i]?.bind fun c =>
      match c.initiator, c.response, c.initiatorCheck with
      | .device d, some response, none => w.stores[d]?.map fun store =>
          let out := c.readResponse S signingPubkey R store response
          (w.setConnection i out.2).setStore d out.1
      | _, _, _ => none
  | .attackerFrames i frames =>
    w.connections[i]?.bind fun c =>
      match c.initiator with
      | .attacker => some (w.setConnection i { c with initiatorFrames := frames })
      | .device _ => none
  | .importDeltas i =>
    w.connections[i]?.bind fun c =>
      match c.responder, c.responderCheck with
      | .device d, some (.ok ()) => w.stores[d]?.map fun store =>
          w.setStore d (R.importDeltas store c.initiatorFrames)
      | _, _ => none
  | .edit d store => some (w.setStore d store)

end Network
end Proscenium.DeviceSync
