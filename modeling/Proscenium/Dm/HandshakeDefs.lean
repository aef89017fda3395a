import Proscenium.Crypto.RatchetDefs
import Proscenium.Lib.Machine
import Proscenium.Lib.Tasks

/-! Two users who establish sessions with each other. Each of them stores one
session for the other. A call of `get_or_establish_session` that finds none
sends an `Init` and waits on its stream; whoever handles an `Init` stores a new
session at once, and the caller stores its own when the answer arrives. Every
`Init` that was sent can be delivered again, by anyone, and the answer to that
goes nowhere. -/

namespace Proscenium.Dm.Handshake

open Crypto

inductive User where
  | a
  | b
  deriving DecidableEq, Repr

def User.other : User → User
  | .a => .b
  | .b => .a

/-- Noise IK as `snow` runs it. A handshake state is made of the keys it was built from. -/
structure Snow where
  /-- `noise_initiate`: with the ephemeral key that it draws. -/
  initiate : (myPrivate peerPublic ephemeral : Bytes32) → Option Bytes
  /-- `noise_respond` and `noise_complete_responder`: the response, the handshake hash and the
  static key of the initiator. -/
  respond : (myPrivate : Bytes32) → Bytes → (ephemeral : Bytes32) →
    Option (Bytes × Bytes32 × Option Bytes32)
  /-- `noise_complete_initiator` of the state that `initiate` made. -/
  complete : (myPrivate peerPublic ephemeral : Bytes32) → Bytes → Option Bytes32

/-- Both ends of a completed handshake obtain the same handshake hash. -/
def Snow.SameHash (S : Snow) (pair : User → KeyPair) : Prop :=
  ∀ x ephemeral init random response hash remote hash',
    S.initiate (pair x).priv (pair x.other).pub ephemeral = some init →
    S.respond (pair x.other).priv init random = some (response, hash, remote) →
    S.complete (pair x).priv (pair x.other).pub ephemeral response = some hash' → hash' = hash

/-- `DmHandshake::Init`. -/
structure Init where
  noiseMessage : Bytes
  sender : Bytes32
  deriving DecidableEq, Repr

/-- A call that waits on its stream, where the response is once the peer has sent it. -/
structure Call where
  user : User
  ephemeral : Bytes32
  response : Option Bytes
  deriving DecidableEq, Repr

structure Peers where
  stored : User → Option RatchetState
  calls : List Call
  /-- The users and the messages of all calls so far. -/
  recorded : List (User × Init)

inductive Label where
  /-- `get_or_establish_session` finds no session. -/
  | establish (user : User) (ephemeral : Bytes32)
  /-- The peer handles the `Init` of the call. -/
  | handle (i : Nat) (random : Bytes32)
  | complete (i : Nat) (generated : KeyPair)
  /-- The call gives up: something was lost, or an operation failed. -/
  | fail (i : Nat)
  | replay (k : Nat) (random : Bytes32)
  | encrypt (user : User) (plaintext : Bytes)
  | decrypt (user : User) (generated : KeyPair) (header : RatchetHeader) (ciphertext : Bytes)
  deriving DecidableEq, Repr

namespace Peers

def start : Peers := ⟨fun _ => none, [], []⟩

def saveRatchetSession (w : Peers) (x : User) (st : RatchetState) : Peers :=
  { w with stored := Function.update w.stored x (some st) }

def advance (w : Peers) (i : Nat) (next : Option Call) : Peers :=
  { w with calls := Tasks.advance w.calls i next }

variable (C : Crates) (S : Snow) (pair : User → KeyPair)

/-- What `x` sends in a call. -/
def initOf (x : User) (ephemeral : Bytes32) : Option Init :=
  (S.initiate (pair x).priv (pair x.other).pub ephemeral).map (⟨·, (pair x).pub⟩)

/-- `handle_handshake` of `y`: the response, unless the handshake is refused. -/
def handleHandshake (w : Peers) (y : User) (init : Init) (random : Bytes32) :
    Peers × Option Bytes :=
  match S.respond (pair y).priv init.noiseMessage random with
  | none => (w, none)
  | some (response, sharedSecret, initiatorDmPubkey) =>
    if initiatorDmPubkey = some init.sender then
      (w.saveRatchetSession y (RatchetState.initBob sharedSecret (pair y)), some response)
    else (w, none)

def step (w : Peers) : Label → Option Peers
  | .establish x ephemeral =>
    match w.stored x, initOf S pair x ephemeral with
    | none, some init =>
      some { w with calls := w.calls ++ [⟨x, ephemeral, none⟩], recorded := (x, init) :: w.recorded }
    | _, _ => none
  | .handle i random =>
    match w.calls[i]? with
    | some ⟨x, ephemeral, none⟩ =>
      (initOf S pair x ephemeral).map fun init =>
        let out := w.handleHandshake S pair x.other init random
        out.1.advance i (out.2.map fun response => ⟨x, ephemeral, some response⟩)
    | _ => none
  | .complete i generated =>
    match w.calls[i]? with
    | some ⟨x, ephemeral, some response⟩ =>
      match S.complete (pair x).priv (pair x.other).pub ephemeral response with
      | none => some (w.advance i none)
      | some sharedSecret =>
        some ((w.saveRatchetSession x
          (RatchetState.initAlice C generated sharedSecret (pair x.other).pub)).advance i none)
    | _ => none
  | .fail i => w.calls[i]?.map fun _ => w.advance i none
  | .replay k random => w.recorded[k]?.map fun m =>
    (w.handleHandshake S pair m.1.other m.2 random).1
  | .encrypt x plaintext => (w.stored x).bind fun st =>
    (st.encrypt C plaintext).map fun out => w.saveRatchetSession x out.1
  | .decrypt x generated header ciphertext => (w.stored x).map fun st =>
    match st.decrypt C generated header ciphertext with
    | (.error _, _) => w
    | (.ok _, st) => w.saveRatchetSession x st

end Peers
end Proscenium.Dm.Handshake
