import Mathlib

/-! The Double Ratchet of `crypto/ratchet.rs`. The primitives the crate imports
(X25519, HKDF-SHA256, ChaCha20-Poly1305) are parameters. Counters are `u32`
with the wrap-around of a release build: no profile of the workspace turns on
overflow checks. -/

namespace Proscenium.Crypto

abbrev Bytes := List UInt8

abbrev Bytes32 := Vector UInt8 32

instance lawfulBEqBytes32 : LawfulBEq Bytes32 := inferInstance

structure KeyPair where
  priv : Bytes32
  pub : Bytes32
  deriving DecidableEq, Repr

/-- The imported primitives. -/
structure Crates where
  x25519PublicFromPrivate : Bytes32 → Bytes32
  x25519Dh : Bytes32 → Bytes32 → Bytes32
  hkdfExpand : Option Bytes32 → Bytes32 → Bytes → (len : Nat) → Vector UInt8 len
  aeadEncrypt : Bytes32 → Vector UInt8 12 → Bytes → Bytes
  aeadDecrypt : Bytes32 → Vector UInt8 12 → Bytes → Option Bytes

/-- A pair that `generate_x25519_keypair` can return. -/
def Crates.IsKeyPair (C : Crates) (kp : KeyPair) : Prop :=
  kp.pub = C.x25519PublicFromPrivate kp.priv

/-- What the ratchet relies on: Diffie-Hellman commutes on key pairs, and the
cipher opens what it sealed under the same key and nonce. -/
structure Crates.Lawful (C : Crates) : Prop where
  dh_comm : ∀ a b, C.IsKeyPair a → C.IsKeyPair b → C.x25519Dh a.priv b.pub = C.x25519Dh b.priv a.pub
  decrypt_encrypt : ∀ key nonce plaintext,
    C.aeadDecrypt key nonce (C.aeadEncrypt key nonce plaintext) = some plaintext

def maxSkip : UInt32 := 100

def kdfRkInfo : Bytes := "proscenium-dm-rk".toUTF8.toList
def kdfCkInfoKey : Bytes := "proscenium-dm-ck-msg".toUTF8.toList
def kdfCkInfoChain : Bytes := "proscenium-dm-ck-chain".toUTF8.toList

inductive CryptoError where
  | decryptionFailed
  | tooManySkipped
  deriving DecidableEq, Repr

structure SkippedKey where
  ratchetPublic : Bytes32
  messageNumber : UInt32
  messageKey : Bytes32
  deriving DecidableEq, Repr

structure RatchetHeader where
  dhPublic : Bytes32
  messageNumber : UInt32
  previousChainLength : UInt32
  deriving DecidableEq, Repr

/-- Does `sk` hold the key of the message with this header? -/
def SkippedKey.matches (header : RatchetHeader) (sk : SkippedKey) : Bool :=
  sk.ratchetPublic == header.dhPublic && sk.messageNumber == header.messageNumber

structure RatchetState where
  dhSelfPrivate : Bytes32
  dhSelfPublic : Bytes32
  dhRemotePublic : Option Bytes32
  rootKey : Bytes32
  chainKeySend : Option Bytes32
  chainKeyRecv : Option Bytes32
  sendCount : UInt32
  recvCount : UInt32
  prevSendCount : UInt32
  skippedKeys : List SkippedKey
  deriving DecidableEq, Repr

variable (C : Crates)

def kdfRk (rootKey dhOutput : Bytes32) : Bytes32 × Bytes32 :=
  let output := C.hkdfExpand (some rootKey) dhOutput kdfRkInfo 64
  ((output.take 32).cast rfl, (output.drop 32).cast rfl)

def kdfCk (chainKey : Bytes32) : Bytes32 × Bytes32 :=
  (C.hkdfExpand none chainKey kdfCkInfoChain 32, C.hkdfExpand none chainKey kdfCkInfoKey 32)

def nonceDefault : Vector UInt8 12 := Vector.replicate 12 0

def encryptMessage (key : Bytes32) (plaintext : Bytes) : Bytes :=
  C.aeadEncrypt key nonceDefault plaintext

def decryptMessage (key : Bytes32) (ciphertext : Bytes) : Except CryptoError Bytes :=
  match C.aeadDecrypt key nonceDefault ciphertext with
  | some plaintext => .ok plaintext
  | none => .error .decryptionFailed

namespace RatchetState

/-- `generated` is the pair that `generate_x25519_keypair` draws. -/
def initAlice (generated : KeyPair) (sharedSecret bobDhPublic : Bytes32) : RatchetState :=
  let dhOutput := C.x25519Dh generated.priv bobDhPublic
  let keys := kdfRk C sharedSecret dhOutput
  { dhSelfPrivate := generated.priv
    dhSelfPublic := generated.pub
    dhRemotePublic := some bobDhPublic
    rootKey := keys.1
    chainKeySend := some keys.2
    chainKeyRecv := none
    sendCount := 0
    recvCount := 0
    prevSendCount := 0
    skippedKeys := [] }

def initBob (sharedSecret : Bytes32) (bobDhKeypair : KeyPair) : RatchetState :=
  { dhSelfPrivate := bobDhKeypair.priv
    dhSelfPublic := bobDhKeypair.pub
    dhRemotePublic := none
    rootKey := sharedSecret
    chainKeySend := none
    chainKeyRecv := none
    sendCount := 0
    recvCount := 0
    prevSendCount := 0
    skippedKeys := [] }

/-- `none` is the panic of `expect("cannot encrypt without a sending chain key")`. -/
def encrypt (st : RatchetState) (plaintext : Bytes) :
    Option (RatchetState × RatchetHeader × Bytes) :=
  match st.chainKeySend with
  | none => none
  | some chainKey =>
    let keys := kdfCk C chainKey
    let header : RatchetHeader :=
      { dhPublic := st.dhSelfPublic
        messageNumber := st.sendCount
        previousChainLength := st.prevSendCount }
    some ({ st with chainKeySend := some keys.1, sendCount := st.sendCount + 1 },
      header, encryptMessage C keys.2 plaintext)

/-- The stored key is removed before the cipher is tried. -/
def trySkippedKeys (st : RatchetState) (header : RatchetHeader) (ciphertext : Bytes) :
    Except CryptoError (Option Bytes) × RatchetState :=
  match st.skippedKeys.find? (SkippedKey.matches header) with
  | none => (.ok none, st)
  | some sk =>
    ((decryptMessage C sk.messageKey ciphertext).map some,
      { st with skippedKeys := st.skippedKeys.eraseP (SkippedKey.matches header) })

/-- `n` rounds of the `while` loop of `skip_messages`. -/
def skipLoop (remote : Bytes32) : Nat → Bytes32 → UInt32 → List SkippedKey →
    Bytes32 × UInt32 × List SkippedKey
  | 0, chainKey, recvCount, skipped => (chainKey, recvCount, skipped)
  | n + 1, chainKey, recvCount, skipped =>
    let keys := kdfCk C chainKey
    skipLoop remote n keys.1 (recvCount + 1) (skipped ++ [⟨remote, recvCount, keys.2⟩])

def skipMessages (st : RatchetState) (upTo : UInt32) : Except CryptoError RatchetState :=
  if st.recvCount + maxSkip < upTo then .error .tooManySkipped
  else match st.chainKeyRecv with
    | none => .ok st
    | some chainKey =>
      -- `while recv_count < until` runs exactly this often: the bound is a `u32` too
      let out := skipLoop C (st.dhRemotePublic.getD (Vector.replicate 32 0))
        (upTo.toNat - st.recvCount.toNat) chainKey st.recvCount st.skippedKeys
      .ok { st with chainKeyRecv := some out.1, recvCount := out.2.1, skippedKeys := out.2.2 }

def dhRatchet (generated : KeyPair) (st : RatchetState) (newRemotePublic : Bytes32) :
    RatchetState :=
  let recv := kdfRk C st.rootKey (C.x25519Dh st.dhSelfPrivate newRemotePublic)
  let send := kdfRk C recv.1 (C.x25519Dh generated.priv newRemotePublic)
  { st with
    prevSendCount := st.sendCount
    sendCount := 0
    recvCount := 0
    dhRemotePublic := some newRemotePublic
    chainKeyRecv := some recv.2
    dhSelfPrivate := generated.priv
    dhSelfPublic := generated.pub
    rootKey := send.1
    chainKeySend := some send.2 }

def needDhRatchet (st : RatchetState) (header : RatchetHeader) : Bool :=
  st.dhRemotePublic != some header.dhPublic

/-- The part of `decrypt` after any Diffie-Hellman step. -/
def decryptCurrent (st : RatchetState) (header : RatchetHeader) (ciphertext : Bytes) :
    Except CryptoError Bytes × RatchetState :=
  match skipMessages C st header.messageNumber with
  | .error e => (.error e, st)
  | .ok st =>
    match st.chainKeyRecv with
    | none => (.error .decryptionFailed, st)
    | some chainKey =>
      let keys := kdfCk C chainKey
      (decryptMessage C keys.2 ciphertext,
        { st with chainKeyRecv := some keys.1, recvCount := st.recvCount + 1 })

/-- The state is returned on failure too: `decrypt` takes `&mut self` and what
it changed before an error stays changed. -/
def decrypt (generated : KeyPair) (st : RatchetState) (header : RatchetHeader)
    (ciphertext : Bytes) : Except CryptoError Bytes × RatchetState :=
  match trySkippedKeys C st header ciphertext with
  | (.error e, st) => (.error e, st)
  | (.ok (some plaintext), st) => (.ok plaintext, st)
  | (.ok none, st) =>
    if needDhRatchet st header then
      match skipMessages C st header.previousChainLength with
      | .error e => (.error e, st)
      | .ok st => decryptCurrent C (dhRatchet C generated st header.dhPublic) header ciphertext
    else decryptCurrent C st header ciphertext

end RatchetState

end Proscenium.Crypto
