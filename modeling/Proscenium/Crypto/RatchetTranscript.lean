import Proscenium.Crypto.RatchetChannel

/-! The transcript of a conversation, as an observer who knows every key would
write it: key pairs `0, 1, 2, …` alternate between Bob (even) and Alice (odd),
the root key is advanced by each new pair, and chain `i` is sent by the owner of
pair `i`. Pair `0` is Bob's identity pair and starts no chain. `Follows` says
that a ratchet state is the view of the side whose newest pair is `e`. -/

namespace Proscenium.Crypto

variable (C : Crates) (secret : Bytes32)

structure Transcript where
  keys : Nat → KeyPair
  /-- The number of messages produced on each chain. -/
  sent : Nat → Nat

def rootAt (keys : Nat → KeyPair) : Nat → Bytes32
  | 0 => secret
  | i + 1 => (kdfRk C (rootAt keys i) (C.x25519Dh (keys i).priv (keys (i + 1)).pub)).1

def chainStart (keys : Nat → KeyPair) : Nat → Bytes32
  | 0 => secret
  | i + 1 => (kdfRk C (rootAt C secret keys i) (C.x25519Dh (keys i).priv (keys (i + 1)).pub)).2

namespace Transcript

def remoteAt (T : Transcript) : Nat → Option Bytes32
  | 0 => none
  | i + 1 => some (T.keys i).pub

def sendKeyAt (T : Transcript) : Nat → Option Bytes32
  | 0 => none
  | i + 1 => some (chainAt C (chainStart C secret T.keys (i + 1)) (T.sent (i + 1)))

def recvKeyAt (T : Transcript) : Nat → Nat → Option Bytes32
  | 0, _ => none
  | 1, _ => none
  | i + 2, r => some (chainAt C (chainStart C secret T.keys (i + 1)) r)

/-- How far a receiver at epoch `e` has read chain `i`. -/
def position (T : Transcript) (e recvCount i : Nat) : Nat :=
  if i + 1 = e then recvCount else T.sent i

/-- `sk` is the key of message `sk.messageNumber` on chain `i`. -/
structure IsKeyOf (T : Transcript) (i : Nat) (sk : SkippedKey) : Prop where
  pub : sk.ratchetPublic = (T.keys i).pub
  key : sk.messageKey = messageKeyAt C (chainStart C secret T.keys i) sk.messageNumber.toNat

structure Follows (T : Transcript) (e : Nat) (st : RatchetState) : Prop where
  priv : st.dhSelfPrivate = (T.keys e).priv
  pub : st.dhSelfPublic = (T.keys e).pub
  root : st.rootKey = rootAt C secret T.keys e
  remote : st.dhRemotePublic = T.remoteAt e
  send : st.chainKeySend = T.sendKeyAt C secret e
  recv : st.chainKeyRecv = T.recvKeyAt C secret e st.recvCount.toNat
  sendCount : st.sendCount.toNat = T.sent e
  prevSendCount : st.prevSendCount.toNat = T.sent (e - 2)
  recvCount_le : st.recvCount.toNat ≤ T.sent (e - 1)
  stored : ∀ sk ∈ st.skippedKeys, ∃ i, 1 ≤ i ∧ i < e ∧ T.IsKeyOf C secret i sk ∧
    sk.messageNumber.toNat < T.position e st.recvCount.toNat i

/-- `m` is message `m.header.messageNumber` of chain `i`. -/
structure IsMessageOf (T : Transcript) (i : Nat) (m : Sent) : Prop where
  pos : 1 ≤ i
  pub : m.header.dhPublic = (T.keys i).pub
  number_lt : m.header.messageNumber.toNat < T.sent i
  previous : m.header.previousChainLength.toNat = T.sent (i - 2)
  ciphertext : m.ciphertext = encryptMessage C
    (messageKeyAt C (chainStart C secret T.keys i) m.header.messageNumber.toNat) m.plaintext

/-- A message on its way to a side at epoch `e`: it is on a chain of the other
side, and if the receiver has read past it, its key is stored. -/
def Pending (T : Transcript) (e : Nat) (st : RatchetState) (m : Sent) : Prop :=
  ∃ i, T.IsMessageOf C secret i m ∧ i ≤ e + 1 ∧ (i + e) % 2 = 1 ∧
    (i < e → m.header.messageNumber.toNat < T.position e st.recvCount.toNat i →
      st.stores m.header = true)

end Transcript

def Sent.Differs (m m' : Sent) : Prop :=
  m.header.dhPublic = m'.header.dhPublic → m.header.messageNumber ≠ m'.header.messageNumber

/-- The transcript and the epochs of both sides explain the channel. -/
structure Channel.Explained (w : Channel) (T : Transcript) (epoch : Side → Nat) : Prop where
  follows : ∀ x, T.Follows C secret (epoch x) (w.party x)
  pending : ∀ x, ∀ m ∈ w.inbox x, T.Pending C secret (epoch x) (w.party x) m
  differs : ∀ x, (w.inbox x).Pairwise Sent.Differs
  near : ∀ x, epoch x ≤ epoch x.other + 1
  parity : (epoch .alice + epoch .bob) % 2 = 1
  sent_zero : T.sent 0 = 0
  sent_lt : ∀ i, T.sent i < 2 ^ 32
  sent_later : ∀ i, (∀ x, epoch x < i) → T.sent i = 0
  isKeyPair : ∀ x, ∀ i ≤ epoch x, C.IsKeyPair (T.keys i)
  distinct : ∀ x, ∀ i ≤ epoch x, ∀ j ≤ epoch x, (T.keys i).pub = (T.keys j).pub → i = j
  drawn : ∀ x, ∀ i ≤ epoch x, (T.keys i).pub ∈ w.drawn
  delivered : w.Delivered

variable {C secret}

theorem kdfRk_rootAt (keys : Nat → KeyPair) (i : Nat) :
    kdfRk C (rootAt C secret keys i) (C.x25519Dh (keys i).priv (keys (i + 1)).pub) =
      (rootAt C secret keys (i + 1), chainStart C secret keys (i + 1)) := rfl

theorem rootAt_congr {keys keys' : Nat → KeyPair} {e : Nat} (h : ∀ i ≤ e, keys i = keys' i) :
    rootAt C secret keys e = rootAt C secret keys' e := by
  induction e with
  | zero => rfl
  | succ e ih =>
    rw [rootAt, rootAt, ih fun i hi => h i (Nat.le_succ_of_le hi), h e (Nat.le_succ e),
      h (e + 1) le_rfl]

theorem chainStart_congr {keys keys' : Nat → KeyPair} {e : Nat}
    (h : ∀ i ≤ e, keys i = keys' i) : chainStart C secret keys e = chainStart C secret keys' e := by
  cases e with
  | zero => rfl
  | succ e =>
    rw [chainStart, chainStart, rootAt_congr fun i hi => h i (Nat.le_succ_of_le hi),
      h e (Nat.le_succ e), h (e + 1) le_rfl]

namespace Transcript

/-- Chain `e` carries one message more. -/
def bump (T : Transcript) (e : Nat) : Transcript :=
  { T with sent := Function.update T.sent e (T.sent e + 1) }

/-- Pair `e` is drawn. -/
def draw (T : Transcript) (e : Nat) (kp : KeyPair) : Transcript :=
  { T with keys := Function.update T.keys e kp }

variable {T : Transcript}

@[simp] theorem bump_keys (e : Nat) : (T.bump e).keys = T.keys := rfl

@[simp] theorem bump_sent_self (e : Nat) : (T.bump e).sent e = T.sent e + 1 :=
  Function.update_self ..

theorem bump_sent_of_ne {e i : Nat} (h : i ≠ e) : (T.bump e).sent i = T.sent i :=
  Function.update_of_ne h ..

theorem le_bump_sent (e i : Nat) : T.sent i ≤ (T.bump e).sent i := by
  by_cases h : i = e
  · rw [h, bump_sent_self]
    exact Nat.le_succ _
  · exact (bump_sent_of_ne h).ge

@[simp] theorem draw_sent (e : Nat) (kp : KeyPair) : (T.draw e kp).sent = T.sent := rfl

@[simp] theorem draw_keys_self (e : Nat) (kp : KeyPair) : (T.draw e kp).keys e = kp :=
  Function.update_self ..

theorem draw_keys_of_lt {e i : Nat} (kp : KeyPair) (h : i < e) :
    (T.draw e kp).keys i = T.keys i := Function.update_of_ne h.ne ..

end Transcript
end Proscenium.Crypto
