import Proscenium.Crypto.RatchetChain
import Proscenium.Lib.Machine

/-! Two ratchets joined by a network that delays, reorders and loses. A message
leaves the inbox when it is delivered, so it is delivered at most once. -/

namespace Proscenium.Crypto

inductive Side where
  | alice
  | bob
  deriving DecidableEq, Repr

def Side.other : Side → Side
  | .alice => .bob
  | .bob => .alice

@[simp] theorem Side.other_other (x : Side) : x.other.other = x := by cases x <;> rfl

@[simp] theorem Side.other_ne (x : Side) : x.other ≠ x := by cases x <;> decide

theorem Side.eq_or_eq_other (x y : Side) : y = x ∨ y = x.other := by
  cases x <;> cases y <;> decide

/-- A produced message, with the plaintext it was made from. -/
structure Sent where
  header : RatchetHeader
  ciphertext : Bytes
  plaintext : Bytes
  deriving DecidableEq, Repr

structure Channel where
  party : Side → RatchetState
  inbox : Side → List Sent
  /-- The public keys drawn so far. -/
  drawn : List Bytes32
  /-- The result of every `decrypt` call, beside the plaintext that was encrypted. -/
  received : List (Except CryptoError Bytes × Bytes)

inductive Action where
  | encrypt (side : Side) (plaintext : Bytes)
  | deliver (side : Side) (index : Nat) (generated : KeyPair)
  | lose (side : Side) (index : Nat)
  deriving DecidableEq, Repr

namespace RatchetState

def stores (st : RatchetState) (header : RatchetHeader) : Bool :=
  st.skippedKeys.any (SkippedKey.matches header)

/-- `decrypt` reaches `generate_x25519_keypair`. -/
def drawsKey (C : Crates) (st : RatchetState) (header : RatchetHeader) : Bool :=
  !st.stores header && needDhRatchet st header &&
    match skipMessages C st header.previousChainLength with
    | .ok _ => true
    | .error _ => false

/-- How far `decrypt` has to jump: at most `MAX_SKIP` numbers ahead of
`recv_count` in the chain it leaves, and in the chain it reads. -/
def WithinSkip (st : RatchetState) (header : RatchetHeader) : Prop :=
  st.stores header = false →
    if needDhRatchet st header then
      header.previousChainLength.toNat ≤ st.recvCount.toNat + maxSkip.toNat ∧
        header.messageNumber.toNat ≤ maxSkip.toNat
    else header.messageNumber.toNat ≤ st.recvCount.toNat + maxSkip.toNat

section Branches

variable {C : Crates} {st : RatchetState} {header : RatchetHeader}

theorem stores_iff : st.stores header = true ↔ ∃ sk ∈ st.skippedKeys, sk.matches header = true := by
  simp only [stores, List.any_eq_true]

theorem stores_eq_isSome : st.stores header = (st.skippedKeys.find? (SkippedKey.matches header)).isSome :=
  List.isSome_find?.symm

theorem trySkippedKeys_of_not_stores {ciphertext : Bytes} (h : st.stores header = false) :
    trySkippedKeys C st header ciphertext = (.ok none, st) := by
  refine trySkippedKeys_none fun sk hsk => ?_
  by_contra hmatch
  rw [Bool.not_eq_false] at hmatch
  rw [stores_iff.mpr ⟨sk, hsk, hmatch⟩] at h
  exact Bool.noConfusion h

variable (h : st.stores header = false) (generated : KeyPair) (ciphertext : Bytes)
include h

theorem decrypt_same (hneed : needDhRatchet st header = false) :
    decrypt C generated st header ciphertext = decryptCurrent C st header ciphertext := by
  rw [decrypt, trySkippedKeys_of_not_stores h]
  dsimp only
  rw [hneed, if_neg Bool.false_ne_true]

theorem decrypt_refused (hneed : needDhRatchet st header = true) {e : CryptoError}
    (hskip : skipMessages C st header.previousChainLength = .error e) :
    decrypt C generated st header ciphertext = (.error e, st) := by
  rw [decrypt, trySkippedKeys_of_not_stores h]
  dsimp only
  rw [if_pos hneed, hskip]

theorem decrypt_ratchet (hneed : needDhRatchet st header = true) {st' : RatchetState}
    (hskip : skipMessages C st header.previousChainLength = .ok st') :
    decrypt C generated st header ciphertext =
      decryptCurrent C (dhRatchet C generated st' header.dhPublic) header ciphertext := by
  rw [decrypt, trySkippedKeys_of_not_stores h]
  dsimp only
  rw [if_pos hneed, hskip]

end Branches

end RatchetState

namespace Channel

variable (C : Crates)

def start (sharedSecret : Bytes32) (bobPair alicePair : KeyPair) : Channel where
  party
    | .alice => RatchetState.initAlice C alicePair sharedSecret bobPair.pub
    | .bob => RatchetState.initBob sharedSecret bobPair
  inbox _ := []
  drawn := [bobPair.pub, alicePair.pub]
  received := []

/-- Bob's `encrypt` before his first chain is no step. -/
def step (w : Channel) : Action → Option Channel
  | .encrypt x plaintext =>
    match (w.party x).encrypt C plaintext with
    | none => none
    | some (st, header, ciphertext) => some { w with
        party := Function.update w.party x st
        inbox := Function.update w.inbox x.other
          (w.inbox x.other ++ [⟨header, ciphertext, plaintext⟩]) }
  | .deliver x i generated =>
    match (w.inbox x)[i]? with
    | none => none
    | some m =>
      let out := (w.party x).decrypt C generated m.header m.ciphertext
      some {
        party := Function.update w.party x out.2
        inbox := Function.update w.inbox x ((w.inbox x).eraseIdx i)
        drawn := if (w.party x).drawsKey C m.header then generated.pub :: w.drawn else w.drawn
        received := w.received ++ [(out.1, m.plaintext)] }
  | .lose x i => some { w with inbox := Function.update w.inbox x ((w.inbox x).eraseIdx i) }

/-- The network and the generator: no delivery jumps too far, and a drawn pair
is a key pair with a public key not drawn before. -/
def Admissible (w : Channel) : Action → Prop
  | .deliver x i generated => ∀ m ∈ (w.inbox x)[i]?,
      (w.party x).WithinSkip m.header ∧
      ((w.party x).drawsKey C m.header = true →
        C.IsKeyPair generated ∧ generated.pub ∉ w.drawn)
  | _ => True

/-- The `u32` additions of the step do not wrap. -/
def NoWrap (w : Channel) : Action → Prop
  | .encrypt x _ => (w.party x).sendCount.toNat + 1 < 2 ^ 32
  | .deliver x i _ => ∀ m ∈ (w.inbox x)[i]?,
      (w.party x).stores m.header = false → (w.party x).recvCount.toNat + maxSkip.toNat < 2 ^ 32
  | .lose _ _ => True

instance : ∀ (w : Channel) (a : Action), Decidable (w.Admissible C a)
  | _, .encrypt _ _ => isTrue trivial
  | _, .deliver _ _ _ => by unfold Admissible RatchetState.WithinSkip Crates.IsKeyPair; infer_instance
  | _, .lose _ _ => isTrue trivial

instance : ∀ (w : Channel) (a : Action), Decidable (w.NoWrap a)
  | _, .encrypt _ _ => by unfold NoWrap; infer_instance
  | _, .deliver _ _ _ => by unfold NoWrap; infer_instance
  | _, .lose _ _ => isTrue trivial

/-- Every `decrypt` call so far returned the plaintext that was encrypted. -/
def Delivered (w : Channel) : Prop := ∀ r ∈ w.received, r.1 = .ok r.2

end Channel
end Proscenium.Crypto
