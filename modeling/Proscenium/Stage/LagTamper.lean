import Proscenium.Stage.AuthSoundness

/-! The audio of a stage on its way through the fanout of the host and of relays,
where a subscriber that lags skips frames. The chain of hashes does not know
about that: frames that were skipped between two checkpoints make the second
one look forged. -/

namespace Proscenium.Stage

open Proscenium.Types HashChain

section Hops

variable {α β : Type}

end Hops

section Listener

variable (C : AuthCrates) (key : SecretKey) (packets : List Bytes)

def received (wire : List (UInt8 × Bytes)) : List Frame :=
  wire.filterMap fun w => (splitWire w.1 w.2).toOption

variable {C key packets}

end Listener

section Gaps

end Gaps

section Core

variable {C : AuthCrates} {key : SecretKey} {packets : List Bytes} {known : Set Bytes}

/-- What may stand in a result as long as nothing looks forged. -/
def AuthResult.Accepted (result : AuthResult) : Prop :=
  result ≠ .tamperDetected ∧ result ≠ .invalidSignature

/-- A listener that has joined, with the chain of the first `count` packets of the host and then
of `acc`; it is aligned if these are all packets before `next`. -/
structure Joined (C : AuthCrates) (key : SecretKey) (packets : List Bytes) (known : Set Bytes)
    (next : Nat) (aligned : Bool) (s : ListenerAuthState) (count : Nat) (acc : List Bytes) : Prop where
  trusted : s.compromised = false
  verified : s.verified = true
  hostPubkey : s.hostPubkey = C.publicKey key
  chainHash : s.chainHash = chain C.sha256 pairInput (hostChain C (packets.take count)) acc
  hashed : ∀ b ∈ inputs C.sha256 pairInput (hostChain C (packets.take count)) acc, b ∈ known
  count_le : count ≤ packets.length
  complete : aligned = true → count = next ∧ acc = []
  missing : aligned = false → count + acc.length < next

variable {next count i : Nat} {aligned : Bool} {s : ListenerAuthState} {acc : List Bytes}

theorem Joined.verifyFrame_normal (h : Joined C key packets known next aligned s count acc)
    (opus : Bytes) :
    s.verifyFrame C ⟨opus, tagNormal, none⟩ = (.ok, s.extended C opus) := by
  unfold ListenerAuthState.verifyFrame
  rw [h.trusted, h.verified, if_neg Bool.false_ne_true, Bool.not_true, if_neg Bool.false_ne_true]
  dsimp only
  rw [if_pos rfl, ← h.trusted, ← h.verified]
  rfl

theorem Joined.verifyFrame_checkpoint (h : Joined C key packets known next aligned s count acc)
    (opus : Bytes) (hash : Hash) (sig : Signature) :
    s.verifyFrame C ⟨opus, tagCheckpoint, some (hash, sig)⟩ =
      if (s.extended C opus).chainHash ≠ hash then
        (.tamperDetected, { s.extended C opus with compromised := true })
      else if C.verify s.hostPubkey hash.toList sig then (.verified, s.extended C opus)
      else (.invalidSignature, { s.extended C opus with compromised := true }) := by
  have hself : s.extended C opus = ⟨extendChain C s.chainHash opus, true, false, s.hostPubkey⟩ := by
    rw [← h.trusted, ← h.verified]
    rfl
  unfold ListenerAuthState.verifyFrame
  rw [h.trusted, h.verified, if_neg Bool.false_ne_true, Bool.not_true, if_neg Bool.false_ne_true,
    hself]
  rfl

theorem Joined.extended (h : Joined C key packets known next aligned s count acc) {opus : Bytes}
    (hinput : pairInput s.chainHash opus ∈ known) {next' : Nat}
    (hmissing : count + acc.length + 1 < next') :
    Joined C key packets known next' false (s.extended C opus) count (acc ++ [opus]) where
  trusted := h.trusted
  verified := h.verified
  hostPubkey := h.hostPubkey
  chainHash := by
    rw [chain_concat, ← h.chainHash]
    rfl
  hashed := by
    intro b hb
    rw [inputs_append, List.mem_append, ← h.chainHash] at hb
    rcases hb with hb | hb
    · exact h.hashed b hb
    · obtain rfl := List.mem_singleton.mp hb
      exact hinput
  count_le := h.count_le
  complete := fun h => absurd h Bool.false_ne_true
  missing := fun _ => by
    rw [List.length_append, List.length_singleton]
    omega

end Core

section Examples

end Examples

end Proscenium.Stage
