import Proscenium.Stage.AuthDefs

/-! A listener that gets the host's frames from some frame on, and all of them,
never takes the stream for a forged one. -/

namespace Proscenium.Stage

open Proscenium.Types

section Wire

theorem splitWire_normal (payload : Bytes) :
    splitWire tagNormal payload = .ok ⟨payload, tagNormal, none⟩ := rfl

theorem decodeCheckpointPayload_append (hash : Hash) (sig : Signature) (opus : Bytes) :
    decodeCheckpointPayload (hash.toList ++ sig.toList ++ opus) = .ok (hash, sig, opus) := by
  have hhash : hash.toList.length = 32 := by simp
  have hsig : sig.toList.length = 64 := by simp
  have hlong : ¬ (hash.toList ++ sig.toList ++ opus).length < checkpointExtra := by
    rw [List.length_append, List.length_append, hhash, hsig, checkpointExtra]
    omega
  have htake : (hash.toList ++ sig.toList ++ opus).take 32 = hash.toList := by
    rw [List.append_assoc, List.take_append_of_le_length hhash.ge, List.take_of_length_le hhash.le]
  have hdrop : (hash.toList ++ sig.toList ++ opus).drop 32 = sig.toList ++ opus := by
    rw [List.append_assoc, List.drop_append_of_le_length hhash.ge, List.drop_of_length_le hhash.le]
    rfl
  have hsigned : ((hash.toList ++ sig.toList ++ opus).drop 32).take 64 = sig.toList := by
    rw [hdrop, List.take_append_of_le_length hsig.ge, List.take_of_length_le hsig.le]
  have hrest : (hash.toList ++ sig.toList ++ opus).drop 96 = opus := by
    rw [show 96 = 32 + 64 from rfl, ← List.drop_drop, hdrop,
      List.drop_append_of_le_length hsig.ge, List.drop_of_length_le hsig.le]
    rfl
  unfold decodeCheckpointPayload
  rw [dif_neg hlong]
  simp only [htake, hsigned, hrest]
  rfl

theorem splitWire_checkpoint (hash : Hash) (sig : Signature) (opus : Bytes) :
    splitWire tagCheckpoint (hash.toList ++ sig.toList ++ opus) =
      .ok ⟨opus, tagCheckpoint, some (hash, sig)⟩ := by
  rw [splitWire, if_pos rfl, decodeCheckpointPayload_append]
  rfl

end Wire

def resultAt (checkpoint joined : Bool) : AuthResult :=
  if checkpoint then .verified else if joined then .ok else .unverified

/-- The result for frame `i`, counted from zero, when frame `k` was the first. -/
def expectedResult (k i : Nat) : AuthResult :=
  resultAt (isCheckpoint (i + 1)) ((List.range' k (i - k)).any fun j => isCheckpoint (j + 1))

section Follows

variable (C : AuthCrates) (key : SecretKey)

/-- From its first checkpoint on, the listener has the chain of the host. -/
structure Follows (l : ListenerAuthState) (s : HostAuthState) : Prop where
  trusted : l.compromised = false
  hostPubkey : l.hostPubkey = C.publicKey key
  signingKey : s.signingKey = key
  chainHash : l.verified = true → l.chainHash = s.chainHash

variable {C key} {l : ListenerAuthState} {s : HostAuthState}

theorem process_normal (opus : Bytes) (h : ¬ (s.sequence + 1) % checkpointInterval = 0) :
    (s.process C opus).1 = (tagNormal, opus) := by
  unfold HostAuthState.process
  dsimp only
  rw [if_neg h]

theorem process_checkpoint (opus : Bytes) (h : (s.sequence + 1) % checkpointInterval = 0) :
    (s.process C opus).1 = (tagCheckpoint, (extendChain C s.chainHash opus).toList ++
      (C.sign s.signingKey (extendChain C s.chainHash opus).toList).toList ++ opus) := by
  unfold HostAuthState.process
  dsimp only
  rw [if_pos h]

theorem Follows.verifyFrame_normal (h : Follows C key l s) (opus : Bytes) :
    ∃ l', l.verifyFrame C ⟨opus, tagNormal, none⟩ = (resultAt false l.verified, l') ∧
      Follows C key l' (s.process C opus).2 ∧ l'.verified = l.verified := by
  unfold ListenerAuthState.verifyFrame
  rw [h.trusted, if_neg Bool.false_ne_true]
  cases hjoined : l.verified with
  | false =>
    refine ⟨l, rfl, ⟨h.trusted, h.hostPubkey, h.signingKey, fun hverified => ?_⟩, hjoined⟩
    rw [hjoined] at hverified
    exact absurd hverified Bool.false_ne_true
  | true =>
    refine ⟨_, rfl, ⟨rfl, h.hostPubkey, h.signingKey, fun _ => ?_⟩, rfl⟩
    exact congrArg (extendChain C · opus) (h.chainHash hjoined)

theorem Follows.verifyFrame_checkpoint (h : Follows C key l s) (hsig : C.Verifies key) (opus : Bytes) :
    ∃ l', l.verifyFrame C ⟨opus, tagCheckpoint, some (extendChain C s.chainHash opus,
        C.sign s.signingKey (extendChain C s.chainHash opus).toList)⟩ = (.verified, l') ∧
      Follows C key l' (s.process C opus).2 ∧ l'.verified = true := by
  have hver := hsig (extendChain C s.chainHash opus)
  rw [← h.hostPubkey, ← h.signingKey] at hver
  unfold ListenerAuthState.verifyFrame
  rw [h.trusted, if_neg Bool.false_ne_true]
  cases hjoined : l.verified with
  | false =>
    simp only [Bool.not_false, if_true, hver]
    exact ⟨_, rfl, ⟨rfl, h.hostPubkey, h.signingKey, fun _ => rfl⟩, rfl⟩
  | true =>
    have hchain : extendChain C l.chainHash opus = extendChain C s.chainHash opus :=
      congrArg (extendChain C · opus) (h.chainHash hjoined)
    simp only [Bool.not_true, Bool.false_eq_true, if_false, hchain, hver, if_true, ne_eq,
      not_true_eq_false]
    rw [if_neg (by decide)]
    exact ⟨_, rfl, ⟨rfl, h.hostPubkey, h.signingKey, fun _ => rfl⟩, rfl⟩

theorem Follows.step (h : Follows C key l s) (hsig : C.Verifies key) (opus : Bytes) :
    ∃ f l', splitWire (s.process C opus).1.1 (s.process C opus).1.2 = .ok f ∧
      l.verifyFrame C f = (resultAt ((s.sequence + 1) % checkpointInterval = 0) l.verified, l') ∧
      Follows C key l' (s.process C opus).2 ∧
      l'.verified = (decide ((s.sequence + 1) % checkpointInterval = 0) || l.verified) := by
  by_cases hcp : (s.sequence + 1) % checkpointInterval = 0
  · obtain ⟨l', hresult, hfollows, hverified⟩ := h.verifyFrame_checkpoint hsig opus
    rw [process_checkpoint opus hcp]
    refine ⟨_, l', splitWire_checkpoint .., ?_, hfollows, ?_⟩
    · rw [decide_eq_true hcp]
      exact hresult
    · rw [decide_eq_true hcp]
      exact hverified
  · obtain ⟨l', hresult, hfollows, hverified⟩ := h.verifyFrame_normal opus
    rw [process_normal opus hcp]
    refine ⟨_, l', splitWire_normal opus, ?_, hfollows, ?_⟩
    · rw [decide_eq_false hcp]
      exact hresult
    · rw [decide_eq_false hcp]
      exact hverified

/-- The results for the next `n` frames after `sequence` of them. -/
def results (sequence : UInt64) (joined : Bool) : Nat → List AuthResult
  | 0 => []
  | n + 1 =>
    let checkpoint : Bool := (sequence + 1) % checkpointInterval = 0
    resultAt checkpoint joined :: results (sequence + 1) (checkpoint || joined) n

theorem runListener_cons {tag : UInt8} {payload : Bytes} {rest : List (UInt8 × Bytes)} {f : Frame}
    {checkpoint joined : Bool} {l' : ListenerAuthState} (hsplit : splitWire tag payload = .ok f)
    (hverify : l.verifyFrame C f = (resultAt checkpoint joined, l')) :
    runListener C l ((tag, payload) :: rest) =
      (resultAt checkpoint joined :: (runListener C l' rest).1, (runListener C l' rest).2) := by
  rw [runListener, hsplit]
  dsimp only
  rw [hverify]
  cases checkpoint <;> cases joined <;> rfl

theorem runListener_stream_of_follows (hsig : C.Verifies key) (h : Follows C key l s)
    (packets : List Bytes) :
    runListener C l (s.stream C packets) = (results s.sequence l.verified packets.length, none) := by
  induction packets generalizing l s with
  | nil => rfl
  | cons opus packets ih =>
    obtain ⟨f, l', hsplit, hverify, hfollows, hverified⟩ := h.step hsig opus
    rw [HostAuthState.stream, runListener_cons hsplit hverify, ih hfollows, hverified]
    rfl

theorem stream_drop (k : Nat) (packets : List Bytes) : ∃ t : HostAuthState,
    (s.stream C packets).drop k = t.stream C (packets.drop k) ∧ t.signingKey = s.signingKey ∧
      (k ≤ packets.length → t.sequence = s.sequence + UInt64.ofNat k) := by
  induction k generalizing s packets with
  | zero => exact ⟨s, rfl, rfl, fun _ => (by simp)⟩
  | succ k ih =>
    cases packets with
    | nil => exact ⟨s, rfl, rfl, fun hk => absurd hk (by simp)⟩
    | cons opus packets =>
      obtain ⟨t, hstream, hkey, hsequence⟩ := ih (s := (s.process C opus).2) packets
      refine ⟨t, hstream, hkey, fun hk => ?_⟩
      have hnext : (s.process C opus).2.sequence = s.sequence + 1 := rfl
      rw [hsequence (Nat.le_of_succ_le_succ hk), hnext, UInt64.ofNat_add, UInt64.add_assoc,
        UInt64.add_comm 1]
      rfl

theorem results_eq (i n : Nat) (joined : Bool) :
    results (UInt64.ofNat i) joined n = (List.range' i n).map fun j =>
      resultAt (isCheckpoint (j + 1))
        (joined || (List.range' i (j - i)).any fun m => isCheckpoint (m + 1)) := by
  induction n generalizing i joined with
  | zero => rfl
  | succ n ih =>
    have hsucc : UInt64.ofNat i + 1 = UInt64.ofNat (i + 1) := (UInt64.ofNat_add ..).symm
    rw [results, List.range'_succ, List.map_cons, hsucc, ih]
    congr 1
    · simp [isCheckpoint]
    · refine List.map_congr_left fun j hj => ?_
      obtain ⟨hle, -⟩ := List.mem_range'_1.mp hj
      have hsub : j - i = (j - (i + 1)) + 1 := by omega
      rw [hsub, List.range'_succ, List.any_cons]
      show resultAt _ ((isCheckpoint (i + 1) || joined) || _) = _
      rw [Bool.or_comm (isCheckpoint (i + 1)), Bool.or_assoc]

end Follows

/-- A listener that joins at frame `k` and gets every frame from then on. -/
theorem runListener_stream_drop (C : AuthCrates) (key : SecretKey) (hsig : C.Verifies key)
    (packets : List Bytes) (k : Nat) :
    runListener C (.new (C.publicKey key)) (((HostAuthState.new key).stream C packets).drop k) =
      ((List.range' k (packets.length - k)).map (expectedResult k), none) := by
  obtain ⟨t, hstream, hkey, hsequence⟩ := stream_drop (C := C) (s := .new key) k packets
  have hfollows : Follows C key (.new (C.publicKey key)) t :=
    ⟨rfl, rfl, hkey, fun hverified => absurd hverified Bool.false_ne_true⟩
  rw [hstream, runListener_stream_of_follows hsig hfollows, List.length_drop]
  by_cases hk : k ≤ packets.length
  · have hcount : t.sequence = UInt64.ofNat k := by
      rw [hsequence hk]
      exact UInt64.zero_add _
    rw [hcount]
    show (results _ false _, none) = _
    rw [results_eq]
    simp only [Bool.false_or]
    rfl
  · have hnone : packets.length - k = 0 := by omega
    rw [hnone]
    rfl

/-- Crates to run the model with: the hash counts in the first byte of the message, and a
signature is the key followed by the message. -/
def countingCrates : AuthCrates where
  sha256 msg := ⟨((msg.headD 0 + 1) :: List.replicate 31 0).toArray, by simp⟩
  publicKey key := key
  sign key msg := ⟨((key.toList ++ msg ++ List.replicate 64 0).take 64).toArray, by simp; omega⟩
  verify key msg sig := sig.toList = (key.toList ++ msg ++ List.replicate 64 0).take 64

theorem countingCrates_verifies (key : SecretKey) : countingCrates.Verifies key := by
  intro hash
  simp [countingCrates]

/-- Frame 49, the fiftieth, is the first checkpoint that is heard, and frame 99 the next. -/
theorem runListener_stream_drop_counting :
    runListener countingCrates (.new (countingCrates.publicKey zeroHash))
        (((HostAuthState.new zeroHash).stream countingCrates (List.replicate 120 [7])).drop 30) =
      ((List.range' 30 90).map (expectedResult 30), none) :=
  runListener_stream_drop countingCrates zeroHash (countingCrates_verifies zeroHash)
    (List.replicate 120 [7]) 30

example : expectedResult 30 48 = .unverified ∧ expectedResult 30 49 = .verified ∧
    expectedResult 30 98 = .ok ∧ expectedResult 30 99 = .verified := by decide

end Proscenium.Stage
