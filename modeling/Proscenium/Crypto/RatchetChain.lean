import Proscenium.Crypto.RatchetDefs

/-! What the ratchet operations do to a chain: `chainAt` is the chain key after
`n` steps of the symmetric ratchet, and each operation moves along it. -/

namespace Proscenium.Crypto

variable (C : Crates)

def chainAt (start : Bytes32) : Nat → Bytes32
  | 0 => start
  | n + 1 => (kdfCk C (chainAt start n)).1

def messageKeyAt (start : Bytes32) (n : Nat) : Bytes32 := (kdfCk C (chainAt C start n)).2

/-- The keys stored when a receiver passes over the messages `r, …, n - 1`. -/
def passedOver (remote start : Bytes32) (r n : Nat) : List SkippedKey :=
  (List.range' r (n - r)).map fun k => ⟨remote, UInt32.ofNat k, messageKeyAt C start k⟩

/-- The state after message `n` of the chain from `start` has been read. -/
def RatchetState.readPast (st : RatchetState) (remote start : Bytes32) (n : UInt32) :
    RatchetState :=
  { st with
    chainKeyRecv := some (chainAt C start (n.toNat + 1))
    recvCount := n + 1
    skippedKeys := st.skippedKeys ++ passedOver C remote start st.recvCount.toNat n.toNat }

variable {C}

theorem mem_passedOver {remote start : Bytes32} {r n : Nat} {sk : SkippedKey} :
    sk ∈ passedOver C remote start r n ↔
      ∃ k, r ≤ k ∧ k < n ∧ sk = ⟨remote, UInt32.ofNat k, messageKeyAt C start k⟩ := by
  simp only [passedOver, List.mem_map, List.mem_range'_1]
  constructor
  · rintro ⟨k, ⟨hr, hn⟩, rfl⟩
    exact ⟨k, hr, by omega, rfl⟩
  · rintro ⟨k, hr, hn, rfl⟩
    exact ⟨k, ⟨hr, by omega⟩, rfl⟩

namespace RatchetState

theorem passedOver_succ (remote start : Bytes32) (r n : Nat) :
    passedOver C remote start r (r + 1 + n) =
      ⟨remote, UInt32.ofNat r, messageKeyAt C start r⟩ ::
        passedOver C remote start (r + 1) (r + 1 + n) := by
  have hcount : r + 1 + n - r = n + 1 := by omega
  simp only [passedOver, hcount, Nat.add_sub_cancel_left, List.range'_succ, List.map_cons]

theorem skipLoop_eq (remote start : Bytes32) (n r : Nat) (skipped : List SkippedKey) :
    skipLoop C remote n (chainAt C start r) (UInt32.ofNat r) skipped =
      (chainAt C start (r + n), UInt32.ofNat (r + n),
        skipped ++ passedOver C remote start r (r + n)) := by
  induction n generalizing r skipped with
  | zero => simp [skipLoop, passedOver]
  | succ n ih =>
    have hcount : UInt32.ofNat r + 1 = UInt32.ofNat (r + 1) := (UInt32.ofNat_add r 1).symm
    have hlast : r + (n + 1) = r + 1 + n := by omega
    have hnext := ih (r + 1) (skipped ++ [⟨remote, UInt32.ofNat r, messageKeyAt C start r⟩])
    rw [hlast, passedOver_succ, skipLoop, hcount]
    simpa only [chainAt, messageKeyAt, List.append_assoc, List.singleton_append] using hnext

theorem not_jump_iff {recvCount upTo : UInt32} (hwrap : recvCount.toNat + maxSkip.toNat < 2 ^ 32) :
    ¬ recvCount + maxSkip < upTo ↔ upTo.toNat ≤ recvCount.toNat + maxSkip.toNat := by
  have hskip : (recvCount + maxSkip).toNat = recvCount.toNat + maxSkip.toNat := by
    rw [UInt32.toNat_add]
    exact Nat.mod_eq_of_lt hwrap
  rw [UInt32.lt_iff_toNat_lt, hskip, Nat.not_lt]

theorem skipMessages_eq {st : RatchetState} {upTo : UInt32} {remote start : Bytes32}
    (hremote : st.dhRemotePublic = some remote)
    (hrecv : st.chainKeyRecv = some (chainAt C start st.recvCount.toNat))
    (hle : st.recvCount.toNat ≤ upTo.toNat) (hjump : upTo.toNat ≤ st.recvCount.toNat + maxSkip.toNat)
    (hwrap : st.recvCount.toNat + maxSkip.toNat < 2 ^ 32) :
    skipMessages C st upTo = .ok { st with
      chainKeyRecv := some (chainAt C start upTo.toNat)
      recvCount := upTo
      skippedKeys := st.skippedKeys ++
        passedOver C remote start st.recvCount.toNat upTo.toNat } := by
  have hloop := skipLoop_eq (C := C) remote start (upTo.toNat - st.recvCount.toNat)
    st.recvCount.toNat st.skippedKeys
  rw [Nat.add_sub_cancel' hle, UInt32.ofNat_toNat, UInt32.ofNat_toNat] at hloop
  rw [skipMessages, if_neg ((not_jump_iff hwrap).mpr hjump), hrecv, hremote]
  simp only [Option.getD_some, hloop]

theorem skipMessages_zero {st : RatchetState} (hrecv : st.chainKeyRecv = none) :
    skipMessages C st 0 = .ok st := by
  have hlt : ¬ st.recvCount + maxSkip < 0 := by
    rw [UInt32.lt_iff_toNat_lt]
    exact Nat.not_lt_zero _
  rw [skipMessages, if_neg hlt, hrecv]

theorem trySkippedKeys_none {st : RatchetState} {header : RatchetHeader} {ciphertext : Bytes}
    (h : ∀ sk ∈ st.skippedKeys, sk.matches header = false) :
    trySkippedKeys C st header ciphertext = (.ok none, st) := by
  have hfind : st.skippedKeys.find? (SkippedKey.matches header) = none := by
    simpa only [List.find?_eq_none, Bool.not_eq_true] using h
  rw [trySkippedKeys, hfind]

theorem decrypt_of_found {st : RatchetState} {generated : KeyPair} {header : RatchetHeader}
    {ciphertext : Bytes} {sk : SkippedKey}
    (hfind : st.skippedKeys.find? (SkippedKey.matches header) = some sk) :
    decrypt C generated st header ciphertext = (decryptMessage C sk.messageKey ciphertext,
      { st with skippedKeys := st.skippedKeys.eraseP (SkippedKey.matches header) }) := by
  rw [decrypt, trySkippedKeys, hfind]
  cases hopen : decryptMessage C sk.messageKey ciphertext with
  | error e => simp only [hopen, Except.map]
  | ok plaintext => simp only [hopen, Except.map]

variable (hC : C.Lawful)
include hC

theorem decryptMessage_encryptMessage (key : Bytes32) (plaintext : Bytes) :
    decryptMessage C key (encryptMessage C key plaintext) = .ok plaintext := by
  rw [decryptMessage, encryptMessage, hC.decrypt_encrypt]

theorem decrypt_stored {st : RatchetState} {generated : KeyPair} {header : RatchetHeader}
    {key : Bytes32} {plaintext : Bytes}
    (hex : ∃ sk ∈ st.skippedKeys, sk.matches header = true)
    (hkey : ∀ sk ∈ st.skippedKeys, sk.matches header = true → sk.messageKey = key) :
    decrypt C generated st header (encryptMessage C key plaintext) =
      (.ok plaintext,
        { st with skippedKeys := st.skippedKeys.eraseP (SkippedKey.matches header) }) := by
  obtain ⟨sk, hfind⟩ := Option.isSome_iff_exists.mp (List.find?_isSome.mpr hex)
  have hsk := hkey sk (List.mem_of_find?_eq_some hfind) (List.find?_some hfind)
  rw [decrypt_of_found hfind, hsk, decryptMessage_encryptMessage hC]

theorem decryptCurrent_eq {st : RatchetState} {header : RatchetHeader} {remote start : Bytes32}
    {plaintext : Bytes} (hremote : st.dhRemotePublic = some remote)
    (hrecv : st.chainKeyRecv = some (chainAt C start st.recvCount.toNat))
    (hle : st.recvCount.toNat ≤ header.messageNumber.toNat)
    (hjump : header.messageNumber.toNat ≤ st.recvCount.toNat + maxSkip.toNat)
    (hwrap : st.recvCount.toNat + maxSkip.toNat < 2 ^ 32) :
    decryptCurrent C st header
        (encryptMessage C (messageKeyAt C start header.messageNumber.toNat) plaintext) =
      (.ok plaintext, st.readPast C remote start header.messageNumber) := by
  rw [decryptCurrent, skipMessages_eq hremote hrecv hle hjump hwrap]
  simp only [readPast, chainAt]
  rw [← messageKeyAt, decryptMessage_encryptMessage hC]

end RatchetState
end Proscenium.Crypto
