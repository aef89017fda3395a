import Proscenium.Crypto.RatchetFollow
import Proscenium.Crypto.RatchetWrap

/-! The message keys that a session derives. `decrypt` picks one key by the header
before it tries the cipher: a stored key, one of the receiving chain, or one of
the chain that a Diffie-Hellman step with the header's key starts. -/

namespace Proscenium.Crypto

variable {C : Crates}

theorem chainAt_step (chainKey : Bytes32) (n : Nat) :
    chainAt C (kdfCk C chainKey).1 n = chainAt C chainKey (n + 1) := by
  induction n with
  | zero => rfl
  | succ n ih =>
    rw [chainAt, ih]
    rfl

theorem messageKeyAt_step (chainKey : Bytes32) (n : Nat) :
    messageKeyAt C (kdfCk C chainKey).1 n = messageKeyAt C chainKey (n + 1) := by
  unfold messageKeyAt
  rw [chainAt_step]

/-- The cipher opens nothing under another key than the one it was sealed with. -/
def Crates.OpensOwnKey (C : Crates) : Prop :=
  ∀ key key' plaintext, key' ≠ key → C.aeadDecrypt key' nonceDefault (encryptMessage C key plaintext) = none

theorem key_of_opens (hC : C.OpensOwnKey) {key key' : Bytes32} {plaintext opened : Bytes}
    (h : decryptMessage C key' (encryptMessage C key plaintext) = .ok opened) : key' = key := by
  by_contra hne
  unfold decryptMessage at h
  rw [hC key key' plaintext hne] at h
  cases h

theorem opensOwnKey_additiveCrates : additiveCrates.OpensOwnKey := by
  intro key key' plaintext hne
  have hother : key.toList ≠ key'.toList := by
    intro heq
    exact hne (Vector.toList_inj.mp heq.symm)
  simp [additiveCrates, encryptMessage, hother]

namespace RatchetState

theorem skipLoop_from (remote : Bytes32) (n : Nat) (chainKey : Bytes32) (count : UInt32)
    (skipped : List SkippedKey) :
    skipLoop C remote n chainKey count skipped =
      (chainAt C chainKey n, count + UInt32.ofNat n,
        skipped ++ (List.range n).map fun j => ⟨remote, count + UInt32.ofNat j, messageKeyAt C chainKey j⟩) := by
  induction n generalizing chainKey count skipped with
  | zero => simp [skipLoop, chainAt]
  | succ n ih =>
    have hcount : ∀ j : Nat, count + 1 + UInt32.ofNat j = count + UInt32.ofNat (j + 1) := by
      intro j
      rw [UInt32.ofNat_add, UInt32.add_assoc, UInt32.add_comm 1]
      rfl
    have hfirst : count = count + UInt32.ofNat 0 := (UInt32.add_zero count).symm
    rw [skipLoop, ih, chainAt_step, hcount, List.range_succ_eq_map, List.map_cons, List.map_map, ← hfirst]
    simp only [hcount, messageKeyAt_step, List.append_assoc, List.singleton_append, Function.comp_def,
      Nat.succ_eq_add_one]
    rfl

section Keys

variable (C)

def dhChain (st : RatchetState) (newRemotePublic : Bytes32) : Bytes32 :=
  (kdfRk C st.rootKey (C.x25519Dh st.dhSelfPrivate newRemotePublic)).2

/-- The keys that `skip_messages` stores when it passes over the chain up to this number. -/
def passedKeys (st : RatchetState) (upTo : UInt32) : List Bytes32 :=
  st.chainKeyRecv.elim [] fun chainKey =>
    (List.range (upTo.toNat - st.recvCount.toNat)).map (messageKeyAt C chainKey)

/-- The key that `decrypt` tries: `none` if it refuses the header before. -/
def openingKey (st : RatchetState) (header : RatchetHeader) : Option Bytes32 :=
  match st.skippedKeys.find? (SkippedKey.matches header) with
  | some sk => some sk.messageKey
  | none =>
    if needDhRatchet st header then
      if st.recvCount + maxSkip < header.previousChainLength ∨ maxSkip < header.messageNumber then none
      else some (messageKeyAt C (st.dhChain C header.dhPublic) header.messageNumber.toNat)
    else if st.recvCount + maxSkip < header.messageNumber then none
    else st.chainKeyRecv.map (messageKeyAt C · (header.messageNumber.toNat - st.recvCount.toNat))

/-- The keys that `decrypt` derives for the header, the one that it tries last. -/
def derivedKeys (st : RatchetState) (header : RatchetHeader) : List Bytes32 :=
  if st.stores header then []
  else
    (if needDhRatchet st header then
      st.passedKeys C header.previousChainLength ++
        (List.range header.messageNumber.toNat).map (messageKeyAt C (st.dhChain C header.dhPublic))
    else st.passedKeys C header.messageNumber) ++ (st.openingKey C header).toList

end Keys

variable {st st' : RatchetState} {header : RatchetHeader} {ciphertext plaintext : Bytes} {generated : KeyPair}

def storedKeys (st : RatchetState) : List Bytes32 := st.skippedKeys.map SkippedKey.messageKey

theorem skipMessages_eq_ok {upTo : UInt32} : skipMessages C st upTo = .ok st' ↔
    ¬ st.recvCount + maxSkip < upTo ∧ st' = st.chainKeyRecv.elim st fun chainKey =>
      { st with
        chainKeyRecv := some (chainAt C chainKey (upTo.toNat - st.recvCount.toNat))
        recvCount := st.recvCount + UInt32.ofNat (upTo.toNat - st.recvCount.toNat)
        skippedKeys := st.skippedKeys ++ (List.range (upTo.toNat - st.recvCount.toNat)).map fun j =>
          ⟨st.dhRemotePublic.getD (Vector.replicate 32 0), st.recvCount + UInt32.ofNat j,
            messageKeyAt C chainKey j⟩ } := by
  unfold skipMessages
  split
  next hjump => simp [hjump]
  next hfits =>
    rw [and_iff_right hfits]
    cases hchain : st.chainKeyRecv with
    | none =>
      simp only [Option.elim_none, Except.ok.injEq]
      exact eq_comm
    | some chainKey =>
      simp only [Option.elim_some, Except.ok.injEq, skipLoop_from]
      exact eq_comm

theorem storedKeys_skipMessages {upTo : UInt32} (h : skipMessages C st upTo = .ok st') :
    st'.storedKeys = st.storedKeys ++ st.passedKeys C upTo ∧
      st'.chainKeyRecv = st.chainKeyRecv.map (chainAt C · (upTo.toNat - st.recvCount.toNat)) ∧
      st'.rootKey = st.rootKey ∧ st'.dhSelfPrivate = st.dhSelfPrivate := by
  obtain ⟨-, rfl⟩ := skipMessages_eq_ok.mp h
  unfold storedKeys passedKeys
  cases hchain : st.chainKeyRecv with
  | none => simp [hchain]
  | some chainKey => simp

theorem decryptCurrent_eq_ok : decryptCurrent C st header ciphertext = (.ok plaintext, st') ↔
    ∃ mid chainKey, skipMessages C st header.messageNumber = .ok mid ∧ mid.chainKeyRecv = some chainKey ∧
      decryptMessage C (kdfCk C chainKey).2 ciphertext = .ok plaintext ∧
      st' = { mid with chainKeyRecv := some (kdfCk C chainKey).1, recvCount := mid.recvCount + 1 } := by
  unfold decryptCurrent
  cases hskip : skipMessages C st header.messageNumber with
  | error e => simp
  | ok mid =>
    dsimp only
    cases hchain : mid.chainKeyRecv with
    | none => simp [hchain]
    | some chainKey =>
      rw [Prod.mk.injEq]
      constructor
      · rintro ⟨hopen, rfl⟩
        exact ⟨mid, chainKey, rfl, hchain, hopen, rfl⟩
      · rintro ⟨_, _, hmid, hchain', hopen, rfl⟩
        obtain rfl := Except.ok.inj hmid
        obtain rfl := Option.some.inj (hchain.symm.trans hchain')
        exact ⟨hopen, rfl⟩

theorem decryptCurrent_accepts (h : decryptCurrent C st header ciphertext = (.ok plaintext, st')) :
    ¬ st.recvCount + maxSkip < header.messageNumber ∧ ∃ chainKey, st.chainKeyRecv = some chainKey ∧
      decryptMessage C (messageKeyAt C chainKey (header.messageNumber.toNat - st.recvCount.toNat)) ciphertext =
        .ok plaintext ∧
      st'.storedKeys = st.storedKeys ++ st.passedKeys C header.messageNumber := by
  obtain ⟨mid, chainKey, hskip, hchain, hopen, rfl⟩ := decryptCurrent_eq_ok.mp h
  obtain ⟨hstored, hmoved, -, -⟩ := storedKeys_skipMessages hskip
  rw [hmoved] at hchain
  obtain ⟨start, hstart, rfl⟩ := Option.map_eq_some_iff.mp hchain
  exact ⟨(skipMessages_eq_ok.mp hskip).1, start, hstart, hopen, hstored⟩

theorem exists_decryptCurrent {chainKey : Bytes32} (hjump : ¬ st.recvCount + maxSkip < header.messageNumber)
    (hchain : st.chainKeyRecv = some chainKey)
    (hopen : decryptMessage C (messageKeyAt C chainKey (header.messageNumber.toNat - st.recvCount.toNat)) ciphertext =
      .ok plaintext) : ∃ st', decryptCurrent C st header ciphertext = (.ok plaintext, st') := by
  obtain ⟨mid, hskip⟩ : ∃ mid, skipMessages C st header.messageNumber = .ok mid :=
    ⟨_, skipMessages_eq_ok.mpr ⟨hjump, rfl⟩⟩
  obtain ⟨-, hmoved, -, -⟩ := storedKeys_skipMessages hskip
  rw [hchain, Option.map_some] at hmoved
  exact ⟨_, decryptCurrent_eq_ok.mpr ⟨_, _, hskip, hmoved, hopen, rfl⟩⟩

theorem storedKeys_eraseP {sk : SkippedKey} (h : st.skippedKeys.find? (SkippedKey.matches header) = some sk) :
    (({ st with skippedKeys := st.skippedKeys.eraseP (SkippedKey.matches header) } : RatchetState).storedKeys ++
      [sk.messageKey]).Perm st.storedKeys := by
  obtain ⟨hmatch, before, after, hlist, hbefore⟩ := List.find?_eq_some_iff_append.mp h
  have herase : st.skippedKeys.eraseP (SkippedKey.matches header) = before ++ after := by
    rw [hlist, List.eraseP_append_right _ (by simpa using hbefore), List.eraseP_cons_of_pos hmatch]
  unfold storedKeys
  rw [herase, hlist, List.map_append, List.map_append, List.map_cons, List.append_assoc]
  exact (List.perm_append_singleton _ _).append_left _

theorem dhChain_skipMessages {upTo : UInt32} (h : skipMessages C st upTo = .ok st') (remote : Bytes32) :
    st'.dhChain C remote = st.dhChain C remote := by
  obtain ⟨-, -, hroot, hself⟩ := storedKeys_skipMessages h
  unfold dhChain
  rw [hroot, hself]

/-- An accepted message opened under the key that its header names, and every key that was stored
or derived is stored now, except for this one. -/
theorem decrypt_reads (h : decrypt C generated st header ciphertext = (.ok plaintext, st')) :
    ∃ key, st.openingKey C header = some key ∧ decryptMessage C key ciphertext = .ok plaintext ∧
      (st'.storedKeys ++ [key]).Perm (st.storedKeys ++ st.derivedKeys C header) := by
  cases hfind : st.skippedKeys.find? (SkippedKey.matches header) with
  | some sk =>
    have hstores : st.stores header = true := by
      rw [stores_eq_isSome, hfind]
      rfl
    rw [decrypt_of_found hfind] at h
    obtain ⟨hopen, rfl⟩ := Prod.mk.inj h
    refine ⟨sk.messageKey, ?_, hopen, ?_⟩
    · unfold openingKey
      rw [hfind]
    · rw [derivedKeys, if_pos hstores, List.append_nil]
      exact storedKeys_eraseP hfind
  | none =>
    have hstores : st.stores header = false := by
      rw [stores_eq_isSome, hfind]
      rfl
    cases hneed : needDhRatchet st header with
    | true =>
      cases hskip : skipMessages C st header.previousChainLength with
      | error e =>
        rw [decrypt_refused hstores generated ciphertext hneed hskip] at h
        cases h
      | ok mid =>
        rw [decrypt_ratchet hstores generated ciphertext hneed hskip] at h
        obtain ⟨hjump, chainKey, hchain, hopen, hkeys⟩ := decryptCurrent_accepts h
        obtain ⟨hstored, -, -, -⟩ := storedKeys_skipMessages hskip
        have hstart : chainKey = st.dhChain C header.dhPublic := by
          rw [← dhChain_skipMessages hskip]
          exact (Option.some.inj hchain).symm
        have hfits : ¬ maxSkip < header.messageNumber := hjump
        have hkey : st.openingKey C header =
            some (messageKeyAt C (st.dhChain C header.dhPublic) header.messageNumber.toNat) := by
          unfold openingKey
          rw [hfind]
          simp [hneed, (skipMessages_eq_ok.mp hskip).1, hfits]
        have hpassed : (dhRatchet C generated mid header.dhPublic).passedKeys C header.messageNumber =
            (List.range header.messageNumber.toNat).map (messageKeyAt C (st.dhChain C header.dhPublic)) := by
          unfold passedKeys
          rw [hchain, hstart]
          rfl
        have hbefore : (dhRatchet C generated mid header.dhPublic).storedKeys = mid.storedKeys := rfl
        rw [hstart] at hopen
        refine ⟨_, hkey, hopen, ?_⟩
        rw [derivedKeys, hstores, if_neg (by simp), if_pos hneed, hkey, hkeys, hpassed, hbefore, hstored]
        simp only [List.append_assoc, Option.toList_some]
        exact List.Perm.refl _
    | false =>
      rw [decrypt_same hstores generated ciphertext hneed] at h
      obtain ⟨hjump, chainKey, hchain, hopen, hkeys⟩ := decryptCurrent_accepts h
      have hkey : st.openingKey C header =
          some (messageKeyAt C chainKey (header.messageNumber.toNat - st.recvCount.toNat)) := by
        unfold openingKey
        rw [hfind, hchain]
        simp [hneed, hjump]
      refine ⟨_, hkey, hopen, ?_⟩
      rw [derivedKeys, hstores, if_neg (by simp), if_neg (by simp [hneed]), hkey, hkeys, List.append_assoc]
      exact List.Perm.refl _

/-- A key that the session stores or can derive for a header with this public key. -/
def Derives (C : Crates) (st : RatchetState) (dhPublic key : Bytes32) : Prop :=
  (∃ sk ∈ st.skippedKeys, sk.messageKey = key) ∨
  (∃ chainKey n, st.chainKeyRecv = some chainKey ∧ messageKeyAt C chainKey n = key) ∨
  ∃ n, messageKeyAt C (st.dhChain C dhPublic) n = key

theorem derives_openingKey {key : Bytes32} (h : st.openingKey C header = some key) :
    st.Derives C header.dhPublic key := by
  unfold openingKey at h
  split at h
  next sk hfind =>
    obtain rfl := Option.some.inj h
    exact .inl ⟨sk, List.mem_of_find?_eq_some hfind, rfl⟩
  next =>
    split at h
    · split at h
      · cases h
      · exact .inr (.inr ⟨_, Option.some.inj h⟩)
    · split at h
      · cases h
      · obtain ⟨chainKey, hchain, hkey⟩ := Option.map_eq_some_iff.mp h
        exact .inr (.inl ⟨chainKey, _, hchain, hkey⟩)

/-- Whether a message is accepted is settled by the one key that its header names. -/
theorem decrypt_isOk_iff : (decrypt C generated st header ciphertext).1 = .ok plaintext ↔
    ∃ key, st.openingKey C header = some key ∧ decryptMessage C key ciphertext = .ok plaintext := by
  constructor
  · intro h
    obtain ⟨key, hkey, hopen, -⟩ :=
      decrypt_reads (Prod.ext h rfl : decrypt C generated st header ciphertext = (.ok plaintext, _))
    exact ⟨key, hkey, hopen⟩
  · rintro ⟨key, hkey, hopen⟩
    unfold openingKey at hkey
    cases hfind : st.skippedKeys.find? (SkippedKey.matches header) with
    | some sk =>
      rw [hfind] at hkey
      obtain rfl := Option.some.inj hkey
      rw [decrypt_of_found hfind]
      exact hopen
    | none =>
      have hstores : st.stores header = false := by
        rw [stores_eq_isSome, hfind]
        rfl
      rw [hfind] at hkey
      dsimp only at hkey
      cases hneed : needDhRatchet st header with
      | true =>
        rw [if_pos hneed] at hkey
        obtain ⟨hfits, rfl⟩ : ¬ (st.recvCount + maxSkip < header.previousChainLength ∨ maxSkip < header.messageNumber) ∧
            messageKeyAt C (st.dhChain C header.dhPublic) header.messageNumber.toNat = key := by simpa using hkey
        obtain ⟨mid, hskip⟩ : ∃ mid, skipMessages C st header.previousChainLength = .ok mid :=
          ⟨_, skipMessages_eq_ok.mpr ⟨fun h => hfits (.inl h), rfl⟩⟩
        have hjump : ¬ (dhRatchet C generated mid header.dhPublic).recvCount + maxSkip < header.messageNumber :=
          fun h => hfits (.inr h)
        rw [← dhChain_skipMessages hskip] at hopen
        obtain ⟨st', hok⟩ := exists_decryptCurrent hjump rfl hopen
        rw [decrypt_ratchet hstores generated ciphertext hneed hskip, hok]
      | false =>
        rw [if_neg (by simp [hneed])] at hkey
        obtain ⟨hfits, chainKey, hchain, rfl⟩ : ¬ st.recvCount + maxSkip < header.messageNumber ∧
            ∃ chainKey, st.chainKeyRecv = some chainKey ∧
              messageKeyAt C chainKey (header.messageNumber.toNat - st.recvCount.toNat) = key := by simpa using hkey
        obtain ⟨st', hok⟩ := exists_decryptCurrent hfits hchain hopen
        rw [decrypt_same hstores generated ciphertext hneed, hok]

end RatchetState
end Proscenium.Crypto
