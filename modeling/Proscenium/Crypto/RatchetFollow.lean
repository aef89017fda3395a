import Proscenium.Crypto.RatchetTranscript

/-! How the ratchet operations move a side along the transcript: `encrypt`
takes the next message key of its chain, reading passes over keys and stores
them, and the Diffie-Hellman step leaves one chain for the next. -/

namespace Proscenium.Crypto

variable {C : Crates} {secret : Bytes32} {T : Transcript}

namespace Transcript

theorem position_le_bump (e y r i : Nat) : T.position y r i ≤ (T.bump e).position y r i := by
  unfold position
  split
  · exact le_rfl
  · exact le_bump_sent e i

theorem Follows.bump {e y : Nat} {st : RatchetState} (h : T.Follows C secret y st)
    (hy : y ≠ e) (hprev : y - 2 ≠ e) : (T.bump e).Follows C secret y st where
  priv := h.priv
  pub := h.pub
  root := h.root
  remote := by
    rw [h.remote]
    cases y <;> rfl
  send := by
    rw [h.send]
    cases y with
    | zero => rfl
    | succ y => simp only [sendKeyAt, bump_keys, bump_sent_of_ne hy]
  recv := by
    rw [h.recv]
    rcases y with _ | _ | y <;> rfl
  sendCount := by rw [h.sendCount, bump_sent_of_ne hy]
  prevSendCount := by rw [h.prevSendCount, bump_sent_of_ne hprev]
  recvCount_le := h.recvCount_le.trans (le_bump_sent e _)
  stored := by
    intro sk hsk
    obtain ⟨i, hi, hiy, hkey, hlt⟩ := h.stored sk hsk
    exact ⟨i, hi, hiy, ⟨hkey.pub, hkey.key⟩, hlt.trans_le (position_le_bump e y _ i)⟩

theorem IsMessageOf.bump {e i : Nat} {m : Sent} (h : T.IsMessageOf C secret i m)
    (hprev : i - 2 ≠ e) : (T.bump e).IsMessageOf C secret i m where
  pos := h.pos
  pub := h.pub
  number_lt := h.number_lt.trans_le (le_bump_sent e i)
  previous := by rw [h.previous, bump_sent_of_ne hprev]
  ciphertext := h.ciphertext

theorem Pending.bump {e y : Nat} {st : RatchetState} {m : Sent} (h : T.Pending C secret y st m)
    (hy : y ≤ e + 1) (hlast : ∀ i, e + 1 < i → T.sent i = 0) (he : 1 ≤ e) :
    (T.bump e).Pending C secret y st m := by
  obtain ⟨i, hm, hi, hparity, hstored⟩ := h
  have hie : i ≤ e + 1 := by
    by_contra hlt
    have hzero := hlast i (not_le.mp hlt)
    have hnum := hm.number_lt
    omega
  refine ⟨i, hm.bump (by omega), hi, hparity, fun hiy hlt => hstored hiy ?_⟩
  -- the only chain that grew is `e`, which a side at `e + 1` reads at `recv_count`
  unfold position at hlt ⊢
  split at hlt
  · rwa [if_pos ‹_›]
  · rw [if_neg ‹_›]
    rwa [bump_sent_of_ne (by omega)] at hlt

/-- What `encrypt` does: the next message of the sender's chain. -/
theorem Follows.encrypt {e : Nat} {st st' : RatchetState} {header : RatchetHeader}
    {plaintext ciphertext : Bytes} (h : T.Follows C secret e st)
    (henc : st.encrypt C plaintext = some (st', header, ciphertext))
    (hwrap : st.sendCount.toNat + 1 < 2 ^ 32) :
    1 ≤ e ∧ (T.bump e).Follows C secret e st' ∧
      (T.bump e).IsMessageOf C secret e ⟨header, ciphertext, plaintext⟩ ∧
      header.messageNumber.toNat = T.sent e ∧
      st'.recvCount = st.recvCount ∧ st'.skippedKeys = st.skippedKeys := by
  cases e with
  | zero =>
    have hnone : st.chainKeySend = none := h.send
    simp [RatchetState.encrypt, hnone] at henc
  | succ k =>
    have hsend : st.chainKeySend =
        some (chainAt C (chainStart C secret T.keys (k + 1)) (T.sent (k + 1))) := h.send
    simp only [RatchetState.encrypt, hsend, Option.some.injEq, Prod.mk.injEq] at henc
    obtain ⟨rfl, rfl, rfl⟩ := henc
    have hcount : (st.sendCount + 1).toNat = T.sent (k + 1) + 1 := by
      rw [UInt32.toNat_add, ← h.sendCount]
      exact Nat.mod_eq_of_lt hwrap
    have hprev : k + 1 - 2 ≠ k + 1 := by omega
    have hrecv : k + 1 - 1 ≠ k + 1 := by omega
    refine ⟨Nat.le_add_left 1 k, ?_, ?_, h.sendCount, rfl, rfl⟩
    · exact {
        priv := h.priv
        pub := h.pub
        root := h.root
        remote := h.remote
        send := by simp only [sendKeyAt, bump_keys, bump_sent_self, chainAt]
        recv := by
          rw [h.recv]
          rcases k with _ | k <;> rfl
        sendCount := by rw [hcount, bump_sent_self]
        prevSendCount := by rw [h.prevSendCount, bump_sent_of_ne hprev]
        recvCount_le := by
          rw [bump_sent_of_ne hrecv]
          exact h.recvCount_le
        stored := by
          intro sk hsk
          obtain ⟨i, hi, hie, hkey, hlt⟩ := h.stored sk hsk
          exact ⟨i, hi, hie, ⟨hkey.pub, hkey.key⟩,
            hlt.trans_le (position_le_bump (k + 1) (k + 1) _ i)⟩ }
    · exact {
        pos := Nat.le_add_left 1 k
        pub := h.pub
        number_lt := by
          rw [bump_sent_self, h.sendCount]
          exact Nat.lt_succ_self _
        previous := by rw [bump_sent_of_ne hprev, h.prevSendCount]
        ciphertext := by simp only [messageKeyAt, bump_keys, h.sendCount] }

/-- The reader's place does not depend on pairs drawn later. -/
theorem Follows.draw {e f : Nat} {kp : KeyPair} {st : RatchetState}
    (h : T.Follows C secret e st) (hf : e < f) : (T.draw f kp).Follows C secret e st := by
  have hkeys : ∀ i ≤ e, T.keys i = (T.draw f kp).keys i :=
    fun i hi => (draw_keys_of_lt kp (hi.trans_lt hf)).symm
  have hchain : ∀ i ≤ e, chainStart C secret T.keys i = chainStart C secret (T.draw f kp).keys i :=
    fun i hi => chainStart_congr fun j hj => hkeys j (hj.trans hi)
  exact {
    priv := by rw [h.priv, hkeys e le_rfl]
    pub := by rw [h.pub, hkeys e le_rfl]
    root := by rw [h.root, rootAt_congr hkeys]
    remote := by
      rw [h.remote]
      cases e with
      | zero => rfl
      | succ e => rw [remoteAt, remoteAt, hkeys e (Nat.le_succ e)]
    send := by
      rw [h.send]
      cases e with
      | zero => rfl
      | succ e => rw [sendKeyAt, sendKeyAt, hchain (e + 1) le_rfl, draw_sent]
    recv := by
      rw [h.recv]
      rcases e with _ | _ | e
      · rfl
      · rfl
      · rw [recvKeyAt, recvKeyAt, hchain (e + 1) (Nat.le_succ _)]
    sendCount := h.sendCount
    prevSendCount := h.prevSendCount
    recvCount_le := h.recvCount_le
    stored := by
      intro sk hsk
      obtain ⟨i, hi, hie, hkey, hlt⟩ := h.stored sk hsk
      refine ⟨i, hi, hie, ⟨?_, ?_⟩, hlt⟩
      · rw [hkey.pub, hkeys i hie.le]
      · rw [hkey.key, hchain i hie.le] }

theorem IsMessageOf.draw {i f : Nat} {kp : KeyPair} {m : Sent}
    (h : T.IsMessageOf C secret i m) (hf : i < f) : (T.draw f kp).IsMessageOf C secret i m where
  pos := h.pos
  pub := by rw [h.pub, draw_keys_of_lt kp hf]
  number_lt := h.number_lt
  previous := h.previous
  ciphertext := by
    rw [h.ciphertext, chainStart_congr fun j hj => (draw_keys_of_lt kp (hj.trans_lt hf)).symm]

end Transcript

theorem SkippedKey.matches_iff {header : RatchetHeader} {sk : SkippedKey} :
    sk.matches header = true ↔
      sk.ratchetPublic = header.dhPublic ∧ sk.messageNumber = header.messageNumber := by
  simp only [SkippedKey.matches, Bool.and_eq_true, beq_iff_eq]

theorem RatchetState.stores_append {st st' : RatchetState} {header : RatchetHeader}
    {more : List SkippedKey} (hkeys : st'.skippedKeys = st.skippedKeys ++ more)
    (h : st.stores header = true) : st'.stores header = true := by
  obtain ⟨sk, hsk, hmatch⟩ := RatchetState.stores_iff.mp h
  refine RatchetState.stores_iff.mpr ⟨sk, ?_, hmatch⟩
  rw [hkeys]
  exact List.mem_append_left _ hsk

theorem stores_of_passedOver {st : RatchetState} {header : RatchetHeader}
    {keys : List SkippedKey} {remote start : Bytes32} {r n : Nat}
    (hkeys : st.skippedKeys = keys ++ passedOver C remote start r n)
    (hpub : header.dhPublic = remote) (hr : r ≤ header.messageNumber.toNat)
    (hn : header.messageNumber.toNat < n) : st.stores header = true := by
  refine RatchetState.stores_iff.mpr ⟨⟨remote, UInt32.ofNat header.messageNumber.toNat,
    messageKeyAt C start header.messageNumber.toNat⟩, ?_, ?_⟩
  · rw [hkeys]
    exact List.mem_append_right _ (mem_passedOver.mpr ⟨_, hr, hn, rfl⟩)
  · rw [SkippedKey.matches_iff]
    exact ⟨hpub.symm, UInt32.ofNat_toNat⟩

namespace Transcript

theorem Follows.recv_of {e j : Nat} {st : RatchetState} (h : T.Follows C secret e st)
    (hj : j + 1 = e) (hpos : 1 ≤ j) :
    st.chainKeyRecv = some (chainAt C (chainStart C secret T.keys j) st.recvCount.toNat) := by
  obtain ⟨k, rfl⟩ : ∃ k, j = k + 1 := ⟨j - 1, by omega⟩
  rw [h.recv, ← hj, recvKeyAt]

theorem isKeyOf_passedOver {j r n : Nat} {sk : SkippedKey} (hn : n < 2 ^ 32)
    (hsk : sk ∈ passedOver C (T.keys j).pub (chainStart C secret T.keys j) r n) :
    T.IsKeyOf C secret j sk ∧ sk.messageNumber.toNat < n := by
  obtain ⟨k, -, hk, rfl⟩ := mem_passedOver.mp hsk
  have hnat : (UInt32.ofNat k).toNat = k := UInt32.toNat_ofNat_of_lt' (hk.trans hn)
  refine ⟨⟨rfl, ?_⟩, ?_⟩
  · rw [hnat]
  · rwa [hnat]

theorem toNat_add_one {n : UInt32} (h : n.toNat + 1 < 2 ^ 32) : (n + 1).toNat = n.toNat + 1 := by
  rw [UInt32.toNat_add]
  exact Nat.mod_eq_of_lt h

theorem Follows.readPast {e j : Nat} {st : RatchetState} {m : Sent}
    (h : T.Follows C secret e st) (hm : T.IsMessageOf C secret j m) (hj : j + 1 = e)
    (hge : st.recvCount.toNat ≤ m.header.messageNumber.toNat)
    (hlast : m.header.messageNumber.toNat + 1 < 2 ^ 32) :
    T.Follows C secret e (st.readPast C m.header.dhPublic (chainStart C secret T.keys j)
      m.header.messageNumber) := by
  have hpos := hm.pos
  have hnext := toNat_add_one hlast
  refine { h with recv := ?_, recvCount_le := ?_, stored := ?_ }
  · obtain ⟨k, rfl⟩ : ∃ k, j = k + 1 := ⟨j - 1, by omega⟩
    rw [← hj, recvKeyAt, RatchetState.readPast, hnext]
  · rw [RatchetState.readPast, hnext, ← hj]
    exact hm.number_lt
  · intro sk hsk
    rw [RatchetState.readPast] at hsk
    simp only [RatchetState.readPast, hnext]
    rcases List.mem_append.mp hsk with hsk | hsk
    · obtain ⟨l, hl, hle, hkey, hlt⟩ := h.stored sk hsk
      refine ⟨l, hl, hle, hkey, hlt.trans_le ?_⟩
      unfold position
      split
      · omega
      · exact le_rfl
    · rw [hm.pub] at hsk
      obtain ⟨hkey, hlt⟩ := isKeyOf_passedOver (by omega) hsk
      refine ⟨j, hpos, by omega, hkey, ?_⟩
      rw [position, if_pos hj]
      omega

theorem Pending.readPast {e j : Nat} {st : RatchetState} {m m' : Sent}
    (h : T.Pending C secret e st m') (hm : T.IsMessageOf C secret j m) (hj : j + 1 = e)
    (hlast : m.header.messageNumber.toNat + 1 < 2 ^ 32) (hdiff : m'.Differs m) :
    T.Pending C secret e (st.readPast C m.header.dhPublic (chainStart C secret T.keys j)
      m.header.messageNumber) m' := by
  obtain ⟨l, hml, hl, hparity, hstored⟩ := h
  refine ⟨l, hml, hl, hparity, fun hle hlt => ?_⟩
  by_cases hold : m'.header.messageNumber.toNat < T.position e st.recvCount.toNat l
  · exact RatchetState.stores_append rfl (hstored hle hold)
  · -- passed over just now: on the chain being read, between the two positions
    have hsame : l + 1 = e := by
      by_contra hne
      rw [position, if_neg hne] at hold hlt
      exact hold hlt
    obtain rfl : l = j := by omega
    simp only [position, if_pos hsame, RatchetState.readPast, toNat_add_one hlast] at hold hlt
    have hpub : m'.header.dhPublic = m.header.dhPublic := by rw [hml.pub, hm.pub]
    have hnum : m'.header.messageNumber.toNat ≠ m.header.messageNumber.toNat :=
      fun heq => hdiff hpub (UInt32.toNat_inj.mp heq)
    exact stores_of_passedOver rfl hpub (not_lt.mp hold) (by omega)

/-- `st₁` has left the chain that `st` reads: every message of it, and of the
chains before, is either read or has its key stored. -/
structure Leaves (C : Crates) (secret : Bytes32) (T : Transcript) (e : Nat)
    (st st₁ : RatchetState) : Prop where
  priv : st₁.dhSelfPrivate = st.dhSelfPrivate
  root : st₁.rootKey = st.rootKey
  sendCount : st₁.sendCount = st.sendCount
  stored : ∀ sk ∈ st₁.skippedKeys, ∃ i, 1 ≤ i ∧ i < e ∧ T.IsKeyOf C secret i sk ∧
    sk.messageNumber.toNat < T.sent i
  stores : ∀ i m, T.IsMessageOf C secret i m → i < e →
    (m.header.messageNumber.toNat < T.position e st.recvCount.toNat i →
      st.stores m.header = true) → st₁.stores m.header = true

theorem Follows.stored_sent {e : Nat} {st : RatchetState} (h : T.Follows C secret e st) :
    ∀ sk ∈ st.skippedKeys, ∃ i, 1 ≤ i ∧ i < e ∧ T.IsKeyOf C secret i sk ∧
      sk.messageNumber.toNat < T.sent i := by
  intro sk hsk
  obtain ⟨i, hi, hie, hkey, hlt⟩ := h.stored sk hsk
  refine ⟨i, hi, hie, hkey, hlt.trans_le ?_⟩
  unfold position
  split
  · obtain rfl : i = e - 1 := by omega
    exact h.recvCount_le
  · exact le_rfl

theorem Follows.leave_first {e : Nat} {st : RatchetState} {prev : UInt32}
    (h : T.Follows C secret e st) (he : e ≤ 1) (hzero : T.sent 0 = 0)
    (hprev : prev.toNat = T.sent (e - 1)) :
    ∃ st₁, st.skipMessages C prev = .ok st₁ ∧ Leaves C secret T e st st₁ := by
  have hnone : st.chainKeyRecv = none := by
    rw [h.recv]
    obtain rfl | rfl : e = 0 ∨ e = 1 := by omega
    · rfl
    · rfl
  have hprev0 : prev = 0 := by
    rw [show e - 1 = 0 by omega, hzero] at hprev
    exact UInt32.toNat_inj.mp hprev
  refine ⟨st, by rw [hprev0, RatchetState.skipMessages_zero hnone], rfl, rfl, rfl, h.stored_sent, ?_⟩
  intro i m hm hi
  have hpos := hm.pos
  omega

theorem Follows.leave {e : Nat} {st : RatchetState} {prev : UInt32}
    (h : T.Follows C secret e st) (hzero : T.sent 0 = 0) (hprev : prev.toNat = T.sent (e - 1))
    (hjump : prev.toNat ≤ st.recvCount.toNat + maxSkip.toNat)
    (hwrap : st.recvCount.toNat + maxSkip.toNat < 2 ^ 32) :
    ∃ st₁, st.skipMessages C prev = .ok st₁ ∧ Leaves C secret T e st st₁ := by
  by_cases he : e ≤ 1
  · exact h.leave_first he hzero hprev
  obtain ⟨k, rfl⟩ : ∃ k, e = k + 2 := ⟨e - 2, by omega⟩
  have hremote : st.dhRemotePublic = some (T.keys (k + 1)).pub := by rw [h.remote, remoteAt]
  have hsent : prev.toNat = T.sent (k + 1) := hprev
  refine ⟨_, RatchetState.skipMessages_eq hremote (h.recv_of rfl (Nat.le_add_left 1 k))
    (hsent ▸ h.recvCount_le) hjump hwrap, rfl, rfl, rfl, ?_, ?_⟩
  · intro sk hsk
    rcases List.mem_append.mp hsk with hsk | hsk
    · exact h.stored_sent sk hsk
    · obtain ⟨hkey, hlt⟩ := isKeyOf_passedOver prev.toNat_lt hsk
      exact ⟨k + 1, Nat.le_add_left 1 k, Nat.lt_succ_self _, hkey, hsent ▸ hlt⟩
  · intro i m hm hi hstored
    by_cases hlt : m.header.messageNumber.toNat < T.position (k + 2) st.recvCount.toNat i
    · exact RatchetState.stores_append rfl (hstored hlt)
    · have hnum := hm.number_lt
      have hsame : i + 1 = k + 2 := by
        by_contra hne
        rw [position, if_neg hne] at hlt
        exact hlt hnum
      obtain rfl : i = k + 1 := by omega
      rw [position, if_pos hsame] at hlt
      exact stores_of_passedOver rfl hm.pub (not_lt.mp hlt) (hsent ▸ hnum)

/-- The Diffie-Hellman step: the reader moves two pairs on. -/
theorem Follows.dhRatchet (hC : C.Lawful) {e : Nat} {st st₁ : RatchetState} {kp : KeyPair}
    (h : T.Follows C secret e st) (hleft : Leaves C secret T e st st₁)
    (hkp : C.IsKeyPair kp) (hremote : C.IsKeyPair (T.keys (e + 1))) (hsent : T.sent (e + 2) = 0) :
    (T.draw (e + 2) kp).Follows C secret (e + 2) (st₁.dhRatchet C kp (T.keys (e + 1)).pub) := by
  have hkeys : ∀ i < e + 2, (T.draw (e + 2) kp).keys i = T.keys i :=
    fun i hi => draw_keys_of_lt kp hi
  have hchain : ∀ i < e + 2,
      chainStart C secret (T.draw (e + 2) kp).keys i = chainStart C secret T.keys i :=
    fun i hi => chainStart_congr fun j hj => hkeys j (hj.trans_lt hi)
  have hroots : rootAt C secret (T.draw (e + 2) kp).keys (e + 1) = rootAt C secret T.keys (e + 1) :=
    rootAt_congr fun j hj => hkeys j (Nat.lt_succ_of_le hj)
  have hdh : C.x25519Dh kp.priv (T.keys (e + 1)).pub = C.x25519Dh (T.keys (e + 1)).priv kp.pub :=
    hC.dh_comm kp (T.keys (e + 1)) hkp hremote
  have hrecv : kdfRk C st₁.rootKey (C.x25519Dh st₁.dhSelfPrivate (T.keys (e + 1)).pub) =
      (rootAt C secret T.keys (e + 1), chainStart C secret T.keys (e + 1)) := by
    rw [hleft.priv, hleft.root, h.priv, h.root, kdfRk_rootAt]
  have hsend : kdfRk C (rootAt C secret T.keys (e + 1))
      (C.x25519Dh kp.priv (T.keys (e + 1)).pub) =
      (rootAt C secret (T.draw (e + 2) kp).keys (e + 2),
        chainStart C secret (T.draw (e + 2) kp).keys (e + 2)) := by
    rw [← kdfRk_rootAt, hroots, draw_keys_self, hkeys (e + 1) (Nat.lt_succ_self _), hdh]
  exact {
    priv := by rw [draw_keys_self, RatchetState.dhRatchet]
    pub := by rw [draw_keys_self, RatchetState.dhRatchet]
    root := by
      simp only [RatchetState.dhRatchet, hrecv, hsend]
    remote := by rw [RatchetState.dhRatchet, remoteAt, hkeys (e + 1) (Nat.lt_succ_self _)]
    send := by
      simp only [RatchetState.dhRatchet, hrecv, hsend]
      rw [sendKeyAt, draw_sent, hsent, chainAt]
    recv := by
      simp only [RatchetState.dhRatchet, hrecv]
      rw [recvKeyAt, hchain (e + 1) (Nat.lt_succ_self _)]
      rfl
    sendCount := by
      rw [RatchetState.dhRatchet, draw_sent, hsent]
      rfl
    prevSendCount := by
      rw [RatchetState.dhRatchet, hleft.sendCount]
      exact h.sendCount
    recvCount_le := by
      rw [RatchetState.dhRatchet]
      exact Nat.zero_le _
    stored := by
      intro sk hsk
      obtain ⟨i, hi, hie, hkey, hlt⟩ := hleft.stored sk hsk
      refine ⟨i, hi, by omega, ⟨?_, ?_⟩, ?_⟩
      · rw [hkey.pub, hkeys i (by omega)]
      · rw [hkey.key, hchain i (by omega)]
      · rwa [position, if_neg (by omega), draw_sent] }

theorem Pending.dhRatchet {e : Nat} {st st₁ : RatchetState} {kp : KeyPair} {m : Sent}
    {remote : Bytes32} (h : T.Pending C secret e st m) (hleft : Leaves C secret T e st st₁) :
    (T.draw (e + 2) kp).Pending C secret (e + 2) (st₁.dhRatchet C kp remote) m := by
  obtain ⟨i, hm, hi, hparity, hstored⟩ := h
  refine ⟨i, hm.draw (by omega), by omega, by omega, fun _ hlt => ?_⟩
  by_cases hie : i < e
  · exact hleft.stores i m hm hie (hstored hie)
  · -- nothing of chain `e + 1` is read yet
    obtain rfl : i = e + 1 := by omega
    rw [position, if_pos rfl] at hlt
    exact absurd hlt (Nat.not_lt_zero _)

end Transcript

end Proscenium.Crypto
