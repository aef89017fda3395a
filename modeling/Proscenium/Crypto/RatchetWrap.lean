import Proscenium.Crypto.RatchetDelivery

/-! Runs of the channel on a small instance of the primitives: one out of order,
and one that reaches the end of the `u32` counters. -/

namespace Proscenium.Crypto

def bytes32 (l : List UInt8) : Bytes32 := ⟨⟨(l ++ List.replicate 32 0).take 32⟩, by simp⟩

/-- `a + b` is the Diffie-Hellman secret of `a` and `b`, and the key is the tag. -/
def additiveCrates : Crates where
  x25519PublicFromPrivate p := p
  x25519Dh a b := bytes32 (List.zipWith (· + ·) a.toList b.toList)
  hkdfExpand salt ikm info len :=
    let seed := ikm.toList.sum + (salt.elim 0 fun s => s.toList.sum) + UInt8.ofNat info.length
    ⟨⟨(List.range len).map fun i => seed + UInt8.ofNat i⟩, by simp⟩
  aeadEncrypt key _ plaintext := plaintext ++ key.toList
  aeadDecrypt key _ ciphertext :=
    if ciphertext.drop (ciphertext.length - 32) = key.toList then
      some (ciphertext.take (ciphertext.length - 32)) else none

theorem additiveCrates_lawful : additiveCrates.Lawful where
  dh_comm := by
    intro a b ha hb
    simp only [Crates.IsKeyPair, additiveCrates] at ha hb ⊢
    rw [ha, hb, List.zipWith_comm]
    simp only [UInt8.add_comm]
  decrypt_encrypt := by
    intro key nonce plaintext
    simp [additiveCrates]

def pairOf (n : UInt8) : KeyPair := ⟨bytes32 [n], bytes32 [n]⟩

theorem isKeyPair_pairOf (n : UInt8) : additiveCrates.IsKeyPair (pairOf n) := rfl

/-- Alice's second message overtakes her first, and Bob answers in between. -/
def overtakingRun : List Action :=
  [.encrypt .alice [1], .encrypt .alice [2], .deliver .bob 1 (pairOf 3), .encrypt .bob [3],
    .deliver .bob 0 (pairOf 4), .deliver .alice 0 (pairOf 4)]

theorem ratchet_delivers_overtaking :
    ∃ w, Machine.exec (Channel.step additiveCrates)
      (Channel.start additiveCrates (bytes32 [7]) (pairOf 1) (pairOf 2)) overtakingRun = some w ∧
      w.received.length = 3 ∧ w.Delivered := by
  have hrun : ∃ w, Machine.exec (Channel.step additiveCrates)
      (Channel.start additiveCrates (bytes32 [7]) (pairOf 1) (pairOf 2)) overtakingRun = some w ∧
      w.received.length = 3 := ⟨_, rfl, rfl⟩
  obtain ⟨w, hw, hlen⟩ := hrun
  exact ⟨w, hw, hlen, ratchet_delivers additiveCrates_lawful (isKeyPair_pairOf 1)
    (isKeyPair_pairOf 2) (by decide) (by decide +kernel) (by decide +kernel) hw⟩

section InOrder

variable (C : Crates) (secret : Bytes32) (bobPair alicePair fresh : KeyPair)

def inOrderRound : List Action := [.encrypt .alice [], .deliver .bob 0 fresh]

def inOrderRun (n : Nat) : List Action := (List.replicate n (inOrderRound fresh)).flatten

def firstChain : Bytes32 := (kdfRk C secret (C.x25519Dh alicePair.priv bobPair.pub)).2

def aliceAt (n : Nat) : RatchetState :=
  { RatchetState.initAlice C alicePair secret bobPair.pub with
    chainKeySend := some (chainAt C (firstChain C secret bobPair alicePair) n)
    sendCount := UInt32.ofNat n }

def bobAt (n : Nat) : RatchetState :=
  { RatchetState.dhRatchet C fresh (RatchetState.initBob secret bobPair) alicePair.pub with
    chainKeyRecv := some (chainAt C (firstChain C secret bobPair alicePair) n)
    recvCount := UInt32.ofNat n }

/-- The channel after `n` messages sent and read in order. -/
def inOrderAt (n : Nat) : Channel where
  party
    | .alice => aliceAt C secret bobPair alicePair n
    | .bob => bobAt C secret bobPair alicePair fresh n
  inbox _ := []
  drawn := [fresh.pub, bobPair.pub, alicePair.pub]
  received := List.replicate n (.ok [], [])

variable {C secret bobPair alicePair fresh}

def nextHeader (st : RatchetState) : RatchetHeader :=
  ⟨st.dhSelfPublic, st.sendCount, st.prevSendCount⟩

theorem exec_inOrderRound {w : Channel} {chainKey : Bytes32} (hin : w.inbox = fun _ => [])
    (hsend : (w.party .alice).chainKeySend = some chainKey) {out : Except CryptoError Bytes}
    {st : RatchetState} (hout : (w.party .bob).decrypt C fresh (nextHeader (w.party .alice))
      (encryptMessage C (kdfCk C chainKey).2 []) = (out, st)) :
    Machine.exec (Channel.step C) w (inOrderRound fresh) = some {
      party := fun
        | .alice => { w.party .alice with
            chainKeySend := some (kdfCk C chainKey).1
            sendCount := (w.party .alice).sendCount + 1 }
        | .bob => st
      inbox := fun _ => []
      drawn := if (w.party .bob).drawsKey C (nextHeader (w.party .alice)) then
        fresh.pub :: w.drawn else w.drawn
      received := w.received ++ [(out, [])] } := by
  unfold nextHeader at hout ⊢
  simp only [inOrderRound, Machine.exec, Channel.step, RatchetState.encrypt, hsend, hin,
    Option.bind_some, Side.other, Function.update_self, List.nil_append, List.getElem?_cons_zero,
    Function.update_of_ne (show Side.bob ≠ Side.alice by decide), hout, List.eraseIdx_cons_zero]
  congr 2
  · funext x
    cases x <;> simp [Function.update]
  · funext x
    cases x <;> simp [Function.update]

theorem along_inOrderRound {w : Channel} {chainKey : Bytes32} (hin : w.inbox = fun _ => [])
    (hsend : (w.party .alice).chainKeySend = some chainKey)
    (hskip : (w.party .bob).WithinSkip (nextHeader (w.party .alice)))
    (hfresh : (w.party .bob).drawsKey C (nextHeader (w.party .alice)) = true →
      C.IsKeyPair fresh ∧ fresh.pub ∉ w.drawn) :
    Machine.Along (Channel.step C) (Channel.Admissible C) w (inOrderRound fresh) := by
  refine ⟨trivial, fun v hv => ⟨?_, fun _ _ => trivial⟩⟩
  simp only [Channel.step, RatchetState.encrypt, hsend, hin, Side.other, Option.some.injEq] at hv
  subst hv
  intro m hm
  simp only [Function.update_self, List.nil_append, List.getElem?_cons_zero, Option.mem_some_iff] at hm
  subst hm
  simp only [Function.update_of_ne (show Side.bob ≠ Side.alice by decide)]
  exact ⟨hskip, hfresh⟩

theorem bobAt_needDhRatchet (n : Nat) :
    RatchetState.needDhRatchet (bobAt C secret bobPair alicePair fresh n)
      (nextHeader (aliceAt C secret bobPair alicePair n)) = false := by
  simp [RatchetState.needDhRatchet, bobAt, aliceAt, nextHeader, RatchetState.dhRatchet,
    RatchetState.initAlice]

theorem decryptCurrent_bobAt (hC : C.Lawful) {n : Nat} (hn : n + maxSkip.toNat < 2 ^ 32) :
    RatchetState.decryptCurrent C (bobAt C secret bobPair alicePair fresh n)
        (nextHeader (aliceAt C secret bobPair alicePair n))
        (encryptMessage C (messageKeyAt C (firstChain C secret bobPair alicePair) n) []) =
      (.ok [], bobAt C secret bobPair alicePair fresh (n + 1)) := by
  have hnum : (UInt32.ofNat n).toNat = n :=
    UInt32.toNat_ofNat_of_lt' ((Nat.le_add_right _ _).trans_lt hn)
  have hread : RatchetState.decryptCurrent C (bobAt C secret bobPair alicePair fresh n)
      (nextHeader (aliceAt C secret bobPair alicePair n)) (encryptMessage C
        (messageKeyAt C (firstChain C secret bobPair alicePair) (UInt32.ofNat n).toNat) []) =
      (.ok [], (bobAt C secret bobPair alicePair fresh n).readPast C alicePair.pub
        (firstChain C secret bobPair alicePair) (UInt32.ofNat n)) := by
    apply RatchetState.decryptCurrent_eq hC
    · rfl
    · show some (chainAt C _ n) = some (chainAt C _ (UInt32.ofNat n).toNat)
      rw [hnum]
    · exact le_refl (UInt32.ofNat n).toNat
    · exact Nat.le_add_right (UInt32.ofNat n).toNat _
    · show (UInt32.ofNat n).toNat + _ < _
      rwa [hnum]
  rw [hnum] at hread
  rw [hread, RatchetState.readPast, hnum]
  simp [bobAt, hnum, passedOver, RatchetState.dhRatchet, RatchetState.initBob, UInt32.ofNat_add]

theorem decrypt_initBob (hC : C.Lawful) (hbob : C.IsKeyPair bobPair)
    (halice : C.IsKeyPair alicePair) :
    RatchetState.decrypt C fresh (RatchetState.initBob secret bobPair)
        (nextHeader (aliceAt C secret bobPair alicePair 0))
        (encryptMessage C (messageKeyAt C (firstChain C secret bobPair alicePair) 0) []) =
      (.ok [], bobAt C secret bobPair alicePair fresh 1) := by
  have hdh := hC.dh_comm alicePair bobPair halice hbob
  have hturn : RatchetState.dhRatchet C fresh (RatchetState.initBob secret bobPair) alicePair.pub =
      bobAt C secret bobPair alicePair fresh 0 := by
    simp [bobAt, RatchetState.dhRatchet, RatchetState.initBob, chainAt, firstChain, hdh]
  have hskip : RatchetState.skipMessages C (RatchetState.initBob secret bobPair) 0 =
      .ok (RatchetState.initBob secret bobPair) := RatchetState.skipMessages_zero rfl
  have hneed : RatchetState.needDhRatchet (RatchetState.initBob secret bobPair)
      (nextHeader (aliceAt C secret bobPair alicePair 0)) = true := rfl
  have hprev : (nextHeader (aliceAt C secret bobPair alicePair 0)).previousChainLength = 0 := rfl
  have hpub : (nextHeader (aliceAt C secret bobPair alicePair 0)).dhPublic = alicePair.pub := rfl
  have hstores : (RatchetState.initBob secret bobPair).stores
      (nextHeader (aliceAt C secret bobPair alicePair 0)) = false := rfl
  rw [RatchetState.decrypt_ratchet hstores fresh _ hneed (hprev ▸ hskip), hpub, hturn]
  exact decryptCurrent_bobAt hC (by decide)

theorem decrypt_bobAt (n : Nat) (ciphertext : Bytes) :
    RatchetState.decrypt C fresh (bobAt C secret bobPair alicePair fresh n)
        (nextHeader (aliceAt C secret bobPair alicePair n)) ciphertext =
      RatchetState.decryptCurrent C (bobAt C secret bobPair alicePair fresh n)
        (nextHeader (aliceAt C secret bobPair alicePair n)) ciphertext := by
  have hnone : (bobAt C secret bobPair alicePair fresh n).skippedKeys = [] := rfl
  refine RatchetState.decrypt_same ?_ fresh ciphertext (bobAt_needDhRatchet ..)
  simp [RatchetState.stores, hnone]

theorem exec_first (hC : C.Lawful) (hbob : C.IsKeyPair bobPair) (halice : C.IsKeyPair alicePair) :
    Machine.exec (Channel.step C) (Channel.start C secret bobPair alicePair) (inOrderRound fresh) =
      some (inOrderAt C secret bobPair alicePair fresh 1) := by
  refine (exec_inOrderRound rfl rfl (decrypt_initBob hC hbob halice)).trans ?_
  congr 2

theorem exec_next (hC : C.Lawful) {n : Nat} (hn : n + maxSkip.toNat < 2 ^ 32) :
    Machine.exec (Channel.step C) (inOrderAt C secret bobPair alicePair fresh n)
      (inOrderRound fresh) = some (inOrderAt C secret bobPair alicePair fresh (n + 1)) := by
  refine (exec_inOrderRound rfl rfl ((decrypt_bobAt n _).trans (decryptCurrent_bobAt hC hn))).trans ?_
  congr 2
  · funext x
    cases x
    · simp [inOrderAt, aliceAt, chainAt, UInt32.ofNat_add]
    · rfl
  · simp [inOrderAt, RatchetState.drawsKey, bobAt_needDhRatchet]
  · simp [inOrderAt, List.replicate_succ']

theorem along_first (hfresh : C.IsKeyPair fresh) (hbob : fresh.pub ≠ bobPair.pub)
    (halice : fresh.pub ≠ alicePair.pub) :
    Machine.Along (Channel.step C) (Channel.Admissible C)
      (Channel.start C secret bobPair alicePair) (inOrderRound fresh) := by
  refine along_inOrderRound rfl rfl (fun _ => ?_) fun _ =>
    ⟨hfresh, by simp [Channel.start, hbob, halice]⟩
  exact ⟨Nat.zero_le _, Nat.zero_le _⟩

theorem along_next (n : Nat) :
    Machine.Along (Channel.step C) (Channel.Admissible C)
      (inOrderAt C secret bobPair alicePair fresh n) (inOrderRound fresh) := by
  refine along_inOrderRound rfl rfl (fun _ => ?_) fun h => ?_
  · simp only [inOrderAt, bobAt_needDhRatchet, Bool.false_eq_true, if_false]
    exact Nat.le_add_right (UInt32.ofNat n).toNat _
  · simp [inOrderAt, RatchetState.drawsKey, bobAt_needDhRatchet] at h

theorem inOrderRun_succ (n : Nat) : inOrderRun fresh (n + 1) = inOrderRun fresh n ++ inOrderRound fresh := by
  simp [inOrderRun, List.replicate_succ']

section Run

variable (hC : C.Lawful) (hbob : C.IsKeyPair bobPair) (halice : C.IsKeyPair alicePair)
  (hfresh : C.IsKeyPair fresh) (hnb : fresh.pub ≠ bobPair.pub) (hna : fresh.pub ≠ alicePair.pub)

variable (secret fresh) in
include hC hbob halice in
theorem exec_inOrderRun {n : Nat} (hn : n + maxSkip.toNat < 2 ^ 32) :
    Machine.exec (Channel.step C) (Channel.start C secret bobPair alicePair)
      (inOrderRun fresh (n + 1)) = some (inOrderAt C secret bobPair alicePair fresh (n + 1)) := by
  induction n with
  | zero => exact exec_first hC hbob halice
  | succ n ih =>
    rw [inOrderRun_succ, Machine.exec_append, ih (by omega)]
    exact exec_next hC hn

variable (secret) in
include hC hbob halice hfresh hnb hna in
theorem along_inOrderRun {n : Nat} (hn : n + maxSkip.toNat < 2 ^ 32) :
    Machine.Along (Channel.step C) (Channel.Admissible C)
      (Channel.start C secret bobPair alicePair) (inOrderRun fresh (n + 2)) := by
  induction n with
  | zero =>
    rw [inOrderRun_succ]
    exact (along_first hfresh hnb hna).append (exec_first hC hbob halice) (along_next 1)
  | succ n ih =>
    rw [inOrderRun_succ]
    exact (ih (by omega)).append (exec_inOrderRun secret fresh hC hbob halice hn) (along_next _)

theorem decryptCurrent_wraps (ciphertext : Bytes) :
    RatchetState.decryptCurrent C (bobAt C secret bobPair alicePair fresh (2 ^ 32 - 100))
        (nextHeader (aliceAt C secret bobPair alicePair (2 ^ 32 - 100))) ciphertext =
      (.error .tooManySkipped, bobAt C secret bobPair alicePair fresh (2 ^ 32 - 100)) := by
  have hjump : (bobAt C secret bobPair alicePair fresh (2 ^ 32 - 100)).recvCount + maxSkip <
      (nextHeader (aliceAt C secret bobPair alicePair (2 ^ 32 - 100))).messageNumber := by
    show UInt32.ofNat (2 ^ 32 - 100) + maxSkip < UInt32.ofNat (2 ^ 32 - 100)
    decide
  rw [RatchetState.decryptCurrent, RatchetState.skipMessages, if_pos hjump]

end Run

variable (C secret bobPair alicePair fresh) in
theorem exec_refused :
    ∃ w, Machine.exec (Channel.step C)
        (inOrderAt C secret bobPair alicePair fresh (2 ^ 32 - 100)) (inOrderRound fresh) = some w ∧
      ¬ w.Delivered := by
  refine ⟨_, exec_inOrderRound rfl rfl ((decrypt_bobAt _ _).trans (decryptCurrent_wraps _)), ?_⟩
  intro hdel
  have hlast := hdel (.error .tooManySkipped, [])
    (List.mem_append_right _ (List.mem_singleton.mpr rfl))
  exact nomatch hlast

end InOrder

/-- The delivery property without the bound on the counters fails: a run that only ever
sends and reads in order. -/
theorem not_ratchet_delivers_at_wrap :
    ¬ ∀ (run : List Action) (w : Channel),
      Machine.Along (Channel.step additiveCrates) (Channel.Admissible additiveCrates)
        (Channel.start additiveCrates (bytes32 [7]) (pairOf 1) (pairOf 2)) run →
      Machine.exec (Channel.step additiveCrates)
        (Channel.start additiveCrates (bytes32 [7]) (pairOf 1) (pairOf 2)) run = some w →
      w.Delivered := by
  intro hall
  have hlast : 2 ^ 32 - 101 + maxSkip.toNat < 2 ^ 32 := by decide
  have hadm := along_inOrderRun (bytes32 [7]) additiveCrates_lawful (isKeyPair_pairOf 1)
    (isKeyPair_pairOf 2) (isKeyPair_pairOf 3) (by decide) (by decide) hlast
  have hrun := exec_inOrderRun (bytes32 [7]) (pairOf 3) additiveCrates_lawful (isKeyPair_pairOf 1)
    (isKeyPair_pairOf 2) hlast
  obtain ⟨w, hw, hnot⟩ := exec_refused additiveCrates (bytes32 [7]) (pairOf 1) (pairOf 2) (pairOf 3)
  refine hnot (hall _ w hadm ?_)
  rw [inOrderRun_succ, Machine.exec_append, hrun]
  exact hw

end Proscenium.Crypto
