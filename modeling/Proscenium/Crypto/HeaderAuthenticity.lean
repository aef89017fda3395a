import Proscenium.Crypto.MessageKeys

/-! Altered headers. The header is no part of what the cipher authenticates: it only
says which key to try. A message therefore opens under every header that leads
`decrypt` to its key: the length of the previous chain leads nowhere, and X25519
takes several texts for one public key, as it does not look at the last bit. -/

namespace Proscenium.Crypto

/-- The two texts give the same secret with every private key. -/
def Crates.SamePublic (C : Crates) (a b : Bytes32) : Prop := ∀ priv, C.x25519Dh priv a = C.x25519Dh priv b

namespace RatchetState

variable (C : Crates)

/-- Among the keys that the session stores, or derives for a header with this public key, the key is
at the position of its own header only. -/
structure OnlyAt (st : RatchetState) (dhPublic : Bytes32) (header : RatchetHeader) (key : Bytes32) : Prop where
  stored : ∀ sk ∈ st.skippedKeys, sk.messageKey = key →
    C.SamePublic sk.ratchetPublic header.dhPublic ∧ sk.messageNumber = header.messageNumber
  chain : ∀ chainKey, st.chainKeyRecv = some chainKey → ∀ j ≤ maxSkip.toNat, messageKeyAt C chainKey j = key →
    (∀ remote, st.dhRemotePublic = some remote → C.SamePublic remote header.dhPublic) ∧
      st.recvCount.toNat + j = header.messageNumber.toNat
  ratchet : ∀ j ≤ maxSkip.toNat, messageKeyAt C (st.dhChain C dhPublic) j = key →
    C.SamePublic dhPublic header.dhPublic ∧ j = header.messageNumber.toNat

/-- The received header, with a text of the same public key, leads to the key of the message: by the
key that is stored, by the chain of a Diffie-Hellman step that is due, where the length of the previous
chain must not jump, or by the receiving chain, where a number below the count stands for the count. -/
def LeadsTo (st : RatchetState) (header received : RatchetHeader) (key : Bytes32) : Prop :=
  C.SamePublic received.dhPublic header.dhPublic ∧
    if st.stores received then
      received.messageNumber = header.messageNumber ∧
        (st.skippedKeys.find? (SkippedKey.matches received)).map SkippedKey.messageKey = some key
    else if needDhRatchet st received then
      received.messageNumber = header.messageNumber ∧ header.messageNumber ≤ maxSkip ∧
        received.previousChainLength ≤ st.recvCount + maxSkip ∧
        messageKeyAt C (st.dhChain C header.dhPublic) header.messageNumber.toNat = key
    else
      received.messageNumber ≤ st.recvCount + maxSkip ∧
        max st.recvCount.toNat received.messageNumber.toNat = header.messageNumber.toNat ∧
        st.chainKeyRecv.map (messageKeyAt C · (header.messageNumber.toNat - st.recvCount.toNat)) = some key

variable {C} {st : RatchetState} {header received : RatchetHeader} {key : Bytes32}

theorem le_add_of_not_jump {recvCount upTo : UInt32} (h : ¬ recvCount + maxSkip < upTo) :
    upTo.toNat - recvCount.toNat ≤ maxSkip.toNat := by
  rw [UInt32.lt_iff_toNat_lt, UInt32.toNat_add, Nat.not_lt] at h
  have hmod : (recvCount.toNat + maxSkip.toNat) % 2 ^ 32 ≤ recvCount.toNat + maxSkip.toNat := Nat.mod_le _ _
  omega

theorem dhChain_of_samePublic {a b : Bytes32} (h : C.SamePublic a b) (st : RatchetState) :
    st.dhChain C a = st.dhChain C b := by
  unfold dhChain
  rw [h]

theorem leadsTo_iff (honly : st.OnlyAt C received.dhPublic header key) :
    st.openingKey C received = some key ↔ st.LeadsTo C header received key := by
  unfold openingKey LeadsTo
  cases hfind : st.skippedKeys.find? (SkippedKey.matches received) with
  | some sk =>
    have hstores : st.stores received = true := by
      rw [stores_eq_isSome, hfind]
      rfl
    have hmatch := SkippedKey.matches_iff.mp (List.find?_some hfind)
    rw [if_pos hstores, Option.map_some]
    constructor
    · intro h
      have hslot := honly.stored sk (List.mem_of_find?_eq_some hfind) (Option.some.inj h)
      exact ⟨hmatch.1 ▸ hslot.1, hmatch.2.symm.trans hslot.2, h⟩
    · rintro ⟨-, -, h⟩
      exact h
  | none =>
    have hstores : st.stores received = false := by
      rw [stores_eq_isSome, hfind]
      rfl
    have hnot : ¬ st.stores received = true := by simp [hstores]
    rw [if_neg hnot]
    dsimp only
    by_cases hneed : needDhRatchet st received = true
    · rw [if_pos hneed, if_pos hneed]
      simp only [Option.ite_none_left_eq_some, not_or, Option.some.injEq, UInt32.not_lt]
      constructor
      · rintro ⟨⟨hprevious, hnumber⟩, hkey⟩
        have hle : received.messageNumber.toNat ≤ maxSkip.toNat := UInt32.le_iff_toNat_le.mp hnumber
        obtain ⟨hpublic, hslot⟩ := honly.ratchet _ hle hkey
        have hsame := UInt32.toNat_inj.mp hslot
        rw [dhChain_of_samePublic hpublic, hsame] at hkey
        exact ⟨hpublic, hsame, hsame ▸ hnumber, hprevious, hkey⟩
      · rintro ⟨hpublic, hsame, hnumber, hprevious, hkey⟩
        rw [dhChain_of_samePublic hpublic, hsame]
        exact ⟨⟨hprevious, hnumber⟩, hkey⟩
    · rw [if_neg hneed, if_neg hneed]
      have hremote : st.dhRemotePublic = some received.dhPublic := by simpa [needDhRatchet] using hneed
      simp only [Option.ite_none_left_eq_some, Option.map_eq_some_iff]
      constructor
      · rintro ⟨hjump, chainKey, hchain, hkey⟩
        have hslot := honly.chain chainKey hchain _ (le_add_of_not_jump hjump) hkey
        have hpublic := hslot.1 received.dhPublic hremote
        have hmax : max st.recvCount.toNat received.messageNumber.toNat = header.messageNumber.toNat := by omega
        have hsteps : received.messageNumber.toNat - st.recvCount.toNat =
            header.messageNumber.toNat - st.recvCount.toNat := by omega
        rw [hsteps] at hkey
        exact ⟨hpublic, UInt32.not_lt.mp hjump, hmax, chainKey, hchain, hkey⟩
      · rintro ⟨-, hjump, hmax, chainKey, hchain, hkey⟩
        have hsteps : received.messageNumber.toNat - st.recvCount.toNat =
            header.messageNumber.toNat - st.recvCount.toNat := by omega
        rw [hsteps]
        exact ⟨UInt32.not_lt.mpr hjump, chainKey, hchain, hkey⟩

/-- A genuine message under any header is refused exactly if the header does not lead to its key. -/
theorem altered_refused_iff (hC : C.OpensOwnKey) (hlawful : C.Lawful) {generated : KeyPair} {plaintext : Bytes}
    (honly : st.OnlyAt C received.dhPublic header key) :
    (∀ opened, (decrypt C generated st received (encryptMessage C key plaintext)).1 ≠ .ok opened) ↔
      ¬ st.LeadsTo C header received key := by
  rw [← leadsTo_iff honly]
  constructor
  · intro hrefused hkey
    exact hrefused plaintext (decrypt_isOk_iff.mpr ⟨key, hkey, decryptMessage_encryptMessage hlawful key plaintext⟩)
  · intro hkey opened hok
    obtain ⟨key', hkey', hopen⟩ := decrypt_isOk_iff.mp hok
    obtain rfl := key_of_opens hC hopen
    exact hkey hkey'

section Runs

/-- A public key without its last bit, which X25519 does not look at. -/
def masked (pub : Bytes32) : Bytes32 := pub.set 31 (pub.get 31 &&& 127)

/-- The first byte of a chain key counts its messages, the others name the chain. -/
def countingCrates : Crates :=
  { additiveCrates with
    x25519Dh := fun a b => additiveCrates.x25519Dh (masked a) (masked b)
    hkdfExpand := fun salt ikm info len => ⟨⟨(List.range len).map fun i =>
      let byte (i : Nat) : UInt8 := ikm.toList.getD i 0 + (salt.elim 0 fun s => s.toList.getD i 0)
      if len = 32 then
        byte i + (if i = 0 ∧ info = kdfCkInfoChain then 1 else if i = 31 ∧ info = kdfCkInfoKey then 128 else 0)
      else if i < 32 then byte i
      else if i = 32 then 0 else byte (i - 33)⟩, by simp⟩ }

theorem countingCrates_lawful : countingCrates.Lawful :=
  ⟨fun a b ha hb => by
    have hcomm := additiveCrates_lawful.dh_comm ⟨masked a.priv, masked a.priv⟩ ⟨masked b.priv, masked b.priv⟩ rfl rfl
    rw [show a.pub = a.priv from ha, show b.pub = b.priv from hb]
    exact hcomm, additiveCrates_lawful.decrypt_encrypt⟩

theorem opensOwnKey_countingCrates : countingCrates.OpensOwnKey := opensOwnKey_additiveCrates

theorem second_messageKeyAt (chainKey : Bytes32) (n : Nat) :
    (messageKeyAt countingCrates chainKey n).toList.getD 1 0 = chainKey.toList.getD 1 0 := by
  have hstep : ∀ ck : Bytes32, (kdfCk countingCrates ck).1.toList.getD 1 0 = ck.toList.getD 1 0 ∧
      (kdfCk countingCrates ck).2.toList.getD 1 0 = ck.toList.getD 1 0 := by
    intro ck
    simp [kdfCk, countingCrates]
  have hchain : (chainAt countingCrates chainKey n).toList.getD 1 0 = chainKey.toList.getD 1 0 := by
    induction n with
    | zero => rfl
    | succ n ih =>
      rw [chainAt, (hstep _).1]
      exact ih
  rw [messageKeyAt, (hstep _).2]
  exact hchain

/-- What `encrypt` gives for a state that can send. -/
def sealed (st : RatchetState) (plaintext : Bytes) : RatchetState × RatchetHeader × Bytes :=
  (st.encrypt countingCrates plaintext).getD (st, ⟨st.dhSelfPublic, 0, 0⟩, [])

def bob : RatchetState := initBob (bytes32 [7]) (pairOf 2)

def first : RatchetState × RatchetHeader × Bytes :=
  sealed (initAlice countingCrates (pairOf 3) (bytes32 [7]) (pairOf 2).pub) [1]

def second : RatchetState × RatchetHeader × Bytes := sealed first.1 [2]

def answer : RatchetState × RatchetHeader × Bytes :=
  sealed (bob.decrypt countingCrates (pairOf 4) first.2.1 first.2.2).2 [9]

def third : RatchetState × RatchetHeader × Bytes :=
  sealed (second.1.decrypt countingCrates (pairOf 5) answer.2.1 answer.2.2).2 [3]

def firstKey : Bytes32 := messageKeyAt countingCrates (bob.dhChain countingCrates first.2.1.dhPublic) 0

/-- The first message comes under another public key. -/
theorem altered_refused_other_key :
    ¬ ∃ opened, (decrypt countingCrates (pairOf 4) bob { first.2.1 with dhPublic := bytes32 [9] }
      (encryptMessage countingCrates firstKey [1])).1 = .ok opened := by
  have honly : bob.OnlyAt countingCrates (bytes32 [9]) first.2.1 firstKey := by
    refine ⟨fun sk hsk => ?_, fun chainKey hchain => ?_, fun j _ hkey => ?_⟩
    · simp [bob, initBob] at hsk
    · simp [bob, initBob] at hchain
    · have hbyte := congrArg (fun key : Bytes32 => key.toList.getD 1 0) hkey
      rw [second_messageKeyAt, firstKey, second_messageKeyAt] at hbyte
      have hchains : (bob.dhChain countingCrates (bytes32 [9])).toList.getD 1 0 ≠
          (bob.dhChain countingCrates first.2.1.dhPublic).toList.getD 1 0 := by decide +kernel
      exact absurd hbyte hchains
  have hother : ¬ bob.LeadsTo countingCrates first.2.1 { first.2.1 with dhPublic := bytes32 [9] } firstKey := by
    rintro ⟨hpublic, -⟩
    exact absurd (hpublic (bytes32 [])) (by decide +kernel)
  rintro ⟨opened, hok⟩
  exact (altered_refused_iff opensOwnKey_countingCrates countingCrates_lawful honly).mpr hother opened hok

/-- The third message is accepted with a shorter previous chain, and the second one, which is still on
its way, is lost by it. A lower number does not keep the second from being accepted either, nor the last
bit of the public key the first. -/
theorem not_header_authentic_third :
    (decrypt countingCrates (pairOf 6) answer.1 { third.2.1 with previousChainLength := 1 } third.2.2).1 = .ok [3] ∧
    (decrypt countingCrates (pairOf 7)
      (decrypt countingCrates (pairOf 6) answer.1 third.2.1 third.2.2).2 second.2.1 second.2.2).1 = .ok [2] ∧
    (decrypt countingCrates (pairOf 7)
      (decrypt countingCrates (pairOf 6) answer.1 { third.2.1 with previousChainLength := 1 } third.2.2).2
      second.2.1 second.2.2).1 = .error .decryptionFailed ∧
    (decrypt countingCrates (pairOf 6) answer.1 { second.2.1 with messageNumber := 0 } second.2.2).1 = .ok [2] ∧
    (decrypt countingCrates (pairOf 4) bob { first.2.1 with dhPublic := first.2.1.dhPublic.set 31 128 }
      first.2.2).1 = .ok [1] := by
  decide +kernel

end Runs
end RatchetState
end Proscenium.Crypto
