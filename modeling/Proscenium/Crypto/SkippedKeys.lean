import Proscenium.Crypto.RatchetFollow
import Proscenium.Crypto.RatchetWrap

/-! How many keys of skipped messages does a session keep? The limit is asked
of each jump, while the keys of all jumps and all chains are in one list, and
a key that the peer used before may come back. -/

namespace Proscenium.Crypto

open Machine

inductive RatchetOp where
  | encrypt (plaintext : Bytes)
  | decrypt (generated : KeyPair) (header : RatchetHeader) (ciphertext : Bytes)

/-- The messages from `first` on and before `last` of the chain of `remote`. -/
def gap (remote : Bytes32) (first last : Nat) : List (Bytes32 × UInt32) :=
  (List.range' first (last - first)).map fun k => (remote, UInt32.ofNat k)

namespace RatchetState

def slots (st : RatchetState) : List (Bytes32 × UInt32) :=
  st.skippedKeys.map fun sk => (sk.ratchetPublic, sk.messageNumber)

structure Bounded (st : RatchetState) : Prop where
  length : st.skippedKeys.length ≤ maxSkip.toNat
  nodup : st.slots.Nodup

def Free (st : RatchetState) (remote : Bytes32) (first last : Nat) : Prop :=
  ∀ s ∈ st.slots, s.1 = remote → ¬ (first ≤ s.2.toNat ∧ s.2.toNat < last)

def chainRemote (st : RatchetState) : Bytes32 := st.dhRemotePublic.getD (Vector.replicate 32 0)

section Steps

variable (C : Crates)

def step (st : RatchetState) : RatchetOp → Option RatchetState
  | .encrypt plaintext => (st.encrypt C plaintext).map Prod.fst
  | .decrypt generated header ciphertext => some (st.decrypt C generated header ciphertext).2

/-- `recv_count + MAX_SKIP`. The counter of the loop stays below a `u32`. -/
def SkipAdds (st : RatchetState) : Prop := st.recvCount.toNat + maxSkip.toNat < 2 ^ 32

def CurrentAdds (st : RatchetState) (header : RatchetHeader) : Prop :=
  st.SkipAdds ∧ ∀ st', skipMessages C st header.messageNumber = .ok st' → st'.chainKeyRecv.isSome →
    st'.recvCount.toNat + 1 < 2 ^ 32

/-- No addition that the call comes to overflows. -/
def AddsFit (st : RatchetState) : RatchetOp → Prop
  | .encrypt _ => st.chainKeySend.isSome → st.sendCount.toNat + 1 < 2 ^ 32
  | .decrypt generated header _ => st.stores header = false →
    if needDhRatchet st header then
      st.SkipAdds ∧ ∀ st', skipMessages C st header.previousChainLength = .ok st' →
        CurrentAdds C (dhRatchet C generated st' header.dhPublic) header
    else CurrentAdds C st header

/-- There is room for the keys of all messages that are passed over, on the old chain and on the
new one, none of them is stored yet, and the counters are below their ends. -/
def HasRoom (st : RatchetState) : RatchetOp → Prop
  | .encrypt _ => st.chainKeySend.isSome → st.sendCount.toNat + 1 < 2 ^ 32
  | .decrypt _ header _ => st.stores header = false → st.recvCount.toNat + maxSkip.toNat < 2 ^ 32 ∧
    if needDhRatchet st header then
      header.previousChainLength.toNat ≤ st.recvCount.toNat + maxSkip.toNat →
        st.skippedKeys.length +
            (if st.chainKeyRecv.isSome then header.previousChainLength.toNat - st.recvCount.toNat else 0) +
            (if header.messageNumber ≤ maxSkip then header.messageNumber.toNat else 0) ≤ maxSkip.toNat ∧
          (st.chainKeyRecv.isSome → st.Free st.chainRemote st.recvCount.toNat header.previousChainLength.toNat) ∧
          (header.messageNumber ≤ maxSkip → st.Free header.dhPublic 0 header.messageNumber.toNat)
    else
      header.messageNumber.toNat ≤ st.recvCount.toNat + maxSkip.toNat → st.chainKeyRecv.isSome →
        header.messageNumber.toNat + 1 < 2 ^ 32 ∧
          st.skippedKeys.length + (header.messageNumber.toNat - st.recvCount.toNat) ≤ maxSkip.toNat ∧
          st.Free header.dhPublic st.recvCount.toNat header.messageNumber.toNat

end Steps

section Gaps

theorem length_gap (remote : Bytes32) (first last : Nat) : (gap remote first last).length = last - first := by
  simp [gap]

theorem toNat_ofNat_of_lt {k : Nat} (hk : k < 2 ^ 32) : (UInt32.ofNat k).toNat = k := by
  rw [UInt32.toNat_ofNat']
  exact Nat.mod_eq_of_lt hk

theorem mem_gap {remote : Bytes32} {first last : Nat} (hlast : last < 2 ^ 32) {s : Bytes32 × UInt32} :
    s ∈ gap remote first last ↔ s.1 = remote ∧ first ≤ s.2.toNat ∧ s.2.toNat < last := by
  unfold gap
  rw [List.mem_map]
  constructor
  · rintro ⟨k, hk, rfl⟩
    have hrange := List.mem_range'_1.mp hk
    have hval : (UInt32.ofNat k).toNat = k := toNat_ofNat_of_lt (by omega)
    dsimp only
    rw [hval]
    exact ⟨by simp, by omega, by omega⟩
  · rintro ⟨rfl, hfirst, hlt⟩
    exact ⟨s.2.toNat, List.mem_range'_1.mpr ⟨hfirst, by omega⟩, by simp⟩

theorem nodup_gap {remote : Bytes32} {first last : Nat} (hlast : last < 2 ^ 32) : (gap remote first last).Nodup := by
  unfold gap
  refine List.Nodup.map_on (fun k hk k' hk' heq => ?_) List.nodup_range'
  have hrange := List.mem_range'_1.mp hk
  have hrange' := List.mem_range'_1.mp hk'
  have hnum := congrArg (fun s : Bytes32 × UInt32 => s.2.toNat) heq
  dsimp only at hnum
  rwa [toNat_ofNat_of_lt (by omega), toNat_ofNat_of_lt (by omega)] at hnum

theorem nodup_append_gap_iff {l : List (Bytes32 × UInt32)} (hl : l.Nodup) {remote : Bytes32} {first last : Nat}
    (hlast : last < 2 ^ 32) : (l ++ gap remote first last).Nodup ↔
      ∀ s ∈ l, s.1 = remote → ¬ (first ≤ s.2.toNat ∧ s.2.toNat < last) := by
  rw [List.nodup_append', and_iff_right hl, and_iff_right (nodup_gap hlast), List.disjoint_left]
  refine forall₂_congr fun s _ => ?_
  rw [mem_gap hlast, not_and]

theorem nodup_append_gaps_iff {l : List (Bytes32 × UInt32)} (hl : l.Nodup) {remote remote' : Bytes32}
    {first first' last last' : Nat} (hlast : last < 2 ^ 32) (hlast' : last' < 2 ^ 32) {c d : Prop} [Decidable c]
    [Decidable d] (hne : c → remote ≠ remote') :
    ((l ++ if c then gap remote first last else []) ++ if d then gap remote' first' last' else []).Nodup ↔
      (c → ∀ s ∈ l, s.1 = remote → ¬ (first ≤ s.2.toNat ∧ s.2.toNat < last)) ∧
        (d → ∀ s ∈ l, s.1 = remote' → ¬ (first' ≤ s.2.toNat ∧ s.2.toNat < last')) := by
  have hfirst : (l ++ if c then gap remote first last else []).Nodup ↔
      (c → ∀ s ∈ l, s.1 = remote → ¬ (first ≤ s.2.toNat ∧ s.2.toNat < last)) := by
    by_cases hc : c
    · rw [if_pos hc, imp_iff_right hc]
      exact nodup_append_gap_iff hl hlast
    · rw [if_neg hc, List.append_nil]
      exact iff_of_true hl fun h => absurd h hc
  by_cases hd : d
  · rw [if_pos hd, imp_iff_right hd]
    constructor
    · intro hnodup
      have hleft := hnodup.of_append_left
      refine ⟨hfirst.mp hleft, fun s hs => ?_⟩
      exact (nodup_append_gap_iff hleft hlast').mp hnodup s (List.mem_append_left _ hs)
    · rintro ⟨hbefore, hfree⟩
      refine (nodup_append_gap_iff (hfirst.mpr hbefore) hlast').mpr fun s hs hpub => ?_
      rcases List.mem_append.mp hs with hs | hs
      · exact hfree s hs hpub
      · split at hs
        next hc => exact absurd (((mem_gap hlast).mp hs).1.symm.trans hpub) (hne hc)
        next => simp at hs
  · rw [if_neg hd, List.append_nil, hfirst]
    exact (and_iff_left fun h => absurd h hd).symm

theorem gap_eq_cons {remote : Bytes32} {first n : Nat} :
    gap remote first (first + (n + 1)) = (remote, UInt32.ofNat first) :: gap remote (first + 1) (first + 1 + n) := by
  unfold gap
  have hcount : first + (n + 1) - first = n + 1 := by omega
  rw [hcount, List.range'_succ, List.map_cons, Nat.add_sub_cancel_left]

end Gaps

section Calls

variable {C : Crates} {st : RatchetState}

theorem length_slots (st : RatchetState) : st.slots.length = st.skippedKeys.length := by
  simp [slots]

theorem skipLoop_slots (remote : Bytes32) (n first : Nat) (chainKey : Bytes32) (skipped : List SkippedKey) :
    (skipLoop C remote n chainKey (UInt32.ofNat first) skipped).2.1 = UInt32.ofNat (first + n) ∧
      (skipLoop C remote n chainKey (UInt32.ofNat first) skipped).2.2.map
          (fun sk => (sk.ratchetPublic, sk.messageNumber)) =
        skipped.map (fun sk => (sk.ratchetPublic, sk.messageNumber)) ++ gap remote first (first + n) := by
  induction n generalizing first chainKey skipped with
  | zero => simp [skipLoop, gap]
  | succ n ih =>
    have hnext : UInt32.ofNat first + 1 = UInt32.ofNat (first + 1) := (UInt32.ofNat_add first 1).symm
    have hrest := ih (first + 1) (kdfCk C chainKey).1 (skipped ++ [⟨remote, UInt32.ofNat first, (kdfCk C chainKey).2⟩])
    rw [skipLoop, gap_eq_cons, hnext]
    have hlast : first + (n + 1) = first + 1 + n := by omega
    rw [hlast]
    refine ⟨hrest.1, hrest.2.trans ?_⟩
    simp

/-- What `skip_messages` leaves, when it does not refuse the jump. -/
structure Skips (st : RatchetState) (upTo : UInt32) (st' : RatchetState) : Prop where
  slots : st'.slots = st.slots ++
    if st.chainKeyRecv.isSome then gap st.chainRemote st.recvCount.toNat upTo.toNat else []
  recvCount : st'.recvCount.toNat = if st.chainKeyRecv.isSome then max st.recvCount.toNat upTo.toNat
    else st.recvCount.toNat
  chain : st'.chainKeyRecv.isSome = st.chainKeyRecv.isSome
  remote : st'.dhRemotePublic = st.dhRemotePublic

theorem skipMessages_cases (hadds : st.SkipAdds) (upTo : UInt32) :
    (st.recvCount.toNat + maxSkip.toNat < upTo.toNat ∧ skipMessages C st upTo = .error .tooManySkipped) ∨
      (upTo.toNat ≤ st.recvCount.toNat + maxSkip.toNat ∧
        ∃ st', skipMessages C st upTo = .ok st' ∧ st.Skips upTo st') := by
  have hjump : ¬ st.recvCount + maxSkip < upTo ↔ upTo.toNat ≤ st.recvCount.toNat + maxSkip.toNat :=
    not_jump_iff hadds
  unfold skipMessages
  by_cases hle : upTo.toNat ≤ st.recvCount.toNat + maxSkip.toNat
  · refine .inr ⟨hle, ?_⟩
    rw [if_neg (hjump.mpr hle)]
    cases hchain : st.chainKeyRecv with
    | none => exact ⟨st, rfl, ⟨by simp [hchain], by simp [hchain], by simp, by simp⟩⟩
    | some chainKey =>
      have hloop := skipLoop_slots (C := C) st.chainRemote (upTo.toNat - st.recvCount.toNat) st.recvCount.toNat
        chainKey st.skippedKeys
      have hsum : st.recvCount.toNat + (upTo.toNat - st.recvCount.toNat) = max st.recvCount.toNat upTo.toNat := by
        omega
      rw [UInt32.ofNat_toNat, hsum] at hloop
      refine ⟨_, rfl, ⟨?_, ?_, by simp [hchain], rfl⟩⟩
      · have hgap : gap st.chainRemote st.recvCount.toNat (max st.recvCount.toNat upTo.toNat) =
            gap st.chainRemote st.recvCount.toNat upTo.toNat := by
          unfold gap
          congr 2
          omega
        rw [hchain, Option.isSome_some, if_pos rfl, ← hgap]
        exact hloop.2
      · rw [hchain, Option.isSome_some, if_pos rfl]
        have hlt : max st.recvCount.toNat upTo.toNat < 2 ^ 32 := by
          have hrecv := st.recvCount.toNat_lt
          have hupTo := upTo.toNat_lt
          omega
        rw [← toNat_ofNat_of_lt hlt]
        exact congrArg UInt32.toNat hloop.1
  · exact .inl ⟨by omega, if_pos (by
      by_contra hnot
      exact hle (hjump.mp hnot))⟩

theorem slots_decryptCurrent (hadds : st.SkipAdds) (header : RatchetHeader) (ciphertext : Bytes) :
    (decryptCurrent C st header ciphertext).2.slots = st.slots ++
      if header.messageNumber.toNat ≤ st.recvCount.toNat + maxSkip.toNat ∧ st.chainKeyRecv.isSome then
        gap st.chainRemote st.recvCount.toNat header.messageNumber.toNat else [] := by
  unfold decryptCurrent
  rcases skipMessages_cases (C := C) hadds header.messageNumber with ⟨hlt, hskip⟩ | ⟨hle, st', hskip, hskips⟩
  · rw [hskip, if_neg (by omega)]
    simp
  · rw [hskip]
    have hslots := hskips.slots
    cases hchain : st.chainKeyRecv with
    | none =>
      have hnone : st'.chainKeyRecv = none := by simpa [hchain] using hskips.chain
      simpa [hnone, hchain] using hslots
    | some chainKey =>
      obtain ⟨chainKey', hsome⟩ : ∃ chainKey', st'.chainKeyRecv = some chainKey' :=
        Option.isSome_iff_exists.mp (by simp [hskips.chain, hchain])
      rw [hchain, Option.isSome_some, if_pos (by decide)] at hslots
      dsimp only
      rw [hsome, Option.isSome_some, if_pos ⟨hle, by decide⟩]
      exact hslots

theorem currentAdds_iff {header : RatchetHeader} : CurrentAdds C st header ↔ st.SkipAdds ∧
    (header.messageNumber.toNat ≤ st.recvCount.toNat + maxSkip.toNat → st.chainKeyRecv.isSome →
      header.messageNumber.toNat + 1 < 2 ^ 32) := by
  refine and_congr_right fun hadds => ?_
  have hlast : st.recvCount.toNat + 1 < 2 ^ 32 := by
    have hskip : maxSkip.toNat = 100 := by decide
    unfold SkipAdds at hadds
    omega
  rcases skipMessages_cases (C := C) hadds header.messageNumber with ⟨hlt, hskip⟩ | ⟨hle, st', hskip, hskips⟩
  · refine iff_of_true (fun st' hok => ?_) fun hle => absurd hle (by omega)
    rw [hskip] at hok
    simp at hok
  · have hrecv := hskips.recvCount
    constructor
    · intro h _ hchain
      have hnext := h st' hskip (hskips.chain.trans hchain)
      rw [hrecv, if_pos hchain] at hnext
      omega
    · intro h st'' hok hchain
      obtain rfl := Except.ok.inj (hskip.symm.trans hok)
      rw [hskips.chain] at hchain
      have hnext := h hle hchain
      rw [hrecv, if_pos hchain]
      omega

theorem decrypt_of_stores {generated : KeyPair} {header : RatchetHeader} {ciphertext : Bytes}
    (h : st.stores header = true) : (decrypt C generated st header ciphertext).2 =
      { st with skippedKeys := st.skippedKeys.eraseP (SkippedKey.matches header) } := by
  rw [stores_eq_isSome, Option.isSome_iff_exists] at h
  obtain ⟨sk, hfind⟩ := h
  rw [decrypt_of_found hfind]

end Calls

section Runs

variable {C : Crates} {st : RatchetState}

def Keyed (st : RatchetState) : Prop := st.chainKeyRecv.isSome → st.dhRemotePublic.isSome

theorem maxSkip_toNat : maxSkip.toNat = 100 := by decide

theorem bounded_iff_of_slots {st' : RatchetState} {l : List (Bytes32 × UInt32)} (h : st'.slots = l) :
    st'.Bounded ↔ l.length ≤ maxSkip.toNat ∧ l.Nodup := by
  rw [← h, length_slots]
  exact ⟨fun hb => ⟨hb.length, hb.nodup⟩, fun hb => ⟨hb.1, hb.2⟩⟩

theorem Bounded.of_stores (hst : st.Bounded) {generated : KeyPair} {header : RatchetHeader} {ciphertext : Bytes}
    (h : st.stores header = true) : (decrypt C generated st header ciphertext).2.Bounded := by
  rw [decrypt_of_stores h]
  have hsub : (st.skippedKeys.eraseP (SkippedKey.matches header)).Sublist st.skippedKeys := List.eraseP_sublist
  exact ⟨hsub.length_le.trans hst.length, hst.nodup.sublist (hsub.map _)⟩

theorem bounded_same_iff (hst : st.Bounded) (generated : KeyPair) (header : RatchetHeader) (ciphertext : Bytes)
    (h : st.stores header = false) (hneed : needDhRatchet st header = false) :
    AddsFit C st (.decrypt generated header ciphertext) ∧ (decrypt C generated st header ciphertext).2.Bounded ↔
      HasRoom st (.decrypt generated header ciphertext) := by
  have hadds : AddsFit C st (.decrypt generated header ciphertext) ↔ CurrentAdds C st header := by
    simp [AddsFit, h, hneed]
  have hroom : HasRoom st (.decrypt generated header ciphertext) ↔ st.SkipAdds ∧
      (header.messageNumber.toNat ≤ st.recvCount.toNat + maxSkip.toNat → st.chainKeyRecv.isSome →
        header.messageNumber.toNat + 1 < 2 ^ 32 ∧
          st.skippedKeys.length + (header.messageNumber.toNat - st.recvCount.toNat) ≤ maxSkip.toNat ∧
          st.Free header.dhPublic st.recvCount.toNat header.messageNumber.toNat) := by
    simp [HasRoom, h, hneed, SkipAdds]
  have hremote : st.chainRemote = header.dhPublic := by
    unfold chainRemote
    have hsome : st.dhRemotePublic = some header.dhPublic := by simpa [needDhRatchet] using hneed
    rw [hsome, Option.getD_some]
  rw [hadds, hroom, currentAdds_iff, and_assoc, decrypt_same h generated ciphertext hneed]
  refine and_congr_right fun hfit => ?_
  have hslots := slots_decryptCurrent (C := C) hfit header ciphertext
  rw [bounded_iff_of_slots hslots]
  by_cases hle : header.messageNumber.toNat ≤ st.recvCount.toNat + maxSkip.toNat ∧ st.chainKeyRecv.isSome
  · have hn := header.messageNumber.toNat_lt
    rw [if_pos hle, nodup_append_gap_iff hst.nodup hn, List.length_append, length_slots, length_gap, hremote]
    constructor
    · rintro ⟨hlast, hlen, hfree⟩ h1 h2
      exact ⟨hlast h1 h2, hlen, hfree⟩
    · intro hall
      obtain ⟨hlast, hlen, hfree⟩ := hall hle.1 hle.2
      exact ⟨fun _ _ => hlast, hlen, hfree⟩
  · -- the message is refused, or there is no chain to read it from
    rw [if_neg hle, List.append_nil, length_slots]
    exact iff_of_true ⟨fun h1 h2 => absurd ⟨h1, h2⟩ hle, hst.length, hst.nodup⟩ fun h1 h2 => absurd ⟨h1, h2⟩ hle

/-- A message under a new key of the peer: what is left of the old chain comes before what is
passed over on the new one. -/
theorem bounded_ratchet_iff (hst : st.Bounded) (hkeyed : st.Keyed) (generated : KeyPair) (header : RatchetHeader)
    (ciphertext : Bytes) (h : st.stores header = false) (hneed : needDhRatchet st header = true) :
    AddsFit C st (.decrypt generated header ciphertext) ∧ (decrypt C generated st header ciphertext).2.Bounded ↔
      HasRoom st (.decrypt generated header ciphertext) := by
  have hadds : AddsFit C st (.decrypt generated header ciphertext) ↔ st.SkipAdds ∧
      ∀ st', skipMessages C st header.previousChainLength = .ok st' →
        CurrentAdds C (dhRatchet C generated st' header.dhPublic) header := by
    simp [AddsFit, h, hneed]
  have hroom : HasRoom st (.decrypt generated header ciphertext) ↔ st.SkipAdds ∧
      (header.previousChainLength.toNat ≤ st.recvCount.toNat + maxSkip.toNat →
        st.skippedKeys.length +
            (if st.chainKeyRecv.isSome then header.previousChainLength.toNat - st.recvCount.toNat else 0) +
            (if header.messageNumber ≤ maxSkip then header.messageNumber.toNat else 0) ≤ maxSkip.toNat ∧
          (st.chainKeyRecv.isSome → st.Free st.chainRemote st.recvCount.toNat header.previousChainLength.toNat) ∧
          (header.messageNumber ≤ maxSkip → st.Free header.dhPublic 0 header.messageNumber.toNat)) := by
    simp only [HasRoom, SkipAdds, hneed, if_true]
    exact imp_iff_right h
  rw [hadds, hroom, and_assoc]
  refine and_congr_right fun hfit => ?_
  rcases skipMessages_cases (C := C) hfit header.previousChainLength with ⟨hlt, hskip⟩ | ⟨hle, st', hskip, hskips⟩
  · rw [decrypt_refused h generated ciphertext hneed hskip]
    refine iff_of_true ⟨fun st' hok => ?_, hst⟩ fun hle => absurd hle (by omega)
    rw [hskip] at hok
    simp at hok
  · have hzero : (dhRatchet C generated st' header.dhPublic).SkipAdds := by
      show (0 : UInt32).toNat + maxSkip.toNat < 2 ^ 32
      decide
    have hnum : header.messageNumber ≤ maxSkip ↔ header.messageNumber.toNat ≤ 0 + maxSkip.toNat := by
      rw [UInt32.le_iff_toNat_le, Nat.zero_add]
    have hcurrent : ∀ st'', skipMessages C st header.previousChainLength = .ok st'' →
        CurrentAdds C (dhRatchet C generated st'' header.dhPublic) header := by
      intro st'' hok
      obtain rfl := Except.ok.inj (hskip.symm.trans hok)
      refine currentAdds_iff.mpr ⟨hzero, fun hle' _ => ?_⟩
      have hle'' : header.messageNumber.toNat ≤ 0 + maxSkip.toNat := hle'
      rw [maxSkip_toNat] at hle''
      omega
    have hslots : (decryptCurrent C (dhRatchet C generated st' header.dhPublic) header ciphertext).2.slots =
        (st.slots ++ if st.chainKeyRecv.isSome then
          gap st.chainRemote st.recvCount.toNat header.previousChainLength.toNat else []) ++
          if header.messageNumber ≤ maxSkip then gap header.dhPublic 0 header.messageNumber.toNat else [] := by
      have hnext := slots_decryptCurrent (C := C) hzero header ciphertext
      have hbefore : (dhRatchet C generated st' header.dhPublic).slots = st'.slots := rfl
      rw [hbefore, hskips.slots] at hnext
      rw [hnext]
      refine congrArg _ (if_congr ?_ rfl rfl)
      rw [hnum]
      exact and_iff_left (by simp [dhRatchet])
    rw [decrypt_ratchet h generated ciphertext hneed hskip, and_iff_right hcurrent, bounded_iff_of_slots hslots,
      imp_iff_right hle]
    have hpcl := header.previousChainLength.toNat_lt
    have hn := header.messageNumber.toNat_lt
    -- the keys of the old chain are filed under another key than those of the new one
    have hold : st.chainKeyRecv.isSome → st.chainRemote ≠ header.dhPublic := by
      intro hchain heq
      obtain ⟨remote, hremote⟩ := Option.isSome_iff_exists.mp (hkeyed hchain)
      unfold chainRemote at heq
      rw [hremote, Option.getD_some] at heq
      simp [needDhRatchet, hremote, heq] at hneed
    refine and_congr ?_ ?_
    · rw [List.length_append, List.length_append, length_slots]
      refine iff_of_eq (congrArg (· ≤ maxSkip.toNat) ?_)
      congr 1
      · congr 1
        split
        · exact length_gap _ _ _
        · exact List.length_nil
      · split
        · simp [length_gap]
        · simp
    · exact nodup_append_gaps_iff hst.nodup hpcl hn hold

theorem keyed_of_skipMessages {upTo : UInt32} {st' : RatchetState} (hst : st.Keyed)
    (h : skipMessages C st upTo = .ok st') : st'.Keyed := by
  unfold skipMessages at h
  split at h
  · simp at h
  · split at h
    next =>
      obtain rfl := Except.ok.inj h
      exact hst
    next hchain =>
      obtain rfl := Except.ok.inj h
      exact fun _ => hst (by simp [hchain])

theorem keyed_decryptCurrent (hst : st.Keyed) (header : RatchetHeader) (ciphertext : Bytes) :
    (decryptCurrent C st header ciphertext).2.Keyed := by
  unfold decryptCurrent
  split
  next => exact hst
  next hskip =>
    have hnext := keyed_of_skipMessages hst hskip
    split
    next => exact hnext
    next hchain => exact fun _ => hnext (by simp [hchain])

theorem Keyed.step (hst : st.Keyed) {op : RatchetOp} {st' : RatchetState} (hstep : st.step C op = some st') :
    st'.Keyed := by
  cases op with
  | encrypt plaintext =>
    obtain ⟨out, hout, rfl⟩ := Option.map_eq_some_iff.mp hstep
    unfold RatchetState.encrypt at hout
    split at hout
    · simp at hout
    · obtain rfl := Option.some.inj hout
      exact hst
  | decrypt generated header ciphertext =>
    obtain rfl := Option.some.inj hstep
    cases hstores : st.stores header with
    | true =>
      rw [decrypt_of_stores hstores]
      exact hst
    | false =>
      cases hneed : needDhRatchet st header with
      | false =>
        rw [decrypt_same hstores generated ciphertext hneed]
        exact keyed_decryptCurrent hst header ciphertext
      | true =>
        cases hskip : skipMessages C st header.previousChainLength with
        | error e =>
          rw [decrypt_refused hstores generated ciphertext hneed hskip]
          exact hst
        | ok st' =>
          rw [decrypt_ratchet hstores generated ciphertext hneed hskip]
          exact keyed_decryptCurrent (fun _ => by simp [dhRatchet]) header ciphertext

theorem bounded_step_iff (hst : st.Bounded) (hkeyed : st.Keyed) (op : RatchetOp) :
    AddsFit C st op ∧ (∀ st', st.step C op = some st' → st'.Bounded) ↔ st.HasRoom op := by
  cases op with
  | encrypt plaintext =>
    refine and_iff_left fun st' hstep => ?_
    obtain ⟨out, hout, rfl⟩ := Option.map_eq_some_iff.mp hstep
    unfold RatchetState.encrypt at hout
    split at hout
    · simp at hout
    · obtain rfl := Option.some.inj hout
      exact ⟨hst.length, hst.nodup⟩
  | decrypt generated header ciphertext =>
    have hnext : (∀ st', st.step C (.decrypt generated header ciphertext) = some st' → st'.Bounded) ↔
        (decrypt C generated st header ciphertext).2.Bounded := by
      constructor
      · intro h
        exact h _ rfl
      · intro h st' hstep
        obtain rfl := Option.some.inj hstep
        exact h
    rw [hnext]
    cases hstores : st.stores header with
    | true =>
      refine iff_of_true ⟨?_, hst.of_stores hstores⟩ ?_
      · simp [AddsFit, hstores]
      · simp [HasRoom, hstores]
    | false =>
      cases hneed : needDhRatchet st header with
      | true => exact bounded_ratchet_iff hst hkeyed generated header ciphertext hstores hneed
      | false => exact bounded_same_iff hst generated header ciphertext hstores hneed

/-- In every state of the run the stored keys are at most `MAX_SKIP`, of different messages, and no
counter wraps. -/
def StaysBounded (C : Crates) (start : RatchetState) (ops : List RatchetOp) : Prop :=
  (∀ ops' st, ops' <+: ops → exec (step C) start ops' = some st → st.Bounded) ∧
    Along (step C) (AddsFit C) start ops

theorem staysBounded_iff_of_start (hst : st.Bounded) (hkeyed : st.Keyed) (ops : List RatchetOp) :
    StaysBounded C st ops ↔ Along (step C) HasRoom st ops := by
  have hstep : ∀ st op, st.Bounded ∧ st.Keyed →
      (((∀ st', st.step C op = some st' → st'.Bounded) ∧ AddsFit C st op) ↔ st.HasRoom op) := by
    rintro st op ⟨hb, hk⟩
    rw [← bounded_step_iff (C := C) hb hk, and_comm]
  refine forall_prefix_and_along_iff hstep ?_ ⟨hst, hkeyed⟩ hst
  rintro st op st' ⟨-, hk⟩ - hnext hst'
  exact ⟨hnext, hk.step hst'⟩

/-- Through any calls of either side the stored keys stay within the limit, each once, if every
message that is read leaves them room. -/
theorem staysBounded_iff (C : Crates) (secret bobPublic : Bytes32) (kp : KeyPair) (ops : List RatchetOp) :
    (StaysBounded C (initAlice C kp secret bobPublic) ops ↔
        Along (step C) HasRoom (initAlice C kp secret bobPublic) ops) ∧
      (StaysBounded C (initBob secret kp) ops ↔ Along (step C) HasRoom (initBob secret kp) ops) := by
  constructor
  · refine staysBounded_iff_of_start ⟨?_, ?_⟩ ?_ ops
    · simp [initAlice]
    · simp [slots, initAlice]
    · simp [Keyed, initAlice]
  · refine staysBounded_iff_of_start ⟨?_, ?_⟩ ?_ ops
    · simp [initBob]
    · simp [slots, initBob]
    · simp [Keyed, initBob]

theorem decryptCurrent_reads (hadds : st.SkipAdds) (header : RatchetHeader) (ciphertext : Bytes)
    (hle : header.messageNumber.toNat ≤ st.recvCount.toNat + maxSkip.toNat) (hchain : st.chainKeyRecv.isSome) :
    (decryptCurrent C st header ciphertext).2.dhRemotePublic = st.dhRemotePublic ∧
      (decryptCurrent C st header ciphertext).2.chainKeyRecv.isSome ∧
      (decryptCurrent C st header ciphertext).2.recvCount.toNat =
        (max st.recvCount.toNat header.messageNumber.toNat + 1) % 2 ^ 32 := by
  rcases skipMessages_cases (C := C) hadds header.messageNumber with ⟨hlt, -⟩ | ⟨-, st', hskip, hskips⟩
  · omega
  · obtain ⟨chainKey, hsome⟩ := Option.isSome_iff_exists.mp (hskips.chain.trans hchain)
    have hrecv := hskips.recvCount
    rw [if_pos hchain] at hrecv
    unfold decryptCurrent
    rw [hskip]
    dsimp only
    rw [hsome]
    dsimp only
    rw [UInt32.toNat_add, hrecv]
    exact ⟨hskips.remote, by simp, by simp⟩

theorem initBob_reads (C : Crates) (secret : Bytes32) (kp generated : KeyPair) (header : RatchetHeader)
    (ciphertext : Bytes) (hfirst : header.previousChainLength = 0) (hle : header.messageNumber ≤ maxSkip) :
    ∃ st, (decrypt C generated (initBob secret kp) header ciphertext).2 = st ∧
      st.slots = gap header.dhPublic 0 header.messageNumber.toNat ∧ st.dhRemotePublic = some header.dhPublic ∧
      st.chainKeyRecv.isSome ∧ st.recvCount.toNat = header.messageNumber.toNat + 1 := by
  have hskip : skipMessages C (initBob secret kp) header.previousChainLength = .ok (initBob secret kp) := by
    rw [hfirst]
    exact skipMessages_zero rfl
  have hadds : (dhRatchet C generated (initBob secret kp) header.dhPublic).SkipAdds := by
    show (0 : UInt32).toNat + maxSkip.toNat < 2 ^ 32
    decide
  have hnum := UInt32.le_iff_toNat_le.mp hle
  rw [maxSkip_toNat] at hnum
  have hjump : header.messageNumber.toNat ≤
      (dhRatchet C generated (initBob secret kp) header.dhPublic).recvCount.toNat + maxSkip.toNat := by
    rw [maxSkip_toNat]
    omega
  have hslots := slots_decryptCurrent (C := C) hadds header ciphertext
  obtain ⟨hremote, hchain, hrecv⟩ := decryptCurrent_reads (C := C) hadds header ciphertext hjump (by simp [dhRatchet])
  rw [if_pos ⟨hjump, by simp [dhRatchet]⟩] at hslots
  rw [decrypt_ratchet (by simp [stores, initBob]) generated ciphertext (by simp [needDhRatchet, initBob]) hskip]
  refine ⟨_, rfl, hslots, hremote, hchain, hrecv.trans ?_⟩
  have hmax : max (dhRatchet C generated (initBob secret kp) header.dhPublic).recvCount.toNat
      header.messageNumber.toNat = header.messageNumber.toNat := Nat.max_eq_right (Nat.zero_le _)
  rw [hmax]
  exact Nat.mod_eq_of_lt (by omega)

/-- Message 100 comes first, and message 200 second. -/
abbrev twoJumps : List RatchetOp :=
  [.decrypt (pairOf 3) ⟨bytes32 [5], 100, 0⟩ [], .decrypt (pairOf 3) ⟨bytes32 [5], 200, 0⟩ []]

theorem not_staysBounded_twoJumps : ¬ StaysBounded additiveCrates (initBob (bytes32 [7]) (pairOf 2)) twoJumps := by
  rintro ⟨hbounded, -⟩
  have hlast := hbounded twoJumps _ (List.prefix_refl _) rfl
  obtain ⟨st, hst, hslots, hremote, hchain, hrecv⟩ := initBob_reads additiveCrates (bytes32 [7]) (pairOf 2) (pairOf 3)
    ⟨bytes32 [5], 100, 0⟩ [] rfl (by decide)
  rw [hst] at hlast
  have hstored : st.stores ⟨bytes32 [5], 200, 0⟩ = false := by
    rw [← Bool.not_eq_true, stores_iff]
    rintro ⟨sk, hsk, hmatch⟩
    have hslot : (sk.ratchetPublic, sk.messageNumber) ∈ st.slots := List.mem_map_of_mem hsk
    rw [hslots, mem_gap (by decide)] at hslot
    rw [(SkippedKey.matches_iff.mp hmatch).2] at hslot
    have hlt : (200 : UInt32).toNat < (100 : UInt32).toNat := hslot.2.2
    exact absurd hlt (by decide)
  have hneed : needDhRatchet st ⟨bytes32 [5], 200, 0⟩ = false := by
    simp [needDhRatchet, hremote]
  have hadds : st.SkipAdds := by
    unfold SkipAdds
    rw [hrecv]
    decide
  have hmore := slots_decryptCurrent (C := additiveCrates) hadds ⟨bytes32 [5], 200, 0⟩ []
  rw [if_pos ⟨by rw [hrecv]; decide, hchain⟩, hslots, hrecv] at hmore
  rw [decrypt_same hstored (pairOf 3) [] hneed, bounded_iff_of_slots hmore, List.length_append, length_gap,
    length_gap] at hlast
  exact absurd hlast.1 (by decide)

end Runs

end RatchetState
end Proscenium.Crypto
