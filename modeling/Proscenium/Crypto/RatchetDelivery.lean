import Proscenium.Crypto.RatchetFollow

/-! Every delivered message is decrypted to what was encrypted. The invariant is
`Channel.Explained`: one transcript explains both states and every message in
flight. Encryption lengthens a chain of the transcript, reading inside a chain
keeps it, and a Diffie-Hellman step draws its next pair. -/

namespace Proscenium.Crypto

variable {C : Crates} {secret : Bytes32} {T : Transcript}

theorem Sent.Differs.symm {m m' : Sent} (h : m.Differs m') : m'.Differs m :=
  fun hpub hnum => h hpub.symm hnum.symm

theorem differs_of_mem_eraseIdx {inbox : List Sent} {i : Nat} {m m' : Sent}
    (h : inbox.Pairwise Sent.Differs) (hm : inbox[i]? = some m) (hm' : m' ∈ inbox.eraseIdx i) :
    m'.Differs m := by
  obtain ⟨hi, rfl⟩ := List.getElem?_eq_some_iff.mp hm
  rw [List.eraseIdx_eq_take_drop_succ] at hm'
  have hsplit : inbox = inbox.take i ++ inbox[i] :: inbox.drop (i + 1) := by
    rw [List.cons_getElem_drop_succ, List.take_append_drop]
  rw [hsplit, List.pairwise_append, List.pairwise_cons] at h
  obtain ⟨-, ⟨hafter, -⟩, hbefore⟩ := h
  rcases List.mem_append.mp hm' with hm' | hm'
  · exact hbefore m' hm' _ List.mem_cons_self
  · exact (hafter m' hm').symm

namespace Channel.Explained

variable {w : Channel} {epoch : Side → Nat}

theorem adjacent (h : w.Explained C secret T epoch) (x : Side) :
    epoch x.other = epoch x + 1 ∨ epoch x = epoch x.other + 1 := by
  have hx := h.near x
  have hother := h.near x.other
  have hparity := h.parity
  rw [Side.other_other] at hother
  cases x <;> simp only [Side.other] at hx hother ⊢ <;> omega

theorem exists_epoch_of_sent (h : w.Explained C secret T epoch) {i : Nat} (hi : 0 < T.sent i) :
    ∃ x, i ≤ epoch x := by
  by_contra hnone
  push Not at hnone
  have hzero := h.sent_later i hnone
  omega

theorem chain_cases (h : w.Explained C secret T epoch) {x : Side} {i : Nat} {m : Sent}
    (hm : T.IsMessageOf C secret i m) (hle : i ≤ epoch x + 1) (hparity : (i + epoch x) % 2 = 1) :
    i < epoch x ∨ (i = epoch x + 1 ∧ epoch x.other = epoch x + 1) := by
  obtain ⟨y, hy⟩ := h.exists_epoch_of_sent (Nat.zero_lt_of_lt hm.number_lt)
  rcases h.adjacent x with hadj | hadj <;> rcases x.eq_or_eq_other y with rfl | rfl <;> omega

theorem pub_ne (h : w.Explained C secret T epoch) {x : Side} {i j : Nat} (hi : i ≤ epoch x)
    (hj : j ≤ epoch x) (hne : i ≠ j) : (T.keys i).pub ≠ (T.keys j).pub :=
  fun heq => hne (h.distinct x i hi j hj heq)

theorem not_stores_of_le (h : w.Explained C secret T epoch) {x : Side} {i : Nat} {m : Sent}
    (hm : T.IsMessageOf C secret i m) (hi : i + 1 = epoch x)
    (hge : (w.party x).recvCount.toNat ≤ m.header.messageNumber.toNat) :
    (w.party x).stores m.header = false := by
  rw [← Bool.not_eq_true, RatchetState.stores_iff]
  rintro ⟨sk, hsk, hmatch⟩
  obtain ⟨hpub, hnum⟩ := SkippedKey.matches_iff.mp hmatch
  obtain ⟨j, -, hj, hkey, hlt⟩ := (h.follows x).stored sk hsk
  have hij : i = j := by
    by_contra hne
    have hpubs := h.pub_ne (x := x) (by omega) hj.le hne
    exact hpubs (by rw [← hm.pub, ← hpub, hkey.pub])
  rw [Transcript.position, if_pos (hij ▸ hi), hnum] at hlt
  omega

theorem not_stores_of_new (h : w.Explained C secret T epoch) {x : Side} {m : Sent}
    (hm : T.IsMessageOf C secret (epoch x + 1) m) (hother : epoch x.other = epoch x + 1) :
    (w.party x).stores m.header = false := by
  rw [← Bool.not_eq_true, RatchetState.stores_iff]
  rintro ⟨sk, hsk, hmatch⟩
  obtain ⟨j, -, hj, hkey, -⟩ := (h.follows x).stored sk hsk
  have hpubs := h.pub_ne (x := x.other) (i := epoch x + 1) (j := j) (by omega) (by omega) (by omega)
  exact hpubs (by rw [← hm.pub, ← (SkippedKey.matches_iff.mp hmatch).1, hkey.pub])

/-- The channel after `x` has taken message `i` and moved to `st`. -/
def taken (w : Channel) (x : Side) (i : Nat) (st : RatchetState) (drawn : List Bytes32)
    (plaintext : Bytes) : Channel where
  party := Function.update w.party x st
  inbox := Function.update w.inbox x ((w.inbox x).eraseIdx i)
  drawn := drawn
  received := w.received ++ [(.ok plaintext, plaintext)]

theorem delivered_taken (h : w.Explained C secret T epoch) (x : Side) (i : Nat)
    (st : RatchetState) (drawn : List Bytes32) (plaintext : Bytes) :
    (taken w x i st drawn plaintext).Delivered := by
  intro r hr
  rcases List.mem_append.mp hr with hr | hr
  · exact h.delivered r hr
  · rw [List.mem_singleton.mp hr]

theorem take_same (h : w.Explained C secret T epoch) {x : Side} {i : Nat} {st : RatchetState}
    {plaintext : Bytes} (hst : T.Follows C secret (epoch x) st)
    (hrest : ∀ m ∈ (w.inbox x).eraseIdx i, T.Pending C secret (epoch x) st m) :
    (taken w x i st w.drawn plaintext).Explained C secret T epoch where
  follows y := by
    by_cases hy : y = x
    · subst hy
      simpa only [taken, Function.update_self] using hst
    · simpa only [taken, Function.update_of_ne hy] using h.follows y
  pending y m hm := by
    by_cases hy : y = x
    · subst hy
      simp only [taken, Function.update_self] at hm ⊢
      exact hrest m hm
    · simp only [taken, Function.update_of_ne hy] at hm ⊢
      exact h.pending y m hm
  differs y := by
    by_cases hy : y = x
    · subst hy
      simpa only [taken, Function.update_self] using (h.differs y).sublist (List.eraseIdx_sublist ..)
    · simpa only [taken, Function.update_of_ne hy] using h.differs y
  near := h.near
  parity := h.parity
  sent_zero := h.sent_zero
  sent_lt := h.sent_lt
  sent_later := h.sent_later
  isKeyPair := h.isKeyPair
  distinct := h.distinct
  drawn := h.drawn
  delivered := h.delivered_taken x i st w.drawn plaintext

/-- A delivery that draws pair `epoch x + 2`. -/
theorem take_draw (h : w.Explained C secret T epoch) {x : Side} {i : Nat} {st : RatchetState}
    {generated : KeyPair} {plaintext : Bytes} (hother : epoch x.other = epoch x + 1)
    (hunused : generated.pub ∉ w.drawn) (hpair : C.IsKeyPair generated)
    (hlater : T.sent (epoch x + 2) = 0)
    (hst : (T.draw (epoch x + 2) generated).Follows C secret (epoch x + 2) st)
    (hrest : ∀ m ∈ (w.inbox x).eraseIdx i,
      (T.draw (epoch x + 2) generated).Pending C secret (epoch x + 2) st m) :
    (taken w x i st (generated.pub :: w.drawn) plaintext).Explained C secret
      (T.draw (epoch x + 2) generated) (Function.update epoch x (epoch x + 2)) := by
  have hepoch : ∀ y, Function.update epoch x (epoch x + 2) y ≤ epoch x + 2 := by
    intro y
    rcases x.eq_or_eq_other y with rfl | rfl
    · rw [Function.update_self]
    · rw [Function.update_of_ne x.other_ne]
      omega
  have hkey : ∀ j ≤ epoch x + 2, (T.draw (epoch x + 2) generated).keys j = generated ∧
      j = epoch x + 2 ∨ (T.draw (epoch x + 2) generated).keys j = T.keys j ∧ j ≤ epoch x.other := by
    intro j hj
    by_cases hlast : j = epoch x + 2
    · exact Or.inl ⟨hlast ▸ Transcript.draw_keys_self _ _, hlast⟩
    · exact Or.inr ⟨Transcript.draw_keys_of_lt _ (by omega), by omega⟩
  have hne : ∀ j ≤ epoch x.other, (T.keys j).pub ≠ generated.pub :=
    fun j hj heq => hunused (heq ▸ h.drawn x.other j hj)
  exact {
    follows := by
      intro y
      rcases x.eq_or_eq_other y with rfl | rfl
      · simpa only [taken, Function.update_self] using hst
      · simp only [taken, Function.update_of_ne x.other_ne]
        exact (h.follows x.other).draw (by omega)
    pending := by
      intro y m hm
      rcases x.eq_or_eq_other y with rfl | rfl
      · simp only [taken, Function.update_self] at hm ⊢
        exact hrest m hm
      · simp only [taken, Function.update_of_ne x.other_ne] at hm ⊢
        obtain ⟨j, hmj, hj, hparity, hstored⟩ := h.pending x.other m hm
        have hjlt : j < epoch x + 2 := by
          by_contra hge
          obtain rfl : j = epoch x + 2 := by omega
          have hnum := hmj.number_lt
          omega
        exact ⟨j, hmj.draw hjlt, hj, hparity, hstored⟩
    differs := by
      intro y
      rcases x.eq_or_eq_other y with rfl | rfl
      · simpa only [taken, Function.update_self] using
          (h.differs y).sublist (List.eraseIdx_sublist ..)
      · simpa only [taken, Function.update_of_ne x.other_ne] using h.differs x.other
    near := by
      intro y
      have hx := h.near x
      cases x <;> cases y <;> simp_all [Function.update, Side.other]
    parity := by
      have hparity := h.parity
      cases x <;> simp_all [Function.update, Side.other] <;> omega
    sent_zero := h.sent_zero
    sent_lt := h.sent_lt
    sent_later := by
      intro j hj
      have hx := hj x
      have hy := hj x.other
      rw [Function.update_self] at hx
      rw [Function.update_of_ne x.other_ne] at hy
      refine h.sent_later j fun y => ?_
      rcases x.eq_or_eq_other y with rfl | rfl <;> omega
    isKeyPair := by
      intro y j hj
      obtain ⟨hk, -⟩ | ⟨hk, hle⟩ := hkey j (hj.trans (hepoch y))
      · rwa [hk]
      · rw [hk]
        exact h.isKeyPair x.other j hle
    distinct := by
      intro y j hj k hk heq
      obtain ⟨hj, hjl⟩ | ⟨hj, hjl⟩ := hkey j (hj.trans (hepoch y)) <;>
        obtain ⟨hk, hkl⟩ | ⟨hk, hkl⟩ := hkey k (hk.trans (hepoch y)) <;> rw [hj, hk] at heq
      · rw [hjl, hkl]
      · exact absurd heq.symm (hne k hkl)
      · exact absurd heq (hne j hjl)
      · exact h.distinct x.other j hjl k hkl heq
    drawn := by
      intro y j hj
      obtain ⟨hk, -⟩ | ⟨hk, hle⟩ := hkey j (hj.trans (hepoch y))
      · rw [hk]
        exact List.mem_cons_self
      · rw [hk]
        exact List.mem_cons_of_mem _ (h.drawn x.other j hle)
    delivered := h.delivered_taken x i st _ plaintext }

theorem lose (h : w.Explained C secret T epoch) (x : Side) (i : Nat) :
    Explained C secret
      { w with inbox := Function.update w.inbox x ((w.inbox x).eraseIdx i) } T epoch := by
  refine { h with pending := fun y m hm => h.pending y m ?_, differs := fun y => ?_ }
  · by_cases hy : y = x
    · subst hy
      simp only [Function.update_self] at hm
      exact List.mem_of_mem_eraseIdx hm
    · simpa only [Function.update_of_ne hy] using hm
  · by_cases hy : y = x
    · subst hy
      simpa only [Function.update_self] using (h.differs y).sublist (List.eraseIdx_sublist ..)
    · simpa only [Function.update_of_ne hy] using h.differs y

theorem differs_next (h : w.Explained C secret T epoch) {x y : Side} {m : Sent}
    {header : RatchetHeader} {ciphertext plaintext : Bytes} (hm : m ∈ w.inbox y)
    (hpub : header.dhPublic = (T.keys (epoch x)).pub)
    (hnum : header.messageNumber.toNat = T.sent (epoch x)) :
    m.Differs ⟨header, ciphertext, plaintext⟩ := by
  intro hpubs hnums
  obtain ⟨i, hmi, -, -, -⟩ := h.pending y m hm
  obtain ⟨z, hz⟩ := h.exists_epoch_of_sent (Nat.zero_lt_of_lt hmi.number_lt)
  have heq : (T.keys i).pub = (T.keys (epoch x)).pub := by rw [← hmi.pub, hpubs, hpub]
  have hi : i = epoch x := by
    by_cases hzx : epoch x ≤ epoch z
    · exact h.distinct z i hz _ hzx heq
    · exact h.distinct x i (by omega) _ le_rfl heq
  have hlt := hmi.number_lt
  rw [hi, hnums] at hlt
  simp only at hlt
  omega

theorem encrypt (h : w.Explained C secret T epoch) {x : Side} {st : RatchetState}
    {header : RatchetHeader} {plaintext ciphertext : Bytes}
    (henc : (w.party x).encrypt C plaintext = some (st, header, ciphertext))
    (hwrap : (w.party x).sendCount.toNat + 1 < 2 ^ 32) :
    Explained C secret { w with
      party := Function.update w.party x st
      inbox := Function.update w.inbox x.other
        (w.inbox x.other ++ [⟨header, ciphertext, plaintext⟩]) } (T.bump (epoch x)) epoch := by
  obtain ⟨he, hself, hmsg, hnum, hrecv, hskipped⟩ := (h.follows x).encrypt henc hwrap
  have hadj := h.adjacent x
  have hlast : ∀ i, epoch x + 1 < i → T.sent i = 0 := by
    intro i hi
    refine h.sent_later i fun y => ?_
    rcases x.eq_or_eq_other y with rfl | rfl <;> omega
  have hpending : ∀ y, ∀ m ∈ w.inbox y,
      (T.bump (epoch x)).Pending C secret (epoch y) (w.party y) m := by
    intro y m hm
    refine (h.pending y m hm).bump ?_ hlast he
    rcases x.eq_or_eq_other y with rfl | rfl <;> omega
  exact {
    follows := by
      intro y
      rcases x.eq_or_eq_other y with rfl | rfl
      · simpa only [Function.update_self] using hself
      · simp only [Function.update_of_ne x.other_ne]
        exact (h.follows x.other).bump (by omega) (by omega)
    pending := by
      intro y m hm
      rcases x.eq_or_eq_other y with rfl | rfl
      · simp only [Function.update_self, Function.update_of_ne y.other_ne.symm] at hm ⊢
        simpa only [Transcript.Pending, RatchetState.stores, hrecv, hskipped] using hpending y m hm
      · simp only [Function.update_self, Function.update_of_ne x.other_ne] at hm ⊢
        rcases List.mem_append.mp hm with hm | hm
        · exact hpending x.other m hm
        · rw [List.mem_singleton.mp hm]
          refine ⟨epoch x, hmsg, by omega, by omega, fun hlt hpos => ?_⟩
          have hread := (h.follows x.other).recvCount_le
          rw [Transcript.position, if_pos (by omega)] at hpos
          rw [show epoch x.other - 1 = epoch x by omega] at hread
          simp only at hpos
          omega
    differs := by
      intro y
      rcases x.eq_or_eq_other y with rfl | rfl
      · simpa only [Function.update_of_ne y.other_ne.symm] using h.differs y
      · simp only [Function.update_self]
        refine List.pairwise_append.mpr ⟨h.differs x.other, List.pairwise_singleton .., ?_⟩
        intro m hm m' hm'
        rw [List.mem_singleton.mp hm']
        exact h.differs_next hm hmsg.pub hnum
    near := h.near
    parity := h.parity
    sent_zero := by
      rw [Transcript.bump_sent_of_ne (by omega)]
      exact h.sent_zero
    sent_lt := by
      intro i
      by_cases hi : i = epoch x
      · rwa [hi, Transcript.bump_sent_self, ← (h.follows x).sendCount]
      · rw [Transcript.bump_sent_of_ne hi]
        exact h.sent_lt i
    sent_later := by
      intro i hi
      rw [Transcript.bump_sent_of_ne (hi x).ne']
      exact h.sent_later i hi
    isKeyPair := h.isKeyPair
    distinct := h.distinct
    drawn := h.drawn
    delivered := h.delivered }

variable (hC : C.Lawful)
include hC

theorem take_stored (h : w.Explained C secret T epoch) {x : Side} {i j : Nat} {m : Sent}
    (generated : KeyPair) (hi : (w.inbox x)[i]? = some m) (hm : T.IsMessageOf C secret j m)
    (hj : j < epoch x) (hstores : (w.party x).stores m.header = true) :
    ∃ st, (w.party x).decrypt C generated m.header m.ciphertext = (.ok m.plaintext, st) ∧
      (taken w x i st w.drawn m.plaintext).Explained C secret T epoch := by
  have hkey : ∀ sk ∈ (w.party x).skippedKeys, sk.matches m.header = true → sk.messageKey =
      messageKeyAt C (chainStart C secret T.keys j) m.header.messageNumber.toNat := by
    intro sk hsk hmatch
    obtain ⟨hpub, hnum⟩ := SkippedKey.matches_iff.mp hmatch
    obtain ⟨k, -, hk, hkey, -⟩ := (h.follows x).stored sk hsk
    have hjk : j = k := h.distinct x j hj.le k hk.le (by rw [← hm.pub, ← hpub, hkey.pub])
    rw [hkey.key, hnum, hjk]
  refine ⟨{ w.party x with
    skippedKeys := (w.party x).skippedKeys.eraseP (SkippedKey.matches m.header) }, ?_,
    h.take_same ?_ ?_⟩
  · rw [hm.ciphertext]
    exact RatchetState.decrypt_stored hC (RatchetState.stores_iff.mp hstores) hkey
  · have hf := h.follows x
    exact { hf with stored := fun sk hsk => hf.stored sk (List.mem_of_mem_eraseP hsk) }
  · intro m' hm'
    have hdiff := differs_of_mem_eraseIdx (h.differs x) hi hm'
    obtain ⟨k, hmk, hk, hparity, hstored⟩ := h.pending x m' (List.mem_of_mem_eraseIdx hm')
    refine ⟨k, hmk, hk, hparity, fun hke hlt => ?_⟩
    obtain ⟨sk, hsk, hmatch⟩ := RatchetState.stores_iff.mp (hstored hke hlt)
    obtain ⟨hpub, hnum⟩ := SkippedKey.matches_iff.mp hmatch
    refine RatchetState.stores_iff.mpr ⟨sk, ?_, hmatch⟩
    refine (List.mem_eraseP_of_neg ?_).mpr hsk
    rw [SkippedKey.matches_iff]
    rintro ⟨hpub', hnum'⟩
    exact hdiff (hpub.symm.trans hpub') (hnum.symm.trans hnum')

theorem take_ahead (h : w.Explained C secret T epoch) {x : Side} {i j : Nat} {m : Sent}
    (generated : KeyPair) (hi : (w.inbox x)[i]? = some m) (hm : T.IsMessageOf C secret j m)
    (hj : j + 1 = epoch x)
    (hge : (w.party x).recvCount.toNat ≤ m.header.messageNumber.toNat)
    (hskip : (w.party x).WithinSkip m.header)
    (hwrap : (w.party x).recvCount.toNat + maxSkip.toNat < 2 ^ 32)
    (hlast : m.header.messageNumber.toNat + 1 < 2 ^ 32) :
    ∃ st, (w.party x).decrypt C generated m.header m.ciphertext = (.ok m.plaintext, st) ∧
      (w.party x).drawsKey C m.header = false ∧
      (taken w x i st w.drawn m.plaintext).Explained C secret T epoch := by
  have hf := h.follows x
  have hnot := h.not_stores_of_le hm hj hge
  have hpos := hm.pos
  have hremote : (w.party x).dhRemotePublic = some m.header.dhPublic := by
    rw [hf.remote, ← hj, Transcript.remoteAt, hm.pub]
  have hneed : RatchetState.needDhRatchet (w.party x) m.header = false := by
    simp only [RatchetState.needDhRatchet, hremote, bne_self_eq_false]
  have hjump := hskip hnot
  rw [hneed, if_neg Bool.false_ne_true] at hjump
  refine ⟨_, ?_, ?_, h.take_same (hf.readPast hm hj hge hlast) fun m' hm' =>
    (h.pending x m' (List.mem_of_mem_eraseIdx hm')).readPast hm hj hlast
      (differs_of_mem_eraseIdx (h.differs x) hi hm')⟩
  · rw [RatchetState.decrypt_same hnot generated m.ciphertext hneed, hm.ciphertext]
    exact RatchetState.decryptCurrent_eq hC hremote (hf.recv_of hj hpos) hge hjump hwrap
  · simp only [RatchetState.drawsKey, hneed, Bool.and_false, Bool.false_and]

/-- The message is on a chain that `x` has not seen: `x` leaves the chain it
reads and draws the next pair. -/
theorem take_new (h : w.Explained C secret T epoch) {x : Side} {i : Nat} {m : Sent}
    {generated : KeyPair} (hi : (w.inbox x)[i]? = some m)
    (hm : T.IsMessageOf C secret (epoch x + 1) m) (hother : epoch x.other = epoch x + 1)
    (hskip : (w.party x).WithinSkip m.header)
    (hfresh : (w.party x).drawsKey C m.header = true →
      C.IsKeyPair generated ∧ generated.pub ∉ w.drawn)
    (hwrap : (w.party x).recvCount.toNat + maxSkip.toNat < 2 ^ 32)
    (hlast : m.header.messageNumber.toNat + 1 < 2 ^ 32) :
    ∃ st, (w.party x).decrypt C generated m.header m.ciphertext = (.ok m.plaintext, st) ∧
      (w.party x).drawsKey C m.header = true ∧
      (taken w x i st (generated.pub :: w.drawn) m.plaintext).Explained C secret
        (T.draw (epoch x + 2) generated) (Function.update epoch x (epoch x + 2)) := by
  have hf := h.follows x
  have hnot := h.not_stores_of_new hm hother
  have hneed : RatchetState.needDhRatchet (w.party x) m.header = true := by
    rw [RatchetState.needDhRatchet, hf.remote, hm.pub, bne_iff_ne]
    cases he : epoch x with
    | zero => simp [Transcript.remoteAt]
    | succ k =>
      rw [Transcript.remoteAt, ne_eq, Option.some.injEq]
      exact h.pub_ne (x := x.other) (by omega) (by omega) (by omega)
  have hjump := hskip hnot
  rw [hneed, if_pos rfl] at hjump
  obtain ⟨st₁, hskipped, hleft⟩ := hf.leave h.sent_zero hm.previous hjump.1 hwrap
  have hdraws : (w.party x).drawsKey C m.header = true := by
    rw [RatchetState.drawsKey, hnot, hneed, hskipped]
    rfl
  obtain ⟨hpair, hunused⟩ := hfresh hdraws
  have hlater : T.sent (epoch x + 2) = 0 := by
    refine h.sent_later _ fun y => ?_
    rcases x.eq_or_eq_other y with rfl | rfl <;> omega
  have hnew : (T.draw (epoch x + 2) generated).IsMessageOf C secret (epoch x + 1) m :=
    hm.draw (Nat.lt_succ_self _)
  have hturn := hf.dhRatchet hC hleft hpair (h.isKeyPair x.other _ hother.ge) hlater
  rw [← hm.pub] at hturn
  have hread := hturn.readPast hnew rfl (Nat.zero_le _) hlast
  refine ⟨_, ?_, hdraws, h.take_draw hother hunused hpair hlater hread fun m' hm' => ?_⟩
  · rw [RatchetState.decrypt_ratchet hnot generated m.ciphertext hneed hskipped, hnew.ciphertext]
    refine RatchetState.decryptCurrent_eq hC rfl (hturn.recv_of rfl hnew.pos) (Nat.zero_le _) ?_ ?_
    · exact hjump.2.trans (Nat.le_add_left _ _)
    · exact Nat.lt_of_le_of_lt (Nat.zero_add maxSkip.toNat).le (by decide)
  · have hdiff := differs_of_mem_eraseIdx (h.differs x) hi hm'
    exact ((h.pending x m' (List.mem_of_mem_eraseIdx hm')).dhRatchet hleft).readPast hnew rfl
      hlast hdiff

/-- One delivery, whichever chain the message is on. -/
theorem deliver (h : w.Explained C secret T epoch) {x : Side} {i : Nat} {m : Sent}
    {generated : KeyPair} (hi : (w.inbox x)[i]? = some m)
    (hskip : (w.party x).WithinSkip m.header)
    (hfresh : (w.party x).drawsKey C m.header = true →
      C.IsKeyPair generated ∧ generated.pub ∉ w.drawn)
    (hwrap : (w.party x).stores m.header = false → (w.party x).recvCount.toNat + maxSkip.toNat < 2 ^ 32) :
    ∃ st, (w.party x).decrypt C generated m.header m.ciphertext = (.ok m.plaintext, st) ∧
      ∃ T' epoch', (taken w x i st (if (w.party x).drawsKey C m.header then
        generated.pub :: w.drawn else w.drawn) m.plaintext).Explained C secret T' epoch' := by
  obtain ⟨j, hm, hj, hparity, hstored⟩ := h.pending x m (List.mem_of_getElem? hi)
  have hlast : m.header.messageNumber.toNat + 1 < 2 ^ 32 :=
    (Nat.succ_le_of_lt hm.number_lt).trans_lt (h.sent_lt j)
  by_cases hstores : (w.party x).stores m.header = true
  · have hdraws : (w.party x).drawsKey C m.header = false := by
      rw [RatchetState.drawsKey, hstores]
      rfl
    rcases h.chain_cases hm hj hparity with hlt | ⟨rfl, hother⟩
    · obtain ⟨st, hdec, hnext⟩ := h.take_stored hC generated hi hm hlt hstores
      exact ⟨st, hdec, T, epoch, by rwa [hdraws, if_neg Bool.false_ne_true]⟩
    · rw [h.not_stores_of_new hm hother] at hstores
      exact absurd hstores Bool.false_ne_true
  · rw [Bool.not_eq_true] at hstores
    rcases h.chain_cases hm hj hparity with hlt | ⟨rfl, hother⟩
    · have hahead : ¬ m.header.messageNumber.toNat <
          T.position (epoch x) (w.party x).recvCount.toNat j := by
        intro hpos
        rw [hstored hlt hpos] at hstores
        exact Bool.noConfusion hstores
      have hreads : j + 1 = epoch x := by
        by_contra hne
        rw [Transcript.position, if_neg hne] at hahead
        exact hahead hm.number_lt
      rw [Transcript.position, if_pos hreads, not_lt] at hahead
      obtain ⟨st, hdec, hdraws, hnext⟩ :=
        h.take_ahead hC generated hi hm hreads hahead hskip (hwrap hstores) hlast
      exact ⟨st, hdec, T, epoch, by rwa [hdraws, if_neg Bool.false_ne_true]⟩
    · obtain ⟨st, hdec, hdraws, hnext⟩ :=
        h.take_new hC hi hm hother hskip hfresh (hwrap hstores) hlast
      exact ⟨st, hdec, _, _, by rwa [hdraws, if_pos rfl]⟩

theorem step {a : Action} {w' : Channel} (h : w.Explained C secret T epoch)
    (hadm : w.Admissible C a) (hwrap : w.NoWrap a) (hstep : w.step C a = some w') :
    ∃ T' epoch', w'.Explained C secret T' epoch' := by
  cases a with
  | encrypt x plaintext =>
    simp only [Channel.step] at hstep
    split at hstep
    · cases hstep
    · rename_i st header ciphertext henc
      cases hstep
      exact ⟨_, _, h.encrypt henc hwrap⟩
  | deliver x i generated =>
    simp only [Channel.step] at hstep
    split at hstep
    · cases hstep
    · rename_i m hi
      obtain ⟨hskip, hfresh⟩ := hadm m hi
      obtain ⟨st, hdec, T', epoch', hnext⟩ := h.deliver hC hi hskip hfresh (hwrap m hi)
      rw [hdec] at hstep
      cases hstep
      exact ⟨T', epoch', hnext⟩
  | lose x i =>
    cases hstep
    exact ⟨T, epoch, h.lose x i⟩

theorem start {bobPair alicePair : KeyPair} (hbob : C.IsKeyPair bobPair)
    (halice : C.IsKeyPair alicePair) (hne : bobPair.pub ≠ alicePair.pub) :
    (Channel.start C secret bobPair alicePair).Explained C secret
      ⟨fun i => if i = 0 then bobPair else alicePair, fun _ => 0⟩
      (fun x => if x = .alice then 1 else 0) := by
  have hdh := hC.dh_comm alicePair bobPair halice hbob
  refine {
    follows := ?_
    pending := by simp [Channel.start]
    differs := by simp [Channel.start]
    near := by rintro (_ | _) <;> decide
    parity := by decide
    sent_zero := rfl
    sent_lt := fun _ => Nat.two_pow_pos 32
    sent_later := fun _ _ => rfl
    isKeyPair := ?_
    distinct := ?_
    drawn := ?_
    delivered := by simp [Channel.start, Channel.Delivered] }
  · rintro (_ | _)
    · exact {
        priv := rfl
        pub := rfl
        root := by simp [Channel.start, RatchetState.initAlice, rootAt, hdh]
        remote := rfl
        send := by
          simp [Channel.start, RatchetState.initAlice, Transcript.sendKeyAt, chainAt, chainStart,
            rootAt, hdh]
        recv := rfl
        sendCount := rfl
        prevSendCount := rfl
        recvCount_le := le_rfl
        stored := by simp [Channel.start, RatchetState.initAlice] }
    · exact {
        priv := rfl
        pub := rfl
        root := rfl
        remote := rfl
        send := rfl
        recv := rfl
        sendCount := rfl
        prevSendCount := rfl
        recvCount_le := le_rfl
        stored := by simp [Channel.start, RatchetState.initBob] }
  · intro x i _
    dsimp only
    split
    · exact hbob
    · exact halice
  · intro x i hi j hj heq
    have hle : ∀ k, k ≤ (if x = Side.alice then 1 else 0) → k = 0 ∨ k = 1 := by
      intro k hk
      split at hk <;> omega
    rcases hle i hi with rfl | rfl <;> rcases hle j hj with rfl | rfl
    · rfl
    · exact absurd heq hne
    · exact absurd heq.symm hne
    · rfl
  · intro x i _
    dsimp only [Channel.start]
    split
    · exact List.mem_cons_self
    · exact List.mem_cons_of_mem _ List.mem_cons_self

end Channel.Explained
/-- In every run of the two sides over a network that keeps to the skip window,
with fresh key pairs, whose counter additions do not wrap, every `decrypt` call
returns the plaintext that was encrypted. -/
theorem ratchet_delivers (hC : C.Lawful) {bobPair alicePair : KeyPair}
    (hbob : C.IsKeyPair bobPair) (halice : C.IsKeyPair alicePair)
    (hne : bobPair.pub ≠ alicePair.pub) {run : List Action} {w : Channel}
    (hadm : Machine.Along (Channel.step C) (Channel.Admissible C)
      (Channel.start C secret bobPair alicePair) run)
    (hwrap : Machine.Along (Channel.step C) Channel.NoWrap
      (Channel.start C secret bobPair alicePair) run)
    (hrun : Machine.exec (Channel.step C) (Channel.start C secret bobPair alicePair) run = some w) :
    w.Delivered := by
  have hstep : ∀ v a v', (∃ T epoch, Channel.Explained C secret v T epoch) →
      (v.Admissible C a ∧ v.NoWrap a) → v.step C a = some v' →
      ∃ T epoch, Channel.Explained C secret v' T epoch := by
    rintro v a v' ⟨T, epoch, hv⟩ ⟨hadm, hwrap⟩ hv'
    exact hv.step hC hadm hwrap hv'
  obtain ⟨T, epoch, hw⟩ := Machine.exec_invariant hstep
    ⟨_, _, Channel.Explained.start hC hbob halice hne⟩ (hadm.and hwrap) hrun
  exact hw.delivered

end Proscenium.Crypto
