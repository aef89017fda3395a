import Proscenium.Dm.HandshakeDefs
import Proscenium.Dm.KeyReuse

/-! Do the sessions that two users store for each other belong together? A
handshake that is handled overwrites whatever the responder had, whether or not
its initiator still waits for it. While an `Init` is handled only when its
sender stores no session and no other handshake of the two is half done, the
two sessions are always the two ends of one handshake. -/

namespace Proscenium.Dm.Handshake

open Crypto Relation

section Sessions

variable (C : Crates) (pair : User → KeyPair)

def Descends : RatchetState → RatchetState → Prop := ReflTransGen (Advances C)

/-- `st` is the initiator's session of a handshake of `x`, and `st'` the responder's. -/
def Opposite (x : User) (st st' : RatchetState) : Prop :=
  ∃ generated sharedSecret,
    Descends C (RatchetState.initAlice C generated sharedSecret (pair x.other).pub) st ∧
      Descends C (RatchetState.initBob sharedSecret (pair x.other)) st'

def Peers.Agree (w : Peers) : Prop :=
  ∀ sta stb, w.stored .a = some sta → w.stored .b = some stb →
    Opposite C pair .a sta stb ∨ Opposite C pair .b stb sta

end Sessions

namespace Peers

/-- An `Init` of `x` replaces nothing that `x` relies on. -/
def Idle (w : Peers) (x : User) : Prop :=
  w.stored x = none ∧ ∀ c ∈ w.calls, c.response = none

/-- What is needed where an `Init` is handled. -/
def Orderly (w : Peers) : Label → Prop
  | .handle i _ => ∀ c ∈ w.calls[i]?, w.Idle c.user
  | .replay k _ => ∀ m ∈ w.recorded[k]?, w.Idle m.1
  | .establish _ _ | .complete _ _ | .fail _ | .encrypt _ _ | .decrypt _ _ _ _ => True

instance (w : Peers) (x : User) : Decidable (w.Idle x) := by
  unfold Idle
  infer_instance

instance (w : Peers) : ∀ l, Decidable (w.Orderly l)
  | .handle i _ => inferInstanceAs (Decidable (∀ c ∈ w.calls[i]?, w.Idle c.user))
  | .replay k _ => inferInstanceAs (Decidable (∀ m ∈ w.recorded[k]?, w.Idle m.1))
  | .establish _ _ | .complete _ _ | .fail _ | .encrypt _ _ | .decrypt _ _ _ _ => isTrue trivial

variable (C : Crates) (S : Snow) (pair : User → KeyPair)

/-- The call was answered: its caller stores nothing yet, and the peer stores the other end. -/
def Answered (w : Peers) (c : Call) : Prop :=
  ∀ response, c.response = some response → w.stored c.user = none ∧
    ∃ sharedSecret st, w.stored c.user.other = some st ∧
      Descends C (RatchetState.initBob sharedSecret (pair c.user.other)) st ∧
      ∀ secret, S.complete (pair c.user).priv (pair c.user.other).pub c.ephemeral response =
        some secret → secret = sharedSecret

structure Settled (w : Peers) : Prop where
  agree : w.Agree C pair
  answered : ∀ c ∈ w.calls, w.Answered C S pair c
  /-- One handshake at a time is half done. -/
  single : w.calls.Pairwise fun c c' => c.response = none ∨ c'.response = none

variable {C S pair} {w : Peers}

@[simp] theorem stored_save (w : Peers) (x : User) (st : RatchetState) :
    (w.saveRatchetSession x st).stored x = some st := Function.update_self x _ w.stored

theorem stored_save_ne {x y : User} (h : y ≠ x) (st : RatchetState) :
    (w.saveRatchetSession x st).stored y = w.stored y := Function.update_of_ne h _ w.stored

theorem mem_calls_advance {i : Nat} {c : Call} (hi : w.calls[i]? = some c) {next : Option Call}
    {d : Call} : d ∈ (w.advance i next).calls ↔ d ∈ next ∨ d ∈ w.calls.eraseIdx i :=
  Tasks.mem_advance hi

theorem Settled.advance (h : w.Settled C S pair) {i : Nat} {c : Call} (hi : w.calls[i]? = some c) :
    (w.advance i none).Settled C S pair where
  agree := h.agree
  answered := by
    intro d hd
    rcases (mem_calls_advance hi).mp hd with hd | hd
    · exact nomatch hd
    · exact h.answered d (List.mem_of_mem_eraseIdx hd)
  single := h.single.sublist (List.eraseIdx_sublist ..)

theorem settled_of_waiting (hagree : w.Agree C pair) (hwait : ∀ c ∈ w.calls, c.response = none) :
    w.Settled C S pair where
  agree := hagree
  answered := by
    intro c hc response hresponse
    rw [hwait c hc] at hresponse
    exact nomatch hresponse
  single := by
    have hall : ∀ c ∈ w.calls, ∀ c' ∈ w.calls, c.response = none ∨ c'.response = none :=
      fun c hc _ _ => .inl (hwait c hc)
    exact List.pairwise_of_forall_mem_list hall

theorem agree_of_none {x : User} (hx : w.stored x = none) : w.Agree C pair := by
  intro sta stb ha hb
  cases x
  · rw [hx] at ha
    exact nomatch ha
  · rw [hx] at hb
    exact nomatch hb

theorem other_ne (x : User) : x.other ≠ x := by cases x <;> decide

theorem agree_of_opposite {x : User} {st st' : RatchetState} (hx : w.stored x = some st)
    (hy : w.stored x.other = some st') (h : Opposite C pair x st st') : w.Agree C pair := by
  intro sta stb ha hb
  cases x
  · obtain rfl := Option.some.inj (hx.symm.trans ha)
    obtain rfl := Option.some.inj (hy.symm.trans hb)
    exact .inl h
  · obtain rfl := Option.some.inj (hx.symm.trans hb)
    obtain rfl := Option.some.inj (hy.symm.trans ha)
    exact .inr h

theorem handleHandshake_eq {y : User} {init : Init} {random : Bytes32} {response : Bytes}
    (h : (w.handleHandshake S pair y init random).2 = some response) :
    ∃ sharedSecret remote,
      S.respond (pair y).priv init.noiseMessage random = some (response, sharedSecret, remote) ∧
      (w.handleHandshake S pair y init random).1 =
        w.saveRatchetSession y (RatchetState.initBob sharedSecret (pair y)) := by
  unfold handleHandshake at h ⊢
  split at h
  · exact nomatch h
  · rename_i answer sharedSecret remote hrespond
    split at h
    · rename_i hsender
      obtain rfl := Option.some.inj h
      refine ⟨sharedSecret, remote, hrespond, ?_⟩
      rw [if_pos hsender]
    · exact nomatch h

theorem handleHandshake_refused {y : User} {init : Init} {random : Bytes32}
    (h : (w.handleHandshake S pair y init random).2 = none) :
    (w.handleHandshake S pair y init random).1 = w := by
  unfold handleHandshake at h ⊢
  split at h
  · rfl
  · split at h
    · exact nomatch h
    · rename_i hsender
      rw [if_neg hsender]

theorem handleHandshake_calls (y : User) (init : Init) (random : Bytes32) :
    (w.handleHandshake S pair y init random).1.calls = w.calls := by
  unfold handleHandshake
  split
  · rfl
  · split <;> rfl

theorem handleHandshake_stored {x y : User} (hne : x ≠ y) (init : Init) (random : Bytes32) :
    (w.handleHandshake S pair y init random).1.stored x = w.stored x := by
  unfold handleHandshake
  split
  · rfl
  · split
    · exact stored_save_ne hne _
    · rfl

theorem settled_replay {x : User} (hidle : w.Idle x) (init : Init)
    (random : Bytes32) : (w.handleHandshake S pair x.other init random).1.Settled C S pair := by
  have hx : (w.handleHandshake S pair x.other init random).1.stored x = none := by
    rw [handleHandshake_stored (other_ne x).symm]
    exact hidle.1
  apply settled_of_waiting (agree_of_none hx)
  rw [handleHandshake_calls]
  exact hidle.2

theorem Settled.handle (h : w.Settled C S pair) (hS : S.SameHash pair) {i : Nat} {x : User}
    {ephemeral random : Bytes32} {init : Init} (hi : w.calls[i]? = some ⟨x, ephemeral, none⟩)
    (hinit : initOf S pair x ephemeral = some init) (hidle : w.Idle x) :
    ((w.handleHandshake S pair x.other init random).1.advance i
      ((w.handleHandshake S pair x.other init random).2.map fun response =>
        ⟨x, ephemeral, some response⟩)).Settled C S pair := by
  cases hout : (w.handleHandshake S pair x.other init random).2 with
  | none =>
    rw [handleHandshake_refused hout]
    exact h.advance hi
  | some response =>
    obtain ⟨sharedSecret, remote, hrespond, heq⟩ := handleHandshake_eq hout
    obtain ⟨message, hmessage, rfl⟩ := Option.map_eq_some_iff.mp hinit
    rw [heq]
    have hx : (w.saveRatchetSession x.other
        (RatchetState.initBob sharedSecret (pair x.other))).stored x = none := by
      rw [stored_save_ne (other_ne x).symm]
      exact hidle.1
    have hothers : ∀ d ∈ w.calls.eraseIdx i, d.response = none :=
      fun d hd => hidle.2 d (List.mem_of_mem_eraseIdx hd)
    refine ⟨agree_of_none hx, ?_, ?_⟩
    · intro d hd
      rcases (mem_calls_advance (w := w.saveRatchetSession _ _) hi).mp hd with hd | hd
      · obtain rfl := Option.mem_some_iff.mp hd
        intro response' hresponse'
        obtain rfl := Option.some.inj hresponse'
        refine ⟨hx, sharedSecret, _, stored_save w x.other _, ReflTransGen.refl, ?_⟩
        intro secret hsecret
        exact hS x ephemeral message random response sharedSecret remote secret hmessage hrespond
          hsecret
      · intro response' hresponse'
        rw [hothers d hd] at hresponse'
        exact nomatch hresponse'
    · have hsymm : ∀ {c c' : Call}, (c.response = none ∨ c'.response = none) →
          c'.response = none ∨ c.response = none := Or.symm
      have hnext : ∀ c ∈ some (⟨x, ephemeral, some response⟩ : Call), ∀ d ∈ w.calls.eraseIdx i,
          c.response = none ∨ d.response = none := fun _ _ d hd => .inr (hothers d hd)
      exact Tasks.pairwise_advance hsymm h.single hi hnext

theorem Settled.complete (h : w.Settled C S pair) {i : Nat} {x : User} {ephemeral : Bytes32}
    {response : Bytes} {sharedSecret : Bytes32} {generated : KeyPair}
    (hi : w.calls[i]? = some ⟨x, ephemeral, some response⟩)
    (hcomplete : S.complete (pair x).priv (pair x.other).pub ephemeral response =
      some sharedSecret) :
    ((w.saveRatchetSession x (RatchetState.initAlice C generated sharedSecret
      (pair x.other).pub)).advance i none).Settled C S pair := by
  obtain ⟨-, secret, st, hst, hdesc, hsame⟩ :=
    h.answered _ (List.mem_of_getElem? hi) response rfl
  obtain rfl := hsame sharedSecret hcomplete
  apply settled_of_waiting
  · have hy : (w.saveRatchetSession x (RatchetState.initAlice C generated sharedSecret
        (pair x.other).pub)).stored x.other = some st := by
      rw [stored_save_ne (other_ne x)]
      exact hst
    exact agree_of_opposite (stored_save w x _) hy ⟨generated, _, ReflTransGen.refl, hdesc⟩
  · -- the only answered call was the one that is over now
    intro d hd
    have hd' : d ∈ w.calls.eraseIdx i := hd
    have hrel := Tasks.related_others (R := fun c c' => c.response = none ∨ c'.response = none)
      Or.symm h.single hi d hd'
    exact hrel.resolve_left nofun

theorem Settled.traffic (h : w.Settled C S pair) {x : User} {st st' : RatchetState}
    (hst : w.stored x = some st) (hadv : Advances C st st') :
    (w.saveRatchetSession x st').Settled C S pair where
  single := h.single
  agree := by
    intro sta stb ha hb
    cases x with
    | a =>
      obtain rfl := Option.some.inj ((stored_save w .a st').symm.trans ha)
      have hb' : w.stored .b = some stb := by
        rw [← hb, stored_save_ne (by decide)]
      rcases h.agree st stb hst hb' with ⟨g, k, h1, h2⟩ | ⟨g, k, h1, h2⟩
      · exact .inl ⟨g, k, h1.tail hadv, h2⟩
      · exact .inr ⟨g, k, h1, h2.tail hadv⟩
    | b =>
      obtain rfl := Option.some.inj ((stored_save w .b st').symm.trans hb)
      have ha' : w.stored .a = some sta := by
        rw [← ha, stored_save_ne (by decide)]
      rcases h.agree sta st ha' hst with ⟨g, k, h1, h2⟩ | ⟨g, k, h1, h2⟩
      · exact .inl ⟨g, k, h1, h2.tail hadv⟩
      · exact .inr ⟨g, k, h1.tail hadv, h2⟩
  answered := by
    intro c hc response hresponse
    obtain ⟨hnone, secret, s, hs, hdesc, hsame⟩ := h.answered c hc response hresponse
    have hne : c.user ≠ x := by
      rintro rfl
      exact nomatch hnone.symm.trans hst
    refine ⟨(stored_save_ne hne st').trans hnone, secret, ?_⟩
    by_cases hx : c.user.other = x
    · subst hx
      obtain rfl := Option.some.inj (hs.symm.trans hst)
      exact ⟨st', stored_save w _ st', hdesc.tail hadv, hsame⟩
    · exact ⟨s, (stored_save_ne hx st').trans hs, hdesc, hsame⟩

theorem Settled.step (h : w.Settled C S pair) (hS : S.SameHash pair) {l : Label} {w' : Peers}
    (hl : w.Orderly l) (hstep : w.step C S pair l = some w') : w'.Settled C S pair := by
  cases l with
  | establish x ephemeral =>
    unfold Peers.step at hstep
    dsimp only at hstep
    split at hstep
    · cases hstep
      refine ⟨h.agree, ?_, ?_⟩
      · intro c hc
        rcases List.mem_append.mp hc with hc | hc
        · exact h.answered c hc
        · obtain rfl := List.mem_singleton.mp hc
          exact nofun
      · apply List.pairwise_append.mpr
        refine ⟨h.single, List.pairwise_singleton _ _, ?_⟩
        intro c _ c' hc'
        obtain rfl := List.mem_singleton.mp hc'
        exact .inr rfl
    · exact nomatch hstep
  | handle i random =>
    unfold Peers.step at hstep
    dsimp only at hstep
    split at hstep
    · rename_i x ephemeral hi
      obtain ⟨init, hinit, rfl⟩ := Option.map_eq_some_iff.mp hstep
      exact h.handle hS hi hinit (hl _ hi)
    · exact nomatch hstep
  | complete i generated =>
    unfold Peers.step at hstep
    dsimp only at hstep
    split at hstep
    · rename_i x ephemeral response hi
      split at hstep
      · cases hstep
        exact h.advance hi
      · rename_i sharedSecret hcomplete
        cases hstep
        exact h.complete hi hcomplete
    · exact nomatch hstep
  | fail i =>
    obtain ⟨c, hi, rfl⟩ := Option.map_eq_some_iff.mp hstep
    exact h.advance hi
  | replay k random =>
    obtain ⟨m, hk, rfl⟩ := Option.map_eq_some_iff.mp hstep
    exact settled_replay (hl m hk) m.2 random
  | encrypt x plaintext =>
    obtain ⟨st, hst, hstep⟩ := Option.bind_eq_some_iff.mp hstep
    obtain ⟨out, hout, rfl⟩ := Option.map_eq_some_iff.mp hstep
    exact h.traffic hst (.inl ⟨plaintext, out.2, hout⟩)
  | decrypt x generated header ciphertext =>
    obtain ⟨st, hst, hstep⟩ := Option.map_eq_some_iff.mp hstep
    split at hstep
    · subst hstep
      exact h
    · rename_i plaintext st' hdec
      subst hstep
      exact h.traffic hst (.inr ⟨generated, header, ciphertext, plaintext, hdec⟩)

theorem settled_start : start.Settled C S pair :=
  settled_of_waiting (fun _ _ ha => nomatch ha) fun _ hc => nomatch hc

end Peers

/-- Along every interleaving of establishments, handled and repeated `Init`s, losses and traffic
in which an `Init` is handled only while its sender has no session and no other handshake of the
two is half done. -/
theorem sessions_agree {C : Crates} {S : Snow} {pair : User → KeyPair} (hS : S.SameHash pair)
    {run : List Label} {w : Peers}
    (horderly : Machine.Along (Peers.step C S pair) Peers.Orderly Peers.start run)
    (hrun : Machine.exec (Peers.step C S pair) Peers.start run = some w) : w.Agree C pair := by
  have hstep : ∀ (u : Peers) (l : Label) (u' : Peers), u.Settled C S pair → u.Orderly l →
      u.step C S pair l = some u' → u'.Settled C S pair := fun _ _ _ h hl hs => h.step hS hl hs
  exact (Machine.exec_invariant hstep Peers.settled_start horderly hrun).agree

section Roles

variable {C : Crates}

/-- The responder of a handshake sends only after it has received. -/
def Responds (st : RatchetState) : Prop := st.chainKeySend ≠ none → st.chainKeyRecv ≠ none

theorem decryptCurrent_ok {st : RatchetState} {header : RatchetHeader} {ciphertext plaintext : Bytes}
    (h : (st.decryptCurrent C header ciphertext).1 = .ok plaintext) :
    (st.decryptCurrent C header ciphertext).2.chainKeyRecv ≠ none := by
  unfold RatchetState.decryptCurrent at h ⊢
  split at h
  · exact nomatch h
  · split at h
    · exact nomatch h
    · exact nofun

theorem Responds.advances {st st' : RatchetState} (h : Responds st) (hadv : Advances C st st') :
    Responds st' := by
  rcases hadv with ⟨plaintext, out, henc⟩ | ⟨generated, header, ciphertext, plaintext, hdec⟩
  · unfold RatchetState.encrypt at henc
    split at henc
    · exact nomatch henc
    · rename_i hsend
      cases henc
      have hrecv : st.chainKeyRecv ≠ none := h (by simp [hsend])
      exact fun _ => hrecv
  · have hcurrent : ∀ s : RatchetState, s.decryptCurrent C header ciphertext =
        (.ok plaintext, st') → Responds st' := by
      intro s hs _
      have hok := decryptCurrent_ok (C := C) (congrArg Prod.fst hs)
      rw [hs] at hok
      exact hok
    cases hstores : st.stores header with
    | true =>
      -- the key was stored, and the chains stay as they are
      rw [RatchetState.stores_eq_isSome, Option.isSome_iff_exists] at hstores
      obtain ⟨sk, hfind⟩ := hstores
      rw [RatchetState.decrypt_of_found hfind] at hdec
      obtain ⟨-, rfl⟩ := Prod.mk.inj hdec
      exact h
    | false =>
      cases hneed : st.needDhRatchet header with
      | false =>
        rw [RatchetState.decrypt_same hstores generated ciphertext hneed] at hdec
        exact hcurrent _ hdec
      | true =>
        cases hskip : st.skipMessages C header.previousChainLength with
        | error e =>
          rw [RatchetState.decrypt_refused hstores generated ciphertext hneed hskip] at hdec
          cases hdec
        | ok left =>
          rw [RatchetState.decrypt_ratchet hstores generated ciphertext hneed hskip] at hdec
          exact hcurrent _ hdec

theorem responds_of_descends {sharedSecret : Bytes32} {kp : KeyPair} {st : RatchetState}
    (h : Descends C (RatchetState.initBob sharedSecret kp) st) : Responds st := by
  induction h with
  | refl => exact fun hsend => absurd rfl hsend
  | tail _ hadv ih => exact ih.advances hadv

end Roles

section Runs

/-- Every key goes in the clear, and the hash is the sum of the two ephemeral keys. -/
def clearSnow : Snow where
  initiate myPrivate peerPublic ephemeral :=
    some (myPrivate.toList ++ (peerPublic.toList ++ ephemeral.toList))
  respond myPrivate init random :=
    if (init.drop 32).take 32 = myPrivate.toList then
      some (random.toList, bytes32 (List.zipWith (· + ·) (init.drop 64) random.toList),
        some (bytes32 (init.take 32)))
    else none
  complete _ _ ephemeral response :=
    some (bytes32 (List.zipWith (· + ·) ephemeral.toList response))

theorem clearSnow_sameHash (pair : User → KeyPair) : clearSnow.SameHash pair := by
  intro x ephemeral init random response hash remote hash' hinit hrespond hcomplete
  unfold clearSnow at hinit hrespond hcomplete
  obtain rfl := Option.some.inj hinit
  have hephemeral : List.drop 64 ((pair x).priv.toList ++ ((pair x.other).pub.toList ++
      ephemeral.toList)) = ephemeral.toList := by simp [List.drop_append]
  dsimp only at hrespond
  rw [hephemeral] at hrespond
  split at hrespond
  · obtain ⟨rfl, rfl, -⟩ := Option.some.inj hrespond
    exact (Option.some.inj hcomplete).symm
  · exact nomatch hrespond

def samplePair : User → KeyPair
  | .a => pairOf 1
  | .b => pairOf 2

abbrev peersStep := Peers.step additiveCrates clearSnow samplePair

/-- The answer to the first `Init` of `a` is lost, and `a` calls again. -/
abbrev retryRun : List Label :=
  [.establish .a (bytes32 [3]), .handle 0 (bytes32 [4]), .fail 0, .establish .a (bytes32 [5]),
    .handle 0 (bytes32 [6]), .complete 0 (pairOf 7), .encrypt .a [1]]

theorem sessions_agree_retry :
    ∃ w, Machine.exec peersStep Peers.start retryRun = some w ∧
      (w.stored .a).isSome ∧ (w.stored .b).isSome ∧ w.Agree additiveCrates samplePair := by
  have hassumed : Machine.Along peersStep Peers.Orderly Peers.start retryRun ∧
      (Machine.exec peersStep Peers.start retryRun).map
        (fun w => ((w.stored .a).isSome, (w.stored .b).isSome)) = some (true, true) := by
    decide +kernel
  obtain ⟨horderly, hstored⟩ := hassumed
  obtain ⟨w, hw, hstored⟩ := Option.map_eq_some_iff.mp hstored
  obtain ⟨ha, hb⟩ := Prod.mk.inj hstored
  exact ⟨w, hw, ha, hb, sessions_agree (clearSnow_sameHash samplePair) horderly hw⟩

abbrev simultaneousRun : List Label :=
  [.establish .a (bytes32 [3]), .establish .b (bytes32 [4]), .handle 0 (bytes32 [5]),
    .handle 1 (bytes32 [6]), .complete 0 (pairOf 7), .complete 0 (pairOf 8)]

/-- Both store the initiator's end, of two handshakes. -/
theorem not_sessions_agree_simultaneous :
    ∃ w, Machine.exec peersStep Peers.start simultaneousRun = some w ∧
      w.calls = [] ∧ ¬ w.Agree additiveCrates samplePair := by
  have hrun : (Machine.exec peersStep Peers.start simultaneousRun).map (fun w => (w.calls.length,
      (w.stored .a).map fun st => (st.chainKeySend.isSome, st.chainKeyRecv.isNone),
      (w.stored .b).map fun st => (st.chainKeySend.isSome, st.chainKeyRecv.isNone))) =
      some (0, some (true, true), some (true, true)) := by decide +kernel
  obtain ⟨w, hw, hstored⟩ := Option.map_eq_some_iff.mp hrun
  obtain ⟨hcalls, hstored⟩ := Prod.mk.inj hstored
  obtain ⟨ha, hb⟩ := Prod.mk.inj hstored
  obtain ⟨sta, hsta, ha⟩ := Option.map_eq_some_iff.mp ha
  obtain ⟨stb, hstb, hb⟩ := Option.map_eq_some_iff.mp hb
  obtain ⟨hsendA, hrecvA⟩ := Prod.mk.inj ha
  obtain ⟨hsendB, hrecvB⟩ := Prod.mk.inj hb
  have hneither : ∀ st : RatchetState, st.chainKeySend.isSome = true →
      st.chainKeyRecv.isNone = true → ¬ Responds st := fun st hsend hrecv h =>
    h (Option.isSome_iff_ne_none.mp hsend) (Option.isNone_iff_eq_none.mp hrecv)
  refine ⟨w, hw, List.eq_nil_of_length_eq_zero hcalls, fun hagree => ?_⟩
  rcases hagree sta stb hsta hstb with ⟨_, _, -, h⟩ | ⟨_, _, -, h⟩
  · exact hneither stb hsendB hrecvB (responds_of_descends h)
  · exact hneither sta hsendA hrecvA (responds_of_descends h)

end Runs

end Proscenium.Dm.Handshake
