import Proscenium.Dm.KeyReuse

/-! The `expect` in `encrypt`. A session that began with an incoming handshake
has no sending chain before its first message is read, and the send path loads
whatever is stored. The `expect` holds in every run in which no send loads
such a session, and no chain comes to its last number. -/

namespace Proscenium.Dm

open Crypto

/-- The state of `init_bob`, as far as `decrypt` looks at it. -/
structure Untouched (st : RatchetState) : Prop where
  chainKeySend : st.chainKeySend = none
  dhRemotePublic : st.dhRemotePublic = none
  skippedKeys : st.skippedKeys = []

theorem Untouched.drawsKey {C : Crates} {st st' : RatchetState} (hst : Untouched st)
    {generated : KeyPair} {header : RatchetHeader} {ciphertext plaintext : Bytes}
    (hdec : st.decrypt C generated header ciphertext = (.ok plaintext, st')) :
    st.drawsKey C header = true := by
  have hstores : st.stores header = false := by
    unfold RatchetState.stores
    rw [hst.skippedKeys]
    rfl
  have hneed : st.needDhRatchet header = true := by
    unfold RatchetState.needDhRatchet
    rw [hst.dhRemotePublic]
    rfl
  unfold RatchetState.drawsKey
  rw [hstores, hneed]
  cases hskip : st.skipMessages C header.previousChainLength with
  | ok _ => rfl
  | error e =>
    rw [RatchetState.decrypt_refused hstores generated ciphertext hneed hskip] at hdec
    cases hdec

/-- What the bookkeeping of a row says about its state. -/
structure Row.Sane (row : Row) : Prop where
  awaiting : row.awaiting = true → Untouched row.state
  chain : row.awaiting = false → row.state.chainKeySend ≠ none
  sent : row.state.sendCount = UInt32.ofNat row.sent

/-- A session that a send may use: it can send, and its chain has numbers left. -/
structure Row.Ready (row : Row) : Prop where
  chain : row.awaiting = false
  sent : row.sent + 1 < 2 ^ 32

theorem Row.Ready.encryptable {row : Row} (h : row.Ready) (hs : row.Sane) :
    row.state.chainKeySend ≠ none ∧ row.state.sendCount.toNat + 1 < 2 ^ 32 := by
  refine ⟨hs.chain h.chain, ?_⟩
  rw [hs.sent, UInt32.toNat_ofNat_of_lt' (Nat.lt_of_succ_lt h.sent)]
  exact h.sent

theorem sane_initBob (h : History) (sharedSecret : Bytes32) (me : KeyPair) (now : Nat) :
    (Row.founded h (RatchetState.initBob sharedSecret me) now true).Sane :=
  ⟨fun _ => ⟨rfl, rfl, rfl⟩, nofun, rfl⟩

theorem sane_founded (h : History) {state : RatchetState} (hchain : state.chainKeySend ≠ none)
    (hcount : state.sendCount = 0) (now : Nat) : (Row.founded h state now false).Sane :=
  ⟨nofun, fun _ => hchain, hcount⟩

theorem ready_founded (h : History) (state : RatchetState) (now : Nat) :
    (Row.founded h state now false).Ready :=
  have hfirst : 0 + 1 < 2 ^ 32 := by decide
  ⟨rfl, hfirst⟩

variable {C : Crates} {row : Row} {state : RatchetState}

theorem Row.Sane.encrypt (hs : row.Sane) {plaintext ciphertext : Bytes} {header : RatchetHeader}
    (henc : row.state.encrypt C plaintext = some (state, header, ciphertext)) (h : History)
    (now : Nat) (e : Envelope) : (Row.advanced h row state now (some e)).Sane := by
  obtain ⟨hchain, -, hcount, hchain', -, -⟩ := encrypt_eq_some henc
  have hawait : row.awaiting = false := by
    cases ha : row.awaiting with
    | false => rfl
    | true => exact absurd (hs.awaiting ha).chainKeySend hchain
  refine ⟨fun ha => ?_, fun _ => hchain', ?_⟩
  · simp only [Row.advanced, hawait, Bool.false_and] at ha
    cases ha
  · show state.sendCount = UInt32.ofNat (row.sent + 1)
    rw [hcount, hs.sent, UInt32.ofNat_add]
    rfl

theorem Row.Sane.decrypt (hs : row.Sane) {generated : KeyPair} {header : RatchetHeader}
    {ciphertext plaintext : Bytes}
    (hdec : row.state.decrypt C generated header ciphertext = (.ok plaintext, state))
    (h : History) (now : Nat) : (Row.advanced h row state now none).Sane := by
  have hsend := decrypt_sending (C := C) generated row.state header ciphertext
  rw [hdec] at hsend
  have hchain : state.chainKeySend ≠ none := by
    cases hdraw : row.state.drawsKey C header with
    | true =>
      rw [hdraw] at hsend
      exact StartsChain.chainKeySend hsend
    | false =>
      rw [hdraw] at hsend
      have hsame : SameSending row.state state := hsend
      rw [hsame.chainKeySend]
      cases ha : row.awaiting with
      | false => exact hs.chain ha
      | true =>
        rw [(hs.awaiting ha).drawsKey hdec] at hdraw
        cases hdraw
  have hcount : state.sendCount = row.state.sendCount ∨ state.sendCount = 0 := by
    split at hsend
    · exact .inr hsend.sendCount
    · exact .inl hsend.sendCount
  refine ⟨fun ha => ?_, fun _ => hchain, ?_⟩
  · simp only [Row.advanced, Option.isSome_none, Bool.and_false] at ha
    cases ha
  · simp only [Row.advanced, Option.isSome_none]
    split
    · cases ‹false = true›
    · split
      · rename_i heq
        exact heq.trans hs.sent
      · rename_i hne
        exact hcount.resolve_left hne

def Phase.Sane (job : Job) : Phase → Prop
  | .load | .handshake _ => True
  | .saveNew state => state.chainKeySend ≠ none ∧ state.sendCount = 0
  | .ratchet row => row.Sane ∧ (job.isSend = true → row.Ready)
  | .save row state envelope => ∀ h now, (Row.advanced h row state now envelope).Sane

/-- A send does not load a session that began with an incoming handshake and has not been
received on, or one whose sending chain has one number left. -/
def Task.LoadsReady (w : Fleet) : Task → Prop
  | ⟨d, job, .load⟩ => job.isSend = true → ∀ row ∈ w.getRatchetSession d, row.Ready
  | ⟨_, _, .handshake _⟩ | ⟨_, _, .saveNew _⟩ | ⟨_, _, .ratchet _⟩ | ⟨_, _, .save _ _ _⟩ => True

instance (row : Row) : Decidable row.Ready :=
  decidable_of_iff (row.awaiting = false ∧ row.sent + 1 < 2 ^ 32)
    ⟨fun h => ⟨h.1, h.2⟩, fun h => ⟨h.chain, h.sent⟩⟩

instance (w : Fleet) : ∀ t : Task, Decidable (t.LoadsReady w)
  | ⟨d, job, .load⟩ =>
    inferInstanceAs (Decidable (job.isSend = true → ∀ row ∈ w.getRatchetSession d, row.Ready))
  | ⟨_, _, .handshake _⟩ | ⟨_, _, .saveNew _⟩ | ⟨_, _, .ratchet _⟩ | ⟨_, _, .save _ _ _⟩ =>
    isTrue trivial

namespace Fleet

/-- `encrypt` was only called with a sending chain and a number that is not the last. -/
def EncryptSafe (w : Fleet) : Prop :=
  ∀ st ∈ w.history.encrypts, st.chainKeySend ≠ none ∧ st.sendCount.toNat + 1 < 2 ^ 32

instance (w : Fleet) : Decidable w.EncryptSafe := by
  unfold EncryptSafe
  infer_instance

def LoadsReady (w : Fleet) : Label → Prop := w.OnTask fun _ t => t.LoadsReady w

instance (w : Fleet) (a : Label) : Decidable (w.LoadsReady a) := by
  unfold LoadsReady
  infer_instance

structure Sane (w : Fleet) : Prop where
  stored : ∀ row, some row ∈ w.stored → row.Sane
  transfers : ∀ row ∈ w.transfers, row.Sane
  merges : ∀ m ∈ w.merges, m.row.Sane
  bundles : ∀ row ∈ w.bundles, row.Sane
  tasks : ∀ t ∈ w.tasks, t.phase.Sane t.job
  safe : w.EncryptSafe

variable {w : Fleet} {me : KeyPair} {peer : Bytes32}

theorem Sane.getRatchetSession (hw : w.Sane) {d : Nat} {row : Row}
    (h : w.getRatchetSession d = some row) : row.Sane := by
  have hd : w.stored[d]? = some (some row) := Option.join_eq_some_iff.mp h
  exact hw.stored row (List.mem_of_getElem? hd)

theorem Sane.write (hw : w.Sane) {row : Row} (hrow : row.Sane) (d : Nat) :
    ∀ r, some r ∈ w.stored.set d (some row) → r.Sane := by
  intro r hr
  rcases List.mem_or_eq_of_mem_set hr with hr | heq
  · exact hw.stored r hr
  · cases heq
    exact hrow

theorem Sane.advance (hw : w.Sane) {i : Nat} {t : Task} (hi : w.tasks[i]? = some t)
    {next : Option Task} (hnext : ∀ x ∈ next, x.phase.Sane x.job) :
    ∀ u ∈ Tasks.advance w.tasks i next, u.phase.Sane u.job := by
  intro u hu
  rcases (Tasks.mem_advance hi).mp hu with hu | hu
  · exact hnext u hu
  · exact hw.tasks u (List.mem_of_mem_eraseIdx hu)

theorem Sane.runTask (hw : w.Sane) {i : Nat} {t : Task} (hi : w.tasks[i]? = some t) {o : Outcome}
    (hready : w.LoadsReady (.task i o)) :
    ((w.runTask C peer o t).1.advance i (w.runTask C peer o t).2).Sane := by
  have ht := hw.tasks t (List.mem_of_getElem? hi)
  have hload := hready t hi
  have hover : ∀ u ∈ Tasks.advance w.tasks i none, u.phase.Sane u.job :=
    hw.advance hi fun _ hx => nomatch hx
  have hnext : ∀ x : Task, x.phase.Sane x.job →
      ∀ u ∈ Tasks.advance w.tasks i (some x), u.phase.Sane u.job := by
    intro x hx
    apply hw.advance hi
    intro y hy
    obtain rfl := Option.mem_some_iff.mp hy
    exact hx
  obtain ⟨d, job, phase⟩ := t
  unfold Fleet.runTask
  cases phase with
  | load =>
    dsimp only
    split
    · exact ⟨hw.stored, hw.transfers, hw.merges, hw.bundles, hover, hw.safe⟩
    · rename_i row _ hrow
      refine ⟨hw.stored, hw.transfers, hw.merges, hw.bundles, hnext _ ⟨?_, ?_⟩, hw.safe⟩
      · exact hw.getRatchetSession hrow
      · exact fun hsend => hload hsend row hrow
    · exact ⟨hw.stored, hw.transfers, hw.merges, hw.bundles, hnext _ trivial, hw.safe⟩
    · exact ⟨hw.stored, hw.transfers, hw.merges, hw.bundles, hover, hw.safe⟩
  | handshake ephemeral =>
    dsimp only
    split
    · have hsane : (Phase.saveNew (RatchetState.initAlice C o.generated o.sharedSecret peer)).Sane
          job := ⟨nofun, rfl⟩
      exact ⟨hw.stored, hw.transfers, hw.merges, hw.bundles, hnext _ hsane, hw.safe⟩
    · exact ⟨hw.stored, hw.transfers, hw.merges, hw.bundles, hover, hw.safe⟩
  | saveNew state =>
    dsimp only
    split
    · have hrow := sane_founded w.history ht.1 ht.2 o.now
      have hsane : (Phase.ratchet (Row.founded w.history state o.now false)).Sane job :=
        ⟨hrow, fun _ => ready_founded w.history state o.now⟩
      exact ⟨hw.write hrow d, hw.transfers, hw.merges, hw.bundles, hnext _ hsane, hw.safe⟩
    · exact ⟨hw.stored, hw.transfers, hw.merges, hw.bundles, hover, hw.safe⟩
  | ratchet row =>
    cases job with
    | send plaintext =>
      -- the state `encrypt` is called on was ready when it was loaded
      have hsafe : ∀ st ∈ row.state :: w.history.encrypts,
          st.chainKeySend ≠ none ∧ st.sendCount.toNat + 1 < 2 ^ 32 :=
        List.forall_mem_cons.mpr ⟨(ht.2 rfl).encryptable ht.1, hw.safe⟩
      dsimp only
      split
      · exact ⟨hw.stored, hw.transfers, hw.merges, hw.bundles, hover, hsafe⟩
      · rename_i state header ciphertext henc
        have hsane : (Phase.save row state (some ⟨header, ciphertext⟩)).Sane (.send plaintext) :=
          fun h now => ht.1.encrypt henc h now _
        exact ⟨hw.stored, hw.transfers, hw.merges, hw.bundles, hnext _ hsane, hsafe⟩
    | receive envelope =>
      dsimp only
      split
      · split <;> exact ⟨hw.stored, hw.transfers, hw.merges, hw.bundles, hover, hw.safe⟩
      · rename_i state hdec
        have hsane : (Phase.save row state none).Sane (.receive envelope) :=
          fun h now => ht.1.decrypt hdec h now
        have hpool := hnext ⟨d, .receive envelope, .save row state none⟩ hsane
        split <;> exact ⟨hw.stored, hw.transfers, hw.merges, hw.bundles, hpool, hw.safe⟩
  | save row state envelope =>
    dsimp only
    split
    · exact ⟨hw.write (ht w.history o.now) d, hw.transfers, hw.merges, hw.bundles, hover, hw.safe⟩
    · exact ⟨hw.stored, hw.transfers, hw.merges, hw.bundles, hover, hw.safe⟩

theorem Sane.adopt (hw : w.Sane) {row : Row} (hrow : row.Sane) (d : Nat) : (w.adopt d row).Sane :=
  ⟨hw.write hrow d, hw.transfers, hw.merges, hw.bundles, hw.tasks, hw.safe⟩

theorem Sane.step (hw : w.Sane) {a : Label} {w' : Fleet} (hready : w.LoadsReady a)
    (hstep : w.step C me peer a = some w') : w'.Sane := by
  cases a with
  | send d plaintext | receive d envelope =>
    simp only [Fleet.step, Fleet.begin] at hstep
    split at hstep
    · cases hstep
      refine ⟨hw.stored, hw.transfers, hw.merges, hw.bundles, fun t ht => ?_, hw.safe⟩
      rcases List.mem_append.mp ht with ht | ht
      · exact hw.tasks t ht
      · obtain rfl := List.mem_singleton.mp ht
        trivial
    · cases hstep
  | handleHandshake d sharedSecret now =>
    simp only [Fleet.step] at hstep
    split at hstep
    · cases hstep
      have hrow := sane_initBob w.history sharedSecret me now
      exact ⟨hw.write hrow d, hw.transfers, hw.merges, hw.bundles, hw.tasks, hw.safe⟩
    · cases hstep
  | task i o =>
    obtain ⟨t, hi, rfl⟩ := Option.map_eq_some_iff.mp hstep
    exact hw.runTask hi hready
  | restart d =>
    cases hstep
    exact ⟨hw.stored, hw.transfers, fun m hm => hw.merges m (List.mem_filter.mp hm).1, hw.bundles,
      fun t ht => hw.tasks t (List.mem_filter.mp ht).1, hw.safe⟩
  | syncVector d =>
    obtain ⟨row, _, rfl⟩ := Option.map_eq_some_iff.mp hstep
    exact ⟨hw.stored, hw.transfers, hw.merges, hw.bundles, hw.tasks, hw.safe⟩
  | sendDeltas d k =>
    obtain ⟨summary, _, rfl⟩ := Option.map_eq_some_iff.mp hstep
    refine ⟨hw.stored, fun r hr => ?_, hw.merges, hw.bundles, hw.tasks, hw.safe⟩
    rcases List.mem_append.mp hr with hr | hr
    · exact hw.transfers r hr
    · have hd := Option.filter_eq_some_iff.mp (Option.mem_toList.mp hr)
      exact hw.getRatchetSession hd.1
  | mergeRatchetSession d k =>
    simp only [Fleet.step] at hstep
    split at hstep
    · obtain ⟨row, hk, rfl⟩ := Option.map_eq_some_iff.mp hstep
      have hrow := hw.transfers row (List.mem_of_getElem? hk)
      unfold Fleet.mergeRatchetSession
      split
      · refine ⟨hw.stored, hw.transfers, fun m hm => ?_, hw.bundles, hw.tasks, hw.safe⟩
        rcases List.mem_append.mp hm with hm | hm
        · exact hw.merges m hm
        · obtain rfl := List.mem_singleton.mp hm
          exact hrow
      · exact hw
    · cases hstep
  | insertMerged i ok =>
    obtain ⟨m, hi, rfl⟩ := Option.map_eq_some_iff.mp hstep
    have hdropped : Sane { w with merges := w.merges.eraseIdx i } :=
      ⟨hw.stored, hw.transfers, fun m hm => hw.merges m (List.mem_of_mem_eraseIdx hm), hw.bundles, hw.tasks, hw.safe⟩
    unfold Fleet.insertMerged
    dsimp only
    split
    · exact hdropped.adopt (hw.merges m (List.mem_of_getElem? hi)) m.device
    · exact hdropped
  | exportLinkBundle d =>
    cases hstep
    refine ⟨hw.stored, hw.transfers, hw.merges, fun r hr => ?_, hw.tasks, hw.safe⟩
    rcases List.mem_append.mp hr with hr | hr
    · exact hw.bundles r hr
    · exact hw.getRatchetSession (Option.mem_toList.mp hr)
  | importLinkBundle d k now =>
    simp only [Fleet.step] at hstep
    split at hstep
    · obtain ⟨row, hk, rfl⟩ := Option.map_eq_some_iff.mp hstep
      have hrow := hw.bundles row (List.mem_of_getElem? hk)
      have hstamped : Row.Sane { row with updatedAt := now } := ⟨hrow.awaiting, hrow.chain, hrow.sent⟩
      exact ⟨hw.write hstamped d, hw.transfers, hw.merges, hw.bundles, hw.tasks, hw.safe⟩
    · cases hstep

theorem sane_start (devices : Nat) (me : KeyPair) : (start devices me).Sane where
  stored := fun _ hr => absurd (List.eq_of_mem_replicate hr) nofun
  transfers := fun _ hr => nomatch hr
  merges := fun _ hm => nomatch hm
  bundles := fun _ hr => nomatch hr
  tasks := fun _ ht => nomatch ht
  safe := fun _ hst => nomatch hst

end Fleet

/-- Along every run of any number of linked devices in which no send loads a session that has
only been established by the peer, or a chain near its last number, `encrypt` does not panic. -/
theorem encrypt_never_panics {me : KeyPair} {peer : Bytes32} {devices : Nat} {run : List Label}
    {w : Fleet}
    (hready : Machine.Along (Fleet.step C me peer) Fleet.LoadsReady (Fleet.start devices me) run)
    (hrun : Machine.exec (Fleet.step C me peer) (Fleet.start devices me) run = some w) :
    w.EncryptSafe := by
  have hsane := Machine.exec_invariant ?_ (Fleet.sane_start devices me) hready hrun
  · exact hsane.safe
  · intro u a u' hu hok hs
    exact hu.step hok hs

section Runs

def peerOpening : Option Envelope := do
  let alice := RatchetState.initAlice additiveCrates (pairOf 3) (bytes32 [7]) (pairOf 1).pub
  let (_, header, ciphertext) ← alice.encrypt additiveCrates [6]
  some ⟨header, ciphertext⟩

abbrev answerRun : List Label :=
  .handleHandshake 0 (bytes32 [7]) 1 :: (peerOpening.toList.map (Label.receive 0) ++
    [.task 0 (outcome 2 8), .task 0 (outcome 2 4), .task 0 (outcome 3 8), .send 0 [2],
      .task 0 (outcome 4 8), .task 0 (outcome 4 8), .task 0 (outcome 4 8)])

theorem encrypt_never_panics_answer :
    ∃ w, Machine.exec sampleStep oneDevice answerRun = some w ∧ w.history.encrypts.length = 1 ∧
      w.EncryptSafe := by
  have hassumed : Machine.Along sampleStep Fleet.LoadsReady oneDevice answerRun ∧
      (Machine.exec sampleStep oneDevice answerRun).map (fun w => w.history.encrypts.length) =
        some 1 := by decide +kernel
  obtain ⟨hready, hlen⟩ := hassumed
  obtain ⟨w, hw, hlen⟩ := Option.map_eq_some_iff.mp hlen
  exact ⟨w, hw, hlen, encrypt_never_panics hready hw⟩

abbrev calleeFirst : List Label :=
  [.handleHandshake 0 (bytes32 [7]) 1, .send 0 [2], .task 0 (outcome 2 8), .task 0 (outcome 2 8)]

theorem not_encrypt_never_panics_callee_first :
    ∃ w ∈ Machine.exec sampleStep oneDevice calleeFirst, ¬ w.EncryptSafe := by
  decide +kernel

end Runs

end Proscenium.Dm
