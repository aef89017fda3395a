import Proscenium.Crypto.RatchetWrap
import Proscenium.Dm.FleetHistory

/-! Sends and receives on one device. Nothing stops two tasks from loading the
same state, and then both use its next message key and the later save undoes
the earlier. While no save falls between the load and the save of another
task, every key is used once and every save builds on the one before it. -/

namespace Proscenium.Dm

open Crypto

/-- What a device does with its peer alone, without its linked devices. -/
def Label.isLocal : Label → Bool
  | .send _ _ | .receive _ _ | .handleHandshake _ _ _ | .task _ _ | .restart _ => true
  | .syncVector _ | .sendDeltas _ _ | .mergeRatchetSession _ _ | .insertMerged _ _ | .exportLinkBundle _
  | .importLinkBundle _ _ _ => false

section Steps

variable (C : Crates) (me : KeyPair)

def Advances (st st' : RatchetState) : Prop :=
  (∃ plaintext out, st.encrypt C plaintext = some (st', out)) ∨
    ∃ generated header ciphertext plaintext,
      st.decrypt C generated header ciphertext = (.ok plaintext, st')

/-- A row that replaces `older`: it advances its state, or the peer began a new session. -/
def Row.Follows (newer older : Row) : Prop :=
  Advances C older.state newer.state ∨ ∃ sharedSecret, newer.state = RatchetState.initBob sharedSecret me

def Phase.Advances : Phase → Prop
  | .save row state _ => Dm.Advances C row.state state
  | .load | .handshake _ | .saveNew _ | .ratchet _ => True

end Steps

/-- The task saves only if nothing was saved since it loaded. -/
def Task.Exclusive (h : History) (o : Outcome) : Task → Prop
  | ⟨_, _, .saveNew _⟩ => o.ok = true → h.rows = []
  | ⟨_, _, .save row _ _⟩ => o.ok = true → h.rows.head? = some row
  | ⟨_, _, .load⟩ | ⟨_, _, .handshake _⟩ | ⟨_, _, .ratchet _⟩ => True

instance (h : History) (o : Outcome) : ∀ t : Task, Decidable (t.Exclusive h o)
  | ⟨_, _, .saveNew _⟩ => inferInstanceAs (Decidable (o.ok = true → h.rows = []))
  | ⟨_, _, .save row _ _⟩ => inferInstanceAs (Decidable (o.ok = true → h.rows.head? = some row))
  | ⟨_, _, .load⟩ | ⟨_, _, .handshake _⟩ | ⟨_, _, .ratchet _⟩ => isTrue trivial

namespace Fleet

variable (w : Fleet)

def Exclusive : Label → Prop := w.OnTask fun o t => t.Exclusive w.history o

instance (a : Label) : Decidable (w.Exclusive a) := by
  unfold Exclusive
  infer_instance

/-- No completed send or receive was undone: the device stores what was saved last, and each
save follows the one before it. -/
structure NothingUndone (C : Crates) (me : KeyPair) : Prop where
  stored : w.stored = [w.history.rows.head?]
  follows : w.history.rows.IsChain (Row.Follows C me)

structure Linear (C : Crates) (me : KeyPair) : Prop extends w.NothingUndone C me where
  version : ∀ r ∈ w.history.rows.head?, r.version = w.history.rows.length
  tasks : ∀ t ∈ w.tasks, t.device = 0 ∧ t.phase.Advances C

variable {w} {C : Crates} {me : KeyPair} {peer : Bytes32}

theorem Exclusive.serial {a : Label} (h : w.Exclusive a) (hl : w.Linear C me)
    (hs : w.history.Sound me) : w.Serial a := by
  cases a with
  | task i o =>
    rintro ⟨d, job, phase⟩ hi
    have ht := h _ hi
    cases phase with
    | save row state envelope =>
      intro hok r hr _
      rw [hl.version row (ht hok)]
      exact hs.version r hr
    | _ => trivial
  | _ => trivial

theorem Linear.advance (hl : w.Linear C me) {i : Nat} {t : Task} (hi : w.tasks[i]? = some t)
    {next : Option Task} (hnext : ∀ x ∈ next, x.device = t.device ∧ x.phase.Advances C) :
    ∀ u ∈ Tasks.advance w.tasks i next, u.device = 0 ∧ u.phase.Advances C := by
  intro u hu
  rcases (Tasks.mem_advance hi).mp hu with hu | hu
  · have ht := hl.tasks t (List.mem_of_getElem? hi)
    exact ⟨(hnext u hu).1.trans ht.1, (hnext u hu).2⟩
  · exact hl.tasks u (List.mem_of_mem_eraseIdx hu)

theorem Linear.quiet (hl : w.Linear C me) {w' : Fleet} (hstored : w'.stored = w.stored)
    (hrows : w'.history.rows = w.history.rows)
    (htasks : ∀ t ∈ w'.tasks, t.device = 0 ∧ t.phase.Advances C) : w'.Linear C me where
  stored := by rw [hstored, hrows, hl.stored]
  follows := hrows ▸ hl.follows
  version := by
    rw [hrows]
    exact hl.version
  tasks := htasks

theorem Linear.save (hl : w.Linear C me) {row : Row} {w' : Fleet}
    (hstored : w'.stored = w.stored.set 0 (some row))
    (hrows : w'.history.rows = row :: w.history.rows)
    (hversion : row.version = w.history.rows.length + 1)
    (hfollows : ∀ r ∈ w.history.rows.head?, row.Follows C me r)
    (htasks : ∀ t ∈ w'.tasks, t.device = 0 ∧ t.phase.Advances C) : w'.Linear C me where
  stored := by rw [hstored, hrows, hl.stored, List.set_cons_zero, List.head?_cons]
  follows := by
    rw [hrows]
    exact List.isChain_cons.mpr ⟨hfollows, hl.follows⟩
  version := by
    rw [hrows]
    intro r hr
    obtain rfl := Option.mem_some_iff.mp hr
    exact hversion
  tasks := htasks

theorem Linear.runTask (hl : w.Linear C me) {i : Nat} {t : Task} (hi : w.tasks[i]? = some t)
    {o : Outcome} (hexcl : w.Exclusive (.task i o)) :
    ((w.runTask C peer o t).1.advance i (w.runTask C peer o t).2).Linear C me := by
  have ht := hl.tasks t (List.mem_of_getElem? hi)
  have hsave := hexcl t hi
  have hquiet : ∀ next : Option Task,
      (∀ x ∈ next, x.device = t.device ∧ x.phase.Advances C) →
      ∀ u ∈ Tasks.advance w.tasks i next, u.device = 0 ∧ u.phase.Advances C :=
    fun next hnext => hl.advance hi hnext
  have hover := hquiet none fun _ hx => nomatch hx
  have hnext : ∀ x : Task, x.device = t.device → x.phase.Advances C →
      ∀ u ∈ Tasks.advance w.tasks i (some x), u.device = 0 ∧ u.phase.Advances C := by
    intro x hdev hphase
    apply hquiet
    intro y hy
    obtain rfl := Option.mem_some_iff.mp hy
    exact ⟨hdev, hphase⟩
  obtain ⟨d, job, phase⟩ := t
  obtain rfl : d = 0 := ht.1
  unfold Fleet.runTask
  cases phase with
  | load =>
    dsimp only
    split
    · exact hl.quiet rfl rfl hover
    · exact hl.quiet rfl rfl (hnext _ rfl trivial)
    · exact hl.quiet rfl rfl (hnext _ rfl trivial)
    · exact hl.quiet rfl rfl hover
  | handshake ephemeral =>
    dsimp only
    split
    · exact hl.quiet rfl rfl (hnext _ rfl trivial)
    · exact hl.quiet rfl rfl hover
  | saveNew state =>
    dsimp only
    split
    · rename_i hok
      refine hl.save rfl rfl rfl ?_ (hnext _ rfl trivial)
      rw [hsave hok]
      exact fun _ hr => nomatch hr
    · exact hl.quiet rfl rfl hover
  | ratchet row =>
    cases job with
    | send plaintext =>
      dsimp only
      split
      · exact hl.quiet rfl rfl hover
      · rename_i state header ciphertext henc
        exact hl.quiet rfl rfl (hnext _ rfl (.inl ⟨plaintext, _, henc⟩))
    | receive envelope =>
      dsimp only
      split
      · split <;> exact hl.quiet rfl rfl hover
      · rename_i state hdec
        have hstep := hnext ⟨0, .receive envelope, .save row state none⟩ rfl
          (.inr ⟨_, _, _, _, hdec⟩)
        split <;> exact hl.quiet rfl rfl hstep
  | save row state envelope =>
    dsimp only
    split
    · rename_i hok
      refine hl.save rfl rfl rfl ?_ hover
      intro r hr
      obtain rfl : row = r := Option.some.inj ((hsave hok).symm.trans hr)
      exact .inl ht.2
    · exact hl.quiet rfl rfl hover

theorem Linear.begin (hl : w.Linear C me) {d : Nat} {job : Job} {w' : Fleet}
    (h : w.begin d job = some w') : w'.Linear C me := by
  unfold Fleet.begin at h
  split at h
  · rename_i hd
    cases h
    refine hl.quiet rfl rfl fun t ht => ?_
    rcases List.mem_append.mp ht with ht | ht
    · exact hl.tasks t ht
    · obtain rfl := List.mem_singleton.mp ht
      rw [hl.stored] at hd
      exact ⟨Nat.lt_one_iff.mp hd, trivial⟩
  · cases h

theorem Linear.step (hl : w.Linear C me) {a : Label} {w' : Fleet} (hlocal : a.isLocal = true)
    (hexcl : w.Exclusive a) (hstep : w.step C me peer a = some w') : w'.Linear C me := by
  cases a with
  | send d plaintext => exact hl.begin hstep
  | receive d envelope => exact hl.begin hstep
  | handleHandshake d sharedSecret now =>
    simp only [Fleet.step] at hstep
    split at hstep
    · rename_i hd
      cases hstep
      rw [hl.stored] at hd
      obtain rfl : d = 0 := Nat.lt_one_iff.mp hd
      exact hl.save rfl rfl rfl (fun _ _ => .inr ⟨sharedSecret, rfl⟩) hl.tasks
    · cases hstep
  | task i o =>
    obtain ⟨t, hi, rfl⟩ := Option.map_eq_some_iff.mp hstep
    exact hl.runTask hi hexcl
  | restart d =>
    cases hstep
    exact hl.quiet rfl rfl fun t ht => hl.tasks t (List.mem_filter.mp ht).1
  | syncVector _ | sendDeltas _ _ | mergeRatchetSession _ _ | insertMerged _ _ | exportLinkBundle _
  | importLinkBundle _ _ _ => cases hlocal

end Fleet

/-- On one device, along every interleaving of sends, receives and incoming handshakes of one
peer in which a task saves only if nothing was saved since it loaded. -/
theorem no_message_key_reuse {C : Crates} {me : KeyPair} {peer : Bytes32} {run : List Label}
    {w : Fleet} (hlocal : ∀ a ∈ run, a.isLocal = true)
    (hfresh : Machine.Along (Fleet.step C me peer) (Fleet.FreshKeys C) (Fleet.start 1 me) run)
    (hexclusive : Machine.Along (Fleet.step C me peer) Fleet.Exclusive (Fleet.start 1 me) run)
    (hnoWrap : Machine.Along (Fleet.step C me peer) Fleet.NoWrap (Fleet.start 1 me) run)
    (hrun : Machine.exec (Fleet.step C me peer) (Fleet.start 1 me) run = some w) :
    w.history.emitted.Pairwise (fun e e' => e.number ≠ e'.number) ∧ w.NothingUndone C me := by
  have hlinear : (Fleet.start 1 me).Linear C me :=
    ⟨⟨rfl, List.IsChain.nil⟩, fun _ hr => (nomatch hr), fun _ ht => (nomatch ht)⟩
  have hstart : (fun u : Fleet => u.Sound me ∧ u.Linear C me) (Fleet.start 1 me) :=
    ⟨Fleet.sound_start 1 me, hlinear⟩
  have hlocal' : Machine.Along (Fleet.step C me peer) (fun _ a => a.isLocal = true)
      (Fleet.start 1 me) run := Machine.Along.of_forall hlocal
  have hall := ((hfresh.and hexclusive).and hnoWrap).and hlocal'
  have hstep : ∀ (u : Fleet) (a : Label) (u' : Fleet), u.Sound me ∧ u.Linear C me →
      ((u.FreshKeys C a ∧ u.Exclusive a) ∧ u.NoWrap a) ∧ a.isLocal = true →
      u.step C me peer a = some u' → u'.Sound me ∧ u'.Linear C me := by
    rintro u a u' ⟨hu, hl⟩ ⟨⟨⟨hfr, hex⟩, hwr⟩, hloc⟩ hs
    exact ⟨hu.step hfr (hex.serial hl hu.history) hwr hs, hl.step hloc hex hs⟩
  obtain ⟨hs, hl⟩ := Machine.exec_invariant hstep hstart hall hrun
  exact ⟨hs.history.distinct, hl.toNothingUndone⟩

section Runs

/-- What a task is handed when nothing fails: the time and a random pair. -/
def outcome (now : Nat) (n : UInt8) : Outcome := ⟨true, now, pairOf n, bytes32 [7]⟩

abbrev sampleStep := Fleet.step additiveCrates (pairOf 1) (pairOf 2).pub

abbrev oneDevice : Fleet := Fleet.start 1 (pairOf 1)

/-- The first message of device 0, on a session established under the pair 3. -/
abbrev firstSend : List Label :=
  [.send 0 [1], .task 0 (outcome 1 8), .task 0 (outcome 1 3), .task 0 (outcome 2 8),
    .task 0 (outcome 2 8), .task 0 (outcome 3 8)]

/-- What the peer answers to the first message. -/
def peerReply : Option Envelope := do
  let alice := RatchetState.initAlice additiveCrates (pairOf 3) (bytes32 [7]) (pairOf 2).pub
  let bob := RatchetState.initBob (bytes32 [7]) (pairOf 2)
  let (_, header, ciphertext) ← alice.encrypt additiveCrates [1]
  let read := (bob.decrypt additiveCrates (pairOf 4) header ciphertext).2
  let (_, header, ciphertext) ← read.encrypt additiveCrates [5]
  some ⟨header, ciphertext⟩

abbrev turnsRun : List Label :=
  firstSend ++ (peerReply.toList.map (Label.receive 0) ++
    [.send 0 [2], .task 0 (outcome 4 8), .task 0 (outcome 4 5), .task 0 (outcome 5 8),
      .task 0 (outcome 6 8), .task 0 (outcome 6 8), .task 0 (outcome 6 8)])

theorem no_message_key_reuse_turns :
    ∃ w, Machine.exec sampleStep oneDevice turnsRun = some w ∧ w.history.emitted.length = 2 ∧
      w.history.emitted.Pairwise (fun e e' => e.number ≠ e'.number) ∧
      w.NothingUndone additiveCrates (pairOf 1) := by
  have hassumed : (∀ a ∈ turnsRun, a.isLocal = true) ∧
      Machine.Along sampleStep (Fleet.FreshKeys additiveCrates) oneDevice turnsRun ∧
      Machine.Along sampleStep Fleet.Exclusive oneDevice turnsRun ∧
      Machine.Along sampleStep Fleet.NoWrap oneDevice turnsRun ∧
      (Machine.exec sampleStep oneDevice turnsRun).map (fun w => w.history.emitted.length) =
        some 2 := by decide +kernel
  obtain ⟨hlocal, hfresh, hexcl, hwrap, hlen⟩ := hassumed
  obtain ⟨w, hw, hlen⟩ := Option.map_eq_some_iff.mp hlen
  exact ⟨w, hw, hlen, no_message_key_reuse hlocal hfresh hexcl hwrap hw⟩

abbrev racingRun : List Label :=
  firstSend ++ [.send 0 [2], .send 0 [3], .task 0 (outcome 4 8), .task 1 (outcome 4 8),
    .task 0 (outcome 4 8), .task 1 (outcome 4 8), .task 0 (outcome 5 8), .task 0 (outcome 5 8)]

theorem not_no_message_key_reuse_racing : (∀ a ∈ racingRun, a.isLocal = true) ∧
    Machine.Along sampleStep (Fleet.FreshKeys additiveCrates) oneDevice racingRun ∧
    Machine.Along sampleStep Fleet.NoWrap oneDevice racingRun ∧
    ∃ w ∈ Machine.exec sampleStep oneDevice racingRun,
      ¬ w.history.emitted.Pairwise fun e e' => e.number ≠ e'.number := by
  decide +kernel

end Runs

end Proscenium.Dm
