import Proscenium.Dm.KeyReuse

/-! Several linked devices with copies of one session. Nothing tells a device
that its copy is behind, and the newest timestamp wins whatever it stands for,
so two devices can send with one key. They do not while each local step is
made on the newest state of its session, timestamps follow that order, no
newer state comes between the comparison and the write of a merge, and a
link bundle is imported only while it holds the newest state. -/

namespace Proscenium.Dm

open Crypto

namespace History

def Later (h : History) (row : Row) (now : Nat) : Prop :=
  ∀ r ∈ h.rows, r.session = row.session → r.updatedAt < now

instance (h : History) (row : Row) (now : Nat) : Decidable (h.Later row now) := by
  unfold Later
  infer_instance

/-- In one session, timestamps are in the order of the states. -/
structure Ordered (h : History) : Prop where
  session : ∀ r ∈ h.rows, r.session ≤ h.rows.length
  stamps : ∀ r ∈ h.rows, ∀ r' ∈ h.rows, r.session = r'.session → r.updatedAt ≤ r'.updatedAt →
    r.version ≤ r'.version

/-- No adopted row is behind the row it replaced in the same sending chain. -/
def NotRewound (h : History) : Prop :=
  ∀ p ∈ h.adoptions, p.1.state.dhSelfPublic = p.2.state.dhSelfPublic →
    p.1.state.sendCount ≤ p.2.state.sendCount

instance (h : History) : Decidable h.NotRewound := by
  unfold NotRewound
  infer_instance

variable {h : History} {row : Row}

theorem Ordered.cons (ho : h.Ordered) (hver : h.Current row) (hses : row.session ≤ h.rows.length + 1)
    (hlater : h.Later row row.updatedAt) (envelope : Option Envelope) :
    (h.push row envelope).Ordered where
  session := by
    refine List.forall_mem_cons.mpr ⟨hses, fun r hr => ?_⟩
    exact Nat.le_succ_of_le (ho.session r hr)
  stamps := by
    intro r hr r' hr' hsame hle
    rcases List.mem_cons.mp hr with rfl | hold <;> rcases List.mem_cons.mp hr' with rfl | hold'
    · exact Nat.le_refl _
    · exact absurd (hlater r' hold' hsame.symm) (Nat.not_lt.mpr hle)
    · exact hver r hold hsame
    · exact ho.stamps r hold r' hold' hsame hle

theorem current_of_version {me : KeyPair} (hs : h.Sound me)
    (hver : row.version = h.rows.length + 1) : h.Current row := by
  intro r hr _
  rw [hver]
  exact Nat.le_succ_of_le (hs.version r hr)

theorem Ordered.later_founded (ho : h.Ordered) {state : RatchetState} {awaiting : Bool} (now : Nat) :
    h.Later (Row.founded h state now awaiting) now := by
  intro r hr hsame
  exact absurd (hsame ▸ ho.session r hr) (Nat.not_le.mpr (Nat.lt_succ_self _))

theorem Sound.sendCount_le {me : KeyPair} (hs : h.Sound me) {old new : Row} (hold : old ∈ h.rows)
    (hnew : new ∈ h.rows) (hver : old.session = new.session → old.version ≤ new.version)
    (hkey : old.state.dhSelfPublic = new.state.dhSelfPublic) :
    old.state.sendCount ≤ new.state.sendCount := by
  by_cases hown : old.state.dhSelfPublic = me.pub
  · rw [(hs.unsent old hold hown).2, (hs.unsent new hnew (hkey.symm.trans hown)).2]
    exact UInt32.le_refl _
  · have hsame := hs.session old hold new hnew hkey hown
    exact hs.grows old hold new hnew hsame (hver hsame) hkey

end History

/-- The save of a task is made on the newest state of its session, and stamped after it. -/
def Task.InOrder (h : History) (o : Outcome) : Task → Prop
  | ⟨_, _, .save row _ _⟩ => o.ok = true → h.Current row ∧ h.Later row o.now
  | ⟨_, _, .load⟩ | ⟨_, _, .handshake _⟩ | ⟨_, _, .saveNew _⟩ | ⟨_, _, .ratchet _⟩ => True

instance (h : History) (o : Outcome) : ∀ t : Task, Decidable (t.InOrder h o)
  | ⟨_, _, .save row _ _⟩ =>
    inferInstanceAs (Decidable (o.ok = true → h.Current row ∧ h.Later row o.now))
  | ⟨_, _, .load⟩ | ⟨_, _, .handshake _⟩ | ⟨_, _, .saveNew _⟩ | ⟨_, _, .ratchet _⟩ => isTrue trivial

namespace Fleet

variable (w : Fleet)

/-- Local saves are in order, a merge does not write over a newer row of the session, and an imported
bundle holds the newest state of its session. -/
def InOrder : Label → Prop
  | .insertMerged i ok => ok = true → ∀ m ∈ w.merges[i]?, ∀ stored ∈ w.getRatchetSession m.device,
    stored.session = m.row.session → stored.updatedAt ≤ m.row.updatedAt
  | .importLinkBundle _ k now =>
    ∀ row ∈ w.bundles[k]?, w.history.Current row ∧ w.history.Later row now
  | a => w.OnTask (fun o t => t.InOrder w.history o) a

instance : ∀ a : Label, Decidable (w.InOrder a)
  | .insertMerged i ok => inferInstanceAs
      (Decidable (ok = true → ∀ m ∈ w.merges[i]?, ∀ stored ∈ w.getRatchetSession m.device,
        stored.session = m.row.session → stored.updatedAt ≤ m.row.updatedAt))
  | .importLinkBundle _ k now => inferInstanceAs
      (Decidable (∀ row ∈ w.bundles[k]?, w.history.Current row ∧ w.history.Later row now))
  | .task i o => inferInstanceAs
      (Decidable (w.OnTask (fun o t => t.InOrder w.history o) (.task i o)))
  | .send _ _ | .receive _ _ | .handleHandshake _ _ _ | .restart _ | .syncVector _
  | .sendDeltas _ _ | .mergeRatchetSession _ _ | .exportLinkBundle _ => isTrue trivial

structure Synced (me : KeyPair) (w : Fleet) : Prop extends w.Sound me where
  ordered : w.history.Ordered
  notRewound : w.history.NotRewound

variable {w} {C : Crates} {me : KeyPair} {peer : Bytes32}

theorem InOrder.serial {a : Label} (h : w.InOrder a) : w.Serial a := by
  cases a with
  | task i o =>
    rintro ⟨d, job, phase⟩ hi
    have ht := h _ hi
    cases phase with
    | save row state envelope => exact fun hok => (ht hok).1
    | _ => trivial
  | _ => trivial

theorem Synced.runTask (hw : w.Synced me) {i : Nat} {t : Task} (hi : w.tasks[i]? = some t)
    {o : Outcome} (hord : w.InOrder (.task i o)) :
    (w.runTask C peer o t).1.history.Ordered ∧ (w.runTask C peer o t).1.history.NotRewound := by
  have hs := hw.history
  have ho := hw.ordered
  rcases runTask_cases C peer w o t with hq | ⟨state, -, -, heq⟩ | hsave
  · refine ⟨⟨by rw [hq.rows]; exact ho.session, by rw [hq.rows]; exact ho.stamps⟩, ?_⟩
    unfold History.NotRewound
    rw [hq.adoptions]
    exact hw.notRewound
  · rw [heq]
    have hcur : w.history.Current (Row.founded w.history state o.now false) :=
      History.current_of_version hs rfl
    exact ⟨ho.cons hcur (Nat.le_refl _) (ho.later_founded o.now) none, hw.notRewound⟩
  · obtain ⟨row, state, envelope, hphase, hok, heq⟩ := hsave
    obtain ⟨d, job, phase⟩ := t
    cases hphase
    have hrow : row ∈ w.history.rows := by
      have hfits := hw.tasks _ (List.mem_of_getElem? hi)
      cases envelope <;> exact hfits.1
    have hlater := (hord _ hi hok).2
    rw [heq]
    refine ⟨ho.cons (History.current_of_version hs rfl) ?_ hlater envelope, hw.notRewound⟩
    exact Nat.le_succ_of_le (ho.session row hrow)

theorem Synced.adopt (hw : w.Synced me) {row : Row} (hrow : row ∈ w.history.rows) {d : Nat}
    (hver : ∀ old, w.getRatchetSession d = some old → old.session = row.session →
      old.version ≤ row.version) : (w.adopt d row).Synced me := by
  refine ⟨hw.toSound.adopt hrow d, ⟨hw.ordered.session, hw.ordered.stamps⟩, fun p hp hkey => ?_⟩
  rcases List.mem_append.mp hp with hp | hp
  · obtain ⟨old, hold, rfl⟩ := Option.map_eq_some_iff.mp (Option.mem_toList.mp hp)
    exact hw.history.sendCount_le (hw.backed.getRatchetSession hold) hrow (hver old hold) hkey
  · exact hw.notRewound p hp hkey

theorem Synced.insertMerged (hw : w.Synced me) {i : Nat} {m : Merge} (hi : w.merges[i]? = some m) {ok : Bool}
    (hord : w.InOrder (.insertMerged i ok)) : (w.insertMerged i ok m).Synced me := by
  have hrow := hw.backed.merges m (List.mem_of_getElem? hi)
  have hdropped : Synced me { w with merges := w.merges.eraseIdx i } :=
    ⟨hw.toSound.dropMerge i, hw.ordered, hw.notRewound⟩
  unfold Fleet.insertMerged
  dsimp only
  split
  · rename_i hok
    refine hdropped.adopt hrow fun old hold hsame => ?_
    have hnewer := hord hok m hi old hold hsame
    exact hw.ordered.stamps old (hw.backed.getRatchetSession hold) m.row hrow hsame hnewer
  · exact hdropped

theorem Synced.importLinkBundle (hw : w.Synced me) {row : Row} (hrow : row ∈ w.history.rows)
    {d now : Nat} (hcur : w.history.Current row) (hlater : w.history.Later row now) :
    (w.importLinkBundle d row now).Synced me := by
  have hses : row.session ≤ w.history.rows.length + 1 := Nat.le_succ_of_le (hw.ordered.session row hrow)
  have hord : (w.history.push { row with updatedAt := now } none).Ordered := by
    apply hw.ordered.cons
    · exact hcur
    · exact hses
    · exact hlater
  refine ⟨hw.toSound.importLinkBundle hrow d now, ⟨hord.session, hord.stamps⟩, fun p hp hkey => ?_⟩
  rcases List.mem_append.mp hp with hp | hp
  · obtain ⟨old, hold, rfl⟩ := Option.map_eq_some_iff.mp (Option.mem_toList.mp hp)
    have hmem := hw.backed.getRatchetSession hold
    have hle : old.state.sendCount ≤ row.state.sendCount :=
      hw.history.sendCount_le hmem hrow (hcur old hmem) hkey
    exact hle
  · exact hw.notRewound p hp hkey

theorem Synced.step (hw : w.Synced me) {a : Label} {w' : Fleet} (hfresh : w.FreshKeys C a)
    (hord : w.InOrder a) (hwrap : w.NoWrap a) (hstep : w.step C me peer a = some w') :
    w'.Synced me := by
  have hsound := hw.toSound.step hfresh hord.serial hwrap hstep
  cases a with
  | send d plaintext | receive d envelope =>
    simp only [Fleet.step, Fleet.begin] at hstep
    split at hstep
    · cases hstep
      exact ⟨hsound, hw.ordered, hw.notRewound⟩
    · cases hstep
  | handleHandshake d sharedSecret now =>
    simp only [Fleet.step] at hstep
    split at hstep
    · cases hstep
      have hcur : w.history.Current
          (Row.founded w.history (RatchetState.initBob sharedSecret me) now true) :=
        History.current_of_version hw.history rfl
      exact ⟨hsound, hw.ordered.cons hcur (Nat.le_refl _) (hw.ordered.later_founded now) none,
        hw.notRewound⟩
    · cases hstep
  | task i o =>
    obtain ⟨t, hi, rfl⟩ := Option.map_eq_some_iff.mp hstep
    obtain ⟨hordered, hnot⟩ : (w.runTask C peer o t).1.history.Ordered ∧
        (w.runTask C peer o t).1.history.NotRewound := hw.runTask hi hord
    exact ⟨hsound, hordered, hnot⟩
  | restart d =>
    cases hstep
    exact ⟨hsound, hw.ordered, hw.notRewound⟩
  | syncVector d =>
    obtain ⟨row, _, rfl⟩ := Option.map_eq_some_iff.mp hstep
    exact ⟨hsound, hw.ordered, hw.notRewound⟩
  | sendDeltas d k =>
    obtain ⟨summary, _, rfl⟩ := Option.map_eq_some_iff.mp hstep
    exact ⟨hsound, hw.ordered, hw.notRewound⟩
  | mergeRatchetSession d k =>
    simp only [Fleet.step] at hstep
    split at hstep
    · obtain ⟨row, hk, rfl⟩ := Option.map_eq_some_iff.mp hstep
      have hsame : (w.mergeRatchetSession d row).history = w.history := by
        unfold Fleet.mergeRatchetSession
        split <;> rfl
      refine ⟨hsound, ?_, ?_⟩
      · rw [hsame]
        exact hw.ordered
      · rw [hsame]
        exact hw.notRewound
    · cases hstep
  | insertMerged i ok =>
    obtain ⟨m, hi, rfl⟩ := Option.map_eq_some_iff.mp hstep
    exact hw.insertMerged hi hord
  | exportLinkBundle d =>
    cases hstep
    exact ⟨hsound, hw.ordered, hw.notRewound⟩
  | importLinkBundle d k now =>
    simp only [Fleet.step] at hstep
    split at hstep
    · obtain ⟨row, hk, rfl⟩ := Option.map_eq_some_iff.mp hstep
      obtain ⟨hcur, hlater⟩ := hord row hk
      exact hw.importLinkBundle (hw.backed.bundles row (List.mem_of_getElem? hk)) hcur hlater
    · cases hstep

end Fleet

/-- For any number of linked devices, along every interleaving of their sends and receives with
device syncs and link bundles in which saves, merges and imports are in order. -/
theorem linked_devices_no_key_reuse {C : Crates} {me : KeyPair} {peer : Bytes32} {devices : Nat}
    {run : List Label} {w : Fleet}
    (hfresh : Machine.Along (Fleet.step C me peer) (Fleet.FreshKeys C) (Fleet.start devices me) run)
    (hinOrder : Machine.Along (Fleet.step C me peer) Fleet.InOrder (Fleet.start devices me) run)
    (hnoWrap : Machine.Along (Fleet.step C me peer) Fleet.NoWrap (Fleet.start devices me) run)
    (hrun : Machine.exec (Fleet.step C me peer) (Fleet.start devices me) run = some w) :
    w.history.emitted.Pairwise (fun e e' => e.number ≠ e'.number) ∧ w.history.NotRewound := by
  have hstart : (Fleet.start devices me).Synced me :=
    ⟨Fleet.sound_start devices me, ⟨fun _ hr => (nomatch hr), fun _ hr => (nomatch hr)⟩,
      fun _ hp => (nomatch hp)⟩
  have hall := (hfresh.and hinOrder).and hnoWrap
  have hinv := Machine.exec_invariant ?_ hstart hall hrun
  · exact ⟨hinv.history.distinct, hinv.notRewound⟩
  · rintro u a u' hu ⟨⟨hfr, hord⟩, hwr⟩ hs
    exact hu.step hfr hord hwr hs

section Runs

/-- A send of device `d` from its load to its save, alone in the pool. -/
def sendAlone (d : Nat) (plaintext : Bytes) (now : Nat) : List Label :=
  [.send d plaintext, .task 0 (outcome now 8), .task 0 (outcome now 8), .task 0 (outcome now 8)]

/-- Device `d` reports its vector, and takes over what device `d'` has newer. -/
def syncFrom (d' d : Nat) (k : Nat) : List Label :=
  [.syncVector d, .sendDeltas d' k, .mergeRatchetSession d k, .insertMerged 0 true]

/-- Three devices take turns; the third is linked on the way. -/
abbrev turnsOfDevices : List Label :=
  firstSend ++ (syncFrom 0 1 0 ++ (sendAlone 1 [2] 10 ++ (syncFrom 1 0 1 ++
    (sendAlone 0 [3] 11 ++ [.exportLinkBundle 0, .importLinkBundle 2 0 12] ++ sendAlone 2 [4] 13))))

theorem linked_devices_no_key_reuse_turns :
    ∃ w, Machine.exec sampleStep (Fleet.start 3 (pairOf 1)) turnsOfDevices = some w ∧
      w.history.emitted.length = 4 ∧
      w.history.emitted.Pairwise (fun e e' => e.number ≠ e'.number) ∧ w.history.NotRewound := by
  have hassumed : Machine.Along sampleStep (Fleet.FreshKeys additiveCrates)
        (Fleet.start 3 (pairOf 1)) turnsOfDevices ∧
      Machine.Along sampleStep Fleet.InOrder (Fleet.start 3 (pairOf 1)) turnsOfDevices ∧
      Machine.Along sampleStep Fleet.NoWrap (Fleet.start 3 (pairOf 1)) turnsOfDevices ∧
      (Machine.exec sampleStep (Fleet.start 3 (pairOf 1)) turnsOfDevices).map
        (fun w => w.history.emitted.length) = some 4 := by decide +kernel
  obtain ⟨hfresh, hord, hwrap, hlen⟩ := hassumed
  obtain ⟨w, hw, hlen⟩ := Option.map_eq_some_iff.mp hlen
  exact ⟨w, hw, hlen, linked_devices_no_key_reuse hfresh hord hwrap hw⟩

/-- Device 0 sends twice and device 1 once on the same copy, and the later timestamp wins. -/
abbrev apartRun : List Label :=
  firstSend ++ (syncFrom 0 1 0 ++ (sendAlone 0 [2] 10 ++ (sendAlone 0 [3] 11 ++
    (sendAlone 1 [4] 12 ++ syncFrom 1 0 1))))

theorem not_linked_devices_no_key_reuse_apart :
    Machine.Along sampleStep (Fleet.FreshKeys additiveCrates) (Fleet.start 2 (pairOf 1)) apartRun ∧
    Machine.Along sampleStep Fleet.NoWrap (Fleet.start 2 (pairOf 1)) apartRun ∧
    ∃ w ∈ Machine.exec sampleStep (Fleet.start 2 (pairOf 1)) apartRun,
      (¬ w.history.emitted.Pairwise fun e e' => e.number ≠ e'.number) ∧
      ¬ w.history.NotRewound := by
  decide +kernel

end Runs

end Proscenium.Dm
