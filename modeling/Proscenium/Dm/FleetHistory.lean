import Proscenium.Dm.SessionHistory

/-! The history of a fleet, step by step: which rows are about, what each task
is about to write, and that no two tasks are about to start a chain under the
same key. -/

namespace Proscenium.Dm

open Crypto

namespace Phase

/-- The key of a chain that the task has started and not yet written. -/
def pending : Phase → Option Bytes32
  | .saveNew state => some state.dhSelfPublic
  | .save row state _ =>
    if state.dhSelfPublic = row.state.dhSelfPublic then none else some state.dhSelfPublic
  | .load | .handshake _ | .ratchet _ => none

/-- The state after an encryption that did not wrap the counter, and its envelope. -/
structure Encrypted (row : Row) (state : RatchetState) (e : Envelope) : Prop where
  chainKeySend : row.state.chainKeySend ≠ none
  dhSelfPublic : state.dhSelfPublic = row.state.dhSelfPublic
  sendCount : state.sendCount = row.state.sendCount + 1
  noWrap : row.state.sendCount.toNat + 1 < 2 ^ 32
  dhPublic : e.header.dhPublic = row.state.dhSelfPublic
  messageNumber : e.header.messageNumber = row.state.sendCount

def Fits (me : KeyPair) (h : History) : Phase → Prop
  | .load | .handshake _ => True
  | .saveNew state => StartsChain state.dhSelfPublic state ∧ h.Unused me state.dhSelfPublic
  | .ratchet row => row ∈ h.rows
  | .save row state (some e) => row ∈ h.rows ∧ Encrypted row state e
  | .save row state none => row ∈ h.rows ∧ (SameSending row.state state ∨
      StartsChain state.dhSelfPublic state ∧ h.Unused me state.dhSelfPublic)

end Phase

/-- Neither task is about to start a chain under the other's key. -/
def Task.Apart (t t' : Task) : Prop :=
  ∀ pub ∈ t.phase.pending, pub ∉ t'.phase.pending

theorem Task.Apart.symm {t t' : Task} (h : t.Apart t') : t'.Apart t :=
  fun pub hpub hpub' => h pub hpub' hpub

/-- Every row that is stored or on its way was written by a device. -/
structure Fleet.Backed (w : Fleet) : Prop where
  stored : ∀ row, some row ∈ w.stored → row ∈ w.history.rows
  transfers : ∀ r ∈ w.transfers, r ∈ w.history.rows
  merges : ∀ m ∈ w.merges, m.row ∈ w.history.rows
  bundles : ∀ r ∈ w.bundles, r ∈ w.history.rows

structure Fleet.Sound (me : KeyPair) (w : Fleet) : Prop where
  history : w.history.Sound me
  backed : w.Backed
  tasks : ∀ t ∈ w.tasks, t.phase.Fits me w.history
  apart : w.tasks.Pairwise Task.Apart

namespace Phase

variable {me : KeyPair} {h : History} {phase : Phase}

theorem Fits.mono {h' : History} (hf : phase.Fits me h) (hrows : ∀ r ∈ h.rows, r ∈ h'.rows)
    (hunused : ∀ pub ∈ phase.pending, h.Unused me pub → h'.Unused me pub) : phase.Fits me h' := by
  cases phase with
  | load => trivial
  | handshake => trivial
  | saveNew state => exact ⟨hf.1, hunused _ rfl hf.2⟩
  | ratchet row => exact hrows row hf
  | save row state envelope =>
    cases envelope with
    | some e => exact ⟨hrows row hf.1, hf.2⟩
    | none =>
      refine ⟨hrows row hf.1, hf.2.imp id fun hstart => ⟨hstart.1, ?_⟩⟩
      have hne : state.dhSelfPublic ≠ row.state.dhSelfPublic := (hstart.2.rows row hf.1).symm
      exact hunused _ (if_neg hne) hstart.2

theorem Fits.unused (hf : phase.Fits me h) {pub : Bytes32} (hpub : pub ∈ phase.pending) :
    h.Unused me pub := by
  cases phase with
  | load => cases hpub
  | handshake => cases hpub
  | ratchet => cases hpub
  | saveNew state =>
    cases hpub
    exact hf.2
  | save row state envelope =>
    simp only [pending] at hpub
    split at hpub
    · cases hpub
    · rename_i hne
      cases hpub
      cases envelope with
      | some e => exact absurd hf.2.dhSelfPublic hne
      | none =>
        rcases hf.2 with hsame | hstart
        · exact absurd hsame.dhSelfPublic hne
        · exact hstart.2

theorem Fits.draw (hf : phase.Fits me h) (pub : Bytes32) :
    phase.Fits me { h with drawn := pub :: h.drawn } :=
  hf.mono (fun _ hr => hr) fun _ _ hu => ⟨List.mem_cons_of_mem _ hu.drawn, hu.ne, hu.rows⟩

theorem Fits.push (hf : phase.Fits me h) {row : Row} {envelope : Option Envelope}
    (hkey : ∀ pub ∈ phase.pending, row.state.dhSelfPublic ≠ pub) :
    phase.Fits me (h.push row envelope) :=
  hf.mono (fun _ hr => List.mem_cons_of_mem _ hr) fun pub hpub hu =>
    ⟨hu.drawn, hu.ne, List.forall_mem_cons.mpr ⟨hkey pub hpub, hu.rows⟩⟩

end Phase

def Job.isSend : Job → Bool
  | .send _ => true
  | .receive _ => false

namespace Task

def draws (C : Crates) (o : Outcome) (t : Task) : Bool :=
  match t.phase, t.job with
  | .handshake _, _ => o.ok
  | .ratchet row, .receive envelope => row.state.drawsKey C envelope.header
  | _, _ => false

def Serial (h : History) (o : Outcome) : Task → Prop
  | ⟨_, _, .save row _ _⟩ => o.ok = true → h.Current row
  | ⟨_, _, .load⟩ | ⟨_, _, .handshake _⟩ | ⟨_, _, .saveNew _⟩ | ⟨_, _, .ratchet _⟩ => True

def NoWrap : Task → Prop
  | ⟨_, job, .ratchet row⟩ => job.isSend = true → row.state.sendCount.toNat + 1 < 2 ^ 32
  | ⟨_, _, .load⟩ | ⟨_, _, .handshake _⟩ | ⟨_, _, .saveNew _⟩ | ⟨_, _, .save _ _ _⟩ => True

instance (h : History) (o : Outcome) : ∀ t : Task, Decidable (t.Serial h o)
  | ⟨_, _, .save row _ _⟩ => inferInstanceAs (Decidable (o.ok = true → h.Current row))
  | ⟨_, _, .load⟩ | ⟨_, _, .handshake _⟩ | ⟨_, _, .saveNew _⟩ | ⟨_, _, .ratchet _⟩ => isTrue trivial

instance : ∀ t : Task, Decidable t.NoWrap
  | ⟨_, job, .ratchet row⟩ =>
    inferInstanceAs (Decidable (job.isSend = true → row.state.sendCount.toNat + 1 < 2 ^ 32))
  | ⟨_, _, .load⟩ | ⟨_, _, .handshake _⟩ | ⟨_, _, .saveNew _⟩ | ⟨_, _, .save _ _ _⟩ =>
    isTrue trivial

end Task

namespace Fleet

variable (C : Crates) (w : Fleet)

def OnTask (ok : Outcome → Task → Prop) : Label → Prop
  | .task i o => ∀ t ∈ w.tasks[i]?, ok o t
  | _ => True

instance (ok : Outcome → Task → Prop) [∀ o t, Decidable (ok o t)] :
    ∀ a : Label, Decidable (w.OnTask ok a)
  | .task i o => inferInstanceAs (Decidable (∀ t ∈ w.tasks[i]?, ok o t))
  | .send _ _ | .receive _ _ | .handleHandshake _ _ _ | .restart _ | .syncVector _
  | .sendDeltas _ _ | .mergeRatchetSession _ _ | .insertMerged _ _ | .exportLinkBundle _
  | .importLinkBundle _ _ _ =>
    isTrue trivial

/-- The generator never returns a pair whose public key was drawn before. -/
def FreshKeys : Label → Prop :=
  w.OnTask fun o t => t.draws C o = true → o.generated.pub ∉ w.history.drawn

def Serial : Label → Prop := w.OnTask fun o t => t.Serial w.history o

def NoWrap : Label → Prop := w.OnTask fun _ t => t.NoWrap

instance (a : Label) : Decidable (w.FreshKeys C a) := by
  unfold FreshKeys
  infer_instance

instance (a : Label) : Decidable (w.Serial a) := by
  unfold Serial
  infer_instance

instance (a : Label) : Decidable (w.NoWrap a) := by
  unfold NoWrap
  infer_instance

variable {C} {w} {me : KeyPair} {peer : Bytes32}

structure Quiet (w w' : Fleet) : Prop where
  stored : w'.stored = w.stored
  rows : w'.history.rows = w.history.rows
  emitted : w'.history.emitted = w.history.emitted
  adoptions : w'.history.adoptions = w.history.adoptions

theorem runTask_cases (C : Crates) (peer : Bytes32) (w : Fleet) (o : Outcome) (t : Task) :
    Quiet w (w.runTask C peer o t).1 ∨
    (∃ state, t.phase = .saveNew state ∧ o.ok = true ∧ (w.runTask C peer o t).1 =
      w.saveRatchetSession t.device (Row.founded w.history state o.now false)) ∨
    ∃ row state envelope, t.phase = .save row state envelope ∧ o.ok = true ∧
      (w.runTask C peer o t).1 = (w.saveRatchetSession t.device
        (Row.advanced w.history row state o.now envelope)).emit envelope := by
  unfold runTask
  cases t.phase with
  | load =>
    dsimp only
    split <;> exact .inl ⟨rfl, rfl, rfl, rfl⟩
  | handshake ephemeral =>
    dsimp only
    split <;> exact .inl ⟨rfl, rfl, rfl, rfl⟩
  | saveNew state =>
    dsimp only
    split
    · exact .inr (.inl ⟨state, rfl, ‹_›, rfl⟩)
    · exact .inl ⟨rfl, rfl, rfl, rfl⟩
  | ratchet row =>
    cases t.job with
    | send plaintext =>
      dsimp only
      split <;> exact .inl ⟨rfl, rfl, rfl, rfl⟩
    | receive envelope =>
      dsimp only
      split <;> split <;> exact .inl ⟨rfl, rfl, rfl, rfl⟩
  | save row state envelope =>
    dsimp only
    split
    · exact .inr (.inr ⟨row, state, envelope, rfl, ‹_›, rfl⟩)
    · exact .inl ⟨rfl, rfl, rfl, rfl⟩

theorem Backed.mono (hw : w.Backed) {h : History} (hrows : ∀ r ∈ w.history.rows, r ∈ h.rows) :
    Backed { w with history := h } :=
  ⟨fun row hr => hrows row (hw.stored row hr), fun r hr => hrows r (hw.transfers r hr),
    fun m hm => hrows m.row (hw.merges m hm), fun r hr => hrows r (hw.bundles r hr)⟩

theorem Backed.write (hw : w.Backed) {row : Row} (hrow : row ∈ w.history.rows) (d : Nat) :
    (w.write d row).Backed := by
  refine ⟨fun r hr => ?_, hw.transfers, hw.merges, hw.bundles⟩
  rcases List.mem_or_eq_of_mem_set hr with hr | heq
  · exact hw.stored r hr
  · cases heq
    exact hrow

theorem Backed.getRatchetSession (hw : w.Backed) {d : Nat} {row : Row}
    (h : w.getRatchetSession d = some row) : row ∈ w.history.rows := by
  have hd : w.stored[d]? = some (some row) := Option.join_eq_some_iff.mp h
  exact hw.stored row (List.mem_of_getElem? hd)

/-- One task makes its step: the others must still fit the new history, and the task itself must
fit it and stay apart from them. -/
theorem Sound.advance (hw : w.Sound me) {i : Nat} {t : Task} (hi : w.tasks[i]? = some t)
    (w' : Fleet) (htasks : w'.tasks = w.tasks) (hhist : w'.history.Sound me) (hback : w'.Backed)
    (hothers : ∀ u ∈ w.tasks.eraseIdx i, u.phase.Fits me w'.history) {next : Option Task}
    (hnext : ∀ x ∈ next, x.phase.Fits me w'.history ∧ ∀ u ∈ w.tasks.eraseIdx i, x.Apart u) :
    (w'.advance i next).Sound me where
  history := hhist
  backed := ⟨hback.stored, hback.transfers, hback.merges, hback.bundles⟩
  tasks := by
    intro x hx
    have hi' : w'.tasks[i]? = some t := htasks ▸ hi
    rcases (Tasks.mem_advance hi').mp hx with hx | hx
    · exact (hnext x hx).1
    · exact hothers x (htasks ▸ hx)
  apart := by
    show (Tasks.advance w'.tasks i next).Pairwise Task.Apart
    rw [htasks]
    exact Tasks.pairwise_advance Task.Apart.symm hw.apart hi fun x hx => (hnext x hx).2

theorem Sound.fits_others (hw : w.Sound me) {i : Nat} :
    ∀ u ∈ w.tasks.eraseIdx i, u.phase.Fits me w.history :=
  fun u hu => hw.tasks u (List.mem_of_mem_eraseIdx hu)

theorem apart_of_pending_none {x u : Task} (h : x.phase.pending = none) : x.Apart u := by
  intro pub hpub
  rw [h] at hpub
  cases hpub

theorem Sound.apart_of_fresh (hw : w.Sound me) {i : Nat} {x : Task} {pub : Bytes32}
    (hpub : pub ∉ w.history.drawn) (hx : ∀ p ∈ x.phase.pending, p = pub) :
    ∀ u ∈ w.tasks.eraseIdx i, x.Apart u := by
  intro u hu p hp hp'
  have hdrawn := ((hw.fits_others u hu).unused hp').drawn
  rw [hx p hp] at hdrawn
  exact hpub hdrawn

theorem Sound.advance_quiet (hw : w.Sound me) {i : Nat} {t : Task} (hi : w.tasks[i]? = some t)
    {next : Option Task}
    (hnext : ∀ x ∈ next, x.phase.Fits me w.history ∧ x.phase.pending = none) :
    (w.advance i next).Sound me :=
  hw.advance hi w rfl hw.history hw.backed hw.fits_others fun x hx =>
    ⟨(hnext x hx).1, fun _ _ => apart_of_pending_none (hnext x hx).2⟩

theorem Sound.encrypts (hw : w.Sound me) (l : List RatchetState) :
    Sound me { w with history := { w.history with encrypts := l } } :=
  ⟨{ hw.history with }, ⟨hw.backed.stored, hw.backed.transfers, hw.backed.merges, hw.backed.bundles⟩,
    fun t ht => (hw.tasks t ht).mono (fun _ hr => hr) fun _ _ hu => ⟨hu.drawn, hu.ne, hu.rows⟩,
    hw.apart⟩

theorem Sound.draw (hw : w.Sound me) (pub : Bytes32) : (w.draw pub).Sound me :=
  ⟨{ hw.history with
      own := List.mem_cons_of_mem _ hw.history.own
      drawn := fun r hr => List.mem_cons_of_mem _ (hw.history.drawn r hr) },
    ⟨hw.backed.stored, hw.backed.transfers, hw.backed.merges, hw.backed.bundles⟩,
    fun t ht => (hw.tasks t ht).draw pub, hw.apart⟩

theorem Sound.unused_draw (hw : w.Sound me) {pub : Bytes32} (hpub : pub ∉ w.history.drawn) :
    (w.draw pub).history.Unused me pub where
  drawn := List.mem_cons_self
  ne := by
    rintro rfl
    exact hpub hw.history.own
  rows := by
    rintro r hr rfl
    exact hpub (hw.history.drawn r hr)

theorem Sound.push_backed (hw : w.Sound me) (d : Nat) (row : Row) (envelope : Option Envelope) :
    ((w.saveRatchetSession d row).emit envelope).Backed :=
  have hgrown : Backed { w with history := w.history.push row envelope } :=
    hw.backed.mono fun _ hr => List.mem_cons_of_mem _ hr
  hgrown.write List.mem_cons_self d

theorem Sound.save (hw : w.Sound me) {i : Nat} {t : Task} (hi : w.tasks[i]? = some t) {row : Row}
    {envelope : Option Envelope} (hext : w.history.Extends me row envelope)
    (hkey : row.state.dhSelfPublic ∈ t.phase.pending ∨
      ∃ r ∈ w.history.rows, r.state.dhSelfPublic = row.state.dhSelfPublic)
    {next : Option Task} (hnext : ∀ x ∈ next, x.phase = .ratchet row) :
    (((w.saveRatchetSession t.device row).emit envelope).advance i next).Sound me := by
  have hothers : ∀ u ∈ w.tasks.eraseIdx i, u.phase.Fits me (w.history.push row envelope) := by
    intro u hu
    refine (hw.fits_others u hu).push fun pub hpub heq => ?_
    rcases hkey with hmine | ⟨r, hr, hrkey⟩
    · have hapart := Tasks.related_others Task.Apart.symm hw.apart hi u hu
      exact hapart _ hmine (heq ▸ hpub)
    · exact ((hw.fits_others u hu).unused hpub).rows r hr (hrkey.trans heq)
  refine hw.advance hi ((w.saveRatchetSession t.device row).emit envelope) rfl
    (hw.history.push hext) (hw.push_backed t.device row envelope) hothers ?_
  intro x hx
  have hphase := hnext x hx
  refine ⟨?_, fun _ _ => apart_of_pending_none (by rw [hphase]; rfl)⟩
  rw [hphase]
  exact List.mem_cons_self

theorem Sound.load (hw : w.Sound me) {i : Nat} {t : Task} (hi : w.tasks[i]? = some t)
    (hphase : t.phase = .load) (o : Outcome) :
    ((w.runTask C peer o t).1.advance i (w.runTask C peer o t).2).Sound me := by
  unfold runTask
  rw [hphase]
  dsimp only
  split
  · exact hw.advance_quiet hi fun _ hx => nomatch hx
  · rename_i row hrow
    refine hw.advance_quiet hi fun x hx => ?_
    obtain rfl := Option.mem_some_iff.mp hx
    exact ⟨hw.backed.getRatchetSession hrow, rfl⟩
  · refine hw.advance_quiet hi fun x hx => ?_
    obtain rfl := Option.mem_some_iff.mp hx
    exact ⟨trivial, rfl⟩
  · exact hw.advance_quiet hi fun _ hx => nomatch hx

theorem Sound.handshake (hw : w.Sound me) {i : Nat} {t : Task} (hi : w.tasks[i]? = some t)
    {ephemeral : KeyPair} (hphase : t.phase = .handshake ephemeral) {o : Outcome}
    (hfresh : t.draws C o = true → o.generated.pub ∉ w.history.drawn) :
    ((w.runTask C peer o t).1.advance i (w.runTask C peer o t).2).Sound me := by
  unfold runTask
  rw [hphase]
  dsimp only
  split
  · rename_i hok
    have hpub : o.generated.pub ∉ w.history.drawn := by
      apply hfresh
      unfold Task.draws
      rw [hphase]
      exact hok
    have hdrawn := hw.draw o.generated.pub
    refine hw.advance hi (w.draw o.generated.pub) rfl hdrawn.history hdrawn.backed
      hdrawn.fits_others ?_
    intro x hx
    obtain rfl := Option.mem_some_iff.mp hx
    exact ⟨⟨⟨rfl, rfl, nofun⟩, hw.unused_draw hpub⟩,
      hw.apart_of_fresh hpub fun p hp => (Option.mem_some_iff.mp hp).symm⟩
  · exact hw.advance_quiet hi fun _ hx => nomatch hx

theorem Sound.saveNew (hw : w.Sound me) {i : Nat} {t : Task} (hi : w.tasks[i]? = some t)
    {state : RatchetState} (hphase : t.phase = .saveNew state) (o : Outcome) :
    ((w.runTask C peer o t).1.advance i (w.runTask C peer o t).2).Sound me := by
  have hfits := hw.tasks t (List.mem_of_getElem? hi)
  rw [hphase] at hfits
  unfold runTask
  rw [hphase]
  dsimp only
  split
  · refine hw.save hi (History.extends_unused hw.history hfits.2 hfits.1 rfl) (.inl ?_) ?_
    · rw [hphase]
      rfl
    · intro x hx
      obtain rfl := Option.mem_some_iff.mp hx
      rfl
  · exact hw.advance_quiet hi fun _ hx => nomatch hx

theorem Sound.encrypt (hw : w.Sound me) {i : Nat} {t : Task} (hi : w.tasks[i]? = some t)
    {row : Row} (hphase : t.phase = .ratchet row) {plaintext : Bytes}
    (hjob : t.job = .send plaintext) (hwrap : row.state.sendCount.toNat + 1 < 2 ^ 32)
    (o : Outcome) : ((w.runTask C peer o t).1.advance i (w.runTask C peer o t).2).Sound me := by
  have hrow := hw.tasks t (List.mem_of_getElem? hi)
  rw [hphase] at hrow
  have hw' := hw.encrypts (row.state :: w.history.encrypts)
  unfold runTask
  rw [hphase, hjob]
  dsimp only
  split
  · exact hw'.advance_quiet hi fun _ hx => nomatch hx
  · rename_i state header ciphertext henc
    obtain ⟨hchain, hkey, hcount, -, hdh, hnum⟩ := encrypt_eq_some henc
    refine hw'.advance_quiet hi fun x hx => ?_
    obtain rfl := Option.mem_some_iff.mp hx
    exact ⟨⟨hrow, hchain, hkey, hcount, hwrap, hdh, hnum⟩, if_pos hkey⟩

theorem Sound.decrypt (hw : w.Sound me) {i : Nat} {t : Task} (hi : w.tasks[i]? = some t)
    {row : Row} (hphase : t.phase = .ratchet row) {envelope : Envelope}
    (hjob : t.job = .receive envelope) {o : Outcome}
    (hfresh : t.draws C o = true → o.generated.pub ∉ w.history.drawn) :
    ((w.runTask C peer o t).1.advance i (w.runTask C peer o t).2).Sound me := by
  have hrow := hw.tasks t (List.mem_of_getElem? hi)
  rw [hphase] at hrow
  have hsend := decrypt_sending (C := C) o.generated row.state envelope.header envelope.ciphertext
  have hdraws : t.draws C o = row.state.drawsKey C envelope.header := by
    unfold Task.draws
    rw [hphase, hjob]
  unfold runTask
  rw [hphase, hjob]
  dsimp only
  cases hdraw : row.state.drawsKey C envelope.header with
  | false =>
    rw [hdraw] at hsend
    split
    · exact hw.advance_quiet hi fun _ hx => nomatch hx
    · rename_i state hdec
      rw [hdec] at hsend
      refine hw.advance_quiet hi fun x hx => ?_
      obtain rfl := Option.mem_some_iff.mp hx
      exact ⟨⟨hrow, .inl hsend⟩, if_pos (SameSending.dhSelfPublic hsend)⟩
  | true =>
    rw [hdraw] at hsend
    have hpub := hfresh (hdraws.trans hdraw)
    have hdrawn := hw.draw o.generated.pub
    split
    · exact hdrawn.advance_quiet hi fun _ hx => nomatch hx
    · rename_i state hdec
      rw [hdec] at hsend
      have hstart : StartsChain o.generated.pub state := hsend
      refine hw.advance hi (w.draw o.generated.pub) rfl hdrawn.history hdrawn.backed
        hdrawn.fits_others fun x hx => ?_
      obtain rfl := Option.mem_some_iff.mp hx
      have hkey := hstart.dhSelfPublic
      refine ⟨⟨hrow, .inr ⟨⟨rfl, hstart.sendCount, hstart.chainKeySend⟩, ?_⟩⟩, ?_⟩
      · rw [hkey]
        exact hw.unused_draw hpub
      · refine hw.apart_of_fresh hpub fun p hp => ?_
        -- the pending key of this phase is the key of the new state
        dsimp only [Phase.pending] at hp
        split at hp
        · cases hp
        · cases hp
          exact hkey

theorem Sound.saveAdvanced (hw : w.Sound me) {i : Nat} {t : Task} (hi : w.tasks[i]? = some t)
    {row : Row} {state : RatchetState} {envelope : Option Envelope}
    (hphase : t.phase = .save row state envelope) {o : Outcome}
    (hserial : o.ok = true → w.history.Current row) :
    ((w.runTask C peer o t).1.advance i (w.runTask C peer o t).2).Sound me := by
  have hfits := hw.tasks t (List.mem_of_getElem? hi)
  rw [hphase] at hfits
  unfold runTask
  rw [hphase]
  dsimp only
  split
  · rename_i hok
    have hcur := hserial hok
    cases envelope with
    | some e =>
      obtain ⟨hrow, henc⟩ := hfits
      refine hw.save hi (History.extends_sent hw.history hrow hcur henc.chainKeySend
        henc.dhSelfPublic henc.sendCount henc.noWrap henc.dhPublic henc.messageNumber o.now) (.inr ?_)
        fun _ hx => nomatch hx
      exact ⟨row, hrow, henc.dhSelfPublic.symm⟩
    | none =>
      obtain ⟨hrow, hsame | ⟨hstart, hunused⟩⟩ := hfits
      · refine hw.save hi (History.extends_received hw.history hrow hcur hsame o.now) (.inr ?_)
          fun _ hx => nomatch hx
        exact ⟨row, hrow, hsame.dhSelfPublic.symm⟩
      · refine hw.save hi (History.extends_unused hw.history hunused hstart rfl) (.inl ?_)
          fun _ hx => nomatch hx
        rw [hphase]
        exact if_neg (hunused.rows row hrow).symm
  · exact hw.advance_quiet hi fun _ hx => nomatch hx

theorem Sound.runTask (hw : w.Sound me) {i : Nat} {t : Task} (hi : w.tasks[i]? = some t)
    {o : Outcome} (hfresh : w.FreshKeys C (.task i o)) (hserial : w.Serial (.task i o))
    (hwrap : w.NoWrap (.task i o)) :
    ((w.runTask C peer o t).1.advance i (w.runTask C peer o t).2).Sound me := by
  have hdraw := hfresh t hi
  have hcur := hserial t hi
  have hnum := hwrap t hi
  obtain ⟨d, job, phase⟩ := t
  cases phase with
  | load => exact hw.load hi rfl o
  | handshake ephemeral => exact hw.handshake hi rfl hdraw
  | saveNew state => exact hw.saveNew hi rfl o
  | ratchet row =>
    cases job with
    | send plaintext => exact hw.encrypt hi rfl rfl (hnum rfl) o
    | receive envelope => exact hw.decrypt hi rfl rfl hdraw
  | save row state envelope => exact hw.saveAdvanced hi rfl hcur

theorem Sound.begin (hw : w.Sound me) {d : Nat} {job : Job} {w' : Fleet}
    (h : w.begin d job = some w') : w'.Sound me := by
  unfold Fleet.begin at h
  split at h
  · cases h
    refine ⟨hw.history, ⟨hw.backed.stored, hw.backed.transfers, hw.backed.merges, hw.backed.bundles⟩, ?_, ?_⟩
    · intro t ht
      rcases List.mem_append.mp ht with ht | ht
      · exact hw.tasks t ht
      · obtain rfl := List.mem_singleton.mp ht
        trivial
    · refine List.pairwise_append.mpr ⟨hw.apart, List.pairwise_singleton _ _, ?_⟩
      intro t _ u hu
      obtain rfl := List.mem_singleton.mp hu
      exact (apart_of_pending_none rfl).symm
  · cases h

theorem Sound.handleHandshake (hw : w.Sound me) (d : Nat) (sharedSecret : Bytes32) (now : Nat) :
    (w.saveRatchetSession d
      (Row.founded w.history (RatchetState.initBob sharedSecret me) now true)).Sound me := by
  have hext : w.history.Extends me
      (Row.founded w.history (RatchetState.initBob sharedSecret me) now true) none :=
    History.extends_initBob hw.history now
  refine ⟨hw.history.push hext, hw.push_backed d _ none, fun t ht => ?_, hw.apart⟩
  have hfits := hw.tasks t ht
  show t.phase.Fits me (w.history.push
    (Row.founded w.history (RatchetState.initBob sharedSecret me) now true) none)
  exact hfits.push fun pub hpub heq => (hfits.unused hpub).ne heq.symm

theorem Sound.adopt (hw : w.Sound me) {row : Row} (hrow : row ∈ w.history.rows) (d : Nat) :
    (w.adopt d row).Sound me := by
  have hback := hw.backed.write hrow d
  refine ⟨{ hw.history with }, ⟨hback.stored, hback.transfers, hback.merges, hback.bundles⟩, fun t ht => ?_,
    hw.apart⟩
  exact (hw.tasks t ht).mono (fun _ hr => hr) fun _ _ hu => ⟨hu.drawn, hu.ne, hu.rows⟩

theorem Sound.mergeRatchetSession (hw : w.Sound me) {row : Row} (hrow : row ∈ w.history.rows)
    (d : Nat) : (w.mergeRatchetSession d row).Sound me := by
  unfold Fleet.mergeRatchetSession
  split
  · refine ⟨hw.history, ⟨hw.backed.stored, hw.backed.transfers, fun m hm => ?_, hw.backed.bundles⟩, hw.tasks,
      hw.apart⟩
    rcases List.mem_append.mp hm with hm | hm
    · exact hw.backed.merges m hm
    · obtain rfl := List.mem_singleton.mp hm
      exact hrow
  · exact hw

theorem Sound.dropMerge (hw : w.Sound me) (i : Nat) : Sound me { w with merges := w.merges.eraseIdx i } :=
  ⟨hw.history, ⟨hw.backed.stored, hw.backed.transfers,
    fun m hm => hw.backed.merges m (List.mem_of_mem_eraseIdx hm), hw.backed.bundles⟩, hw.tasks, hw.apart⟩

theorem Sound.insertMerged (hw : w.Sound me) {i : Nat} {m : Merge} (hi : w.merges[i]? = some m) (ok : Bool) :
    (w.insertMerged i ok m).Sound me := by
  unfold Fleet.insertMerged
  dsimp only
  split
  · exact (hw.dropMerge i).adopt (hw.backed.merges m (List.mem_of_getElem? hi)) m.device
  · exact hw.dropMerge i

theorem Sound.importLinkBundle (hw : w.Sound me) {row : Row} (hrow : row ∈ w.history.rows)
    (d : Nat) (now : Nat) : (w.importLinkBundle d row now).Sound me := by
  have hgrown : Backed { w with history := w.history.restamp row now } :=
    hw.backed.mono fun _ hr => List.mem_cons_of_mem _ hr
  have hmem : { row with updatedAt := now } ∈ (w.history.restamp row now).rows := List.mem_cons_self
  have hback := hgrown.write hmem d
  refine ⟨{ hw.history.restamp hrow now with }, ⟨hback.stored, hback.transfers, hback.merges, hback.bundles⟩,
    fun t ht => ?_, hw.apart⟩
  refine (hw.tasks t ht).mono (fun _ hr => List.mem_cons_of_mem _ hr) fun pub _ hu => ?_
  exact ⟨hu.drawn, hu.ne, List.forall_mem_cons.mpr ⟨hu.rows row hrow, hu.rows⟩⟩

theorem Sound.step (hw : w.Sound me) {a : Label} {w' : Fleet} (hfresh : w.FreshKeys C a)
    (hserial : w.Serial a) (hwrap : w.NoWrap a) (hstep : w.step C me peer a = some w') :
    w'.Sound me := by
  cases a with
  | send d plaintext => exact hw.begin hstep
  | receive d envelope => exact hw.begin hstep
  | handleHandshake d sharedSecret now =>
    simp only [Fleet.step] at hstep
    split at hstep
    · cases hstep
      exact hw.handleHandshake d sharedSecret now
    · cases hstep
  | task i o =>
    obtain ⟨t, hi, rfl⟩ := Option.map_eq_some_iff.mp hstep
    exact hw.runTask hi hfresh hserial hwrap
  | restart d =>
    cases hstep
    exact ⟨hw.history, ⟨hw.backed.stored, hw.backed.transfers,
      fun m hm => hw.backed.merges m (List.mem_filter.mp hm).1, hw.backed.bundles⟩,
      fun t ht => hw.tasks t (List.mem_filter.mp ht).1, hw.apart.sublist List.filter_sublist⟩
  | syncVector d =>
    obtain ⟨row, _, rfl⟩ := Option.map_eq_some_iff.mp hstep
    exact ⟨hw.history, ⟨hw.backed.stored, hw.backed.transfers, hw.backed.merges, hw.backed.bundles⟩, hw.tasks, hw.apart⟩
  | sendDeltas d k =>
    obtain ⟨summary, _, rfl⟩ := Option.map_eq_some_iff.mp hstep
    refine ⟨hw.history, ⟨hw.backed.stored, fun r hr => ?_, hw.backed.merges, hw.backed.bundles⟩, hw.tasks, hw.apart⟩
    rcases List.mem_append.mp hr with hr | hr
    · exact hw.backed.transfers r hr
    · have hd := Option.filter_eq_some_iff.mp (Option.mem_toList.mp hr)
      exact hw.backed.getRatchetSession hd.1
  | mergeRatchetSession d k =>
    simp only [Fleet.step] at hstep
    split at hstep
    · obtain ⟨row, hk, rfl⟩ := Option.map_eq_some_iff.mp hstep
      exact hw.mergeRatchetSession (hw.backed.transfers row (List.mem_of_getElem? hk)) d
    · cases hstep
  | insertMerged i ok =>
    obtain ⟨m, hi, rfl⟩ := Option.map_eq_some_iff.mp hstep
    exact hw.insertMerged hi ok
  | exportLinkBundle d =>
    cases hstep
    refine ⟨hw.history, ⟨hw.backed.stored, hw.backed.transfers, hw.backed.merges, fun r hr => ?_⟩, hw.tasks, hw.apart⟩
    rcases List.mem_append.mp hr with hr | hr
    · exact hw.backed.bundles r hr
    · exact hw.backed.getRatchetSession (Option.mem_toList.mp hr)
  | importLinkBundle d k now =>
    simp only [Fleet.step] at hstep
    split at hstep
    · obtain ⟨row, hk, rfl⟩ := Option.map_eq_some_iff.mp hstep
      exact hw.importLinkBundle (hw.backed.bundles row (List.mem_of_getElem? hk)) d now
    · cases hstep

theorem sound_start (devices : Nat) (me : KeyPair) : (start devices me).Sound me where
  history := ⟨List.mem_cons_self, fun _ hr => (nomatch hr), fun _ hr => (nomatch hr),
    fun _ hr => (nomatch hr), fun _ hr => (nomatch hr), fun _ hr => (nomatch hr),
    fun _ he => (nomatch he), fun _ he => (nomatch he), List.Pairwise.nil⟩
  backed := ⟨fun _ hr => absurd (List.eq_of_mem_replicate hr) nofun, fun _ hr => (nomatch hr),
    fun _ hm => (nomatch hm), fun _ hr => (nomatch hr)⟩
  tasks := fun _ ht => (nomatch ht)
  apart := List.Pairwise.nil

end Fleet
end Proscenium.Dm
