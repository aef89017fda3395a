import Proscenium.Gossip.OwnFeedDefs

/-! Whether content of a listed or private owner can reach the public topic.
The decision to broadcast looks at the sender, the audience is in the store,
and a visibility change moves them one after the other. They stay together in
every run in which no upgrade gets its feed started before its write, changes
of the visibility do not overlap other calls, and the write that follows a
stopped feed does not fail. -/

namespace Proscenium.Gossip

open Proscenium.Types Client

def Task.changing : Task → Bool
  | .save _ _ changing _ => changing
  | .start _ => false

variable (me : String)

/-- What a task must not be handed by the world in this state. -/
def Task.Careful (c : GossipClient) (ok : Bool) : Task → Prop
  | .save _ .startOwnFeed _ _ => ok = false
  | .save p .saveProfile _ _ =>
    ok = false → c.visibility me = .isPublic → p.visibility = .isPublic
  | .start false => ok = false → c.visibility me = .isPublic
  | _ => True

/-- A call that changes the visibility runs alone, no upgrade gets its topic, the write of a
downgrade succeeds, and `start_own_feed` can read a visibility that is not public. -/
def GossipClient.Careful (sign : Bytes → String) (c : GossipClient) : Label → Prop
  | .saveMyProfile req => ∀ p ∈ (req.prepare sign).toOption,
    (∀ t ∈ c.tasks, t.changing = false) ∧ (p.visibility ≠ c.visibility me → c.tasks = [])
  | .startOwnFeed => ∀ t ∈ c.tasks, t.changing = false
  | .task i ok => ∀ t ∈ c.tasks[i]?, t.Careful me c ok
  | .publish _ _ | .ownFeedEnds | .restart | .socialGraph _ => True

instance (c : GossipClient) (ok : Bool) : ∀ t : Task, Decidable (t.Careful me c ok)
  | .save _ .startOwnFeed _ _ | .save _ .saveProfile _ _ | .start false => by
    unfold Task.Careful
    infer_instance
  | .save _ .readVisibility _ _ | .save _ .announceDowngrade _ _ | .save _ .stopOwnFeed _ _
  | .save _ .announceUpgrade _ _ | .save _ .broadcastProfile _ _ | .start true => isTrue trivial

instance (sign : Bytes → String) : ∀ (c : GossipClient) (a : Label), Decidable (c.Careful me sign a)
  | _, .saveMyProfile _ | _, .startOwnFeed | _, .task _ _ => by
    unfold GossipClient.Careful
    infer_instance
  | _, .publish _ _ | _, .ownFeedEnds | _, .restart | _, .socialGraph _ => isTrue trivial

/-- Content went to the topic only while the stored visibility was public, and a failed call
found the feed and the store in agreement if it met them so. -/
def Event.Proper : Event → Prop
  | .broadcast _ stored => stored = .isPublic
  | .saveFailed agreed agrees => agreed = true → agrees = true
  | .pushed _ _ _ | .saved => True

/-- What a phase relies on. -/
def Phase.Fits (c : GossipClient) (new : Visibility) : Phase → Prop
  | .readVisibility => True
  | .announceDowngrade | .stopOwnFeed => new ≠ .isPublic
  | .startOwnFeed => new = .isPublic ∧ c.visibility me ≠ .isPublic
  | .announceUpgrade => False
  | .saveProfile => new ≠ .isPublic → c.mySender = false
  | .broadcastProfile => new = c.visibility me

/-- Where a call may find the two apart that agreed when it began: its feed is stopped and
the write is due, or the write is done and it cannot fail any more. -/
def Excused (c : GossipClient) (new : Visibility) (phase : Phase) : Prop :=
  phase = .saveProfile ∧ c.visibility me = .isPublic ∧ new ≠ .isPublic ∨
    phase = .broadcastProfile

def Task.Fits (c : GossipClient) : Task → Prop
  | .save p phase changing agreed =>
    (changing = false → p.visibility = c.visibility me) ∧ phase.Fits me c p.visibility ∧
      (agreed = true → c.agrees me = true ∨ Excused me c p.visibility phase)
  | .start checked => checked = true → c.visibility me = .isPublic

structure GossipClient.Settled (c : GossipClient) : Prop where
  feed : c.mySender = c.ownFeedHandle.isSome
  quiet : c.visibility me ≠ .isPublic → c.mySender = false
  alone : ∀ t ∈ c.tasks, t.changing = true → c.tasks = [t]
  tasks : ∀ t ∈ c.tasks, t.Fits me c
  log : ∀ e ∈ c.log, e.Proper

variable {me} {c c' : GossipClient}

theorem agrees_iff : c.agrees me = true ↔ (c.mySender = true ↔ c.visibility me = .isPublic) := by
  unfold GossipClient.agrees
  cases c.mySender <;> simp

theorem agrees_congr (hvis : c'.visibility me = c.visibility me) (hsend : c'.mySender = c.mySender) :
    c'.agrees me = c.agrees me := by
  unfold GossipClient.agrees
  rw [hvis, hsend]

theorem Task.Fits.congr {t : Task} (h : t.Fits me c) (hvis : c'.visibility me = c.visibility me)
    (hsend : c'.mySender = c.mySender) : t.Fits me c' := by
  cases t with
  | start checked =>
    intro hc
    rw [hvis]
    exact h hc
  | save p phase changing agreed =>
    obtain ⟨hnew, hphase, hagreed⟩ := h
    refine ⟨fun hc => hvis ▸ hnew hc, ?_, fun ha => ?_⟩
    · unfold Phase.Fits at hphase ⊢
      rw [hvis, hsend]
      exact hphase
    · simpa only [agrees_congr hvis hsend, Excused, hvis] using hagreed ha

namespace GossipClient

theorem Settled.public_of_sender (hs : c.Settled me) (hsend : c.mySender = true) :
    c.visibility me = .isPublic := by
  by_contra hne
  rw [hs.quiet hne] at hsend
  exact nomatch hsend

theorem Settled.agrees_of_ne (hs : c.Settled me) (hne : c.visibility me ≠ .isPublic) :
    c.agrees me = true :=
  agrees_iff.mpr ⟨fun hsend => hs.public_of_sender hsend, fun hpub => absurd hpub hne⟩

theorem Settled.broadcast (hs : c.Settled me) {item : Item} {ok : Bool}
    (h : c.broadcast me item ok = some c') :
    ∃ new, c' = { c with log := new ++ c.log } ∧ ∀ e ∈ new, e.Proper := by
  unfold GossipClient.broadcast at h
  split at h
  next hsend =>
    obtain ⟨-, h⟩ := Option.ite_none_right_eq_some.mp h
    obtain rfl := Option.some.inj h
    refine ⟨[.broadcast item (c.visibility me)], rfl, ?_⟩
    rintro e he
    obtain rfl := List.mem_singleton.mp he
    exact hs.public_of_sender hsend
  next =>
    split at h
    · obtain rfl := Option.some.inj h
      refine ⟨[.pushed item (c.pushRecipients me) (c.visibility me)], rfl, ?_⟩
      rintro e he
      obtain rfl := List.mem_singleton.mp he
      trivial
    · obtain rfl := Option.some.inj h
      exact ⟨[], rfl, fun _ he => nomatch he⟩

theorem sender_of_broadcast_fails {item : Item} {ok : Bool} (h : c.broadcast me item ok = none) :
    c.mySender = true := by
  unfold GossipClient.broadcast at h
  split at h
  · assumption
  · split at h <;> exact nomatch h

/-- A step of one task: the rest of the tasks is untouched by it, or there is no rest. -/
theorem Settled.of_task (hs : c.Settled me) {i : Nat} {t : Task} {next : Option Task}
    (ht : c.tasks[i]? = some t) (htasks : c'.tasks = c.tasks)
    (hfeed : c'.mySender = c'.ownFeedHandle.isSome)
    (hquiet : c'.visibility me ≠ .isPublic → c'.mySender = false)
    (hlog : ∀ e ∈ c'.log, e.Proper)
    (hnext : ∀ t' ∈ next, t'.Fits me c' ∧ t'.changing = t.changing)
    (hrest : t.changing = true ∨ ∀ u ∈ c.tasks, u.Fits me c') : (c'.advance i next).Settled me := by
  have hmem := List.mem_of_getElem? ht
  have hone : t.changing = true → c.tasks = [t] ∧ i = 0 := by
    intro hch
    have htask := hs.alone t hmem hch
    rw [htask] at ht
    exact ⟨htask, by cases i with | zero => rfl | succ i => exact nomatch ht⟩
  have hother : t.changing = false → ∀ u ∈ c.tasks, u.changing = false := by
    intro hch u hu
    by_contra hu'
    rw [Bool.not_eq_false] at hu'
    have heq := hs.alone u hu hu'
    rw [heq, List.mem_singleton] at hmem
    rw [hmem, hu'] at hch
    exact nomatch hch
  have hsub : ∀ u ∈ (c'.advance i next).tasks, u ∈ next ∨ (u ∈ c.tasks ∧ t.changing = false) := by
    intro u hu
    cases hch : t.changing with
    | true =>
      obtain ⟨htask, rfl⟩ := hone hch
      cases next with
      | none => simp [advance, htasks, htask] at hu
      | some t' =>
        simp only [advance, htasks, htask, List.set_cons_zero, List.mem_singleton] at hu
        exact .inl (by rw [hu]; rfl)
    | false =>
      cases next with
      | none => exact .inr ⟨htasks ▸ List.mem_of_mem_eraseIdx hu, rfl⟩
      | some t' =>
        rcases List.mem_or_eq_of_mem_set hu with hu | rfl
        · exact .inr ⟨htasks ▸ hu, rfl⟩
        · exact .inl rfl
  have hview : (c'.advance i next).visibility me = c'.visibility me ∧
      (c'.advance i next).mySender = c'.mySender ∧
      (c'.advance i next).ownFeedHandle = c'.ownFeedHandle ∧ (c'.advance i next).log = c'.log := by
    cases next <;> exact ⟨rfl, rfl, rfl, rfl⟩
  obtain ⟨hvis, hsend, hhandle, hlogs⟩ := hview
  refine ⟨by rw [hsend, hhandle, hfeed], fun hne => hsend ▸ hquiet (hvis ▸ hne), ?_, ?_, hlogs ▸ hlog⟩
  · intro u hu hch
    rcases hsub u hu with hu' | ⟨hu', hfalse⟩
    · -- the changing task itself, still alone
      obtain ⟨htask, rfl⟩ := hone ((hnext u hu').2 ▸ hch)
      cases next with
      | none => exact nomatch hu'
      | some t' =>
        obtain rfl := Option.some.inj hu'
        simp [advance, htasks, htask]
    · rw [hother hfalse u hu'] at hch
      exact nomatch hch
  · intro u hu
    rcases hsub u hu with hu' | ⟨hu', hfalse⟩
    · exact (hnext u hu').1.congr hvis hsend
    · rcases hrest with hch | hall
      · rw [hfalse] at hch
        exact nomatch hch
      · exact (hall u hu').congr hvis hsend

theorem Settled.move (hs : c.Settled me) {i : Nat} {t : Task} {next : Option Task}
    (ht : c.tasks[i]? = some t)
    (hnext : ∀ t' ∈ next, t'.Fits me c ∧ t'.changing = t.changing) : (c.advance i next).Settled me :=
  hs.of_task ht rfl hs.feed hs.quiet hs.log hnext (.inr hs.tasks)

theorem Settled.of_log (hs : c.Settled me) {i : Nat} {t : Task} {next : Option Task}
    (ht : c.tasks[i]? = some t) {new : List Event} (hnew : ∀ e ∈ new, e.Proper)
    (hnext : ∀ t' ∈ next, t'.Fits me c ∧ t'.changing = t.changing) :
    (advance { c with log := new ++ c.log } i next).Settled me := by
  refine hs.of_task ht rfl hs.feed hs.quiet ?_ ?_ (.inr fun u hu => ?_)
  · intro e he
    exact (List.mem_append.mp he).elim (hnew e) (hs.log e)
  · intro t' ht'
    exact ⟨(hnext t' ht').1.congr rfl rfl, (hnext t' ht').2⟩
  · exact (hs.tasks u hu).congr rfl rfl

theorem Settled.saveFailed (hs : c.Settled me) {i : Nat} {t : Task} (ht : c.tasks[i]? = some t)
    {agreed : Bool} (hagreed : agreed = true → c.agrees me = true) :
    ((c.record (.saveFailed agreed (c.agrees me))).advance i none).Settled me := by
  have hnew : ∀ e ∈ [Event.saveFailed agreed (c.agrees me)], e.Proper := by
    intro e he
    obtain rfl := List.mem_singleton.mp he
    exact hagreed
  exact hs.of_log ht hnew fun _ ht' => nomatch ht'

theorem transitionPhase_fits (hs : c.Settled me) {new old : Visibility}
    (hold : old = c.visibility me ∨ old = .isPublic) : (transitionPhase old new).Fits me c new := by
  unfold transitionPhase
  split
  next heq =>
    -- nothing to announce: the write comes next
    intro hne
    rcases hold with hold | hold
    · exact hs.quiet fun hpub => hne (by rw [← heq, hold, hpub])
    · exact absurd (heq ▸ hold) hne
  next hne =>
    split
    next hpub => exact fun hnew => hne (hpub.trans hnew.symm)
    next hpub =>
      have hstored : c.visibility me ≠ .isPublic := by
        rcases hold with hold | hold
        · exact hold ▸ hpub
        · exact absurd hold hpub
      split
      next hnew => exact ⟨hnew, hstored⟩
      next => exact fun _ => hs.quiet hstored

theorem stopOwnFeed_view (hfeed : c.mySender = c.ownFeedHandle.isSome) :
    c.stopOwnFeed.mySender = false ∧ c.stopOwnFeed.ownFeedHandle = none ∧
      c.stopOwnFeed.storage = c.storage ∧ c.stopOwnFeed.tasks = c.tasks ∧
      c.stopOwnFeed.log = c.log := by
  unfold stopOwnFeed
  split
  · exact ⟨rfl, rfl, rfl, rfl, rfl⟩
  next hnone => exact ⟨by rw [hfeed, hnone]; rfl, hnone, rfl, rfl, rfl⟩

theorem Settled.stop (hs : c.Settled me) {i : Nat} {p : Profile} {changing agreed : Bool}
    (ht : c.tasks[i]? = some (.save p .stopOwnFeed changing agreed)) :
    (c.stopOwnFeed.advance i (some (.save p .saveProfile changing agreed))).Settled me := by
  obtain ⟨hnew, hphase, hagreed⟩ := hs.tasks _ (List.mem_of_getElem? ht)
  obtain ⟨hsend, hhandle, hstorage, htasks, hlog⟩ := stopOwnFeed_view hs.feed
  have hvis : c.stopOwnFeed.visibility me = c.visibility me := by
    unfold visibility
    rw [hstorage]
  refine hs.of_task ht htasks (by rw [hsend, hhandle]; rfl) (fun _ => hsend) (hlog ▸ hs.log) ?_ ?_
  · rintro _ ⟨⟩
    refine ⟨⟨fun hc => hvis ▸ hnew hc, fun _ => hsend, fun _ => ?_⟩, rfl⟩
    by_cases hpub : c.visibility me = .isPublic
    · exact .inr (.inl ⟨rfl, hvis.trans hpub, hphase⟩)
    · refine .inl (agrees_iff.mpr ⟨fun h => ?_, fun h => absurd (hvis ▸ h) hpub⟩)
      rw [hsend] at h
      exact nomatch h
  · cases hc : changing with
    | true => exact .inl rfl
    | false =>
      -- then the stored visibility is not public either, and there was nothing to stop
      have hne : c.visibility me ≠ .isPublic := hnew hc ▸ hphase
      exact .inr fun u hu => (hs.tasks u hu).congr hvis (hsend.trans (hs.quiet hne).symm)

theorem Settled.saveProfile (hs : c.Settled me) {i : Nat} {p : Profile} {changing agreed : Bool}
    (ht : c.tasks[i]? = some (.save p .saveProfile changing agreed)) :
    (advance { c with storage := c.storage.saveProfile me p } i
      (some (.save p .broadcastProfile changing agreed))).Settled me := by
  obtain ⟨hnew, hphase, hagreed⟩ := hs.tasks _ (List.mem_of_getElem? ht)
  have hvis : ({ c with storage := c.storage.saveProfile me p } : GossipClient).visibility me =
      p.visibility := Storage.getVisibility_saveProfile_self me p c.storage
  refine hs.of_task ht rfl hs.feed (fun hne => hphase (hvis ▸ hne)) hs.log ?_ ?_
  · rintro _ ⟨⟩
    exact ⟨⟨fun _ => hvis.symm, hvis.symm, fun _ => .inr (.inr rfl)⟩, rfl⟩
  · cases hc : changing with
    | true => exact .inl rfl
    | false => exact .inr fun u hu => (hs.tasks u hu).congr (hvis.trans (hnew hc)) rfl

theorem Settled.start (hs : c.Settled me) {i : Nat} {ok : Bool}
    (ht : c.tasks[i]? = some (.start true)) :
    (((c.startOwnFeedUnconditional ok).getD c).advance i none).Settled me := by
  have hpub : c.visibility me = .isPublic := hs.tasks _ (List.mem_of_getElem? ht) rfl
  have hkeep : (c.advance i none).Settled me := hs.move ht fun _ h => nomatch h
  unfold startOwnFeedUnconditional
  split
  · exact hkeep
  · split
    · refine hs.of_task ht rfl rfl (fun hne => absurd hpub hne) hs.log (fun _ h => nomatch h)
        (.inr fun u hu => ?_)
      have hun : u.changing = false := by
        by_contra hch
        rw [Bool.not_eq_false] at hch
        have hone := hs.alone u hu hch
        have hmem := List.mem_of_getElem? ht
        rw [hone, List.mem_singleton] at hmem
        rw [← hmem] at hch
        exact nomatch hch
      cases u with
      | start checked => exact fun _ => hpub
      | save p phase changing agreed =>
        obtain ⟨hnew, hphase, -⟩ := hs.tasks _ hu
        have hp : p.visibility = .isPublic := (hnew hun).trans hpub
        refine ⟨hnew, ?_, fun _ => .inl (agrees_iff.mpr (iff_of_true rfl hpub))⟩
        cases phase with
        | readVisibility => trivial
        | announceDowngrade => exact hphase
        | stopOwnFeed => exact hphase
        | startOwnFeed => exact hphase
        | announceUpgrade => exact hphase
        | saveProfile => exact fun hne => absurd hp hne
        | broadcastProfile => exact hphase
    · exact hkeep

theorem Settled.broadcastFailed (hs : c.Settled me) {i : Nat} {ok : Bool} {t : Task} {item : Item}
    (ht : c.tasks[i]? = some t) (hfail : c.broadcast me item ok = none) (agreed : Bool) :
    ((c.record (.saveFailed agreed (c.agrees me))).advance i none).Settled me := by
  have hsend := sender_of_broadcast_fails hfail
  exact hs.saveFailed ht fun _ => agrees_iff.mpr (iff_of_true hsend (hs.public_of_sender hsend))

theorem Settled.runStart (hs : c.Settled me) {i : Nat} {ok checked : Bool}
    (ht : c.tasks[i]? = some (.start checked)) (hcare : (Task.start checked).Careful me c ok) :
    ((c.runTask me ok (.start checked)).1.advance i
      (c.runTask me ok (.start checked)).2).Settled me := by
  cases checked with
  | true => exact hs.start ht
  | false =>
    have hchecked : ∀ b : Bool, (b = true → c.visibility me = .isPublic) →
        (c.advance i (if b then some (.start true) else none)).Settled me := by
      intro b hb
      refine hs.move ht ?_
      cases b with
      | false => exact fun _ h => nomatch h
      | true =>
        rintro _ ⟨⟩
        exact ⟨fun _ => hb rfl, rfl⟩
    unfold GossipClient.runTask
    cases ok with
    | true =>
      by_cases hpub : c.visibility me = .isPublic
      · simpa [hpub] using hchecked true fun _ => hpub
      · simpa [hpub] using hchecked false fun h => nomatch h
    | false => simpa using hchecked true fun _ => hcare rfl

theorem Settled.runTask (hs : c.Settled me) {i : Nat} {ok : Bool} {t : Task}
    (ht : c.tasks[i]? = some t) (hcare : t.Careful me c ok) :
    ((c.runTask me ok t).1.advance i (c.runTask me ok t).2).Settled me := by
  cases t with
  | start checked => exact hs.runStart ht hcare
  | save p phase changing agreed =>
    obtain ⟨hnew, hphase, hagreed⟩ := hs.tasks _ (List.mem_of_getElem? ht)
    -- the agreement found at the start is still there in every phase that is not excused
    have hstill : ∀ phase', phase ≠ .saveProfile → phase ≠ .broadcastProfile → agreed = true →
        c.agrees me = true ∨ Excused me c p.visibility phase' := by
      intro phase' hsave hdone ha
      rcases hagreed ha with hag | ⟨hph, -⟩ | hph
      · exact .inl hag
      · exact absurd hph hsave
      · exact absurd hph hdone
    cases phase with
    | readVisibility =>
      refine hs.move ht ?_
      rintro _ ⟨⟩
      refine ⟨⟨hnew, transitionPhase_fits hs ?_, hstill _ nofun nofun⟩, rfl⟩
      cases ok
      · exact .inr rfl
      · exact .inl rfl
    | announceDowngrade =>
      unfold GossipClient.runTask
      cases hb : c.broadcast me (.profile p) ok with
      | none => simpa only [hb] using hs.broadcastFailed ht hb agreed
      | some c' =>
        obtain ⟨new, rfl, hproper⟩ := hs.broadcast hb
        simp only [hb]
        refine hs.of_log ht hproper ?_
        rintro _ ⟨⟩
        exact ⟨⟨hnew, hphase, hstill _ nofun nofun⟩, rfl⟩
    | stopOwnFeed => exact hs.stop ht
    | startOwnFeed =>
      -- the topic of an upgrade is refused
      obtain rfl : ok = false := hcare
      have hnone : c.ownFeedHandle = none := by
        have hsend := hs.quiet hphase.2
        rw [hs.feed] at hsend
        simpa using hsend
      have hrefused : c.startOwnFeedUnconditional false = none := by
        simp [startOwnFeedUnconditional, hnone]
      unfold GossipClient.runTask
      simp only [hrefused]
      exact hs.saveFailed ht fun _ => hs.agrees_of_ne hphase.2
    | announceUpgrade => exact hphase.elim
    | saveProfile =>
      cases ok with
      | true => exact hs.saveProfile ht
      | false =>
        refine hs.saveFailed ht fun ha => ?_
        rcases hagreed ha with hag | ⟨-, hpub, hne⟩ | hph
        · exact hag
        · exact absurd (hcare rfl hpub) hne
        · exact nomatch hph
    | broadcastProfile =>
      unfold GossipClient.runTask
      cases hb : c.broadcast me (.profile p) ok with
      | none => simpa only [hb] using hs.broadcastFailed ht hb agreed
      | some c' =>
        obtain ⟨new, rfl, hproper⟩ := hs.broadcast hb
        have hsaved : ∀ e ∈ Event.saved :: new, e.Proper := by
          intro e he
          rcases List.mem_cons.mp he with rfl | he
          · trivial
          · exact hproper e he
        simp only [hb]
        exact hs.of_log ht hsaved fun _ h => nomatch h

variable {sign : Bytes → String}

theorem Settled.spawn (hs : c.Settled me) {t : Task} (ht : t.Fits me c)
    (hthere : ∀ u ∈ c.tasks, u.changing = false) (hempty : t.changing = true → c.tasks = []) :
    ({ c with tasks := c.tasks ++ [t] } : GossipClient).Settled me := by
  refine ⟨hs.feed, hs.quiet, fun u hu hch => ?_, fun u hu => ?_, hs.log⟩
  · rcases List.mem_append.mp hu with hu | hu
    · rw [hthere u hu] at hch
      exact nomatch hch
    · obtain rfl := List.mem_singleton.mp hu
      simp [hempty hch]
  · rcases List.mem_append.mp hu with hu | hu
    · exact (hs.tasks u hu).congr rfl rfl
    · obtain rfl := List.mem_singleton.mp hu
      exact ht.congr rfl rfl

theorem Settled.step (hs : c.Settled me) {a : Label} (hcare : c.Careful me sign a)
    (hstep : c.step me sign a = some c') : c'.Settled me := by
  cases a with
  | saveMyProfile req =>
    unfold GossipClient.step at hstep
    cases hp : req.prepare sign with
    | error e =>
      simp only [hp, Option.some.injEq] at hstep
      subst hstep
      refine ⟨hs.feed, hs.quiet, hs.alone, fun t ht => (hs.tasks t ht).congr rfl rfl, ?_⟩
      intro e he
      rcases List.mem_cons.mp he with rfl | he
      · exact id
      · exact hs.log e he
    | ok p =>
      simp only [hp, Option.some.injEq] at hstep
      subst hstep
      obtain ⟨hthere, halone⟩ := hcare p (by rw [hp]; rfl)
      refine hs.spawn ⟨fun hc => ?_, trivial, .inl⟩ hthere fun hc => ?_
      · simpa using hc
      · exact halone (of_decide_eq_true hc)
  | startOwnFeed =>
    obtain rfl := Option.some.inj hstep
    exact hs.spawn (fun h => nomatch h) hcare fun h => nomatch h
  | task i ok =>
    simp only [GossipClient.step] at hstep
    split at hstep
    next => exact nomatch hstep
    next t ht =>
      obtain rfl := Option.some.inj hstep
      exact hs.runTask ht (hcare t ht)
  | publish item ok =>
    obtain rfl := Option.some.inj hstep
    cases hb : c.broadcast me item ok with
    | none => exact hs
    | some c' =>
      obtain ⟨new, rfl, hproper⟩ := hs.broadcast hb
      refine ⟨hs.feed, hs.quiet, hs.alone, fun t ht => (hs.tasks t ht).congr rfl rfl, ?_⟩
      intro e he
      exact (List.mem_append.mp he).elim (hproper e) (hs.log e)
  | ownFeedEnds =>
    obtain rfl := Option.some.inj hstep
    refine ⟨?_, hs.quiet, hs.alone, fun t ht => (hs.tasks t ht).congr rfl rfl, hs.log⟩
    simpa using hs.feed
  | restart =>
    obtain rfl := Option.some.inj hstep
    exact ⟨rfl, fun _ => rfl, nofun, nofun, hs.log⟩
  | socialGraph rows =>
    obtain rfl := Option.some.inj hstep
    exact ⟨hs.feed, hs.quiet, hs.alone, fun t ht => (hs.tasks t ht).congr rfl rfl, hs.log⟩

def launched (storage : Storage) : GossipClient := ⟨storage, false, none, [], []⟩

theorem settled_launched (storage : Storage) : (launched storage).Settled me :=
  ⟨rfl, fun _ => rfl, nofun, nofun, nofun⟩

end GossipClient

/-- In every state of every careful run: with a listed or private visibility stored there is
no sender and a new post is pushed, everything that went to the public topic went there under
a public visibility, and a `save_my_profile` that failed left feed and store in agreement if it
found them so. -/
theorem own_feed_follows_visibility {sign : Bytes → String} {storage : Storage} {run : List Label}
    (hcare : Machine.Along (GossipClient.step me sign) (GossipClient.Careful me sign)
      (.launched storage) run)
    (hrun : Machine.exec (GossipClient.step me sign) (.launched storage) run = some c) :
    (c.visibility me ≠ .isPublic → c.mySender = false ∧ ∀ id ok, c.broadcast me (.post id) ok =
        some (c.record (.pushed (.post id) (c.pushRecipients me) (c.visibility me)))) ∧
      (∀ item stored, Event.broadcast item stored ∈ c.log → stored = .isPublic) ∧
      ∀ agreed agrees, Event.saveFailed agreed agrees ∈ c.log → agreed = true → agrees = true := by
  have hs := Machine.exec_invariant (fun _ _ _ hs hcare hstep => GossipClient.Settled.step hs hcare hstep)
    (GossipClient.settled_launched storage) hcare hrun
  refine ⟨fun hne => ⟨hs.quiet hne, fun id ok => ?_⟩, fun _ _ he => hs.log _ he,
    fun _ _ he => hs.log _ he⟩
  rw [GossipClient.broadcast, hs.quiet hne]
  rfl

def emptyStorage : Storage := ⟨[], [], []⟩

/-- `save_my_profile` with this visibility, each of its steps taken at once. -/
def saveSteps (visibility : String) (steps : Nat) : List Label :=
  .saveMyProfile ⟨"me", "", none, none, visibility⟩ :: List.replicate steps (.task 0 true)

def downgradeRun : List Label :=
  .startOwnFeed :: .task 0 true :: .task 0 true :: .publish (.post "first") true ::
    saveSteps "listed" 5 ++ [.publish (.post "second") true]

theorem own_feed_follows_visibility_downgrade :
    ∃ c, Machine.exec (GossipClient.step "me" fun _ => "") (.launched emptyStorage) downgradeRun =
        some c ∧ .broadcast (.post "first") .isPublic ∈ c.log ∧
      .pushed (.post "second") [] .listed ∈ c.log ∧ c.visibility "me" = .listed ∧
      c.mySender = false := by
  have hcare : Machine.Along (GossipClient.step "me" fun _ => "")
      (GossipClient.Careful "me" fun _ => "") (.launched emptyStorage) downgradeRun := by decide
  have hrun : ∃ c, Machine.exec (GossipClient.step "me" fun _ => "") (.launched emptyStorage)
      downgradeRun = some c ∧ .broadcast (.post "first") .isPublic ∈ c.log ∧
      .pushed (.post "second") [] .listed ∈ c.log ∧ c.visibility "me" = .listed :=
    ⟨_, rfl, by decide, by decide, by decide⟩
  obtain ⟨c, hc, hfirst, hsecond, hlisted⟩ := hrun
  have hne : c.visibility "me" ≠ .isPublic := by
    rw [hlisted]
    decide
  exact ⟨c, hc, hfirst, hsecond, hlisted, ((own_feed_follows_visibility hcare hc).1 hne).1⟩

/-- A listed owner asks to become public; the feed is up and a post goes out before the new
visibility is stored. -/
def upgradeRun : List Label :=
  saveSteps "listed" 5 ++ saveSteps "public" 2 ++ [.publish (.post "early") true]

theorem not_own_feed_follows_visibility_upgrade :
    ¬ ∀ (run : List Label) (c : GossipClient),
      Machine.exec (GossipClient.step "me" fun _ => "") (.launched emptyStorage) run = some c →
      (c.visibility "me" ≠ .isPublic → c.mySender = false) ∧
        ∀ item stored, Event.broadcast item stored ∈ c.log → stored = .isPublic := by
  intro hall
  have hquiet := (hall upgradeRun _ rfl).1 (by decide)
  exact nomatch hquiet

end Proscenium.Gossip
