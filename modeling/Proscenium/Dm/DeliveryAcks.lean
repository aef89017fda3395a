import Proscenium.Crypto.RatchetWrap
import Proscenium.Dm.DeliveryDefs
import Proscenium.Types.ChecksumScheme

/-! What an acknowledgement says. The sender acts on it as if the message had
been stored, while the receiver sends it after every handling that returns. The
acknowledgement can be relied on as long as no envelope is refused before its
message was stored once. -/

namespace Proscenium.Dm.Delivery

open Crypto Proscenium.Types

variable {C : Crates} {X : SealCrates} {me you : String}

def Carries (id : String) : DmPayload → Prop
  | .message msg => msg.id = id
  | .typing | .read _ | .delivered _ | .callOffer _ _ | .callAnswer _ | .callReject _
  | .callHangup _ => False

/-- The handling of an envelope that carries the message `id` does not end in an error, unless
the message was stored before. -/
def AcceptPhase.Succeeds (C : Crates) (X : SealCrates) (w : World) (o : Outcome) (id : String)
    (envelope : EncryptedEnvelope) : AcceptPhase → Prop
  | .load => id ∈ w.received ∨ o.ok = true ∧
      ∃ out ∈ readEnvelope C X o.generated envelope w.receiver, Carries id out.2
  | .route _ _ => id ∈ w.received ∨ o.ok = true ∧
      (w.receiver.getMasterPubkeyForDmPubkey envelope.sender).isSome = true
  | .store _ _ _ _ => id ∈ w.received ∨ o.ok = true
  | .signal _ _ | .apply _ | .ack => True

instance (id : String) : ∀ p, Decidable (Carries id p)
  | .message msg => inferInstanceAs (Decidable (msg.id = id))
  | .typing | .read _ | .delivered _ | .callOffer _ _ | .callAnswer _ | .callReject _
  | .callHangup _ => inferInstanceAs (Decidable False)

instance (w : World) (o : Outcome) (id : String) (envelope : EncryptedEnvelope) :
    ∀ phase : AcceptPhase, Decidable (phase.Succeeds C X w o id envelope)
  | .load => inferInstanceAs (Decidable (id ∈ w.received ∨ o.ok = true ∧
      ∃ out ∈ readEnvelope C X o.generated envelope w.receiver, Carries id out.2))
  | .route _ _ => inferInstanceAs (Decidable (id ∈ w.received ∨ o.ok = true ∧
      (w.receiver.getMasterPubkeyForDmPubkey envelope.sender).isSome = true))
  | .store _ _ _ _ => inferInstanceAs (Decidable (id ∈ w.received ∨ o.ok = true))
  | .signal _ _ | .apply _ | .ack => isTrue trivial

namespace World

def Succeeds (C : Crates) (X : SealCrates) (w : World) : Label → Prop
  | .accept i o => ∀ a ∈ w.accepts[i]?, ∀ c ∈ w.conns[a.conn]?, a.phase.Succeeds C X w o c.1 c.2
  | .sendDm _ _ _ _ _ _ | .flushAllOutbox | .task _ _ | .restartSender | .drop _ | .restartReceiver
  | .editSender _ | .editReceiver _ | .receiverSends .. => True

instance (w : World) : ∀ l, Decidable (w.Succeeds C X l)
  | .accept i o => inferInstanceAs (Decidable (∀ a ∈ w.accepts[i]?, ∀ c ∈ w.conns[a.conn]?,
      a.phase.Succeeds C X w o c.1 c.2))
  | .sendDm _ _ _ _ _ _ | .flushAllOutbox | .task _ _ | .restartSender | .drop _ | .restartReceiver
  | .editSender _ | .editReceiver _ | .receiverSends .. => isTrue trivial

/-- The message that the connection carries was stored. -/
def Stored (w : World) (conn : Nat) : Prop := ∃ c ∈ w.conns[conn]?, c.1 ∈ w.received

/-- What the handling has established about the message `id`. -/
def Handled (w : World) (id : String) : AcceptPhase → Prop
  | .load => True
  | .route _ msg | .store _ _ msg _ => msg.id = id ∨ id ∈ w.received
  | .signal _ _ | .apply _ | .ack => id ∈ w.received

variable (you)

/-- An acknowledgement on `conn` will be about this message. -/
def Awaits (w : World) (peer messageId : String) : Option Nat → Prop
  | some conn => ∃ c ∈ w.conns[conn]?, c.1 = messageId
  | none => peer ≠ you

def Acked (w : World) (peer messageId : String) : Prop := peer = you → messageId ∈ w.received

def Expects (w : World) : Task → Prop
  | .send msg (.awaitAck _ conn) => w.Awaits you msg.toPubkey msg.id conn
  | .send msg .mark => w.Acked you msg.toPubkey msg.id
  | .flush (entry :: _) (.awaitAck conn) => w.Awaits you entry.peerPubkey entry.messageId conn
  | .flush (entry :: _) .remove | .flush (entry :: _) .mark =>
    w.Acked you entry.peerPubkey entry.messageId
  | .send _ _ | .flush _ _ => True

structure Sound (w : World) : Prop where
  acted : ∀ id ∈ w.acted, id ∈ w.received
  acks : ∀ conn ∈ w.acks, w.Stored conn
  accepts : ∀ a ∈ w.accepts, ∃ c ∈ w.conns[a.conn]?, w.Handled c.1 a.phase
  tasks : ∀ t ∈ w.tasks, w.Expects you t

structure Grows (w w' : World) : Prop where
  conns : ∀ (conn : Nat) (c : String × EncryptedEnvelope), w.conns[conn]? = some c → w'.conns[conn]? = some c
  received : ∀ id ∈ w.received, id ∈ w'.received

variable {you} {w w' : World}

theorem Grows.refl (w : World) : w.Grows w := ⟨fun _ _ h => h, fun _ h => h⟩

theorem Stored.grow {conn : Nat} (h : w.Stored conn) (hg : w.Grows w') : w'.Stored conn := by
  obtain ⟨c, hc, hid⟩ := h
  exact ⟨c, hg.conns conn c hc, hg.received _ hid⟩

theorem Handled.grow {id : String} {phase : AcceptPhase} (h : w.Handled id phase)
    (hg : w.Grows w') : w'.Handled id phase := by
  cases phase with
  | load => trivial
  | route _ _ | store _ _ _ _ => exact h.imp_right (hg.received id)
  | signal _ _ | apply _ | ack => exact hg.received id h

theorem Awaits.grow {peer id : String} {conn : Option Nat} (h : w.Awaits you peer id conn)
    (hg : w.Grows w') : w'.Awaits you peer id conn := by
  cases conn with
  | none => exact h
  | some conn =>
    obtain ⟨c, hc, hid⟩ := h
    exact ⟨c, hg.conns conn c hc, hid⟩

theorem Acked.grow {peer id : String} (h : w.Acked you peer id) (hg : w.Grows w') :
    w'.Acked you peer id := fun hpeer => hg.received id (h hpeer)

theorem Expects.grow {t : Task} (h : w.Expects you t) (hg : w.Grows w') : w'.Expects you t := by
  unfold Expects at h ⊢
  split at h
  · exact Awaits.grow h hg
  · exact Acked.grow h hg
  · exact Awaits.grow h hg
  · exact Acked.grow h hg
  · exact Acked.grow h hg
  · trivial
  · trivial

theorem Sound.storage (h : w.Sound you) (sender receiver : Mailbox) :
    ({ w with sender := sender, receiver := receiver }).Sound you :=
  ⟨h.acted, h.acks, h.accepts, h.tasks⟩

theorem Sound.advance (h : w.Sound you) {i : Nat} {t : Task} (hi : w.tasks[i]? = some t)
    {next : Option Task} (hnext : ∀ x ∈ next, w.Expects you x) : (w.advance i next).Sound you where
  acted := h.acted
  acks := h.acks
  accepts := h.accepts
  tasks := by
    intro x hx
    have hx' : x ∈ Tasks.advance w.tasks i next := hx
    rcases (Tasks.mem_advance hi).mp hx' with hx' | hx'
    · exact hnext x hx'
    · exact h.tasks x (List.mem_of_mem_eraseIdx hx')

theorem Sound.advanceAccept (h : w.Sound you) {i : Nat} {a : Accept} (hi : w.accepts[i]? = some a)
    {next : Option Accept} (hnext : ∀ x ∈ next, ∃ c ∈ w.conns[x.conn]?, w.Handled c.1 x.phase) :
    (w.advanceAccept i next).Sound you where
  acted := h.acted
  acks := h.acks
  tasks := h.tasks
  accepts := by
    intro x hx
    have hx' : x ∈ Tasks.advance w.accepts i next := hx
    rcases (Tasks.mem_advance hi).mp hx' with hx' | hx'
    · exact hnext x hx'
    · exact h.accepts x (List.mem_of_mem_eraseIdx hx')

theorem grows_connect (w : World) (you peer id : String) (envelope : EncryptedEnvelope) :
    w.Grows (w.connect you peer id envelope).1 := by
  unfold connect
  split
  · refine ⟨fun conn c hc => ?_, fun _ hid => hid⟩
    have hlt : conn < w.conns.length := (List.getElem?_eq_some_iff.mp hc).1
    exact (List.getElem?_append_left hlt).trans hc
  · exact Grows.refl w

theorem awaits_connect (peer id : String) (envelope : EncryptedEnvelope) :
    (w.connect you peer id envelope).1.Awaits you peer id (w.connect you peer id envelope).2 := by
  unfold connect
  split
  · exact ⟨(id, envelope), List.getElem?_concat_length, rfl⟩
  · rename_i hpeer
    exact hpeer

theorem Sound.connect (h : w.Sound you) (peer id : String) (envelope : EncryptedEnvelope) :
    (w.connect you peer id envelope).1.Sound you := by
  have hg := grows_connect w you peer id envelope
  have htasks : ∀ t ∈ w.tasks, (w.connect you peer id envelope).1.Expects you t :=
    fun t ht => (h.tasks t ht).grow hg
  have hacks : ∀ conn ∈ w.acks, (w.connect you peer id envelope).1.Stored conn :=
    fun conn hconn => (h.acks conn hconn).grow hg
  have haccepts : ∀ a ∈ w.accepts, ∃ c ∈ (w.connect you peer id envelope).1.conns[a.conn]?,
      (w.connect you peer id envelope).1.Handled c.1 a.phase := by
    intro a ha
    obtain ⟨c, hc, hhandled⟩ := h.accepts a ha
    exact ⟨c, hg.conns _ c hc, hhandled.grow hg⟩
  unfold World.connect at htasks hacks haccepts ⊢
  split at htasks
  · rename_i hpeer
    simp only [if_pos hpeer] at hacks haccepts ⊢
    refine ⟨h.acted, hacks, ?_, htasks⟩
    intro a ha
    rcases List.mem_append.mp ha with ha | ha
    · exact haccepts a ha
    · obtain rfl := List.mem_singleton.mp ha
      exact ⟨(id, envelope), List.getElem?_concat_length, trivial⟩
  · rename_i hpeer
    simp only [if_neg hpeer]
    exact h

theorem tasks_connect (peer id : String) (envelope : EncryptedEnvelope) :
    (w.connect you peer id envelope).1.tasks = w.tasks := by
  unfold World.connect
  split <;> rfl

theorem Sound.act (h : w.Sound you) {peer id : String} (hacked : w.Acked you peer id) :
    (w.act you peer id).Sound you := by
  unfold World.act
  split
  · rename_i hpeer
    refine ⟨?_, h.acks, h.accepts, h.tasks⟩
    intro x hx
    rcases List.mem_cons.mp hx with rfl | hx
    · exact hacked hpeer
    · exact h.acted x hx
  · exact h

theorem tasks_act (w : World) (you peer id : String) : (w.act you peer id).tasks = w.tasks := by
  unfold World.act
  split <;> rfl

theorem grows_act (peer id : String) : w.Grows (w.act you peer id) := by
  unfold World.act
  split
  · exact ⟨fun _ _ hc => hc, fun _ hid => hid⟩
  · exact Grows.refl w

theorem Sound.acked (h : w.Sound you) {peer id : String} {conn : Option Nat} {o : Outcome}
    (hawaits : w.Awaits you peer id conn) (hend : w.canEnd o conn = true) (hok : o.ok = true) :
    w.Acked you peer id := by
  intro hpeer
  cases conn with
  | none => exact absurd hpeer hawaits
  | some conn =>
    have hack : conn ∈ w.acks := by simpa [canEnd, hok] using hend
    obtain ⟨c, hc, hid⟩ := hawaits
    obtain ⟨c', hc', hstored⟩ := h.acks conn hack
    obtain rfl : c = c' := Option.some.inj (hc.symm.trans hc')
    exact hid ▸ hstored

/-- What one await of the sender leaves: a sound world, the same tasks, and a next phase whose
expectation holds. -/
def Keeps (you : String) (w : World) (out : World × Option Task) : Prop :=
  out.1.Sound you ∧ out.1.tasks = w.tasks ∧ ∀ x ∈ out.2, out.1.Expects you x

theorem Sound.over (h : w.Sound you) : w.Keeps you (w, none) := ⟨h, rfl, fun _ hx => nomatch hx⟩

theorem Sound.goesOn {w' : World} {t : Task} (h : w'.Sound you) (htasks : w'.tasks = w.tasks)
    (ht : w'.Expects you t) : w.Keeps you (w', some t) := by
  refine ⟨h, htasks, fun x hx => ?_⟩
  obtain rfl := Option.mem_some_iff.mp hx
  exact ht

theorem Sound.next (h : w.Sound you) {t : Task} (ht : w.Expects you t) : w.Keeps you (w, some t) := h.goesOn rfl ht

theorem Sound.runSend (h : w.Sound you) {o : Outcome} {msg : StoredMessage} {phase : SendPhase}
    (hexp : w.Expects you (.send msg phase)) {out : World × Option Task}
    (hout : w.runSend C X you o msg phase = some out) : w.Keeps you out := by
  unfold World.runSend at hout
  cases phase with
  | upsert preview | insert | save peerDmPubkey state envelope =>
    dsimp only at hout
    split at hout
    · cases hout
      exact (h.storage _ _).next trivial
    · cases hout
      exact h.over
  | establish =>
    dsimp only at hout
    split at hout
    · cases hout
      exact h.over
    · split at hout
      · cases hout
        exact h.over
      · cases hout
        exact h.next trivial
  | connect envelope =>
    dsimp only at hout
    split at hout
    · cases hout
      exact (h.connect _ _ _).goesOn (tasks_connect _ _ _) (awaits_connect _ _ _)
    · cases hout
      exact h.next trivial
  | awaitAck envelope conn =>
    dsimp only at hout
    split at hout
    · rename_i hend
      cases hout
      by_cases hok : o.ok = true
      · rw [if_pos hok]
        exact h.next (h.acked hexp hend hok)
      · rw [if_neg hok]
        exact h.next trivial
    · cases hout
  | queue envelope =>
    dsimp only at hout
    split at hout
    · cases hout
      exact (h.storage _ _).over
    · cases hout
      exact h.over
  | mark =>
    dsimp only at hout
    split at hout
    · cases hout
      exact ⟨(h.storage _ _).act hexp, tasks_act _ _ _ _, fun _ hx => nomatch hx⟩
    · cases hout
      exact h.over

theorem expects_connect (entries : List OutboxRow) :
    w.Expects you (.flush entries .connect) := by
  cases entries <;> trivial

theorem Sound.runFlush (h : w.Sound you) {o : Outcome} {entries : List OutboxRow}
    {phase : FlushPhase} (hexp : w.Expects you (.flush entries phase))
    {out : World × Option Task} (hout : w.runFlush you o entries phase = some out) :
    w.Keeps you out := by
  unfold World.runFlush at hout
  split at hout
  · split at hout
    · cases hout
      exact h.next (expects_connect _)
    · cases hout
      exact h.over
  · cases hout
    exact h.over
  · rename_i entry rest
    split at hout
    · cases hout
      exact (h.connect _ _ _).goesOn (tasks_connect _ _ _) (awaits_connect _ _ _)
    · cases hout
      exact h.next (expects_connect _)
  · rename_i entry rest conn
    split at hout
    · rename_i hend
      cases hout
      by_cases hok : o.ok = true
      · rw [if_pos hok]
        exact h.next (h.acked hexp hend hok)
      · rw [if_neg hok]
        exact h.next (expects_connect _)
    · cases hout
  · rename_i entry rest
    split at hout
    · cases hout
      apply Sound.goesOn
      · exact (h.storage _ _).act hexp
      · exact tasks_act _ _ _ _
      · exact Acked.grow (w := { w with sender := w.sender.removeOutboxMessage entry.id }) hexp
          (grows_act _ _)
    · cases hout
      exact h.next hexp
  · rename_i entry rest
    split at hout
    · cases hout
      refine ⟨(h.storage _ _).act hexp, tasks_act _ _ _ _, fun x hx => ?_⟩
      obtain rfl := Option.mem_some_iff.mp hx
      exact expects_connect _
    · cases hout
      exact h.next (expects_connect _)

theorem Sound.runTask (h : w.Sound you) {o : Outcome} {i : Nat} {t : Task}
    (hi : w.tasks[i]? = some t) {out : World × Option Task}
    (hout : w.runTask C X you o t = some out) : (out.1.advance i out.2).Sound you := by
  have hexp := h.tasks t (List.mem_of_getElem? hi)
  have hkeeps : w.Keeps you out := by
    cases t with
    | send msg phase => exact h.runSend hexp hout
    | flush entries phase => exact h.runFlush hexp hout
  obtain ⟨hsound, htasks, hnext⟩ := hkeeps
  exact hsound.advance (htasks ▸ hi) hnext

def KeepsAccept (you : String) (w : World) (id : String) (conn : Nat)
    (out : World × Option Accept) : Prop :=
  out.1.Sound you ∧ out.1.conns = w.conns ∧ out.1.accepts = w.accepts ∧
    ∀ x ∈ out.2, x.conn = conn ∧ out.1.Handled id x.phase

theorem Sound.nextAccept (h : w.Sound you) {id : String} {conn : Nat} {phase : AcceptPhase}
    (hphase : w.Handled id phase) : w.KeepsAccept you id conn (w, some ⟨conn, phase⟩) := by
  refine ⟨h, rfl, rfl, fun x hx => ?_⟩
  obtain rfl := Option.mem_some_iff.mp hx
  exact ⟨rfl, hphase⟩

theorem Sound.receive (h : w.Sound you) (id : String) :
    ({ w with received := id :: w.received }).Sound you := by
  have hg : w.Grows { w with received := id :: w.received } :=
    ⟨fun _ _ hc => hc, fun _ hid => List.mem_cons_of_mem _ hid⟩
  refine ⟨fun x hx => hg.received x (h.acted x hx), fun conn hconn => (h.acks conn hconn).grow hg,
    fun a ha => ?_, fun t ht => (h.tasks t ht).grow hg⟩
  obtain ⟨c, hc, hhandled⟩ := h.accepts a ha
  exact ⟨c, hc, hhandled.grow hg⟩

theorem Sound.runAccept (h : w.Sound you) {o : Outcome} {id : String}
    {envelope : EncryptedEnvelope} {conn : Nat} {phase : AcceptPhase}
    (hconn : w.conns[conn]? = some (id, envelope)) (hphase : w.Handled id phase)
    (hok : phase.Succeeds C X w o id envelope) :
    w.KeepsAccept you id conn (w.runAccept C X you o envelope conn phase) := by
  unfold World.runAccept
  cases phase with
  | load =>
    dsimp only
    split
    · -- an error here was admitted only for a message that is stored
      rename_i hnone
      rcases hok with hok | ⟨hok, out, hout, -⟩
      · exact h.nextAccept hok
      · rw [if_pos hok] at hnone
        exact nomatch hnone.symm.trans hout
    · rename_i state msg hsome
      apply h.nextAccept
      rcases hok with hok | ⟨hok, out, hout, hid⟩
      · exact .inr hok
      · rw [if_pos hok] at hsome
        obtain rfl := Option.some.inj (hsome.symm.trans hout)
        exact .inl hid
    · rename_i state payload hnot hsome
      apply h.nextAccept
      rcases hok with hok | ⟨hok, out, hout, hid⟩
      · exact hok
      · rw [if_pos hok] at hsome
        obtain rfl := Option.some.inj (hsome.symm.trans hout)
        cases payload with
        | message msg => exact absurd rfl (hnot msg)
        | _ => exact hid.elim
  | route state msg =>
    dsimp only
    split
    · rename_i hnone
      rcases hok with hok | ⟨hok, hmaster⟩
      · exact h.nextAccept hok
      · rw [if_pos hok] at hnone
        rw [hnone] at hmaster
        exact nomatch hmaster
    · split
      · exact ⟨h, rfl, rfl, fun _ hx => nomatch hx⟩
      · exact h.nextAccept hphase
  | store peerMasterPubkey state msg preview =>
    dsimp only
    split
    · refine ⟨(h.receive msg.id).storage _ _, rfl, rfl, fun x hx => ?_⟩
      obtain rfl := Option.mem_some_iff.mp hx
      refine ⟨rfl, ?_⟩
      rcases hphase with rfl | hphase
      · exact List.mem_cons_self
      · exact List.mem_cons_of_mem _ hphase
    · rename_i hfail
      rcases hok with hok | hok
      · exact h.nextAccept hok
      · exact absurd hok hfail
  | signal state payload =>
    dsimp only
    split
    · exact (h.storage _ _).nextAccept hphase
    · exact h.nextAccept hphase
  | apply payload =>
    dsimp only
    split
    · split
      · exact (h.storage _ _).nextAccept hphase
      · exact (h.storage _ _).nextAccept hphase
      · exact h.nextAccept hphase
      all_goals exact h.nextAccept hphase
    · exact h.nextAccept hphase
  | ack =>
    dsimp only
    split
    · refine ⟨⟨h.acted, ?_, h.accepts, h.tasks⟩, rfl, rfl, fun _ hx => nomatch hx⟩
      intro c hc
      rcases List.mem_cons.mp hc with rfl | hc
      · exact ⟨(id, envelope), hconn, hphase⟩
      · exact h.acks c hc
    · exact ⟨h, rfl, rfl, fun _ hx => nomatch hx⟩

theorem Sound.step (h : w.Sound you) {l : Label} (hl : w.Succeeds C X l)
    (hstep : w.step C X me you l = some w') : w'.Sound you := by
  cases l with
  | sendDm peer content media replyTo id now =>
    unfold World.step at hstep
    dsimp only at hstep
    split at hstep
    · cases hstep
      exact h
    · cases hstep
      refine ⟨h.acted, h.acks, h.accepts, fun t ht => ?_⟩
      rcases List.mem_append.mp ht with ht | ht
      · exact h.tasks t ht
      · obtain rfl := List.mem_singleton.mp ht
        trivial
  | flushAllOutbox =>
    cases hstep
    refine ⟨h.acted, h.acks, h.accepts, fun t ht => ?_⟩
    rcases List.mem_append.mp ht with ht | ht
    · exact h.tasks t ht
    · obtain rfl := List.mem_singleton.mp ht
      trivial
  | task i o =>
    obtain ⟨t, hi, hstep⟩ := Option.bind_eq_some_iff.mp hstep
    obtain ⟨out, hout, rfl⟩ := Option.map_eq_some_iff.mp hstep
    exact h.runTask hi hout
  | restartSender =>
    cases hstep
    exact ⟨h.acted, h.acks, h.accepts, fun _ ht => nomatch ht⟩
  | accept i o =>
    obtain ⟨a, hi, hstep⟩ := Option.bind_eq_some_iff.mp hstep
    obtain ⟨⟨id, envelope⟩, hconn, rfl⟩ := Option.map_eq_some_iff.mp hstep
    obtain ⟨c, hc, hphase⟩ := h.accepts a (List.mem_of_getElem? hi)
    obtain rfl := Option.some.inj (hconn.symm.trans hc)
    obtain ⟨hsound, hconns, haccepts, hnext⟩ :=
      h.runAccept hconn hphase (hl a hi _ hconn) (C := C) (X := X)
    refine hsound.advanceAccept (haccepts ▸ hi) fun x hx => ?_
    obtain ⟨hxconn, hxphase⟩ := hnext x hx
    exact ⟨(id, envelope), by rw [hxconn, hconns]; exact hconn, hxphase⟩
  | drop i =>
    obtain ⟨a, hi, rfl⟩ := Option.map_eq_some_iff.mp hstep
    exact h.advanceAccept hi fun _ hx => nomatch hx
  | restartReceiver =>
    cases hstep
    exact ⟨h.acted, h.acks, fun _ ha => (nomatch ha), h.tasks⟩
  | editSender e =>
    cases hstep
    exact h.storage _ _
  | editReceiver e | receiverSends peer msg preview =>
    cases hstep
    exact h.storage _ _

theorem sound_start (sender receiver : Mailbox) : (start sender receiver).Sound you :=
  ⟨fun _ h => (nomatch h), fun _ h => (nomatch h), fun _ h => (nomatch h), fun _ h => nomatch h⟩

/-- The receiver stored what it was acknowledged to have stored, for all it did itself. -/
def Keeping (w : World) (id : String) : Prop := id ∈ w.received → w.receiver.Has id

theorem Keeping.runAccept {id : String} (h : w.Keeping id) {o : Outcome}
    {envelope : EncryptedEnvelope} {conn : Nat} {phase : AcceptPhase} :
    (w.runAccept C X you o envelope conn phase).1.Keeping id := by
  unfold World.runAccept
  cases phase with
  | load =>
    dsimp only
    split <;> exact h
  | route state msg =>
    dsimp only
    split
    · exact h
    · split <;> exact h
  | store peerMasterPubkey state msg preview =>
    dsimp only
    split
    · intro hid
      rcases List.mem_cons.mp hid with rfl | hid
      · exact Mailbox.has_receive_self _ _ _ _ (incoming X you peerMasterPubkey msg) _ _
      · exact (h hid).receive _ _ _ _ _ _
    · exact h
  | signal state payload =>
    dsimp only
    split <;> exact h
  | apply payload =>
    dsimp only
    split
    · split
      · exact fun hid => (h hid).markDmDelivered _
      · exact fun hid => (h hid).markDmReadById _
      all_goals exact h
    · exact h
  | ack =>
    dsimp only
    split <;> exact h

theorem runTask_receiver {o : Outcome} {t : Task} {out : World × Option Task}
    (hout : w.runTask C X you o t = some out) :
    out.1.receiver = w.receiver ∧ out.1.received = w.received := by
  have hconnect : ∀ peer id envelope, (w.connect you peer id envelope).1.receiver = w.receiver ∧
      (w.connect you peer id envelope).1.received = w.received := by
    intro peer id envelope
    unfold World.connect
    split <;> exact ⟨rfl, rfl⟩
  have hact : ∀ (u : World) peer id, (u.act you peer id).receiver = u.receiver ∧
      (u.act you peer id).received = u.received := by
    intro u peer id
    unfold World.act
    split <;> exact ⟨rfl, rfl⟩
  cases t with
  | send msg phase =>
    unfold World.runTask World.runSend at hout
    cases phase <;> dsimp only at hout <;> split at hout <;> try split at hout
    all_goals cases hout
    all_goals first | exact ⟨rfl, rfl⟩ | exact hconnect _ _ _ | exact hact _ _ _
  | flush entries phase =>
    unfold World.runTask World.runFlush at hout
    dsimp only at hout
    split at hout <;> try split at hout
    all_goals cases hout
    all_goals first | exact ⟨rfl, rfl⟩ | exact hconnect _ _ _ | exact hact _ _ _

theorem Keeping.step {id : String} (h : w.Keeping id) {l : Label}
    (hl : l ≠ .editReceiver (.deleteDmMessage id)) (hstep : w.step C X me you l = some w') :
    w'.Keeping id := by
  cases l with
  | sendDm peer content media replyTo id' now =>
    unfold World.step at hstep
    dsimp only at hstep
    split at hstep <;> (cases hstep; exact h)
  | flushAllOutbox | restartSender | restartReceiver | editSender e =>
    cases hstep
    exact h
  | task i o =>
    obtain ⟨t, hi, hstep⟩ := Option.bind_eq_some_iff.mp hstep
    obtain ⟨out, hout, rfl⟩ := Option.map_eq_some_iff.mp hstep
    obtain ⟨hreceiver, hreceived⟩ := runTask_receiver hout
    intro hid
    have hid' : id ∈ out.1.received := hid
    rw [hreceived] at hid'
    show out.1.receiver.Has id
    rw [hreceiver]
    exact h hid'
  | accept i o =>
    obtain ⟨a, hi, hstep⟩ := Option.bind_eq_some_iff.mp hstep
    obtain ⟨c, hconn, rfl⟩ := Option.map_eq_some_iff.mp hstep
    exact h.runAccept
  | drop i =>
    obtain ⟨a, hi, rfl⟩ := Option.map_eq_some_iff.mp hstep
    exact h
  | editReceiver e =>
    cases hstep
    intro hid
    cases e with
    | saveRatchetSession _ _ _ | cachePeers _ => exact h hid
    | receive dm master stateJson now msg preview => exact (h hid).receive _ _ _ _ _ _
    | delivered messageId => exact (h hid).markDmDelivered _
    | read messageId => exact (h hid).markDmReadById _
    | markConversationRead conversationId => exact (h hid).markConversationRead _
    | deleteDmMessage messageId =>
      have hne : id ≠ messageId := by
        rintro rfl
        exact hl rfl
      exact (h hid).deleteDmMessage hne
  | receiverSends peer msg preview =>
    cases hstep
    intro hid
    have hthere : (w.receiver.upsertConversation (conversationId X you peer) peer msg.timestamp preview).Has id :=
      h hid
    exact hthere.insertDmMessage _

end World

/-- Along every run of the two devices in which no envelope is refused before its message was
stored: what the sender took as delivered is in the receiver's table, unless the receiver's user
deleted it. -/
theorem delivered_implies_stored {C : Crates} {X : SealCrates} {me you : String}
    {sender receiver : Mailbox} {run : List Label} {w : World}
    (hok : Machine.Along (World.step C X me you) (World.Succeeds C X) (World.start sender receiver)
      run)
    (hrun : Machine.exec (World.step C X me you) (World.start sender receiver) run = some w) :
    ∀ id ∈ w.acted, w.receiver.Has id ∨ .editReceiver (.deleteDmMessage id) ∈ run := by
  have hstep : ∀ (u : World) (l : Label) (u' : World), u.Sound you → u.Succeeds C X l →
      u.step C X me you l = some u' → u'.Sound you := fun _ _ _ h hl hs => h.step hl hs
  have hsound : w.Sound you :=
    Machine.exec_invariant hstep (World.sound_start sender receiver) hok hrun
  intro id hid
  by_cases hdeleted : Label.editReceiver (.deleteDmMessage id) ∈ run
  · exact .inr hdeleted
  · have hnot : ∀ l ∈ run, l ≠ .editReceiver (.deleteDmMessage id) := by
      rintro l hl rfl
      exact hdeleted hl
    have hkeep : ∀ (u : World) (l : Label) (u' : World),
        (fun v : World => v.Keeping id) u → l ≠ .editReceiver (.deleteDmMessage id) →
        u.step C X me you l = some u' → (fun v : World => v.Keeping id) u' :=
      fun _ _ _ h hl hs => h.step hl hs
    have hstart : (fun v : World => v.Keeping id) (World.start sender receiver) :=
      fun hid => nomatch hid
    have hkept := Machine.exec_invariant hkeep hstart (Machine.Along.of_forall hnot) hrun
    exact .inl (hkept (hsound.acted id hid))

section Runs

def bobStart : RatchetState := RatchetState.initBob (bytes32 [7]) (pairOf 2)

def aliceStart : RatchetState :=
  RatchetState.initAlice additiveCrates (pairOf 3) (bytes32 [7]) (pairOf 2).pub

/-- The bytes of a short message: its time, the length of its id, its id and its content. -/
def messageBytes (msg : DirectMessage) : Crypto.Bytes :=
  msg.timestamp.toUInt8 :: msg.id.utf8ByteSize.toUInt8 :: (msg.id.toUTF8.toList ++ msg.content.toUTF8.toList)

def sampleMessage : DirectMessage := ⟨"m1", "hi", 5, [], none⟩

def bobLater : RatchetState :=
  ((aliceStart.encrypt additiveCrates (messageBytes sampleMessage)).elim bobStart fun out =>
    (bobStart.decrypt additiveCrates (pairOf 4) out.2.1 out.2.2).2)

/-- Bob's two states are sealed under their names. -/
def sampleSeal : SealCrates where
  payloadToVec
    | .message msg => messageBytes msg
    | _ => []
  payloadFromSlice bytes := if bytes = messageBytes sampleMessage then some (.message sampleMessage) else none
  sealRatchetState _ st := if st = bobStart then "start" else if st = bobLater then "later" else "other"
  openRatchetState s := if s = "start" then some bobStart else if s = "later" then some bobLater else none
  sha256 bytes := bytes32 [bytes.sum]
  hexEncode := hexEncode
  hexDecode s := (Types.hexDecode s.toUTF8.toList).toOption

abbrev deliveryStep := World.step additiveCrates sampleSeal "a" "b"

/-- Nothing fails; `get_or_establish_session` returns Alice's session. -/
def fine : Outcome := ⟨true, 9, "entry", "da", Vector.replicate 12 0, pairOf 4, some (aliceStart, "db")⟩

def failed : Outcome := { fine with ok := false }

def bobKnows : Mailbox :=
  { Mailbox.empty with
    sessions := [⟨"da", "start", 0⟩]
    peerDelegations := [⟨"a", "sa", "da", ⟨"a", "sa", 0, "da", 0, 0, ""⟩, [], 0⟩] }

/-- `send_dm` up to the connection. -/
abbrev sendRun : List Label :=
  [.sendDm "b" "hi" [] none "m1" 5, .task 0 fine, .task 0 fine, .task 0 fine, .task 0 fine,
    .task 0 fine]

/-- Bob stores the message, but his acknowledgement comes too late; the outbox sends it again,
and he cannot read it twice. -/
abbrev lateAckRun : List Label :=
  sendRun ++ [.accept 0 fine, .accept 0 fine, .accept 0 fine, .task 0 failed, .task 0 fine,
    .accept 0 fine, .flushAllOutbox, .task 0 fine, .task 0 fine, .accept 0 fine, .accept 0 fine,
    .task 0 fine, .task 0 fine]

theorem delivered_implies_stored_late_ack :
    ∃ w, Machine.exec deliveryStep (World.start Mailbox.empty bobKnows) lateAckRun = some w ∧
      w.acted = ["m1"] ∧
      ∀ id ∈ w.acted, w.receiver.Has id ∨ .editReceiver (.deleteDmMessage id) ∈ lateAckRun := by
  have hassumed : Machine.Along deliveryStep (World.Succeeds additiveCrates sampleSeal)
      (World.start Mailbox.empty bobKnows) lateAckRun ∧
      (Machine.exec deliveryStep (World.start Mailbox.empty bobKnows) lateAckRun).map
        World.acted = some ["m1"] := by decide +kernel
  obtain ⟨hok, hacted⟩ := hassumed
  obtain ⟨w, hw, hacted⟩ := Option.map_eq_some_iff.mp hacted
  exact ⟨w, hw, hacted, delivered_implies_stored hok hw⟩

/-- Bob has no session with Alice, and acknowledges the message all the same. -/
abbrev noSessionRun : List Label :=
  sendRun ++ [.accept 0 fine, .accept 0 fine, .task 0 fine, .task 0 fine]

theorem not_delivered_implies_stored_no_session :
    ∃ w ∈ Machine.exec deliveryStep (World.start Mailbox.empty Mailbox.empty) noSessionRun,
      w.acted = ["m1"] ∧ w.sender.messages.map StoredMessage.delivered = [true] ∧
      ¬ w.receiver.Has "m1" := by
  decide +kernel

end Runs

end Proscenium.Dm.Delivery
