import Proscenium.Crypto.MessageKeys
import Proscenium.Dm.DeliveryAcks

/-! What a receiver's table can hold. Connections may break, envelopes come late
and more than once, sends and flushes run at the same time on sessions that
overwrite each other, and both devices restart; a message that is stored is
still one that the sender's user wrote to this receiver, word for word. -/

namespace Proscenium.Dm.Delivery

open Crypto Proscenium.Types

/-- The columns of a message that no statement changes. -/
structure StoredMessage.SameText (r q : StoredMessage) : Prop where
  id : r.id = q.id
  conversationId : r.conversationId = q.conversationId
  fromPubkey : r.fromPubkey = q.fromPubkey
  toPubkey : r.toPubkey = q.toPubkey
  content : r.content = q.content
  timestamp : r.timestamp = q.timestamp
  media : r.media = q.media
  replyTo : r.replyTo = q.replyTo

def Sent (run : List Label) (peer : String) (m : DirectMessage) : Prop :=
  .sendDm peer m.content m.media m.replyTo m.id m.timestamp ∈ run

/-- Where a stored message comes from: it was there before, it came from another device, the receiver's user
sent it, or it is one that was sent here. -/
def Accounted (X : SealCrates) (you : String) (receiver : Mailbox) (run : List Label) (r : StoredMessage) :
    Prop :=
  (∃ q ∈ receiver.messages, StoredMessage.SameText r q) ∨
  (∃ dm master stateJson now msg preview, .editReceiver (.receive dm master stateJson now msg preview) ∈ run ∧
    StoredMessage.SameText r (incoming X you master msg)) ∨
  (∃ peer msg preview, .receiverSends peer msg preview ∈ run ∧ StoredMessage.SameText r (outgoing X you msg peer)) ∨
  ∃ m master, Sent run you m ∧ StoredMessage.SameText r (incoming X you master m)

section Invariant

variable (C : Crates) (X : SealCrates) (you : String) (receiver : Mailbox) (run : List Label)

/-- The ciphertext is the message, sealed under some key. -/
def Seals (envelope : EncryptedEnvelope) (m : DirectMessage) : Prop :=
  ∃ key, envelope.ciphertext = encryptMessage C key (X.payloadToVec (.message m))

def Parcel (peer messageId : String) (envelope : EncryptedEnvelope) : Prop :=
  ∃ m, Sent run peer m ∧ m.id = messageId ∧ Seals C X envelope m

def Task.Genuine : Task → Prop
  | .send msg phase =>
    Sent run msg.toPubkey (directMessage msg) ∧
      match phase with
      | .save _ _ envelope | .connect envelope | .awaitAck envelope _ | .queue envelope =>
        Seals C X envelope (directMessage msg)
      | .upsert _ | .insert | .establish | .mark => True
  | .flush entries _ => ∀ r ∈ entries, Parcel C X run r.peerPubkey r.messageId r.envelope

def AcceptPhase.Genuine : AcceptPhase → Prop
  | .route _ msg | .store _ _ msg _ => Sent run you msg
  | .load | .signal _ _ | .apply _ | .ack => True

structure World.Genuine (w : World) : Prop where
  tasks : ∀ t ∈ w.tasks, t.Genuine C X run
  outbox : ∀ r ∈ w.sender.outbox, Parcel C X run r.peerPubkey r.messageId r.envelope
  conns : ∀ c ∈ w.conns, Parcel C X run you c.1 c.2
  accepts : ∀ a ∈ w.accepts, a.phase.Genuine you run
  messages : ∀ r ∈ w.receiver.messages, Accounted X you receiver run r

end Invariant

variable {C : Crates} {X : SealCrates} {me you : String} {receiver : Mailbox} {run : List Label}

section Texts

theorem StoredMessage.SameText.trans {r q p : StoredMessage} (h : StoredMessage.SameText r q)
    (h' : StoredMessage.SameText q p) : StoredMessage.SameText r p :=
  ⟨h.id.trans h'.id, h.conversationId.trans h'.conversationId, h.fromPubkey.trans h'.fromPubkey,
    h.toPubkey.trans h'.toPubkey, h.content.trans h'.content, h.timestamp.trans h'.timestamp,
    h.media.trans h'.media, h.replyTo.trans h'.replyTo⟩

theorem Accounted.of_sameText {r q : StoredMessage} (h : Accounted X you receiver run q)
    (hsame : StoredMessage.SameText r q) : Accounted X you receiver run r := by
  rcases h with ⟨p, hp, hqp⟩ | ⟨dm, master, stateJson, now, msg, preview, hmem, hqp⟩ |
    ⟨peer, msg, preview, hmem, hqp⟩ | ⟨m, master, hm, hqp⟩
  · exact Or.inl ⟨p, hp, hsame.trans hqp⟩
  · exact Or.inr (Or.inl ⟨dm, master, stateJson, now, msg, preview, hmem, hsame.trans hqp⟩)
  · exact Or.inr (Or.inr (Or.inl ⟨peer, msg, preview, hmem, hsame.trans hqp⟩))
  · exact Or.inr (Or.inr (Or.inr ⟨m, master, hm, hsame.trans hqp⟩))

def Clean (X : SealCrates) (you : String) (receiver : Mailbox) (run : List Label) (m : Mailbox) : Prop :=
  ∀ r ∈ m.messages, Accounted X you receiver run r

variable {m : Mailbox} {messageId : String}

theorem Clean.updateWhere (h : Clean X you receiver run m) {p : StoredMessage → Bool}
    {f : StoredMessage → StoredMessage} (hf : ∀ r, StoredMessage.SameText (f r) r) :
    ∀ r ∈ Table.updateWhere p f m.messages, Accounted X you receiver run r := by
  intro r hr
  obtain ⟨q, hq, rfl⟩ := List.mem_map.mp hr
  split
  · exact (h q hq).of_sameText (hf q)
  · exact h q hq

theorem Clean.markDmDelivered (h : Clean X you receiver run m) :
    Clean X you receiver run (m.markDmDelivered messageId) :=
  h.updateWhere fun _ => ⟨rfl, rfl, rfl, rfl, rfl, rfl, rfl, rfl⟩

theorem Clean.markDmReadById (h : Clean X you receiver run m) :
    Clean X you receiver run (m.markDmReadById messageId) :=
  h.updateWhere fun _ => ⟨rfl, rfl, rfl, rfl, rfl, rfl, rfl, rfl⟩

theorem Clean.markConversationRead (h : Clean X you receiver run m) (conversationId : String) :
    Clean X you receiver run (m.markConversationRead conversationId) :=
  h.updateWhere fun _ => ⟨rfl, rfl, rfl, rfl, rfl, rfl, rfl, rfl⟩

theorem Clean.deleteDmMessage (h : Clean X you receiver run m) :
    Clean X you receiver run (m.deleteDmMessage messageId) :=
  fun r hr => h r (List.mem_of_mem_filter hr)

theorem Clean.insertDmMessage (h : Clean X you receiver run m) {msg : StoredMessage}
    (hmsg : Accounted X you receiver run msg) : Clean X you receiver run (m.insertDmMessage msg) := by
  intro r hr
  unfold Mailbox.insertDmMessage at hr
  split at hr
  · exact h r hr
  · rcases List.mem_append.mp hr with hr | hr
    · exact h r hr
    · exact List.mem_singleton.mp hr ▸ hmsg

theorem Clean.receive (h : Clean X you receiver run m) (dm master stateJson : String) (now : UInt64)
    {msg : StoredMessage} (hmsg : Accounted X you receiver run msg) (preview : String) :
    Clean X you receiver run (m.receiveDmMessageAtomically dm master stateJson now msg preview) := by
  intro r hr
  rw [Mailbox.messages_receive] at hr
  exact h.insertDmMessage hmsg r hr

theorem Clean.edit (h : Clean X you receiver run m) {e : Edit} (he : .editReceiver e ∈ run) :
    Clean X you receiver run (e.apply X you m) := by
  cases e with
  | saveRatchetSession _ _ _ | cachePeers _ => exact h
  | receive dm master stateJson now msg preview =>
    have hmsg : Accounted X you receiver run (incoming X you master msg) :=
      Or.inr (Or.inl ⟨dm, master, stateJson, now, msg, preview, he, ⟨rfl, rfl, rfl, rfl, rfl, rfl, rfl, rfl⟩⟩)
    exact h.receive dm master stateJson now hmsg preview
  | delivered messageId => exact h.markDmDelivered
  | read messageId => exact h.markDmReadById
  | markConversationRead conversationId => exact h.markConversationRead conversationId
  | deleteDmMessage messageId => exact h.deleteDmMessage

theorem outbox_edit (e : Edit) : (e.apply X me m).outbox = m.outbox := by
  cases e with
  | receive dm master stateJson now msg preview =>
    show (Mailbox.insertDmMessage _ _).outbox = _
    unfold Mailbox.insertDmMessage
    split <;> rfl
  | _ => rfl

end Texts

/-- `serde_json` reads back the messages of the run that it wrote. -/
def ReadsBack (X : SealCrates) (run : List Label) : Prop :=
  ∀ peer m, Sent run peer m → X.payloadFromSlice (X.payloadToVec (.message m)) = some (.message m)

theorem readEnvelope_of_parcel (hlaw : C.Lawful) (hown : C.OpensOwnKey) (hX : ReadsBack X run)
    {peer messageId : String} {envelope : EncryptedEnvelope}
    (h : Parcel C X run peer messageId envelope) {generated : KeyPair} {m : Mailbox} {state : RatchetState}
    {payload : DmPayload} (hread : readEnvelope C X generated envelope m = some (state, payload)) :
    ∃ msg, payload = .message msg ∧ Sent run peer msg := by
  obtain ⟨msg, hsent, -, key, hct⟩ := h
  refine ⟨msg, ?_, hsent⟩
  unfold readEnvelope at hread
  obtain ⟨stored, -, hread⟩ := Option.bind_eq_some_iff.mp hread
  obtain ⟨st, -, hread⟩ := Option.bind_eq_some_iff.mp hread
  obtain ⟨header, -, hread⟩ := Option.bind_eq_some_iff.mp hread
  rw [hct] at hread
  split at hread
  next => exact nomatch hread
  next plaintext st' hdec =>
    obtain ⟨key', -, hopen, -⟩ := RatchetState.decrypt_reads hdec
    obtain rfl := key_of_opens hown hopen
    rw [RatchetState.decryptMessage_encryptMessage hlaw] at hopen
    obtain rfl := Except.ok.inj hopen
    rw [hX peer msg hsent] at hread
    exact (Prod.mk.inj (Option.some.inj hread)).2.symm

namespace World

variable {w w' : World}

theorem Genuine.sender (h : w.Genuine C X you receiver run) (sender : Mailbox)
    (houtbox : ∀ r ∈ sender.outbox, Parcel C X run r.peerPubkey r.messageId r.envelope) :
    ({ w with sender := sender }).Genuine C X you receiver run :=
  ⟨h.tasks, houtbox, h.conns, h.accepts, h.messages⟩

theorem Genuine.connect (h : w.Genuine C X you receiver run) {peer messageId : String}
    {envelope : EncryptedEnvelope} (hparcel : Parcel C X run peer messageId envelope) :
    (w.connect you peer messageId envelope).1.Genuine C X you receiver run := by
  unfold World.connect
  split
  next hpeer =>
    refine ⟨h.tasks, h.outbox, fun c hc => ?_, fun a ha => ?_, h.messages⟩
    · rcases List.mem_append.mp hc with hc | hc
      · exact h.conns c hc
      · obtain rfl := List.mem_singleton.mp hc
        exact hpeer ▸ hparcel
    · rcases List.mem_append.mp ha with ha | ha
      · exact h.accepts a ha
      · obtain rfl := List.mem_singleton.mp ha
        trivial
  next => exact h

theorem Genuine.act (h : w.Genuine C X you receiver run) (peer messageId : String) :
    (w.act you peer messageId).Genuine C X you receiver run := by
  unfold World.act
  split
  · exact ⟨h.tasks, h.outbox, h.conns, h.accepts, h.messages⟩
  · exact h

def KeepsGenuine (C : Crates) (X : SealCrates) (you : String) (receiver : Mailbox) (run : List Label)
    (w : World) (out : World × Option Task) : Prop :=
  out.1.Genuine C X you receiver run ∧ out.1.tasks = w.tasks ∧ ∀ x ∈ out.2, x.Genuine C X run

theorem Genuine.over (h : w'.Genuine C X you receiver run) (htasks : w'.tasks = w.tasks) :
    KeepsGenuine C X you receiver run w (w', none) := ⟨h, htasks, fun _ hx => nomatch hx⟩

theorem Genuine.goesOn (h : w'.Genuine C X you receiver run) (htasks : w'.tasks = w.tasks) {t : Task}
    (ht : t.Genuine C X run) : KeepsGenuine C X you receiver run w (w', some t) := by
  refine ⟨h, htasks, fun x hx => ?_⟩
  obtain rfl := Option.mem_some_iff.mp hx
  exact ht

theorem Genuine.runSend (h : w.Genuine C X you receiver run) {o : Outcome} {msg : StoredMessage}
    {phase : SendPhase} (ht : (Task.send msg phase).Genuine C X run) {out : World × Option Task}
    (hout : w.runSend C X you o msg phase = some out) : KeepsGenuine C X you receiver run w out := by
  have hsent : Sent run msg.toPubkey (directMessage msg) := ht.1
  have hplain : (∀ phase, phase = .insert ∨ phase = .establish ∨ phase = .mark →
      (Task.send msg phase).Genuine C X run) := by
    rintro phase (rfl | rfl | rfl)
    · exact ⟨hsent, trivial⟩
    · exact ⟨hsent, trivial⟩
    · exact ⟨hsent, trivial⟩
  have hparcel : ∀ {envelope}, Seals C X envelope (directMessage msg) →
      Parcel C X run msg.toPubkey msg.id envelope := fun hs => ⟨directMessage msg, hsent, rfl, hs⟩
  unfold World.runSend at hout
  cases phase with
  | upsert preview =>
    dsimp only at hout
    split at hout
    · cases hout
      exact (h.sender (w.sender.upsertConversation _ _ _ _) h.outbox).goesOn rfl (hplain _ (Or.inl rfl))
    · cases hout
      exact h.over rfl
  | insert =>
    dsimp only at hout
    split at hout
    · cases hout
      have houtbox : (w.sender.insertDmMessage msg).outbox = w.sender.outbox := by
        unfold Mailbox.insertDmMessage
        split <;> rfl
      exact (h.sender _ (houtbox ▸ h.outbox)).goesOn rfl (hplain _ (Or.inr (Or.inl rfl)))
    · cases hout
      exact h.over rfl
  | establish =>
    dsimp only at hout
    split at hout
    · cases hout
      exact h.over rfl
    · split at hout
      · cases hout
        exact h.over rfl
      next state header ciphertext hencrypt =>
        cases hout
        have hseals : Seals C X ⟨o.dmPubkey, ratchetHeaderToWire X header, ciphertext⟩ (directMessage msg) := by
          unfold RatchetState.encrypt at hencrypt
          split at hencrypt
          · cases hencrypt
          · cases hencrypt
            exact ⟨_, rfl⟩
        exact h.goesOn rfl (show (Task.send msg _).Genuine C X run from ⟨hsent, hseals⟩)
  | save peerDmPubkey state envelope =>
    dsimp only at hout
    split at hout
    · cases hout
      exact (h.sender (w.sender.saveRatchetSession _ _ _) h.outbox).goesOn rfl ht
    · cases hout
      exact h.over rfl
  | connect envelope =>
    dsimp only at hout
    split at hout
    · cases hout
      exact (h.connect (hparcel ht.2)).goesOn (tasks_connect _ _ _) ht
    · cases hout
      exact h.goesOn rfl ht
  | awaitAck envelope conn =>
    dsimp only at hout
    split at hout
    · cases hout
      by_cases hok : o.ok = true
      · rw [if_pos hok]
        exact h.goesOn rfl (hplain _ (Or.inr (Or.inr rfl)))
      · rw [if_neg hok]
        exact h.goesOn rfl ht
    · cases hout
  | queue envelope =>
    dsimp only at hout
    split at hout
    · cases hout
      refine (h.sender _ fun r hr => ?_).over rfl
      rcases List.mem_append.mp hr with hr | hr
      · exact h.outbox r hr
      · obtain rfl := List.mem_singleton.mp hr
        exact hparcel ht.2
    · cases hout
      exact h.over rfl
  | mark =>
    dsimp only at hout
    split at hout
    · cases hout
      exact ((h.sender (w.sender.markDmDelivered msg.id) h.outbox).act _ _).over (tasks_act _ _ _ _)
    · cases hout
      exact h.over rfl

theorem Genuine.runFlush (h : w.Genuine C X you receiver run) {o : Outcome} {entries : List OutboxRow}
    {phase : FlushPhase} (ht : (Task.flush entries phase).Genuine C X run) {out : World × Option Task}
    (hout : w.runFlush you o entries phase = some out) : KeepsGenuine C X you receiver run w out := by
  unfold World.runFlush at hout
  split at hout
  · split at hout
    · cases hout
      refine h.goesOn rfl fun r hr => h.outbox r ?_
      exact (List.mem_insertionSort _).mp hr
    · cases hout
      exact h.over rfl
  · cases hout
    exact h.over rfl
  · rename_i entry rest
    have hnext : ∀ phase, (Task.flush rest phase).Genuine C X run :=
      fun _ r hr => ht r (List.mem_cons_of_mem _ hr)
    split at hout
    · cases hout
      exact (h.connect (ht entry List.mem_cons_self)).goesOn (tasks_connect _ _ _) ht
    · cases hout
      exact h.goesOn rfl (hnext .connect)
  · rename_i entry rest conn
    have hnext : ∀ phase, (Task.flush rest phase).Genuine C X run :=
      fun _ r hr => ht r (List.mem_cons_of_mem _ hr)
    split at hout
    · cases hout
      by_cases hok : o.ok = true
      · rw [if_pos hok]
        exact h.goesOn rfl ht
      · rw [if_neg hok]
        exact h.goesOn rfl (hnext .connect)
    · cases hout
  · rename_i entry rest
    split at hout
    · cases hout
      have hremoved := h.sender (w.sender.removeOutboxMessage entry.id)
        fun r hr => h.outbox r (List.mem_of_mem_filter hr)
      exact (hremoved.act _ _).goesOn (tasks_act _ _ _ _) ht
    · cases hout
      exact h.goesOn rfl ht
  · rename_i entry rest
    have hnext : ∀ phase, (Task.flush rest phase).Genuine C X run :=
      fun _ r hr => ht r (List.mem_cons_of_mem _ hr)
    split at hout
    · cases hout
      exact ((h.sender (w.sender.markDmDelivered entry.messageId) h.outbox).act _ _).goesOn
        (tasks_act _ _ _ _) (hnext .connect)
    · cases hout
      exact h.goesOn rfl (hnext .connect)

theorem Genuine.advance (h : w.Genuine C X you receiver run) {i : Nat} {t : Task} (hi : w.tasks[i]? = some t)
    {next : Option Task} (hnext : ∀ x ∈ next, x.Genuine C X run) :
    (w.advance i next).Genuine C X you receiver run := by
  refine ⟨fun x hx => ?_, h.outbox, h.conns, h.accepts, h.messages⟩
  have hx' : x ∈ Tasks.advance w.tasks i next := hx
  rcases (Tasks.mem_advance hi).mp hx' with hx' | hx'
  · exact hnext x hx'
  · exact h.tasks x (List.mem_of_mem_eraseIdx hx')

theorem Genuine.advanceAccept (h : w.Genuine C X you receiver run) {i : Nat} {a : Accept}
    (hi : w.accepts[i]? = some a) {next : Option Accept} (hnext : ∀ x ∈ next, x.phase.Genuine you run) :
    (w.advanceAccept i next).Genuine C X you receiver run := by
  refine ⟨h.tasks, h.outbox, h.conns, fun x hx => ?_, h.messages⟩
  have hx' : x ∈ Tasks.advance w.accepts i next := hx
  rcases (Tasks.mem_advance hi).mp hx' with hx' | hx'
  · exact hnext x hx'
  · exact h.accepts x (List.mem_of_mem_eraseIdx hx')

theorem Genuine.setReceiver (h : w.Genuine C X you receiver run) (m : Mailbox) (received : List String)
    (hm : Clean X you receiver run m) :
    ({ w with receiver := m, received := received }).Genuine C X you receiver run :=
  ⟨h.tasks, h.outbox, h.conns, h.accepts, hm⟩

def KeepsAccepting (C : Crates) (X : SealCrates) (you : String) (receiver : Mailbox) (run : List Label)
    (w : World) (out : World × Option Accept) : Prop :=
  out.1.Genuine C X you receiver run ∧ out.1.accepts = w.accepts ∧ ∀ x ∈ out.2, x.phase.Genuine you run

theorem Genuine.next (h : w'.Genuine C X you receiver run) (haccepts : w'.accepts = w.accepts) {a : Accept}
    (ha : a.phase.Genuine you run) : KeepsAccepting C X you receiver run w (w', some a) := by
  refine ⟨h, haccepts, fun x hx => ?_⟩
  obtain rfl := Option.mem_some_iff.mp hx
  exact ha

theorem Genuine.runAccept (hlaw : C.Lawful) (hown : C.OpensOwnKey) (hX : ReadsBack X run)
    (h : w.Genuine C X you receiver run) {o : Outcome} {messageId : String} {envelope : EncryptedEnvelope}
    (hparcel : Parcel C X run you messageId envelope) {conn : Nat} {phase : AcceptPhase}
    (hphase : phase.Genuine you run) :
    KeepsAccepting C X you receiver run w (w.runAccept C X you o envelope conn phase) := by
  have hack : (AcceptPhase.ack).Genuine you run := trivial
  unfold World.runAccept
  cases phase with
  | load =>
    dsimp only
    split
    · exact h.next rfl hack
    · rename_i state msg hread
      refine h.next rfl ?_
      have hread : readEnvelope C X o.generated envelope w.receiver = some (state, .message msg) := by
        split at hread
        · exact hread
        · cases hread
      obtain ⟨sent, hsame, hsent⟩ := readEnvelope_of_parcel hlaw hown hX hparcel hread
      obtain rfl := DmPayload.message.inj hsame
      exact hsent
    · exact h.next rfl (show (AcceptPhase.signal _ _).Genuine you run from trivial)
  | route state msg =>
    dsimp only
    split
    · exact h.next rfl hack
    · split
      · exact ⟨h, rfl, fun _ hx => nomatch hx⟩
      · exact h.next rfl (show (AcceptPhase.store _ _ msg _).Genuine you run from hphase)
  | store master state msg preview =>
    dsimp only
    split
    · have hmsg : Accounted X you receiver run (incoming X you master msg) :=
        Or.inr (Or.inr (Or.inr ⟨msg, master, hphase, ⟨rfl, rfl, rfl, rfl, rfl, rfl, rfl, rfl⟩⟩))
      have hclean : Clean X you receiver run w.receiver := h.messages
      exact (h.setReceiver _ _ (hclean.receive _ _ _ _ hmsg _)).next rfl hack
    · exact h.next rfl hack
  | signal state payload =>
    dsimp only
    split
    · exact (h.setReceiver (w.receiver.saveRatchetSession _ _ _) w.received h.messages).next rfl
        (show (AcceptPhase.apply _).Genuine you run from trivial)
    · exact h.next rfl hack
  | apply payload =>
    have hclean : Clean X you receiver run w.receiver := h.messages
    dsimp only
    split
    · split
      · exact (h.setReceiver _ w.received hclean.markDmDelivered).next rfl hack
      · exact (h.setReceiver _ w.received hclean.markDmReadById).next rfl hack
      all_goals exact h.next rfl hack
    · exact h.next rfl hack
  | ack =>
    dsimp only
    refine ⟨?_, ?_, fun _ hx => nomatch hx⟩
    · split
      · exact ⟨h.tasks, h.outbox, h.conns, h.accepts, h.messages⟩
      · exact h
    · split <;> rfl

theorem Genuine.step (hlaw : C.Lawful) (hown : C.OpensOwnKey) (hX : ReadsBack X run)
    (h : w.Genuine C X you receiver run) {l : Label} (hl : l ∈ run)
    (hstep : w.step C X me you l = some w') : w'.Genuine C X you receiver run := by
  cases l with
  | sendDm peer content media replyTo id now =>
    simp only [World.step] at hstep
    split at hstep
    · cases hstep
      exact h
    · cases hstep
      refine ⟨fun t ht => ?_, h.outbox, h.conns, h.accepts, h.messages⟩
      rcases List.mem_append.mp ht with ht | ht
      · exact h.tasks t ht
      · obtain rfl := List.mem_singleton.mp ht
        exact ⟨hl, trivial⟩
  | flushAllOutbox =>
    cases hstep
    refine ⟨fun t ht => ?_, h.outbox, h.conns, h.accepts, h.messages⟩
    rcases List.mem_append.mp ht with ht | ht
    · exact h.tasks t ht
    · obtain rfl := List.mem_singleton.mp ht
      exact fun r hr => nomatch hr
  | task i o =>
    obtain ⟨t, hi, hstep⟩ := Option.bind_eq_some_iff.mp hstep
    obtain ⟨out, hout, rfl⟩ := Option.map_eq_some_iff.mp hstep
    have ht := h.tasks t (List.mem_of_getElem? hi)
    have hkeeps : KeepsGenuine C X you receiver run w out := by
      cases t with
      | send msg phase => exact h.runSend ht hout
      | flush entries phase => exact h.runFlush ht hout
    obtain ⟨hout, htasks, hnext⟩ := hkeeps
    exact hout.advance (htasks ▸ hi) hnext
  | restartSender =>
    cases hstep
    exact ⟨fun t ht => (nomatch ht), h.outbox, h.conns, h.accepts, h.messages⟩
  | accept i o =>
    obtain ⟨a, hi, hstep⟩ := Option.bind_eq_some_iff.mp hstep
    obtain ⟨c, hconn, rfl⟩ := Option.map_eq_some_iff.mp hstep
    have hparcel := h.conns c (List.mem_of_getElem? hconn)
    have hphase := h.accepts a (List.mem_of_getElem? hi)
    obtain ⟨hout, haccepts, hnext⟩ := h.runAccept (o := o) hlaw hown hX hparcel hphase
    exact hout.advanceAccept (haccepts ▸ hi) hnext
  | drop i =>
    obtain ⟨a, hi, rfl⟩ := Option.map_eq_some_iff.mp hstep
    exact h.advanceAccept hi fun _ hx => nomatch hx
  | restartReceiver =>
    cases hstep
    exact ⟨h.tasks, h.outbox, h.conns, fun a ha => (nomatch ha), h.messages⟩
  | editSender e =>
    cases hstep
    exact h.sender _ (by rw [outbox_edit]; exact h.outbox)
  | editReceiver e =>
    cases hstep
    have hclean : Clean X you receiver run w.receiver := h.messages
    exact h.setReceiver _ w.received (hclean.edit hl)
  | receiverSends peer msg preview =>
    cases hstep
    have hclean : Clean X you receiver run
        (w.receiver.upsertConversation (conversationId X you peer) peer msg.timestamp preview) := h.messages
    have hmsg : Accounted X you receiver run (outgoing X you msg peer) :=
      Or.inr (Or.inr (Or.inl ⟨peer, msg, preview, hl, ⟨rfl, rfl, rfl, rfl, rfl, rfl, rfl, rfl⟩⟩))
    exact h.setReceiver _ w.received (hclean.insertDmMessage hmsg)

end World

/-- Along every run of the two devices each message in the receiver's table was there before, came from
another device, was sent by the receiver's user, or is word for word one that the sender's user wrote to
this receiver. -/
theorem delivered_content (C : Crates) (X : SealCrates) (me you : String) (sender receiver : Mailbox)
    (run : List Label) (hlaw : C.Lawful) (hown : C.OpensOwnKey) (hX : ReadsBack X run)
    (houtbox : sender.outbox = []) (w : World)
    (hrun : Machine.exec (World.step C X me you) (World.start sender receiver) run = some w) :
    ∀ r ∈ w.receiver.messages, Accounted X you receiver run r := by
  have hstart : (World.start sender receiver).Genuine C X you receiver run := by
    refine ⟨fun t ht => (nomatch ht), fun r hr => ?_, fun c hc => (nomatch hc), fun a ha => (nomatch ha),
      fun r hr => ?_⟩
    · rw [show (World.start sender receiver).sender.outbox = [] from houtbox] at hr
      exact nomatch hr
    · exact Or.inl ⟨r, hr, ⟨rfl, rfl, rfl, rfl, rfl, rfl, rfl, rfl⟩⟩
  have hstep : ∀ (u : World) (l : Label) (u' : World), u.Genuine C X you receiver run → l ∈ run →
      u.step C X me you l = some u' → u'.Genuine C X you receiver run :=
    fun _ _ _ h hl hs => h.step hlaw hown hX hl hs
  exact (Machine.exec_invariant hstep hstart (Machine.Along.of_forall fun _ hl => hl) hrun).messages

section Runs

theorem readsBack_lateAckRun : ReadsBack sampleSeal lateAckRun := by
  intro peer m hsent
  have hone : m = sampleMessage := by
    obtain ⟨id, content, timestamp, media, replyTo⟩ := m
    simp [Sent] at hsent
    obtain ⟨-, rfl, rfl, rfl, rfl, rfl⟩ := hsent
    rfl
  rw [hone]
  simp [sampleSeal]

/-- The message comes twice, and is stored once. -/
theorem delivered_content_late_ack :
    ∃ w, Machine.exec deliveryStep (World.start Mailbox.empty bobKnows) lateAckRun = some w ∧
      w.receiver.messages.map StoredMessage.content = ["hi"] ∧
      ∀ r ∈ w.receiver.messages, Accounted sampleSeal "b" bobKnows lateAckRun r := by
  have hran : (Machine.exec deliveryStep (World.start Mailbox.empty bobKnows) lateAckRun).map
      (fun w => w.receiver.messages.map StoredMessage.content) = some ["hi"] := by decide +kernel
  obtain ⟨w, hw, hcontent⟩ := Option.map_eq_some_iff.mp hran
  exact ⟨w, hw, hcontent, delivered_content additiveCrates sampleSeal "a" "b" Mailbox.empty bobKnows
    lateAckRun additiveCrates_lawful opensOwnKey_additiveCrates readsBack_lateAckRun rfl w hw⟩

end Runs

end Proscenium.Dm.Delivery
