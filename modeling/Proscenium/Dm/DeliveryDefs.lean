import Proscenium.Dm.MailboxDefs
import Proscenium.Lib.Machine
import Proscenium.Lib.Tasks

/-! Delivery of direct messages between two devices. The sender runs `send_dm`
commands and flushes of its outbox, one await at a time; a connection carries
one envelope to the receiver, which handles it and then acknowledges it,
whatever the handling came to. Every await can fail, and both devices can
restart. What `get_or_establish_session` returns is left open here. -/

namespace Proscenium.Dm.Delivery

open Crypto Proscenium.Types

inductive SendPhase where
  | upsert (preview : String)
  | insert
  | establish
  | save (peerDmPubkey : String) (state : RatchetState) (envelope : EncryptedEnvelope)
  | connect (envelope : EncryptedEnvelope)
  /-- The connection is given when it leads to the receiver. -/
  | awaitAck (envelope : EncryptedEnvelope) (conn : Option Nat)
  | queue (envelope : EncryptedEnvelope)
  | mark
  deriving DecidableEq, Repr

inductive FlushPhase where
  | read
  /-- Sends the first of the entries that are left. -/
  | connect
  | awaitAck (conn : Option Nat)
  | remove
  | mark
  deriving DecidableEq, Repr

inductive Task where
  | send (msg : StoredMessage) (phase : SendPhase)
  | flush (entries : List OutboxRow) (phase : FlushPhase)
  deriving DecidableEq, Repr

inductive AcceptPhase where
  | load
  | route (state : RatchetState) (msg : DirectMessage)
  | store (peerMasterPubkey : String) (state : RatchetState) (msg : DirectMessage) (preview : String)
  | signal (state : RatchetState) (payload : DmPayload)
  | apply (payload : DmPayload)
  | ack
  deriving DecidableEq, Repr

structure Accept where
  conn : Nat
  phase : AcceptPhase
  deriving DecidableEq, Repr

structure Outcome where
  ok : Bool
  now : UInt64
  /-- What `generate_id` draws. -/
  id : String
  /-- The own DM key. -/
  dmPubkey : String
  nonce : Vector UInt8 12
  generated : KeyPair
  /-- The result of `get_or_establish_session`. -/
  session : Option (RatchetState × String)
  deriving DecidableEq, Repr

inductive Edit where
  | saveRatchetSession (peerPubkey stateJson : String) (updatedAt : UInt64)
  | cachePeers (rows : List Client.PeerIdentityRow)
  | receive (peerDmPubkey peerMasterPubkey stateJson : String) (now : UInt64) (msg : DirectMessage)
      (preview : String)
  | delivered (messageId : String)
  | read (messageId : String)
  | markConversationRead (conversationId : String)
  | deleteDmMessage (messageId : String)
  deriving DecidableEq, Repr

inductive Label where
  | sendDm (peer content : String) (media : List MediaAttachment) (replyTo : Option String)
      (id : String) (now : UInt64)
  | flushAllOutbox
  | task (i : Nat) (outcome : Outcome)
  | restartSender
  | accept (i : Nat) (outcome : Outcome)
  /-- The connection is dropped: a blocked peer, a broken stream. -/
  | drop (i : Nat)
  | restartReceiver
  | editSender (edit : Edit)
  | editReceiver (edit : Edit)
  /-- What the receiver's user sends is stored. -/
  | receiverSends (peer : String) (msg : DirectMessage) (preview : String)
  deriving DecidableEq, Repr

structure World where
  sender : Mailbox
  receiver : Mailbox
  tasks : List Task
  /-- All connections so far, each with its envelope and the id of the message in it. -/
  conns : List (String × EncryptedEnvelope)
  accepts : List Accept
  /-- The connections whose acknowledgement was sent. -/
  acks : List Nat
  /-- The messages for the receiver that the sender marked delivered, or whose outbox entry it
  removed, because of an acknowledgement. -/
  acted : List String
  /-- The messages that the receiver stored. -/
  received : List String
  deriving DecidableEq, Repr

def incoming (X : SealCrates) (me peerMasterPubkey : String) (msg : DirectMessage) : StoredMessage :=
  ⟨msg.id, conversationId X me peerMasterPubkey, peerMasterPubkey, me, msg.content, msg.timestamp,
    msg.media, false, true, msg.replyTo⟩

def outgoing (X : SealCrates) (me : String) (msg : DirectMessage) (peer : String) : StoredMessage :=
  ⟨msg.id, conversationId X me peer, me, peer, msg.content, msg.timestamp, msg.media, false, false,
    msg.replyTo⟩

def directMessage (m : StoredMessage) : DirectMessage :=
  ⟨m.id, m.content, m.timestamp, m.media, m.replyTo⟩

section Handling

variable (C : Crates) (X : SealCrates)

/-- `handle_encrypted_message` up to the payload, with the state after the message. -/
def readEnvelope (generated : KeyPair) (envelope : EncryptedEnvelope) (m : Mailbox) :
    Option (RatchetState × DmPayload) := do
  let stored ← m.getRatchetSession envelope.sender
  let state ← X.openRatchetState stored
  let header ← wireToRatchetHeader X envelope.ratchetHeader
  match state.decrypt C generated header envelope.ciphertext with
  | (.error _, _) => none
  | (.ok plaintext, state) => (X.payloadFromSlice plaintext).map (state, ·)

def Edit.apply (me : String) (m : Mailbox) : Edit → Mailbox
  | .saveRatchetSession peer stateJson now => m.saveRatchetSession peer stateJson now
  | .cachePeers rows => { m with peerDelegations := rows }
  | .receive dm master stateJson now msg preview =>
    m.receiveDmMessageAtomically dm master stateJson now (incoming X me master msg) preview
  | .delivered id => m.markDmDelivered id
  | .read id => m.markDmReadById id
  | .markConversationRead id => m.markConversationRead id
  | .deleteDmMessage id => m.deleteDmMessage id

end Handling

namespace World

def start (sender receiver : Mailbox) : World := ⟨sender, receiver, [], [], [], [], [], []⟩

def advance (w : World) (i : Nat) (next : Option Task) : World :=
  { w with tasks := Tasks.advance w.tasks i next }

def advanceAccept (w : World) (i : Nat) (next : Option Accept) : World :=
  { w with accepts := Tasks.advance w.accepts i next }

variable (C : Crates) (X : SealCrates) (me you : String)

/-- The envelope goes out; the receiver's device gets it if the peer is the receiver. -/
def connect (w : World) (peer messageId : String) (envelope : EncryptedEnvelope) : World × Option Nat :=
  if peer = you then
    ({ w with
        conns := w.conns ++ [(messageId, envelope)]
        accepts := w.accepts ++ [⟨w.conns.length, .load⟩] },
      some w.conns.length)
  else (w, none)

def canEnd (w : World) (o : Outcome) (conn : Option Nat) : Bool :=
  !o.ok || conn.all (· ∈ w.acks)

def act (w : World) (peer messageId : String) : World :=
  if peer = you then { w with acted := messageId :: w.acted } else w

/-- The `send_dm` command from one await to the next. -/
def runSend (w : World) (o : Outcome) (msg : StoredMessage) : SendPhase → Option (World × Option Task)
  | .upsert preview =>
    if o.ok then
      let sender := w.sender.upsertConversation msg.conversationId msg.toPubkey msg.timestamp preview
      some ({ w with sender := sender }, some (.send msg .insert))
    else some (w, none)
  | .insert =>
    if o.ok then
      some ({ w with sender := w.sender.insertDmMessage msg }, some (.send msg .establish))
    else some (w, none)
  | .establish =>
    match o.session with
    | none => some (w, none)
    | some (state, peerDmPubkey) =>
      match state.encrypt C (X.payloadToVec (.message (directMessage msg))) with
      -- the command panics
      | none => some (w, none)
      | some (state, header, ciphertext) =>
        some (w, some (.send msg (.save peerDmPubkey state
          ⟨o.dmPubkey, ratchetHeaderToWire X header, ciphertext⟩)))
  | .save peerDmPubkey state envelope =>
    if o.ok then
      let sealed := X.sealRatchetState o.nonce state
      some ({ w with sender := w.sender.saveRatchetSession peerDmPubkey sealed o.now },
        some (.send msg (.connect envelope)))
    else some (w, none)
  | .connect envelope =>
    if o.ok then
      let out := w.connect you msg.toPubkey msg.id envelope
      some (out.1, some (.send msg (.awaitAck envelope out.2)))
    else some (w, some (.send msg (.queue envelope)))
  | .awaitAck envelope conn =>
    if w.canEnd o conn then
      some (w, some (.send msg (if o.ok then .mark else .queue envelope)))
    else none
  | .queue envelope =>
    -- the insert also fails if the primary key is taken
    if o.ok ∧ ∀ r ∈ w.sender.outbox, r.id ≠ o.id then
      let row := ⟨o.id, msg.toPubkey, envelope, o.now, msg.id⟩
      some ({ w with sender := w.sender.insertOutboxMessage row }, none)
    else some (w, none)
  | .mark =>
    if o.ok then
      let w := { w with sender := w.sender.markDmDelivered msg.id }
      some (w.act you msg.toPubkey msg.id, none)
    else some (w, none)

/-- `flush_all_outbox` from one await to the next. -/
def runFlush (w : World) (o : Outcome) : List OutboxRow → FlushPhase → Option (World × Option Task)
  | _, .read =>
    if o.ok then some (w, some (.flush w.sender.getAllOutboxMessages .connect)) else some (w, none)
  | [], _ => some (w, none)
  | entry :: entries, .connect =>
    if o.ok then
      let out := w.connect you entry.peerPubkey entry.messageId entry.envelope
      some (out.1, some (.flush (entry :: entries) (.awaitAck out.2)))
    else some (w, some (.flush entries .connect))
  | entry :: entries, .awaitAck conn =>
    if w.canEnd o conn then
      some (w, some (if o.ok then .flush (entry :: entries) .remove else .flush entries .connect))
    else none
  | entry :: entries, .remove =>
    if o.ok then
      let w := { w with sender := w.sender.removeOutboxMessage entry.id }
      some (w.act you entry.peerPubkey entry.messageId, some (.flush (entry :: entries) .mark))
    else some (w, some (.flush (entry :: entries) .mark))
  | entry :: entries, .mark =>
    if o.ok then
      let w := { w with sender := w.sender.markDmDelivered entry.messageId }
      some (w.act you entry.peerPubkey entry.messageId, some (.flush entries .connect))
    else some (w, some (.flush entries .connect))

def runTask (w : World) (o : Outcome) : Task → Option (World × Option Task)
  | .send msg phase => w.runSend C X you o msg phase
  | .flush entries phase => w.runFlush you o entries phase

/-- `accept` of an envelope from one await to the next. Whatever fails in the handling is logged,
and the acknowledgement is sent. -/
def runAccept (w : World) (o : Outcome) (envelope : EncryptedEnvelope) (conn : Nat) :
    AcceptPhase → World × Option Accept
  | .load =>
    match if o.ok then readEnvelope C X o.generated envelope w.receiver else none with
    | none => (w, some ⟨conn, .ack⟩)
    | some (state, .message msg) => (w, some ⟨conn, .route state msg⟩)
    | some (state, payload) => (w, some ⟨conn, .signal state payload⟩)
  | .route state msg =>
    match if o.ok then w.receiver.getMasterPubkeyForDmPubkey envelope.sender else none with
    | none => (w, some ⟨conn, .ack⟩)
    | some peerMasterPubkey =>
      match previewOf msg.content with
      -- the handler panics
      | none => (w, none)
      | some preview => (w, some ⟨conn, .store peerMasterPubkey state msg preview⟩)
  | .store peerMasterPubkey state msg preview =>
    if o.ok then
      let sealed := X.sealRatchetState o.nonce state
      let receiver := w.receiver.receiveDmMessageAtomically envelope.sender peerMasterPubkey sealed
        o.now (incoming X you peerMasterPubkey msg) preview
      ({ w with receiver := receiver, received := msg.id :: w.received }, some ⟨conn, .ack⟩)
    else (w, some ⟨conn, .ack⟩)
  | .signal state payload =>
    if o.ok then
      let sealed := X.sealRatchetState o.nonce state
      ({ w with receiver := w.receiver.saveRatchetSession envelope.sender sealed o.now },
        some ⟨conn, .apply payload⟩)
    else (w, some ⟨conn, .ack⟩)
  | .apply payload =>
    if o.ok then
      match payload with
      | .delivered id => ({ w with receiver := w.receiver.markDmDelivered id }, some ⟨conn, .ack⟩)
      | .read id => ({ w with receiver := w.receiver.markDmReadById id }, some ⟨conn, .ack⟩)
      | .message _ | .typing | .callOffer _ _ | .callAnswer _ | .callReject _ | .callHangup _ =>
        (w, some ⟨conn, .ack⟩)
    else (w, some ⟨conn, .ack⟩)
  | .ack => (if o.ok then { w with acks := conn :: w.acks } else w, none)

def step (w : World) : Label → Option World
  | .sendDm peer content media replyTo id now =>
    match previewOf content with
    -- the command panics
    | none => some w
    | some preview => some { w with
        tasks := w.tasks ++
          [.send (outgoing X me ⟨id, content, now, media, replyTo⟩ peer) (.upsert preview)] }
  | .flushAllOutbox => some { w with tasks := w.tasks ++ [.flush [] .read] }
  | .task i o => w.tasks[i]?.bind fun t =>
    (w.runTask C X you o t).map fun out => out.1.advance i out.2
  | .restartSender => some { w with tasks := [] }
  | .accept i o => w.accepts[i]?.bind fun a =>
    w.conns[a.conn]?.map fun c =>
      let out := w.runAccept C X you o c.2 a.conn a.phase
      out.1.advanceAccept i out.2
  | .drop i => w.accepts[i]?.map fun _ => w.advanceAccept i none
  | .restartReceiver => some { w with accepts := [] }
  | .editSender e => some { w with sender := e.apply X me w.sender }
  | .editReceiver e => some { w with receiver := e.apply X you w.receiver }
  | .receiverSends peer msg preview =>
    let receiver := w.receiver.upsertConversation (conversationId X you peer) peer msg.timestamp preview
    some { w with receiver := receiver.insertDmMessage (outgoing X you msg peer) }

end World
end Proscenium.Dm.Delivery
