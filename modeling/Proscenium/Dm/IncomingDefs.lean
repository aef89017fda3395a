import Proscenium.Dm.ConversationDefs
import Proscenium.Dm.DeliveryDefs

/-! `handle_encrypted_message` with every outcome it can have: the errors, the
panics of the slices it takes of ids and texts, and what it hands to the user
interface and to the call handler. Its statements succeed unless a constraint
refuses them, and no other task runs between them. -/

namespace Proscenium.Dm.Incoming

open Crypto Proscenium.Types

/-- `&id[..id.len().min(8)]`, or its panic. -/
def shortId (id : String) : Option String := sliceTo id (min id.utf8ByteSize 8)

inductive IncomingError where
  /-- `AppError::Other`. -/
  | other (text : String)
  /-- The stored state does not open. -/
  | state
  | header
  | crypto (error : CryptoError)
  | payload
  /-- A constraint of the tables. -/
  | storage
  deriving DecidableEq, Repr

/-- What leaves the handler: events for the frontend, and `call_signal_tx`. -/
inductive Notice where
  | dmReceived (peer : String) (message : StoredMessage)
  | dmDelivered (messageId : String)
  | dmRead (messageId : String)
  | typingIndicator (peer : String)
  | callSignal (peerPubkey : String) (payload : DmPayload)
  deriving DecidableEq, Repr

/-- An envelope, and what the clock and the generators give while it is handled. -/
structure Arrival where
  envelope : EncryptedEnvelope
  now : UInt64
  nonce : Vector UInt8 12
  generated : KeyPair
  deriving DecidableEq, Repr

structure Handled where
  /-- `none` is a panic. -/
  result : Option (Except IncomingError Unit)
  mailbox : Mailbox
  notices : List Notice
  deriving DecidableEq

variable (C : Crates) (X : SealCrates)

/-- The handler up to the plaintext, which comes with the state after it. -/
def openEnvelope (peerDmPubkey : String) (a : Arrival) (m : Mailbox) :
    Option (Except IncomingError (RatchetState × Crypto.Bytes)) :=
  match m.getRatchetSession peerDmPubkey with
  | none => (shortId peerDmPubkey).map fun s => .error (.other ("no session with " ++ s))
  | some stored =>
    match X.openRatchetState stored with
    | none => some (.error .state)
    | some st =>
      match wireToRatchetHeader X a.envelope.ratchetHeader with
      | none => some (.error .header)
      | some header =>
        match st.decrypt C a.generated header a.envelope.ciphertext with
        | (.error e, _) => some (.error (.crypto e))
        | (.ok plaintext, st) => some (.ok (st, plaintext))

def saved (peerDmPubkey : String) (a : Arrival) (st : RatchetState) (m : Mailbox) : Mailbox :=
  m.saveRatchetSession peerDmPubkey (X.sealRatchetState a.nonce st) a.now

/-- The arm of `DmPayload::Message`. -/
def receiveMessage (me peerDmPubkey : String) (a : Arrival) (st : RatchetState) (msg : DirectMessage)
    (m : Mailbox) : Handled :=
  match m.getMasterPubkeyForDmPubkey peerDmPubkey with
  | none =>
    ⟨(shortId peerDmPubkey).map fun s => .error (.other ("no master pubkey for DM key " ++ s)), m, []⟩
  | some peerMasterPubkey =>
    match previewOf msg.content with
    | none => ⟨none, m, []⟩
    | some preview =>
      let row := Delivery.incoming X me peerMasterPubkey msg
      if m.Admits row.conversationId peerMasterPubkey then
        let m := m.receiveDmMessageAtomically peerDmPubkey peerMasterPubkey
          (X.sealRatchetState a.nonce st) a.now row preview
        -- the log line after the transaction cuts the key
        match shortId peerMasterPubkey with
        | none => ⟨none, m, []⟩
        | some _ => ⟨some (.ok ()), m, [.dmReceived peerMasterPubkey row]⟩
      else ⟨some (.error .storage), m, []⟩

/-- What the payload asks for, with the state after it. -/
def dispatch (me peerDmPubkey : String) (a : Arrival) (st : RatchetState) (payload : DmPayload)
    (m : Mailbox) : Handled :=
  let peer := (m.getMasterPubkeyForDmPubkey peerDmPubkey).toList
  match payload with
  | .message msg => receiveMessage X me peerDmPubkey a st msg m
  | .delivered messageId =>
    ⟨some (.ok ()), (saved X peerDmPubkey a st m).markDmDelivered messageId, [.dmDelivered messageId]⟩
  | .read messageId =>
    ⟨some (.ok ()), (saved X peerDmPubkey a st m).markDmReadById messageId, [.dmRead messageId]⟩
  | .typing => ⟨some (.ok ()), saved X peerDmPubkey a st m, peer.map .typingIndicator⟩
  | .callOffer _ _ | .callAnswer _ | .callReject _ | .callHangup _ =>
    ⟨some (.ok ()), saved X peerDmPubkey a st m, peer.map (.callSignal · payload)⟩

/-- `debug` says whether `log::debug!` is on, which then cuts its arguments; the app logs from
`Info`. -/
def handleEncryptedMessage (debug : Bool) (me peerDmPubkey : String) (a : Arrival) (m : Mailbox) :
    Handled :=
  let logged := (shortId a.envelope.sender).isSome ∧ (sliceTo a.envelope.ratchetHeader.dhPublic 8).isSome
  if debug ∧ ¬ logged then ⟨none, m, []⟩
  else
    match openEnvelope C X peerDmPubkey a m with
    | none => ⟨none, m, []⟩
    | some (.error e) => ⟨some (.error e), m, []⟩
    | some (.ok (st, plaintext)) =>
      match X.payloadFromSlice plaintext with
      | none => ⟨some (.error .payload), m, []⟩
      | some payload => dispatch X me peerDmPubkey a st payload m

variable {C X} {debug : Bool} {me peerDmPubkey : String} {a : Arrival} {m : Mailbox}

/-- An envelope opens exactly if the stored session opens, the header is well formed and the
ratchet decrypts. -/
theorem openEnvelope_eq_ok {st' : RatchetState} {plaintext : Crypto.Bytes} :
    openEnvelope C X peerDmPubkey a m = some (.ok (st', plaintext)) ↔
      ∃ stored st header, m.getRatchetSession peerDmPubkey = some stored ∧
        X.openRatchetState stored = some st ∧
        wireToRatchetHeader X a.envelope.ratchetHeader = some header ∧
        st.decrypt C a.generated header a.envelope.ciphertext = (.ok plaintext, st') := by
  unfold openEnvelope
  constructor
  · intro h
    cases hstored : m.getRatchetSession peerDmPubkey with
    | none => simp [hstored] at h
    | some stored =>
      cases hst : X.openRatchetState stored with
      | none => simp [hstored, hst] at h
      | some st =>
        cases hheader : wireToRatchetHeader X a.envelope.ratchetHeader with
        | none => simp [hstored, hst, hheader] at h
        | some header =>
          rcases hdec : st.decrypt C a.generated header a.envelope.ciphertext with ⟨e | p, after⟩
          · simp [hstored, hst, hheader, hdec] at h
          · simp only [hstored, hst, hheader, hdec, Option.some.injEq, Except.ok.injEq, Prod.mk.injEq] at h
            obtain ⟨rfl, rfl⟩ := h
            exact ⟨stored, st, header, rfl, hst, rfl, hdec⟩
  · rintro ⟨stored, st, header, hstored, hst, hheader, hdec⟩
    simp only [hstored, hst, hheader, hdec]

theorem handleEncryptedMessage_cases :
    (∃ st plaintext payload, openEnvelope C X peerDmPubkey a m = some (.ok (st, plaintext)) ∧
      X.payloadFromSlice plaintext = some payload ∧
      handleEncryptedMessage C X debug me peerDmPubkey a m = dispatch X me peerDmPubkey a st payload m) ∨
    ((handleEncryptedMessage C X debug me peerDmPubkey a m).mailbox = m ∧
      (handleEncryptedMessage C X debug me peerDmPubkey a m).notices = []) := by
  unfold handleEncryptedMessage
  dsimp only
  split
  · exact .inr ⟨rfl, rfl⟩
  · rcases openEnvelope C X peerDmPubkey a m with _ | (e | ⟨st, plaintext⟩)
    · exact .inr ⟨rfl, rfl⟩
    · exact .inr ⟨rfl, rfl⟩
    · dsimp only
      cases hpayload : X.payloadFromSlice plaintext with
      | none => exact .inr ⟨rfl, rfl⟩
      | some payload => exact .inl ⟨st, plaintext, payload, rfl, hpayload, rfl⟩

end Proscenium.Dm.Incoming
