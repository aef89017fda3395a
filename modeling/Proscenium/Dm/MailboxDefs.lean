import Proscenium.Client.ProfileDefs
import Proscenium.Crypto.RatchetDefs
import Proscenium.Types.Content

/-! The direct-message tables of a device and the statements over them. What
goes over a session is sealed by serde and by the ratchet; the parts that the
crate imports for it are parameters. -/

namespace Proscenium.Dm

open Crypto Proscenium.Types
open Client (PeerIdentityRow)

/-- What is used of `serde_json`, `sha2`, `hex` and of the cipher that seals a stored state. -/
structure SealCrates where
  payloadToVec : DmPayload → Crypto.Bytes
  payloadFromSlice : Crypto.Bytes → Option DmPayload
  /-- `seal_ratchet_state` of the state's JSON, with the nonce it draws. -/
  sealRatchetState : Vector UInt8 12 → RatchetState → String
  openRatchetState : String → Option RatchetState
  sha256 : Crypto.Bytes → Bytes32
  hexEncode : Crypto.Bytes → String
  hexDecode : String → Option Crypto.Bytes

structure RatchetHeaderWire where
  dhPublic : String
  messageNumber : UInt32
  previousChainLength : UInt32
  deriving DecidableEq, Repr

structure EncryptedEnvelope where
  sender : String
  ratchetHeader : RatchetHeaderWire
  ciphertext : Crypto.Bytes
  deriving DecidableEq, Repr

structure StoredMessage where
  id : String
  conversationId : String
  fromPubkey : String
  toPubkey : String
  content : String
  timestamp : UInt64
  media : List MediaAttachment
  read : Bool
  delivered : Bool
  replyTo : Option String
  deriving DecidableEq, Repr

structure ConversationRow where
  conversationId : String
  peerPubkey : String
  lastMessageAt : UInt64
  lastMessagePreview : String
  unreadCount : Nat
  createdAt : UInt64
  deriving DecidableEq, Repr

structure OutboxRow where
  id : String
  peerPubkey : String
  envelope : EncryptedEnvelope
  createdAt : UInt64
  messageId : String
  deriving DecidableEq, Repr

structure SessionRow where
  peerPubkey : String
  stateJson : String
  updatedAt : UInt64
  deriving DecidableEq, Repr

structure Mailbox where
  sessions : List SessionRow
  conversations : List ConversationRow
  messages : List StoredMessage
  outbox : List OutboxRow
  peerDelegations : List PeerIdentityRow
  deriving DecidableEq, Repr

section Wire

variable (X : SealCrates)

def wireToRatchetHeader (wire : RatchetHeaderWire) : Option RatchetHeader := do
  let bytes ← X.hexDecode wire.dhPublic
  if h : bytes.length = 32 then
    some ⟨⟨bytes.toArray, h⟩, wire.messageNumber, wire.previousChainLength⟩
  else none

def ratchetHeaderToWire (header : RatchetHeader) : RatchetHeaderWire :=
  ⟨X.hexEncode header.dhPublic.toList, header.messageNumber, header.previousChainLength⟩

def conversationId (pubkeyA pubkeyB : String) : String :=
  let keys := if pubkeyB < pubkeyA then (pubkeyB, pubkeyA) else (pubkeyA, pubkeyB)
  X.hexEncode (X.sha256 ("proscenium-dm-v1:".toUTF8.toList ++ keys.1.toUTF8.toList ++
    ":".toUTF8.toList ++ keys.2.toUTF8.toList)).toList

end Wire

namespace Mailbox

def empty : Mailbox := ⟨[], [], [], [], []⟩

def getRatchetSession (peerPubkey : String) (m : Mailbox) : Option String :=
  (Table.find SessionRow.peerPubkey peerPubkey m.sessions).map SessionRow.stateJson

def saveRatchetSession (peerPubkey stateJson : String) (updatedAt : UInt64) (m : Mailbox) : Mailbox :=
  { m with
    sessions := Table.upsert SessionRow.peerPubkey peerPubkey ⟨peerPubkey, stateJson, updatedAt⟩
      (fun r => { r with stateJson := stateJson, updatedAt := updatedAt }) m.sessions }

def getMasterPubkeyForDmPubkey (dmPubkey : String) (m : Mailbox) : Option String :=
  (m.peerDelegations.find? fun r => r.dmPubkey = dmPubkey).map PeerIdentityRow.masterPubkey

/-- The conversation of the two keys gets this last message. -/
def upsertConversation (conversationId peerPubkey : String) (lastMessageAt : UInt64)
    (preview : String) (m : Mailbox) : Mailbox :=
  { m with
    conversations := Table.upsert ConversationRow.conversationId conversationId
      ⟨conversationId, peerPubkey, lastMessageAt, preview, 0, lastMessageAt⟩
      (fun r => { r with lastMessageAt := lastMessageAt, lastMessagePreview := preview })
      m.conversations }

/-- `INSERT OR IGNORE`. -/
def insertDmMessage (msg : StoredMessage) (m : Mailbox) : Mailbox :=
  if m.messages.any (fun r => r.id = msg.id) then m else { m with messages := m.messages ++ [msg] }

def markDmDelivered (messageId : String) (m : Mailbox) : Mailbox :=
  { m with
    messages := Table.updateWhere (fun r => r.id = messageId)
      (fun r => { r with delivered := true }) m.messages }

def markDmReadById (messageId : String) (m : Mailbox) : Mailbox :=
  { m with
    messages := Table.updateWhere (fun r => r.id = messageId)
      (fun r => { r with read := true }) m.messages }

def markConversationRead (conversationId : String) (m : Mailbox) : Mailbox :=
  { m with
    conversations := Table.updateWhere (fun r => r.conversationId = conversationId)
      (fun r => { r with unreadCount := 0 }) m.conversations
    messages := Table.updateWhere (fun r => r.conversationId = conversationId)
      (fun r => { r with read := true }) m.messages }

def deleteDmMessage (messageId : String) (m : Mailbox) : Mailbox :=
  { m with messages := Table.deleteWhere (fun r => r.id = messageId) m.messages }

def insertOutboxMessage (row : OutboxRow) (m : Mailbox) : Mailbox :=
  { m with outbox := m.outbox ++ [row] }

def removeOutboxMessage (id : String) (m : Mailbox) : Mailbox :=
  { m with outbox := Table.deleteWhere (fun r => r.id = id) m.outbox }

def getAllOutboxMessages (m : Mailbox) : List OutboxRow :=
  m.outbox.insertionSort fun r r' => r.createdAt ≤ r'.createdAt

/-- One transaction: the session, the conversation, the message and the unread counter. -/
def receiveDmMessageAtomically (peerSigningPubkey peerMasterPubkey ratchetState : String)
    (ratchetUpdatedAt : UInt64) (msg : StoredMessage) (preview : String) (m : Mailbox) : Mailbox :=
  let m := m.saveRatchetSession peerSigningPubkey ratchetState ratchetUpdatedAt
  let m := m.upsertConversation msg.conversationId peerMasterPubkey msg.timestamp preview
  let m := m.insertDmMessage msg
  { m with
    conversations := Table.updateWhere (fun r => r.conversationId = msg.conversationId)
      (fun r => { r with unreadCount := r.unreadCount + 1 }) m.conversations }

def Has (m : Mailbox) (id : String) : Prop := ∃ r ∈ m.messages, r.id = id

instance (m : Mailbox) (id : String) : Decidable (m.Has id) := by
  unfold Has
  infer_instance

variable {m : Mailbox} {id : String}

theorem has_map {f : StoredMessage → StoredMessage} (hf : ∀ r, (f r).id = r.id)
    {messages : List StoredMessage} (h : ∃ r ∈ messages, r.id = id) :
    ∃ r ∈ messages.map f, r.id = id := by
  obtain ⟨r, hr, hid⟩ := h
  exact ⟨f r, List.mem_map_of_mem hr, (hf r).trans hid⟩

theorem has_updateWhere {p : StoredMessage → Bool} {f : StoredMessage → StoredMessage}
    (hf : ∀ r, (f r).id = r.id) {messages : List StoredMessage}
    (h : ∃ r ∈ messages, r.id = id) : ∃ r ∈ Table.updateWhere p f messages, r.id = id := by
  apply has_map _ h
  intro r
  split
  · exact hf r
  · rfl

theorem Has.markDmDelivered (h : m.Has id) (messageId : String) :
    (m.markDmDelivered messageId).Has id := by
  apply has_updateWhere _ h
  intro _
  rfl

theorem Has.markDmReadById (h : m.Has id) (messageId : String) :
    (m.markDmReadById messageId).Has id := by
  apply has_updateWhere _ h
  intro _
  rfl

theorem Has.markConversationRead (h : m.Has id) (conversationId : String) :
    (m.markConversationRead conversationId).Has id := by
  apply has_updateWhere _ h
  intro _
  rfl

theorem Has.deleteDmMessage (h : m.Has id) {messageId : String} (hne : id ≠ messageId) :
    (m.deleteDmMessage messageId).Has id := by
  obtain ⟨r, hr, rfl⟩ := h
  refine ⟨r, List.mem_filter.mpr ⟨hr, ?_⟩, rfl⟩
  simpa using hne

theorem Has.insertDmMessage (h : m.Has id) (msg : StoredMessage) :
    (m.insertDmMessage msg).Has id := by
  unfold Mailbox.insertDmMessage
  split
  · exact h
  · obtain ⟨r, hr, hid⟩ := h
    exact ⟨r, List.mem_append_left _ hr, hid⟩

theorem has_insertDmMessage_self (m : Mailbox) (msg : StoredMessage) :
    (m.insertDmMessage msg).Has msg.id := by
  unfold Mailbox.insertDmMessage
  split
  · rename_i hany
    obtain ⟨r, hr, hid⟩ := List.any_eq_true.mp hany
    exact ⟨r, hr, by simpa using hid⟩
  · exact ⟨msg, List.mem_append_right _ (List.mem_singleton.mpr rfl), rfl⟩

theorem messages_receive (dm master stateJson : String) (now : UInt64) (msg : StoredMessage)
    (preview : String) (m : Mailbox) :
    (m.receiveDmMessageAtomically dm master stateJson now msg preview).messages =
      (m.insertDmMessage msg).messages := by
  unfold receiveDmMessageAtomically Mailbox.insertDmMessage
  dsimp only [saveRatchetSession, upsertConversation]
  split <;> rfl

theorem Has.receive (h : m.Has id) (dm master stateJson : String) (now : UInt64)
    (msg : StoredMessage) (preview : String) :
    (m.receiveDmMessageAtomically dm master stateJson now msg preview).Has id := by
  unfold Has
  rw [messages_receive]
  exact h.insertDmMessage msg

theorem has_receive_self (dm master stateJson : String) (now : UInt64) (msg : StoredMessage)
    (preview : String) (m : Mailbox) :
    (m.receiveDmMessageAtomically dm master stateJson now msg preview).Has msg.id := by
  unfold Has
  rw [messages_receive]
  exact has_insertDmMessage_self m msg

end Mailbox
end Proscenium.Dm
