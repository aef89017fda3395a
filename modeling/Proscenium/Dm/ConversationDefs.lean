import Proscenium.Dm.MailboxDefs

/-! The statements over conversations and messages as the schema lets them
through: a conversation belongs to one peer, and a message to a conversation. -/

namespace Proscenium.Dm

namespace Mailbox

/-- `FOREIGN KEY (conversation_id) REFERENCES dm_conversations(conversation_id)`. -/
def Knows (conversationId : String) (m : Mailbox) : Prop :=
  ∃ c ∈ m.conversations, c.conversationId = conversationId

/-- `peer_pubkey TEXT NOT NULL UNIQUE`, which a row that is updated has passed before. -/
def Admits (conversationId peerPubkey : String) (m : Mailbox) : Prop :=
  m.Knows conversationId ∨ ∀ c ∈ m.conversations, c.peerPubkey ≠ peerPubkey

instance (conversationId : String) (m : Mailbox) : Decidable (m.Knows conversationId) :=
  inferInstanceAs (Decidable (∃ c ∈ m.conversations, _))

instance (conversationId peerPubkey : String) (m : Mailbox) : Decidable (m.Admits conversationId peerPubkey) :=
  inferInstanceAs (Decidable (_ ∨ _))

def tryUpsertConversation (conversationId peerPubkey : String) (lastMessageAt : UInt64) (preview : String)
    (m : Mailbox) : Mailbox :=
  if m.Admits conversationId peerPubkey then m.upsertConversation conversationId peerPubkey lastMessageAt preview
  else m

def tryInsertDmMessage (msg : StoredMessage) (m : Mailbox) : Mailbox :=
  if m.Knows msg.conversationId then m.insertDmMessage msg else m

def tryReceiveDmMessage (peerSigningPubkey peerMasterPubkey ratchetState : String) (ratchetUpdatedAt : UInt64)
    (msg : StoredMessage) (preview : String) (m : Mailbox) : Mailbox :=
  if m.Admits msg.conversationId peerMasterPubkey then
    m.receiveDmMessageAtomically peerSigningPubkey peerMasterPubkey ratchetState ratchetUpdatedAt msg preview
  else m

def Linked (m : Mailbox) : Prop := ∀ r ∈ m.messages, m.Knows r.conversationId

variable {m : Mailbox}

theorem conversations_insertDmMessage (msg : StoredMessage) :
    (m.insertDmMessage msg).conversations = m.conversations := by
  unfold insertDmMessage
  split <;> rfl

theorem conversations_receive (dm master stateJson : String) (now : UInt64) (msg : StoredMessage) (preview : String) :
    (m.receiveDmMessageAtomically dm master stateJson now msg preview).conversations =
      Table.updateWhere (fun r => r.conversationId = msg.conversationId)
        (fun r => { r with unreadCount := r.unreadCount + 1 })
        (m.upsertConversation msg.conversationId master msg.timestamp preview).conversations := by
  unfold receiveDmMessageAtomically
  dsimp only
  rw [conversations_insertDmMessage]
  rfl

theorem messages_insertDmMessage_of_not_has {msg : StoredMessage} (h : ¬ m.Has msg.id) :
    (m.insertDmMessage msg).messages = m.messages ++ [msg] := by
  have hany : ¬ m.messages.any (fun r => r.id = msg.id) = true := by
    simpa [Has] using h
  unfold insertDmMessage
  rw [if_neg hany]

theorem insertDmMessage_of_has {msg : StoredMessage} (h : m.Has msg.id) : m.insertDmMessage msg = m := by
  have hany : m.messages.any (fun r => r.id = msg.id) = true := by
    simpa [Has] using h
  unfold insertDmMessage
  rw [if_pos hany]

theorem mem_of_mem_insertDmMessage {msg r : StoredMessage} (h : r ∈ (m.insertDmMessage msg).messages) :
    r ∈ m.messages ∨ r = msg := by
  by_cases hhas : m.Has msg.id
  · rw [insertDmMessage_of_has hhas] at h
    exact .inl h
  · rw [messages_insertDmMessage_of_not_has hhas] at h
    exact (List.mem_append.mp h).imp_right List.mem_singleton.mp

theorem mem_upsertConversation {conversationId peerPubkey : String} {at' : UInt64} {preview : String}
    {c : ConversationRow} :
    c ∈ (m.upsertConversation conversationId peerPubkey at' preview).conversations ↔
      (∃ d ∈ m.conversations, c = if d.conversationId = conversationId then
        { d with lastMessageAt := at', lastMessagePreview := preview } else d) ∨
      ¬ m.Knows conversationId ∧ c = ⟨conversationId, peerPubkey, at', preview, 0, at'⟩ := by
  unfold upsertConversation Table.upsert Knows
  dsimp only
  split
  next hany =>
    have hknows : ∃ d ∈ m.conversations, d.conversationId = conversationId := by simpa using hany
    rw [or_iff_left fun h => h.1 hknows, List.mem_map]
    exact exists_congr fun d => and_congr_right fun _ => eq_comm
  next hnone =>
    have hnew : ¬ ∃ d ∈ m.conversations, d.conversationId = conversationId := by simpa using hnone
    have hsame : ∀ d ∈ m.conversations, (if d.conversationId = conversationId then
        { d with lastMessageAt := at', lastMessagePreview := preview } else d) = d := fun d hd =>
      if_neg fun heq => hnew ⟨d, hd, heq⟩
    rw [List.mem_append, List.mem_singleton]
    refine or_congr ⟨fun hc => ⟨c, hc, (hsame c hc).symm⟩, ?_⟩ (iff_and_self.mpr fun _ => hnew)
    rintro ⟨d, hd, rfl⟩
    rwa [hsame d hd]

theorem Knows.upsertConversation {id : String} (h : m.Knows id) (conversationId peerPubkey : String) (at' : UInt64)
    (preview : String) : (m.upsertConversation conversationId peerPubkey at' preview).Knows id := by
  obtain ⟨d, hd, hid⟩ := h
  refine ⟨_, mem_upsertConversation.mpr (.inl ⟨d, hd, rfl⟩), ?_⟩
  split
  · exact hid
  · exact hid

theorem knows_upsertConversation_self (conversationId peerPubkey : String) (at' : UInt64) (preview : String) :
    (m.upsertConversation conversationId peerPubkey at' preview).Knows conversationId := by
  by_cases h : m.Knows conversationId
  · exact h.upsertConversation conversationId peerPubkey at' preview
  · exact ⟨_, mem_upsertConversation.mpr (.inr ⟨h, rfl⟩), rfl⟩

theorem unread_upsertConversation (conversationId peerPubkey : String) (at' : UInt64) (preview : String) :
    ((m.upsertConversation conversationId peerPubkey at' preview).conversations.map ConversationRow.unreadCount).sum =
      (m.conversations.map ConversationRow.unreadCount).sum := by
  unfold upsertConversation Table.upsert
  dsimp only
  split
  · rw [List.map_map]
    refine congrArg List.sum (List.map_congr_left fun c _ => ?_)
    dsimp only [Function.comp_apply]
    split <;> rfl
  · simp

theorem conversations_receive_ne (dm master stateJson : String) (now : UInt64) (msg : StoredMessage)
    (preview : String) :
    (m.receiveDmMessageAtomically dm master stateJson now msg preview).conversations ≠ m.conversations := by
  intro hsame
  have hunread := congrArg (fun c => (c.map ConversationRow.unreadCount).sum) hsame
  rw [conversations_receive, ← unread_upsertConversation msg.conversationId master msg.timestamp preview] at hunread
  obtain ⟨c, hc, hid⟩ := knows_upsertConversation_self (m := m) msg.conversationId master msg.timestamp preview
  refine absurd hunread (ne_of_gt ?_)
  unfold Table.updateWhere
  rw [List.map_map]
  apply List.sum_lt_sum
  · intro r _
    dsimp only [Function.comp_apply]
    split
    · exact Nat.le_succ _
    · exact Nat.le_refl _
  · refine ⟨c, hc, ?_⟩
    dsimp only [Function.comp_apply]
    rw [if_pos (decide_eq_true hid)]
    exact Nat.lt_succ_self _

theorem Knows.updateWhere {m' : Mailbox} {id : String} (h : m.Knows id) {p : ConversationRow → Bool}
    {f : ConversationRow → ConversationRow} (hrows : m'.conversations = Table.updateWhere p f m.conversations)
    (hids : ∀ c, (f c).conversationId = c.conversationId) : m'.Knows id := by
  obtain ⟨c, hc, hid⟩ := h
  unfold Knows
  rw [hrows]
  refine ⟨_, List.mem_map_of_mem hc, ?_⟩
  split
  · exact (hids c).trans hid
  · exact hid

theorem knows_receive {id : String} {dm master stateJson : String} {now : UInt64} {msg : StoredMessage}
    {preview : String} (h : (m.upsertConversation msg.conversationId master msg.timestamp preview).Knows id) :
    (m.receiveDmMessageAtomically dm master stateJson now msg preview).Knows id :=
  h.updateWhere (conversations_receive ..) fun _ => rfl

theorem Linked.of_knows {m' : Mailbox} (hm : m.Linked) (hmessages : ∀ r ∈ m'.messages, ∃ q ∈ m.messages,
    q.conversationId = r.conversationId) (hknows : ∀ id, m.Knows id → m'.Knows id) : m'.Linked := by
  intro r hr
  obtain ⟨q, hq, hsame⟩ := hmessages r hr
  rw [← hsame]
  exact hknows _ (hm q hq)

theorem Linked.insertDmMessage {msg : StoredMessage} (hm : m.Linked) (hknows : m.Knows msg.conversationId) :
    (m.insertDmMessage msg).Linked := by
  intro r hr
  unfold Knows
  rw [conversations_insertDmMessage]
  rcases mem_of_mem_insertDmMessage hr with hr | rfl
  · exact hm r hr
  · exact hknows

end Mailbox
end Proscenium.Dm
