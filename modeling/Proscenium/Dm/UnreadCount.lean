import Proscenium.Dm.ConversationDefs
import Proscenium.Dm.DeliveryAcks
import Proscenium.Lib.Machine

/-! Does the counter of a conversation say how many of its messages are unread?
The statements that write, mark and delete messages are not the ones that
write the counter. -/

namespace Proscenium.Dm

open Machine

inductive UnreadOp where
  | upsertConversation (peerPubkey : String) (lastMessageAt : UInt64) (preview : String)
  | receiveDmMessageAtomically (dm master stateJson : String) (now : UInt64) (msg : StoredMessage) (preview : String)
  | insertDmMessage (msg : StoredMessage)
  | markConversationRead (peerPubkey : String)
  | markDmReadById (messageId : String)
  | deleteDmMessage (messageId : String)

namespace Mailbox

def unreadOf (m : Mailbox) (c : ConversationRow) : Nat :=
  m.messages.countP fun r => r.conversationId = c.conversationId ∧ r.fromPubkey = c.peerPubkey ∧ r.read = false

def Exact (m : Mailbox) : Prop := ∀ c ∈ m.conversations, c.unreadCount = m.unreadOf c

def Counts (m : Mailbox) (r : StoredMessage) : Prop :=
  r.read = false ∧ ∃ c ∈ m.conversations, c.conversationId = r.conversationId ∧ c.peerPubkey = r.fromPubkey

/-- The message is of the one whom the conversation is with, or is to be with. -/
def FromPeer (m : Mailbox) (master : String) (msg : StoredMessage) : Prop :=
  (∀ c ∈ m.conversations, c.conversationId = msg.conversationId → c.peerPubkey = msg.fromPubkey) ∧
    (¬ m.Knows msg.conversationId → master = msg.fromPubkey)

section Ops

variable (X : SealCrates) (me : String)

def applyUnread (m : Mailbox) : UnreadOp → Mailbox
  | .upsertConversation peer at' preview => m.tryUpsertConversation (conversationId X me peer) peer at' preview
  | .receiveDmMessageAtomically dm master stateJson now msg preview =>
    m.tryReceiveDmMessage dm master stateJson now msg preview
  | .insertDmMessage msg => m.tryInsertDmMessage msg
  | .markConversationRead peer => m.markConversationRead (conversationId X me peer)
  | .markDmReadById id => m.markDmReadById id
  | .deleteDmMessage id => m.deleteDmMessage id

def unreadStep (m : Mailbox) (op : UnreadOp) : Option Mailbox := some (m.applyUnread X me op)

/-- What the user sent and the peer has not read stays so when the user reads the conversation. -/
def KeepsOutgoing (m : Mailbox) : UnreadOp → Prop
  | .markConversationRead peer => ∀ r ∈ m.messages, r.fromPubkey = me → r.read = false →
    r ∈ (m.applyUnread X me (.markConversationRead peer)).messages
  | _ => True

/-- A message that is received is new, unread and of the peer, none is inserted, marked or deleted
that a counter counts, and none of the user's is unread in a conversation that is marked. -/
def CountsOnce (m : Mailbox) : UnreadOp → Prop
  | .upsertConversation _ _ _ => True
  | .receiveDmMessageAtomically _ master _ _ msg _ => m.Admits msg.conversationId master →
    ¬ m.Has msg.id ∧ msg.read = false ∧ m.FromPeer master msg
  | .insertDmMessage msg => m.Counts msg → m.Has msg.id
  | .markConversationRead peer => ∀ r ∈ m.messages, r.conversationId = conversationId X me peer →
    r.fromPubkey = me → r.read = true
  | .markDmReadById id => ∀ r ∈ m.messages, r.id = id → ¬ m.Counts r
  | .deleteDmMessage id => ∀ r ∈ m.messages, r.id = id → ¬ m.Counts r

end Ops

variable {X : SealCrates} {me : String} {m : Mailbox}

section Counting

theorem unreadOf_eq_zero_of_not_knows (hm : m.Linked) {c : ConversationRow} (h : ¬ m.Knows c.conversationId) :
    m.unreadOf c = 0 := by
  unfold unreadOf
  rw [List.countP_eq_zero]
  intro r hr hp
  simp only [decide_eq_true_eq] at hp
  exact h (hp.1 ▸ hm r hr)

theorem unreadOf_deleteDmMessage (id : String) (c : ConversationRow) :
    (m.deleteDmMessage id).unreadOf c + ((m.messages.filter fun r => r.id = id).countP fun r =>
      r.conversationId = c.conversationId ∧ r.fromPubkey = c.peerPubkey ∧ r.read = false) = m.unreadOf c := by
  unfold unreadOf deleteDmMessage Table.deleteWhere
  rw [add_comm]
  exact (List.countP_eq_countP_filter_add m.messages _ fun r => decide (r.id = id)).symm

theorem unreadOf_markDmReadById (id : String) (c : ConversationRow) :
    (m.markDmReadById id).unreadOf c = (m.deleteDmMessage id).unreadOf c := by
  unfold unreadOf markDmReadById deleteDmMessage Table.updateWhere Table.deleteWhere
  dsimp only
  rw [List.countP_map, List.countP_filter]
  refine List.countP_congr fun r _ => ?_
  by_cases hid : r.id = id
  · simp [hid]
  · simp [hid]

theorem exact_deleteDmMessage_iff (hexact : m.Exact) (id : String) :
    (m.deleteDmMessage id).Exact ↔ ∀ r ∈ m.messages, r.id = id → ¬ m.Counts r := by
  constructor
  · rintro h r hr hid ⟨hread, c, hc, hconv, hpeer⟩
    have hsplit := unreadOf_deleteDmMessage (m := m) id c
    rw [← hexact c hc, h c hc, Nat.add_eq_left, List.countP_eq_zero] at hsplit
    exact hsplit r (List.mem_filter.mpr ⟨hr, by simpa using hid⟩) (by simp [hconv, hpeer, hread])
  · intro h c hc
    have hsplit := unreadOf_deleteDmMessage (m := m) id c
    have hnone : ((m.messages.filter fun r => r.id = id).countP fun r =>
        r.conversationId = c.conversationId ∧ r.fromPubkey = c.peerPubkey ∧ r.read = false) = 0 := by
      rw [List.countP_eq_zero]
      intro r hr hp
      obtain ⟨hr, hid⟩ := List.mem_filter.mp hr
      simp only [decide_eq_true_eq] at hid hp
      exact h r hr hid ⟨hp.2.2, c, hc, hp.1.symm, hp.2.1.symm⟩
    rw [hnone, Nat.add_zero] at hsplit
    rw [hsplit]
    exact hexact c hc

theorem exact_markDmReadById_iff (hexact : m.Exact) (id : String) :
    (m.markDmReadById id).Exact ↔ ∀ r ∈ m.messages, r.id = id → ¬ m.Counts r := by
  rw [← exact_deleteDmMessage_iff hexact id]
  refine forall₂_congr fun c _ => ?_
  rw [unreadOf_markDmReadById]

theorem unreadOf_insertDmMessage {msg : StoredMessage} (h : ¬ m.Has msg.id) (c : ConversationRow) :
    (m.insertDmMessage msg).unreadOf c = m.unreadOf c +
      if msg.conversationId = c.conversationId ∧ msg.fromPubkey = c.peerPubkey ∧ msg.read = false then 1 else 0 := by
  unfold unreadOf
  rw [messages_insertDmMessage_of_not_has h, List.countP_append, List.countP_singleton]
  simp

theorem exact_insertDmMessage_iff (hexact : m.Exact) (msg : StoredMessage) :
    (m.insertDmMessage msg).Exact ↔ (m.Counts msg → m.Has msg.id) := by
  by_cases hhas : m.Has msg.id
  · rw [insertDmMessage_of_has hhas]
    exact iff_of_true hexact fun _ => hhas
  · unfold Exact
    rw [conversations_insertDmMessage]
    constructor
    · rintro h ⟨hread, c, hc, hconv, hpeer⟩
      have hcount := h c hc
      rw [unreadOf_insertDmMessage hhas, if_pos ⟨hconv.symm, hpeer.symm, hread⟩, ← hexact c hc] at hcount
      omega
    · intro h c hc
      rw [unreadOf_insertDmMessage hhas, if_neg, Nat.add_zero]
      · exact hexact c hc
      · rintro ⟨hconv, hpeer, hread⟩
        exact hhas (h ⟨hread, c, hc, hconv.symm, hpeer.symm⟩)

theorem exact_markConversationRead (hexact : m.Exact) (id : String) : (m.markConversationRead id).Exact := by
  intro c hc
  obtain ⟨d, hd, rfl⟩ := List.mem_map.mp hc
  have hold := hexact d hd
  unfold unreadOf at hold ⊢
  unfold markConversationRead Table.updateWhere
  dsimp only
  rw [List.countP_map]
  by_cases hid : d.conversationId = id
  · -- no message of the conversation is unread any more
    rw [if_pos (decide_eq_true hid)]
    refine (List.countP_eq_zero.mpr fun r _ hp => ?_).symm
    by_cases hr : r.conversationId = id
    · simp [hr] at hp
    · simp [hr, hid] at hp
  · rw [if_neg (by simpa using hid), hold]
    refine List.countP_congr fun r _ => ?_
    by_cases hr : r.conversationId = id
    · simp [hr, Ne.symm hid]
    · simp [hr]

theorem exact_upsertConversation (hm : m.Linked) (hexact : m.Exact) (id peer : String) (at' : UInt64)
    (preview : String) : (m.upsertConversation id peer at' preview).Exact := by
  intro c hc
  rcases mem_upsertConversation.mp hc with ⟨d, hd, rfl⟩ | ⟨hnew, rfl⟩
  · have hold := hexact d hd
    split
    · exact hold
    · exact hold
  · exact (unreadOf_eq_zero_of_not_knows (m := m) hm hnew).symm

/-- The counters of a conversation go up by one, and the messages of the peer by at most one. -/
theorem exact_receive_iff (hm : m.Linked) (hexact : m.Exact) (dm master stateJson : String) (now : UInt64)
    (msg : StoredMessage) (preview : String) :
    (m.receiveDmMessageAtomically dm master stateJson now msg preview).Exact ↔
      ¬ m.Has msg.id ∧ msg.read = false ∧ m.FromPeer master msg := by
  have hupsert := exact_upsertConversation hm hexact msg.conversationId master msg.timestamp preview
  have hunread : ∀ c, (m.receiveDmMessageAtomically dm master stateJson now msg preview).unreadOf c =
      (m.insertDmMessage msg).unreadOf c := fun c => by
    unfold unreadOf
    rw [messages_receive]
  have hrows : (m.receiveDmMessageAtomically dm master stateJson now msg preview).Exact ↔
      ∀ c ∈ (m.upsertConversation msg.conversationId master msg.timestamp preview).conversations,
        m.unreadOf c + (if c.conversationId = msg.conversationId then 1 else 0) =
          (m.insertDmMessage msg).unreadOf c := by
    unfold Exact
    rw [conversations_receive]
    unfold Table.updateWhere
    rw [List.forall_mem_map]
    refine forall₂_congr fun c hc => ?_
    have hold : c.unreadCount = m.unreadOf c := hupsert c hc
    rw [hunread]
    by_cases hid : c.conversationId = msg.conversationId
    · simp [hid, hold, unreadOf]
    · simp [hid, hold]
  have hpeers : m.FromPeer master msg ↔
      ∀ c ∈ (m.upsertConversation msg.conversationId master msg.timestamp preview).conversations,
        c.conversationId = msg.conversationId → c.peerPubkey = msg.fromPubkey := by
    constructor
    · rintro ⟨hold, hnew⟩ c hc hid
      rcases mem_upsertConversation.mp hc with ⟨d, hd, rfl⟩ | ⟨hno, rfl⟩
      · split at hid
        next hd' => simpa [hd'] using hold d hd hd'
        next hd' => exact absurd hid hd'
      · exact hnew hno
    · intro h
      refine ⟨fun c hc hid => ?_, fun hno => h _ (mem_upsertConversation.mpr (.inr ⟨hno, rfl⟩)) rfl⟩
      have hrow := h _ (mem_upsertConversation.mpr (.inl ⟨c, hc, rfl⟩))
      simpa [hid] using hrow
  rw [hrows, hpeers]
  by_cases hhas : m.Has msg.id
  · -- the counter goes up although the message was there
    refine iff_of_false (fun h => ?_) fun h => h.1 hhas
    obtain ⟨c, hc, hid⟩ := knows_upsertConversation_self (m := m) msg.conversationId master msg.timestamp preview
    have hrow := h c hc
    rw [insertDmMessage_of_has hhas, if_pos hid] at hrow
    omega
  · obtain ⟨c₀, hc₀, hid₀⟩ := knows_upsertConversation_self (m := m) msg.conversationId master msg.timestamp preview
    constructor
    · intro h
      have hcount : ∀ c ∈ (m.upsertConversation msg.conversationId master msg.timestamp preview).conversations,
          c.conversationId = msg.conversationId → msg.fromPubkey = c.peerPubkey ∧ msg.read = false := by
        intro c hc hid
        have hrow := h c hc
        rw [unreadOf_insertDmMessage hhas, if_pos hid] at hrow
        by_contra hnot
        rw [if_neg fun hcond => hnot hcond.2] at hrow
        omega
      exact ⟨hhas, (hcount c₀ hc₀ hid₀).2, fun c hc hid => (hcount c hc hid).1.symm⟩
    · rintro ⟨-, hread, hpeer⟩ c hc
      rw [unreadOf_insertDmMessage hhas]
      by_cases hid : c.conversationId = msg.conversationId
      · rw [if_pos hid, if_pos ⟨hid.symm, (hpeer c hc hid).symm, hread⟩]
      · rw [if_neg hid, if_neg fun hcond => hid hcond.1.symm]

end Counting

section Runs

theorem linked_applyUnread (hm : m.Linked) (op : UnreadOp) : (m.applyUnread X me op).Linked := by
  cases op with
  | upsertConversation peer at' preview =>
    dsimp only [applyUnread, tryUpsertConversation]
    split
    · exact hm.of_knows (fun r hr => ⟨r, hr, rfl⟩) fun _ h => h.upsertConversation _ _ _ _
    · exact hm
  | receiveDmMessageAtomically dm master stateJson now msg preview =>
    dsimp only [applyUnread, tryReceiveDmMessage]
    split
    · intro r hr
      rw [messages_receive] at hr
      apply knows_receive
      rcases mem_of_mem_insertDmMessage hr with hr | rfl
      · exact (hm r hr).upsertConversation _ _ _ _
      · exact knows_upsertConversation_self _ _ _ _
    · exact hm
  | insertDmMessage msg =>
    dsimp only [applyUnread, tryInsertDmMessage]
    split
    next hknows => exact hm.insertDmMessage hknows
    next => exact hm
  | markConversationRead peer =>
    refine hm.of_knows (fun r hr => ?_) fun _ h => h.updateWhere rfl fun _ => rfl
    obtain ⟨q, hq, rfl⟩ := List.mem_map.mp hr
    exact ⟨q, hq, by split <;> rfl⟩
  | markDmReadById id =>
    refine hm.of_knows (fun r hr => ?_) fun _ h => h
    obtain ⟨q, hq, rfl⟩ := List.mem_map.mp hr
    exact ⟨q, hq, by split <;> rfl⟩
  | deleteDmMessage id =>
    exact hm.of_knows (fun r hr => ⟨r, List.mem_of_mem_filter hr, rfl⟩) fun _ h => h

theorem keepsOutgoing_markConversationRead_iff (peer : String) :
    m.KeepsOutgoing X me (.markConversationRead peer) ↔ m.CountsOnce X me (.markConversationRead peer) := by
  dsimp only [KeepsOutgoing, CountsOnce, applyUnread, markConversationRead, Table.updateWhere]
  constructor
  · intro h r hr hconv hfrom
    by_contra hread
    obtain ⟨q, -, hq⟩ := List.mem_map.mp (h r hr hfrom (by simpa using hread))
    -- whatever row became this one would be read by now
    by_cases hqid : q.conversationId = conversationId X me peer
    · rw [if_pos (decide_eq_true hqid)] at hq
      rw [← hq] at hread
      simp at hread
    · rw [if_neg (by simpa using hqid)] at hq
      rw [hq] at hqid
      exact hqid hconv
  · intro h r hr hfrom hread
    have hconv : r.conversationId ≠ conversationId X me peer := fun hconv => by simp [h r hr hconv hfrom] at hread
    exact List.mem_map.mpr ⟨r, hr, if_neg (by simpa using hconv)⟩

theorem exact_step_iff (hm : m.Linked) (hexact : m.Exact) (op : UnreadOp) :
    (m.applyUnread X me op).Exact ∧ m.KeepsOutgoing X me op ↔ m.CountsOnce X me op := by
  cases op with
  | upsertConversation peer at' preview =>
    refine iff_of_true ⟨?_, trivial⟩ trivial
    dsimp only [applyUnread, tryUpsertConversation]
    split
    · exact exact_upsertConversation hm hexact _ peer at' preview
    · exact hexact
  | receiveDmMessageAtomically dm master stateJson now msg preview =>
    refine (and_iff_left trivial).trans ?_
    dsimp only [applyUnread, tryReceiveDmMessage, CountsOnce]
    split
    next hadmits =>
      rw [exact_receive_iff hm hexact]
      exact (imp_iff_right hadmits).symm
    next hnot => exact iff_of_true hexact fun hadmits => absurd hadmits hnot
  | insertDmMessage msg =>
    refine (and_iff_left trivial).trans ?_
    dsimp only [applyUnread, tryInsertDmMessage, CountsOnce]
    split
    next => exact exact_insertDmMessage_iff hexact msg
    next hnot =>
      refine iff_of_true hexact ?_
      rintro ⟨-, c, hc, hconv, -⟩
      exact absurd ⟨c, hc, hconv⟩ hnot
  | markConversationRead peer =>
    rw [keepsOutgoing_markConversationRead_iff]
    exact and_iff_right (exact_markConversationRead hexact _)
  | markDmReadById id => exact (and_iff_left trivial).trans (exact_markDmReadById_iff hexact id)
  | deleteDmMessage id => exact (and_iff_left trivial).trans (exact_deleteDmMessage_iff hexact id)

/-- The counters are exact after every statement, and what the user sent is not marked, in the runs
whose statements each count once what they write. -/
theorem unread_exact_along_iff (X : SealCrates) (me : String) (ops : List UnreadOp) :
    (∀ ops' m, ops' <+: ops → exec (unreadStep X me) empty ops' = some m → m.Exact) ∧
        Along (unreadStep X me) (KeepsOutgoing X me) empty ops ↔
      Along (unreadStep X me) (CountsOnce X me) empty ops := by
  have hlinked : empty.Linked := by simp [Linked, empty]
  have hexact : empty.Exact := by simp [Exact, empty]
  have hstep : ∀ m op, m.Linked ∧ m.Exact →
      (((∀ t, unreadStep X me m op = some t → t.Exact) ∧ m.KeepsOutgoing X me op) ↔ m.CountsOnce X me op) := by
    rintro m op ⟨hm, he⟩
    rw [← exact_step_iff hm he]
    exact and_congr_left fun _ => ⟨fun h => h _ rfl, fun h t ht => Option.some.inj ht ▸ h⟩
  refine forall_prefix_and_along_iff hstep ?_ ⟨hlinked, hexact⟩ hexact
  rintro m op t ⟨hm, -⟩ - hnext ht
  refine ⟨?_, hnext⟩
  obtain rfl := Option.some.inj ht
  exact linked_applyUnread hm op

/-- A message that arrives twice is stored once and counted twice. -/
abbrev duplicateRun : List UnreadOp :=
  let msg : StoredMessage :=
    ⟨"m1", conversationId Delivery.sampleSeal "a" "b", "b", "a", "hi", 5, [], false, true, none⟩
  [.receiveDmMessageAtomically "db" "b" "later" 6 msg "hi", .receiveDmMessageAtomically "db" "b" "later" 7 msg "hi"]

theorem not_unread_exact_duplicateRun :
    ¬ ((∀ ops' m, ops' <+: duplicateRun →
        exec (unreadStep Delivery.sampleSeal "a") empty ops' = some m → m.Exact) ∧
      Along (unreadStep Delivery.sampleSeal "a") (KeepsOutgoing Delivery.sampleSeal "a") empty duplicateRun) := by
  rintro ⟨h, -⟩
  have hrun := h duplicateRun _ (List.prefix_refl _) rfl
  generalize conversationId Delivery.sampleSeal "a" "b" = conv at hrun
  simp [Exact, unreadOf, applyUnread, tryReceiveDmMessage, Admits, Knows, empty, receiveDmMessageAtomically,
    saveRatchetSession, upsertConversation, Table.upsert, insertDmMessage, Table.updateWhere] at hrun

end Runs

end Mailbox
end Proscenium.Dm
