import Proscenium.Dm.ConversationDefs
import Proscenium.Dm.DeliveryAcks
import Proscenium.Lib.Machine

/-! Is the head of a conversation its newest message? A send and a receive write
the head they were given, whatever is stored, and a deletion leaves it alone. -/

namespace Proscenium.Dm

open Machine Proscenium.Types
open Delivery (incoming outgoing)

inductive HeadOp where
  | sendDm (peer content : String) (media : List MediaAttachment) (replyTo : Option String) (id : String)
      (now : UInt64)
  | receive (dm master stateJson : String) (now : UInt64) (msg : DirectMessage)
  | deleteDmMessage (messageId : String)

namespace Mailbox

def sqlTime (t : UInt64) : Int64 := t.toInt64

def getConversations (m : Mailbox) : List ConversationRow :=
  m.conversations.insertionSort fun c d => sqlTime d.lastMessageAt ≤ sqlTime c.lastMessageAt

/-- None of the messages of the conversation is newer than `t`. -/
def NoneAfter (m : Mailbox) (id : String) (t : UInt64) : Prop :=
  ∀ r ∈ m.messages, r.conversationId = id → sqlTime r.timestamp ≤ sqlTime t

/-- A message of the conversation with this time and preview. -/
def HasHead (m : Mailbox) (id : String) (t : UInt64) (preview : String) : Prop :=
  ∃ r ∈ m.messages, r.conversationId = id ∧ r.timestamp = t ∧ previewOf r.content = some preview

def Empty (m : Mailbox) (id : String) : Prop := ∀ r ∈ m.messages, r.conversationId ≠ id

/-- The head of each conversation is that of a message with the greatest timestamp. -/
def HeadsNewest (m : Mailbox) : Prop :=
  ∀ c ∈ m.conversations, m.Empty c.conversationId ∨
    m.HasHead c.conversationId c.lastMessageAt c.lastMessagePreview ∧ m.NoneAfter c.conversationId c.lastMessageAt

/-- No conversation with a message is listed before one with a newer message. -/
def ListedByNewest (m : Mailbox) : Prop :=
  m.getConversations.Pairwise fun c d => m.Empty c.conversationId ∨
    ∀ r ∈ m.messages, r.conversationId = d.conversationId →
      ∃ q ∈ m.messages, q.conversationId = c.conversationId ∧ sqlTime r.timestamp ≤ sqlTime q.timestamp

section Ops

variable (X : SealCrates) (me : String)

/-- A preview that cannot be cut is a panic before anything is written. -/
def applyHead (m : Mailbox) : HeadOp → Mailbox
  | .sendDm peer content media replyTo id now =>
    (previewOf content).elim m fun preview =>
      let msg := outgoing X me ⟨id, content, now, media, replyTo⟩ peer
      (m.tryUpsertConversation msg.conversationId peer now preview).tryInsertDmMessage msg
  | .receive dm master stateJson now msg =>
    (previewOf msg.content).elim m fun preview =>
      m.tryReceiveDmMessage dm master stateJson now (incoming X me master msg) preview
  | .deleteDmMessage id => m.deleteDmMessage id

def headStep (m : Mailbox) (op : HeadOp) : Option Mailbox := some (m.applyHead X me op)

/-- A message that is written is no older than the others of its conversation; one whose id is
there already has the head of the newest. -/
def Writes (m : Mailbox) (msg : StoredMessage) : Prop :=
  ∀ preview, previewOf msg.content = some preview →
    if m.Has msg.id then
      m.Empty msg.conversationId ∨
        m.HasHead msg.conversationId msg.timestamp preview ∧ m.NoneAfter msg.conversationId msg.timestamp
    else m.NoneAfter msg.conversationId msg.timestamp

/-- A message that is deleted is the last of its conversation, or another one has the head too. -/
def InOrder (m : Mailbox) : HeadOp → Prop
  | .sendDm peer content media replyTo id now => m.Writes (outgoing X me ⟨id, content, now, media, replyTo⟩ peer)
  | .receive _ master _ _ msg => m.Writes (incoming X me master msg)
  | .deleteDmMessage id => ∀ r ∈ m.messages, r.id = id → ∀ c ∈ m.conversations, c.conversationId = r.conversationId →
    (∀ q ∈ m.messages, q.conversationId = c.conversationId → q.id = id) ∨
      ∃ q ∈ m.messages, q.id ≠ id ∧ q.conversationId = c.conversationId ∧ q.timestamp = c.lastMessageAt ∧
        previewOf q.content = some c.lastMessagePreview

/-- A conversation has the id of the user and its peer. -/
def Named (m : Mailbox) : Prop := ∀ c ∈ m.conversations, c.conversationId = conversationId X me c.peerPubkey

end Ops

variable {X : SealCrates} {me : String} {m : Mailbox}

section Heads

theorem listedByNewest (hm : m.HeadsNewest) : m.ListedByNewest := by
  have htotal : Std.Total fun c d : ConversationRow => sqlTime d.lastMessageAt ≤ sqlTime c.lastMessageAt :=
    ⟨fun _ _ => Int64.le_total _ _⟩
  have htrans : IsTrans ConversationRow fun c d => sqlTime d.lastMessageAt ≤ sqlTime c.lastMessageAt :=
    ⟨fun _ _ _ h h' => Int64.le_trans h' h⟩
  have hsorted : m.getConversations.Pairwise fun c d => sqlTime d.lastMessageAt ≤ sqlTime c.lastMessageAt :=
    List.pairwise_insertionSort _ m.conversations
  refine hsorted.imp_of_mem fun {c d} hc hd hle => ?_
  have hc := (List.mem_insertionSort _).mp hc
  have hd := (List.mem_insertionSort _).mp hd
  refine (hm c hc).imp_right ?_
  rintro ⟨⟨q, hq, hconv, htime, -⟩, -⟩ r hr hrconv
  rcases hm d hd with hempty | ⟨-, hnone⟩
  · exact absurd hrconv (hempty r hr)
  · refine ⟨q, hq, hconv, ?_⟩
    rw [htime]
    exact Int64.le_trans (hnone r hr hrconv) hle

theorem head_of_mem_upsertConversation {id peer preview : String} {at' : UInt64} {c : ConversationRow}
    (hc : c ∈ (m.upsertConversation id peer at' preview).conversations) (hid : c.conversationId = id) :
    c.lastMessageAt = at' ∧ c.lastMessagePreview = preview := by
  rcases mem_upsertConversation.mp hc with ⟨d, -, rfl⟩ | ⟨-, rfl⟩
  · split at hid
    next hd => simp [hd]
    next hd => exact absurd hid hd
  · simp

theorem mem_of_mem_upsertConversation {id peer preview : String} {at' : UInt64} {c : ConversationRow}
    (hc : c ∈ (m.upsertConversation id peer at' preview).conversations) (hid : c.conversationId ≠ id) :
    c ∈ m.conversations := by
  rcases mem_upsertConversation.mp hc with ⟨d, hd, rfl⟩ | ⟨-, rfl⟩
  · split at hid
    next hd' => exact absurd hd' hid
    next hd' => rwa [if_neg hd']
  · exact absurd rfl hid

theorem mem_insertDmMessage_iff {msg r : StoredMessage} (hhas : ¬ m.Has msg.id) :
    r ∈ (m.insertDmMessage msg).messages ↔ r ∈ m.messages ∨ r = msg := by
  rw [messages_insertDmMessage_of_not_has hhas, List.mem_append, List.mem_singleton]

/-- Whether the head that is written is the newest is decided by what is stored. -/
theorem headsNewest_write_iff (hm : m.HeadsNewest) (msg : StoredMessage) {preview : String}
    (hpreview : previewOf msg.content = some preview) (peer : String) :
    ((m.upsertConversation msg.conversationId peer msg.timestamp preview).insertDmMessage msg).HeadsNewest ↔
      m.Writes msg := by
  have hwrites : m.Writes msg ↔ if m.Has msg.id then m.Empty msg.conversationId ∨
      m.HasHead msg.conversationId msg.timestamp preview ∧ m.NoneAfter msg.conversationId msg.timestamp
      else m.NoneAfter msg.conversationId msg.timestamp :=
    ⟨fun h => h preview hpreview, fun h _ hp => Option.some.inj (hpreview.symm.trans hp) ▸ h⟩
  obtain ⟨c₀, hc₀, hid₀⟩ := knows_upsertConversation_self (m := m) msg.conversationId peer msg.timestamp preview
  obtain ⟨htime₀, hpreview₀⟩ := head_of_mem_upsertConversation hc₀ hid₀
  rw [hwrites]
  unfold HeadsNewest
  rw [conversations_insertDmMessage]
  by_cases hhas : m.Has msg.id
  · have hstored : (m.upsertConversation msg.conversationId peer msg.timestamp preview).Has msg.id := hhas
    rw [if_pos hhas, insertDmMessage_of_has hstored]
    constructor
    · intro h
      have hrow := h c₀ hc₀
      rwa [htime₀, hpreview₀, hid₀] at hrow
    · intro h c hc
      by_cases hid : c.conversationId = msg.conversationId
      · obtain ⟨htime, hprev⟩ := head_of_mem_upsertConversation hc hid
        rwa [htime, hprev, hid]
      · exact hm c (mem_of_mem_upsertConversation hc hid)
  · have hmem : ∀ r, r ∈ ((m.upsertConversation msg.conversationId peer msg.timestamp preview).insertDmMessage
        msg).messages ↔ r ∈ m.messages ∨ r = msg := fun r => mem_insertDmMessage_iff hhas
    rw [if_neg hhas]
    constructor
    · intro h r hr hconv
      rcases h c₀ hc₀ with hempty | ⟨-, hnone⟩
      · exact absurd hid₀.symm (hempty msg ((hmem msg).mpr (.inr rfl)))
      · rw [htime₀, hid₀] at hnone
        exact hnone r ((hmem r).mpr (.inl hr)) hconv
    · intro h c hc
      by_cases hid : c.conversationId = msg.conversationId
      · obtain ⟨htime, hprev⟩ := head_of_mem_upsertConversation hc hid
        rw [htime, hprev, hid]
        refine .inr ⟨⟨msg, (hmem msg).mpr (.inr rfl), rfl, rfl, hpreview⟩, fun r hr hconv => ?_⟩
        rcases (hmem r).mp hr with hr | rfl
        · exact h r hr hconv
        · exact Int64.le_refl _
      · -- the message is in another conversation
        have hother : ∀ r, r ∈ ((m.upsertConversation msg.conversationId peer msg.timestamp preview).insertDmMessage
            msg).messages → r.conversationId = c.conversationId → r ∈ m.messages := fun r hr hconv =>
          ((hmem r).mp hr).resolve_right fun heq => hid (by rw [← hconv, heq])
        rcases hm c (mem_of_mem_upsertConversation hc hid) with hempty | ⟨⟨q, hq, hhead⟩, hnone⟩
        · exact .inl fun r hr hconv => hempty r (hother r hr hconv) hconv
        · exact .inr ⟨⟨q, (hmem q).mpr (.inl hq), hhead⟩, fun r hr hconv => hnone r (hother r hr hconv) hconv⟩

theorem headsNewest_receive_iff (dm master stateJson : String) (now : UInt64) (msg : StoredMessage) (preview : String) :
    (m.receiveDmMessageAtomically dm master stateJson now msg preview).HeadsNewest ↔
      ((m.upsertConversation msg.conversationId master msg.timestamp preview).insertDmMessage msg).HeadsNewest := by
  have hmessages : (m.receiveDmMessageAtomically dm master stateJson now msg preview).messages =
      ((m.upsertConversation msg.conversationId master msg.timestamp preview).insertDmMessage msg).messages := by
    unfold receiveDmMessageAtomically insertDmMessage upsertConversation saveRatchetSession
    dsimp only
    split <;> rfl
  unfold HeadsNewest Empty HasHead NoneAfter
  rw [hmessages, conversations_receive, conversations_insertDmMessage]
  unfold Table.updateWhere
  rw [List.forall_mem_map]
  refine forall₂_congr fun c _ => ?_
  by_cases hid : c.conversationId = msg.conversationId
  · simp [hid]
  · simp [hid]

theorem headsNewest_deleteDmMessage_iff (hm : m.HeadsNewest) (id : String) :
    (m.deleteDmMessage id).HeadsNewest ↔ m.InOrder X me (.deleteDmMessage id) := by
  have hmem : ∀ r, r ∈ (m.deleteDmMessage id).messages ↔ r ∈ m.messages ∧ r.id ≠ id := fun r => by
    simp [deleteDmMessage, Table.deleteWhere]
  constructor
  · intro h r hr hid c hc hconv
    refine (h c hc).imp (fun hempty q hq hqconv => ?_) ?_
    · by_contra hne
      exact hempty q ((hmem q).mpr ⟨hq, hne⟩) hqconv
    · rintro ⟨⟨q, hq, hhead⟩, -⟩
      exact ⟨q, ((hmem q).mp hq).1, ((hmem q).mp hq).2, hhead⟩
  · intro h c hc
    rcases hm c hc with hempty | ⟨⟨q, hq, hhead⟩, hnone⟩
    · exact .inl fun r hr => hempty r ((hmem r).mp hr).1
    · have hafter : (m.deleteDmMessage id).NoneAfter c.conversationId c.lastMessageAt :=
        fun r hr => hnone r ((hmem r).mp hr).1
      by_cases hid : q.id = id
      · refine (h q hq hid c hc hhead.1.symm).imp (fun hall r hr hconv => ?_) ?_
        · exact ((hmem r).mp hr).2 (hall r ((hmem r).mp hr).1 hconv)
        · rintro ⟨r, hr, hne, hrhead⟩
          exact ⟨⟨r, (hmem r).mpr ⟨hr, hne⟩, hrhead⟩, hafter⟩
      · exact .inr ⟨⟨q, (hmem q).mpr ⟨hq, hid⟩, hhead⟩, hafter⟩

end Heads

section Runs

theorem Named.admits (hm : m.Named X me) (peer : String) : m.Admits (conversationId X me peer) peer := by
  by_cases hknows : m.Knows (conversationId X me peer)
  · exact .inl hknows
  · exact .inr fun c hc hpeer => hknows ⟨c, hc, by rw [hm c hc, hpeer]⟩

theorem Named.upsertConversation (hm : m.Named X me) (peer : String) (at' : UInt64) (preview : String) :
    (m.upsertConversation (conversationId X me peer) peer at' preview).Named X me := by
  intro c hc
  rcases mem_upsertConversation.mp hc with ⟨d, hd, rfl⟩ | ⟨-, rfl⟩
  · split
    · exact hm d hd
    · exact hm d hd
  · rfl

theorem applyHead_sendDm (hm : m.Named X me) {peer content preview id : String} {media : List MediaAttachment}
    {replyTo : Option String} {now : UInt64} (hpreview : previewOf content = some preview) :
    m.applyHead X me (.sendDm peer content media replyTo id now) =
      (m.upsertConversation (conversationId X me peer) peer now preview).insertDmMessage
        (outgoing X me ⟨id, content, now, media, replyTo⟩ peer) := by
  have hadmits := hm.admits peer
  have hknows := knows_upsertConversation_self (m := m) (conversationId X me peer) peer now preview
  dsimp only [applyHead]
  rw [hpreview, Option.elim_some]
  dsimp only [tryUpsertConversation, tryInsertDmMessage, outgoing]
  rw [if_pos hadmits, if_pos hknows]

theorem applyHead_receive (hm : m.Named X me) {dm master stateJson preview : String} {now : UInt64}
    {msg : DirectMessage} (hpreview : previewOf msg.content = some preview) :
    m.applyHead X me (.receive dm master stateJson now msg) =
      m.receiveDmMessageAtomically dm master stateJson now (incoming X me master msg) preview := by
  dsimp only [applyHead]
  rw [hpreview, Option.elim_some]
  exact if_pos (hm.admits master)

theorem named_applyHead (hm : m.Named X me) (op : HeadOp) : (m.applyHead X me op).Named X me := by
  cases op with
  | sendDm peer content media replyTo id now =>
    cases hpreview : previewOf content with
    | none => simpa [applyHead, hpreview] using hm
    | some preview =>
      rw [applyHead_sendDm hm hpreview]
      unfold Named
      rw [conversations_insertDmMessage]
      exact hm.upsertConversation peer now preview
  | receive dm master stateJson now msg =>
    cases hpreview : previewOf msg.content with
    | none => simpa [applyHead, hpreview] using hm
    | some preview =>
      rw [applyHead_receive hm hpreview]
      unfold Named
      rw [conversations_receive]
      unfold Table.updateWhere
      rw [List.forall_mem_map]
      intro c hc
      have hrow := hm.upsertConversation master msg.timestamp preview c hc
      split
      · exact hrow
      · exact hrow
  | deleteDmMessage id => exact hm

theorem headsNewest_step_iff (hm : m.Named X me) (hheads : m.HeadsNewest) (op : HeadOp) :
    (m.applyHead X me op).HeadsNewest ↔ m.InOrder X me op := by
  cases op with
  | sendDm peer content media replyTo id now =>
    cases hpreview : previewOf content with
    | none =>
      have hsame : m.applyHead X me (.sendDm peer content media replyTo id now) = m := by
        simp [applyHead, hpreview]
      rw [hsame]
      exact iff_of_true hheads fun preview hp => absurd (hpreview.symm.trans hp) (by simp)
    | some preview =>
      rw [applyHead_sendDm hm hpreview]
      exact headsNewest_write_iff hheads (outgoing X me ⟨id, content, now, media, replyTo⟩ peer) hpreview peer
  | receive dm master stateJson now msg =>
    cases hpreview : previewOf msg.content with
    | none =>
      have hsame : m.applyHead X me (.receive dm master stateJson now msg) = m := by
        simp [applyHead, hpreview]
      rw [hsame]
      exact iff_of_true hheads fun preview hp => absurd (hpreview.symm.trans hp) (by simp)
    | some preview =>
      rw [applyHead_receive hm hpreview, headsNewest_receive_iff]
      exact headsNewest_write_iff hheads (incoming X me master msg) hpreview master
  | deleteDmMessage id => exact headsNewest_deleteDmMessage_iff hheads id

/-- The heads are the newest messages, and the list is in their order, in the runs that write
the messages of each conversation in the order of their times and delete none that is its head. -/
theorem headsNewest_along_iff (X : SealCrates) (me : String) (ops : List HeadOp) :
    (∀ ops' m, ops' <+: ops → exec (headStep X me) empty ops' = some m → m.HeadsNewest ∧ m.ListedByNewest) ↔
      Along (headStep X me) (InOrder X me) empty ops := by
  have hnamed : empty.Named X me := by simp [Named, empty]
  have hheads : empty.HeadsNewest := by simp [HeadsNewest, empty]
  have hstep : ∀ m op, m.Named X me ∧ m.HeadsNewest →
      ((∀ t, headStep X me m op = some t → t.HeadsNewest ∧ t.ListedByNewest) ↔ m.InOrder X me op) := by
    rintro m op ⟨hm, hh⟩
    rw [← headsNewest_step_iff hm hh]
    constructor
    · intro h
      exact (h _ rfl).1
    · intro h t ht
      obtain rfl := Option.some.inj ht
      exact ⟨h, listedByNewest h⟩
  refine forall_prefix_iff_along hstep ?_ ⟨hnamed, hheads⟩ ⟨hheads, listedByNewest hheads⟩
  rintro m op t ⟨hm, -⟩ - hnext ht
  refine ⟨?_, hnext.1⟩
  obtain rfl := Option.some.inj ht
  exact named_applyHead hm op

/-- The message of time 5 arrives after the one of time 9. -/
abbrev delayedRun : List HeadOp :=
  [.receive "db" "b" "later" 9 ⟨"m2", "second", 9, [], none⟩,
    .receive "db" "b" "later" 10 ⟨"m1", "first", 5, [], none⟩]

theorem not_headsNewest_delayedRun :
    ¬ ∀ ops' m, ops' <+: delayedRun → exec (headStep Delivery.sampleSeal "a") empty ops' = some m →
      m.HeadsNewest ∧ m.ListedByNewest := by
  intro h
  have hrun := (h delayedRun _ (List.prefix_refl _) rfl).1
  have hpreview : previewOf "second" = some "second" ∧ previewOf "first" = some "first" := by decide
  have hconv : ∃ conv, conversationId Delivery.sampleSeal "a" "b" = conv := ⟨_, rfl⟩
  obtain ⟨conv, hconv⟩ := hconv
  simp [HeadsNewest, applyHead, tryReceiveDmMessage, Admits, Knows, empty, receiveDmMessageAtomically,
    saveRatchetSession, Mailbox.upsertConversation, Table.upsert, insertDmMessage, Table.updateWhere, incoming,
    hpreview, hconv, Empty, NoneAfter, HasHead] at hrun
  exact absurd hrun (by decide)

end Runs

end Mailbox
end Proscenium.Dm
