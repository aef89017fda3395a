import Proscenium.Dm.UnreadCount
import Proscenium.Lib.JsonValue
import Proscenium.Lib.UnorderedPair

/-! The ids of conversations. Both sides of a conversation get one id, and two
conversations have two, so the tables that are keyed by the id keep the messages
of each peer apart. -/

namespace Proscenium.Dm

open Proscenium.Types Machine UnorderedPair

def textBytes (text : List Char) : Crypto.Bytes := (String.ofList text).toUTF8.toList

def conversationText (pubkeyA pubkeyB : String) : List Char :=
  spelled "proscenium-dm-v1:".toList ':' String.toList pubkeyA pubkeyB

/-- The inputs of the hash for the conversations between these keys. -/
def hashedTexts (keys : Set String) : Set Crypto.Bytes :=
  {bytes | ∃ a ∈ keys, ∃ b ∈ keys, bytes = textBytes (conversationText a b)}

section Ids

variable {X : SealCrates} {keys : Set String} {a b c d : String}

theorem textBytes_append (cs ds : List Char) : textBytes (cs ++ ds) = textBytes cs ++ textBytes ds := by
  unfold textBytes
  rw [String.ofList_append]
  exact Json.toUTF8_toList_append _ _

theorem textBytes_toList (s : String) : textBytes s.toList = s.toUTF8.toList := by
  unfold textBytes
  rw [String.ofList_toList]

theorem textBytes_injective : Function.Injective textBytes := fun _ _ h => Json.toUTF8_toList_injective h

theorem conversationId_eq (X : SealCrates) (a b : String) :
    conversationId X a b = X.hexEncode (X.sha256 (textBytes (conversationText a b))).toList := by
  have hbytes : textBytes (conversationText a b) = "proscenium-dm-v1:".toUTF8.toList ++
      (sorted a b).1.toUTF8.toList ++ ":".toUTF8.toList ++ (sorted a b).2.toUTF8.toList := by
    have hsep : ':' :: (sorted a b).2.toList = ":".toList ++ (sorted a b).2.toList := rfl
    unfold conversationText spelled
    rw [hsep]
    simp only [textBytes_append, textBytes_toList, List.append_assoc]
  rw [hbytes]
  rfl

theorem conversationId_eq_of_pair (X : SealCrates) (h : s(a, b) = s(c, d)) :
    conversationId X a b = conversationId X c d := by
  have hsorted : sorted a b = sorted c d := sorted_eq_iff.mpr h
  rw [conversationId_eq, conversationId_eq, conversationText, conversationText, spelled, spelled, hsorted]

theorem pair_eq_of_conversationId (hhex : Function.Injective X.hexEncode) (hsep : ∀ k ∈ keys, ':' ∉ k.toList)
    (hsha : Set.InjOn X.sha256 (hashedTexts keys)) (ha : a ∈ keys) (hb : b ∈ keys) (hc : c ∈ keys) (hd : d ∈ keys)
    (h : conversationId X a b = conversationId X c d) : s(a, b) = s(c, d) := by
  have hhash : Set.InjOn (X.sha256 ∘ textBytes) (spelledSet "proscenium-dm-v1:".toList ':' String.toList keys) := by
    apply hsha.comp textBytes_injective.injOn
    rintro text ⟨a, ha, b, hb, rfl⟩
    exact ⟨a, ha, b, hb, rfl⟩
  rw [conversationId_eq, conversationId_eq] at h
  have hvector := Vector.toList_inj.mp (hhex h)
  exact (hash_spelled_eq_iff (fun _ _ => String.toList_injective) hsep hhash ha hb hc hd).mp hvector

end Ids

namespace Mailbox

/-- The statements get the ids from `conversation_id`, for keys of these. -/
def UsesIds (X : SealCrates) (me : String) (keys : Set String) : UnreadOp → Prop
  | .upsertConversation peer _ _ => peer ∈ keys
  | .receiveDmMessageAtomically _ master _ _ msg _ => master ∈ keys ∧ ∃ dm, msg = Delivery.incoming X me master dm
  | .insertDmMessage msg => ∃ peer ∈ keys, ∃ dm, msg = Delivery.outgoing X me dm peer
  | _ => True

def ConversationFiled (X : SealCrates) (me : String) (keys : Set String) (c : ConversationRow) : Prop :=
  c.peerPubkey ∈ keys ∧ c.conversationId = conversationId X me c.peerPubkey

def MessageFiled (X : SealCrates) (me : String) (keys : Set String) (r : StoredMessage) : Prop :=
  ∃ peer ∈ keys, r.conversationId = conversationId X me peer ∧ s(r.fromPubkey, r.toPubkey) = s(me, peer)

structure Filed (X : SealCrates) (me : String) (keys : Set String) (m : Mailbox) : Prop where
  conversations : ∀ c ∈ m.conversations, ConversationFiled X me keys c
  messages : ∀ r ∈ m.messages, MessageFiled X me keys r

variable {X : SealCrates} {me : String} {keys : Set String} {m : Mailbox}

theorem filed_empty : Filed X me keys empty := by
  constructor
  · exact fun _ h => absurd h List.not_mem_nil
  · exact fun _ h => absurd h List.not_mem_nil

theorem messageFiled_incoming {master : String} (h : master ∈ keys) (dm : DirectMessage) :
    MessageFiled X me keys (Delivery.incoming X me master dm) := ⟨master, h, rfl, Sym2.eq_swap⟩

theorem messageFiled_outgoing {peer : String} (h : peer ∈ keys) (dm : DirectMessage) :
    MessageFiled X me keys (Delivery.outgoing X me dm peer) := ⟨peer, h, rfl, rfl⟩

theorem Filed.upsertConversation {peer : String} (h : m.Filed X me keys) (hpeer : peer ∈ keys) (at' : UInt64)
    (preview : String) : (m.upsertConversation (conversationId X me peer) peer at' preview).Filed X me keys := by
  constructor
  · apply Table.all_upsert h.conversations
    · exact ⟨hpeer, rfl⟩
    · intro c hc _
      exact h.conversations c hc
  · exact h.messages

theorem Filed.insertDmMessage {msg : StoredMessage} (h : m.Filed X me keys) (hmsg : MessageFiled X me keys msg) :
    (m.insertDmMessage msg).Filed X me keys := by
  constructor
  · rw [conversations_insertDmMessage]
    exact h.conversations
  · intro r hr
    rcases mem_of_mem_insertDmMessage hr with hr | rfl
    · exact h.messages r hr
    · exact hmsg

theorem Filed.receive {master : String} (h : m.Filed X me keys) (hmaster : master ∈ keys) (dm stateJson : String)
    (now : UInt64) (msg : DirectMessage) (preview : String) :
    (m.receiveDmMessageAtomically dm master stateJson now (Delivery.incoming X me master msg) preview).Filed
      X me keys := by
  have hupsert := h.upsertConversation hmaster msg.timestamp preview
  have hinsert := h.insertDmMessage (messageFiled_incoming hmaster msg)
  constructor
  · rw [conversations_receive]
    exact Table.all_updateWhere hupsert.conversations fun c hc _ => hupsert.conversations c hc
  · rw [messages_receive]
    exact hinsert.messages

theorem filed_applyUnread {op : UnreadOp} (h : m.Filed X me keys) (hop : UsesIds X me keys op) :
    (m.applyUnread X me op).Filed X me keys := by
  cases op with
  | upsertConversation peer at' preview =>
    dsimp only [applyUnread, tryUpsertConversation]
    split
    · exact h.upsertConversation hop at' preview
    · exact h
  | receiveDmMessageAtomically dm master stateJson now msg preview =>
    obtain ⟨hmaster, dm', rfl⟩ := hop
    dsimp only [applyUnread, tryReceiveDmMessage]
    split
    · exact h.receive hmaster dm stateJson now dm' preview
    · exact h
  | insertDmMessage msg =>
    obtain ⟨peer, hpeer, dm, rfl⟩ := hop
    dsimp only [applyUnread, tryInsertDmMessage]
    split
    · exact h.insertDmMessage (messageFiled_outgoing hpeer dm)
    · exact h
  | markConversationRead peer =>
    constructor
    · exact Table.all_updateWhere h.conversations fun c hc _ => h.conversations c hc
    · exact Table.all_updateWhere h.messages fun r hr _ => h.messages r hr
  | markDmReadById id =>
    constructor
    · exact h.conversations
    · exact Table.all_updateWhere h.messages fun r hr _ => h.messages r hr
  | deleteDmMessage id =>
    constructor
    · exact h.conversations
    · exact fun r hr => h.messages r (List.mem_of_mem_filter hr)

theorem filed_of_exec {ops : List UnreadOp} (hops : ∀ op ∈ ops, UsesIds X me keys op)
    (hrun : exec (unreadStep X me) empty ops = some m) : m.Filed X me keys := by
  have hok : Along (unreadStep X me) (fun _ op => UsesIds X me keys op) empty ops := Along.of_forall hops
  apply exec_invariant ?_ filed_empty hok hrun
  intro m op t hm hop ht
  obtain rfl := Option.some.inj ht
  exact filed_applyUnread hm hop

/-- An id picks out the conversation with the peer and the messages that go between the two. -/
def KeyedByPeer (X : SealCrates) (me : String) (keys : Set String) (m : Mailbox) : Prop :=
  ∀ peer ∈ keys,
    (∀ c ∈ m.conversations, c.conversationId = conversationId X me peer ↔ c.peerPubkey = peer) ∧
      ∀ r ∈ m.messages, r.conversationId = conversationId X me peer ↔ s(r.fromPubkey, r.toPubkey) = s(me, peer)

theorem Filed.keyedByPeer (h : m.Filed X me keys)
    (hids : ∀ p ∈ keys, ∀ q ∈ keys, conversationId X me p = conversationId X me q → p = q) :
    m.KeyedByPeer X me keys := by
  intro peer hpeer
  constructor
  · intro c hc
    obtain ⟨hkey, hid⟩ := h.conversations c hc
    constructor
    · intro hsame
      exact hids _ hkey _ hpeer (hid.symm.trans hsame)
    · intro hsame
      rw [hid, hsame]
  · intro r hr
    obtain ⟨other, hother, hid, hpair⟩ := h.messages r hr
    rw [hpair]
    constructor
    · intro hsame
      rw [hids _ hother _ hpeer (hid.symm.trans hsame)]
    · intro hsame
      rw [hid, Sym2.congr_right.mp hsame]

end Mailbox

/-- Ids are equal exactly for equal pairs, and so they keep apart what a mailbox holds of each peer. -/
theorem one_id_for_each_pair (X : SealCrates) (keys : Set String) (hhex : Function.Injective X.hexEncode)
    (hsep : ∀ k ∈ keys, ':' ∉ k.toList) (hsha : Set.InjOn X.sha256 (hashedTexts keys)) :
    (∀ a ∈ keys, ∀ b ∈ keys, ∀ c ∈ keys, ∀ d ∈ keys,
      conversationId X a b = conversationId X c d ↔ s(a, b) = s(c, d)) ∧
    ∀ me ∈ keys, ∀ ops m, (∀ op ∈ ops, Mailbox.UsesIds X me keys op) →
      exec (Mailbox.unreadStep X me) Mailbox.empty ops = some m → m.KeyedByPeer X me keys := by
  have hpair : ∀ a ∈ keys, ∀ b ∈ keys, ∀ c ∈ keys, ∀ d ∈ keys,
      conversationId X a b = conversationId X c d → s(a, b) = s(c, d) :=
    fun a ha b hb c hc d hd => pair_eq_of_conversationId hhex hsep hsha ha hb hc hd
  constructor
  · intro a ha b hb c hc d hd
    exact ⟨hpair a ha b hb c hc d hd, conversationId_eq_of_pair X⟩
  · intro me hme ops m hops hrun
    apply (Mailbox.filed_of_exec hops hrun).keyedByPeer
    intro p hp q hq hid
    exact Sym2.congr_right.mp (hpair me hme p hp me hme q hq hid)

section Examples

def suffixSeal : SealCrates := { Delivery.sampleSeal with sha256 := fun bytes => Crypto.bytes32 (bytes.drop 17) }

def twoKeys : Set String := {k | k = "alice" ∨ k = "bob"}

theorem twoKeys_without_separator : ∀ k ∈ twoKeys, ':' ∉ k.toList := by
  rintro k (rfl | rfl)
  · decide
  · decide

theorem injOn_suffixSeal : Set.InjOn suffixSeal.sha256 (hashedTexts twoKeys) := by
  have hback : Set.LeftInvOn (fun hash : Vector UInt8 32 =>
      textBytes "proscenium-dm-v1:".toList ++ hash.toList.takeWhile (· ≠ 0)) suffixSeal.sha256
      (hashedTexts twoKeys) := by
    rintro bytes ⟨a, ha, b, hb, rfl⟩
    unfold textBytes
    rw [Json.toUTF8_toList, Json.toUTF8_toList]
    rcases ha with rfl | rfl <;> rcases hb with rfl | rfl <;> decide
  exact hback.injOn

theorem one_id_alice_bob :
    conversationId suffixSeal "alice" "bob" = conversationId suffixSeal "bob" "alice" ∧
      conversationId suffixSeal "alice" "bob" ≠ conversationId suffixSeal "bob" "bob" := by
  have hhex : Function.Injective suffixSeal.hexEncode := hexEncode_injective
  have halice : "alice" ∈ twoKeys := .inl rfl
  have hbob : "bob" ∈ twoKeys := .inr rfl
  have h := (one_id_for_each_pair suffixSeal twoKeys hhex twoKeys_without_separator injOn_suffixSeal).1
  have hother : s("alice", "bob") ≠ s("bob", "bob") := by
    decide
  constructor
  · exact (h _ halice _ hbob _ hbob _ halice).mpr Sym2.eq_swap
  · exact mt (h _ halice _ hbob _ hbob _ hbob).mp hother

end Examples

end Proscenium.Dm
