import Proscenium.Call.CallDefs
import Proscenium.Dm.DeliveryAcks
import Proscenium.Dm.IncomingDefs

/-! What a peer reaches with the payloads it sends: its conversation, its session,
and the call with it. A receipt updates a message by its id, and an answer or an
end of a call goes by the call's id, wherever the peer has these from. -/

namespace Proscenium.Dm.Incoming

open Crypto Proscenium.Types

theorem filter_updateWhere_eq_iff {ρ : Type} {p q : ρ → Bool} {f : ρ → ρ} (hf : ∀ r, p (f r) = p r)
    (rows : List ρ) : (Table.updateWhere q f rows).filter p = rows.filter p ↔
      ∀ r ∈ rows, p r = true → q r = true → f r = r := by
  have hkeep : ∀ r, p (if q r then f r else r) = p r := by
    intro r
    split
    · exact hf r
    · rfl
  have hmap : (Table.updateWhere q f rows).filter p =
      (rows.filter p).map fun r => if q r then f r else r := by
    unfold Table.updateWhere
    rw [List.filter_map]
    exact congrArg (List.map _) (congrArg (List.filter · rows) (funext hkeep))
  have hid : rows.filter p = (rows.filter p).map id := (List.map_id _).symm
  rw [hmap]
  conv_lhs => rw [hid, List.map_map]
  rw [List.map_inj_left]
  constructor
  · intro h r hr hp hq
    have hsame := h r (List.mem_filter.mpr ⟨hr, hp⟩)
    simpa [hq] using hsame
  · intro h r hr
    have hmem := List.mem_filter.mp hr
    simp only [Function.comp, id]
    split
    next hq => exact h r hmem.1 hmem.2 hq
    next => rfl

section Rows

variable (X : SealCrates) (me peerDmPubkey : String) (peer : Option String)

def isOwn (id : String) : Bool := peer.any fun p => id = conversationId X me p

/-- Only the conversation with the peer and the session under its DM key may differ. -/
structure OnlyOwn (m m' : Mailbox) : Prop where
  messages : m'.messages.filter (fun r => !isOwn X me peer r.conversationId) =
    m.messages.filter fun r => !isOwn X me peer r.conversationId
  conversations : m'.conversations.filter (fun c => !isOwn X me peer c.conversationId) =
    m.conversations.filter fun c => !isOwn X me peer c.conversationId
  sessions : m'.sessions.filter (fun r => r.peerPubkey ≠ peerDmPubkey) =
    m.sessions.filter fun r => r.peerPubkey ≠ peerDmPubkey
  outbox : m'.outbox = m.outbox
  peerDelegations : m'.peerDelegations = m.peerDelegations

def isSentTo (r : StoredMessage) : Bool :=
  isOwn X me peer r.conversationId && r.fromPubkey = me && peer = some r.toPubkey

def isReceipt : DmPayload → Bool
  | .delivered _ | .read _ => true
  | _ => false

/-- Only what belongs to the peer differs, and after a receipt only messages that were sent to it. -/
structure Respects (payload : DmPayload) (m m' : Mailbox) : Prop extends
    OnlyOwn X me peerDmPubkey peer m m' where
  sent : isReceipt payload = true → m'.messages.filter (fun r => !isSentTo X me peer r) =
    m.messages.filter fun r => !isSentTo X me peer r

/-- The message that a receipt names, if it is not marked yet. -/
def marks : DmPayload → StoredMessage → Bool
  | .delivered messageId, r => r.id = messageId && !r.delivered
  | .read messageId, r => r.id = messageId && !r.read
  | _, _ => false

variable {X me peerDmPubkey peer} {m m' : Mailbox} {a : Arrival} {st : RatchetState} {payload : DmPayload}

theorem filter_upsert_of_key {ρ : Type} {key : ρ → String} {k : String} {new : ρ} {f : ρ → ρ}
    (hf : ∀ r, key (f r) = key r) (hnew : key new = k) (rows : List ρ) {p : ρ → Bool}
    (hp : ∀ r, p r = true → key r ≠ k) (hkey : ∀ r r', key r = key r' → p r = p r') :
    (Table.upsert key k new f rows).filter p = rows.filter p := by
  unfold Table.upsert
  split
  · have hupdate := filter_updateWhere_eq_iff (p := p) (q := fun r => decide (key r = k))
      (fun r => hkey (f r) r (hf r)) rows
    have hnone : ∀ r ∈ rows, p r = true → decide (key r = k) = true → f r = r := by
      intro r _ hpr hk
      exact absurd (of_decide_eq_true hk) (hp r hpr)
    have hrows := hupdate.mpr hnone
    unfold Table.updateWhere at hrows
    simpa only [decide_eq_true_eq] using hrows
  · have hout : p new = false := by
      by_contra hin
      exact hp new (by simpa using hin) hnew
    rw [List.filter_append, List.filter_singleton, hout]
    simp

theorem OnlyOwn.refl : OnlyOwn X me peerDmPubkey peer m m := ⟨rfl, rfl, rfl, rfl, rfl⟩

theorem OnlyOwn.trans {m'' : Mailbox} (h : OnlyOwn X me peerDmPubkey peer m m')
    (h' : OnlyOwn X me peerDmPubkey peer m' m'') : OnlyOwn X me peerDmPubkey peer m m'' :=
  ⟨h'.messages.trans h.messages, h'.conversations.trans h.conversations, h'.sessions.trans h.sessions,
    h'.outbox.trans h.outbox, h'.peerDelegations.trans h.peerDelegations⟩

theorem OnlyOwn.saved : OnlyOwn X me peerDmPubkey peer m (saved X peerDmPubkey a st m) where
  messages := rfl
  conversations := rfl
  sessions := by
    show (Table.upsert SessionRow.peerPubkey peerDmPubkey _ _ m.sessions).filter _ = _
    refine filter_upsert_of_key ?_ ?_ m.sessions ?_ ?_
    · exact fun _ => rfl
    · rfl
    · exact fun r h => of_decide_eq_true h
    · intro r r' h
      rw [h]
  outbox := rfl
  peerDelegations := rfl

theorem OnlyOwn.upsertConversation {id master preview : String} {now : UInt64}
    (hown : isOwn X me peer id = true) :
    OnlyOwn X me peerDmPubkey peer m (m.upsertConversation id master now preview) where
  messages := rfl
  conversations := by
    show (Table.upsert ConversationRow.conversationId id _ _ m.conversations).filter _ = _
    refine filter_upsert_of_key ?_ ?_ m.conversations ?_ ?_
    · exact fun _ => rfl
    · rfl
    · rintro c hc rfl
      rw [hown] at hc
      cases hc
    · intro c c' h
      rw [h]
  sessions := rfl
  outbox := rfl
  peerDelegations := rfl

theorem OnlyOwn.insertDmMessage {msg : StoredMessage} (hown : isOwn X me peer msg.conversationId = true) :
    OnlyOwn X me peerDmPubkey peer m (m.insertDmMessage msg) := by
  unfold Mailbox.insertDmMessage
  split
  · exact OnlyOwn.refl
  · refine ⟨?_, rfl, rfl, rfl, rfl⟩
    have hout : (!isOwn X me peer msg.conversationId) = false := by rw [hown]; rfl
    simp [hout]

theorem OnlyOwn.updateConversation {id : String} {f : ConversationRow → ConversationRow}
    (hf : ∀ c, (f c).conversationId = c.conversationId) (hown : isOwn X me peer id = true) :
    OnlyOwn X me peerDmPubkey peer m { m with
      conversations := Table.updateWhere (fun c => c.conversationId = id) f m.conversations } := by
  refine ⟨rfl, ?_, rfl, rfl, rfl⟩
  refine (filter_updateWhere_eq_iff (fun c => ?_) _).mpr fun c _ hc heq => ?_
  · rw [hf c]
  · rw [of_decide_eq_true heq, hown] at hc
    cases hc

theorem OnlyOwn.receive {master preview : String} {msg : DirectMessage} (hpeer : peer = some master) :
    OnlyOwn X me peerDmPubkey peer m (m.receiveDmMessageAtomically peerDmPubkey master
      (X.sealRatchetState a.nonce st) a.now (Delivery.incoming X me master msg) preview) := by
  have hown : isOwn X me peer (Delivery.incoming X me master msg).conversationId = true := by
    simp [isOwn, hpeer, Delivery.incoming]
  have hupserted : OnlyOwn X me peerDmPubkey peer m ((Incoming.saved X peerDmPubkey a st m).upsertConversation
      (Delivery.incoming X me master msg).conversationId master (Delivery.incoming X me master msg).timestamp
      preview) := OnlyOwn.saved.trans (OnlyOwn.upsertConversation hown)
  have hinserted := hupserted.trans (OnlyOwn.insertDmMessage hown)
  exact hinserted.trans (OnlyOwn.updateConversation (fun _ => rfl) hown)

theorem onlyOwn_receiveMessage {msg : DirectMessage} :
    OnlyOwn X me peerDmPubkey (m.getMasterPubkeyForDmPubkey peerDmPubkey) m
      (receiveMessage X me peerDmPubkey a st msg m).mailbox := by
  unfold receiveMessage
  cases hmaster : m.getMasterPubkeyForDmPubkey peerDmPubkey with
  | none => exact OnlyOwn.refl
  | some master =>
    cases previewOf msg.content with
    | none => exact OnlyOwn.refl
    | some preview =>
      dsimp only
      split
      · cases shortId master with
        | none => exact OnlyOwn.receive rfl
        | some _ => exact OnlyOwn.receive rfl
      · exact OnlyOwn.refl

/-- The unmarked message that a receipt names was sent to the peer. -/
def ReceiptsOwn (X : SealCrates) (me : String) (peer : Option String) (payload : DmPayload) (m : Mailbox) : Prop :=
  ∀ r ∈ m.messages, marks payload r = true → isSentTo X me peer r = true

theorem respects_mark_iff (field : StoredMessage → Bool) {f : StoredMessage → StoredMessage} {id : String}
    (hreceipt : isReceipt payload = true) (hmarks : ∀ r, marks payload r = (decide (r.id = id) && !field r))
    (hsame : ∀ r, f r = r ↔ field r = true)
    (hid : ∀ r, isOwn X me peer (f r).conversationId = isOwn X me peer r.conversationId)
    (hsent : ∀ r, isSentTo X me peer (f r) = isSentTo X me peer r) :
    Respects X me peerDmPubkey peer payload m { saved X peerDmPubkey a st m with
      messages := Table.updateWhere (fun r => r.id = id) f m.messages } ↔
      ReceiptsOwn X me peer payload m := by
  have hsaved : OnlyOwn X me peerDmPubkey peer m (saved X peerDmPubkey a st m) := OnlyOwn.saved
  have hrows := filter_updateWhere_eq_iff (p := fun r => !isSentTo X me peer r)
    (q := fun r : StoredMessage => decide (r.id = id)) (fun r => by rw [hsent r]) m.messages
  have hown := filter_updateWhere_eq_iff (p := fun r : StoredMessage => !isOwn X me peer r.conversationId)
    (q := fun r : StoredMessage => decide (r.id = id)) (fun r => by rw [hid r]) m.messages
  have hchanged : ∀ r ∈ m.messages, marks payload r = true ↔ decide (r.id = id) = true ∧ f r ≠ r := by
    intro r _
    rw [hmarks, Bool.and_eq_true, Ne, hsame]
    simp
  constructor
  · intro h r hr hm
    have hmark := (hchanged r hr).mp hm
    by_contra hother
    exact hmark.2 (hrows.mp (h.sent hreceipt) r hr (by simpa using hother) hmark.1)
  · intro h
    have hsentTo : ∀ r ∈ m.messages, isSentTo X me peer r = false → decide (r.id = id) = true → f r = r := by
      intro r hr hother hk
      by_contra hne
      rw [h r hr ((hchanged r hr).mpr ⟨hk, hne⟩)] at hother
      cases hother
    refine ⟨⟨hown.mpr fun r hr hother => hsentTo r hr ?_, hsaved.conversations, hsaved.sessions,
      hsaved.outbox, hsaved.peerDelegations⟩,
      fun _ => hrows.mpr fun r hr hother => hsentTo r hr (by simpa using hother)⟩
    have hnot : isOwn X me peer r.conversationId = false := by simpa using hother
    simp [isSentTo, hnot]

theorem respects_dispatch_iff :
    Respects X me peerDmPubkey (m.getMasterPubkeyForDmPubkey peerDmPubkey) payload m
      (dispatch X me peerDmPubkey a st payload m).mailbox ↔
      ReceiptsOwn X me (m.getMasterPubkeyForDmPubkey peerDmPubkey) payload m := by
  have hplain : ∀ {peer : Option String} {m' : Mailbox}, isReceipt payload = false →
      OnlyOwn X me peerDmPubkey peer m m' → (∀ r, marks payload r = false) →
      (Respects X me peerDmPubkey peer payload m m' ↔ ReceiptsOwn X me peer payload m) := by
    intro peer m' hno honly hmarks
    refine iff_of_true ⟨honly, fun h => ?_⟩ fun r _ h => ?_
    · rw [hno] at h
      cases h
    · rw [hmarks r] at h
      cases h
  cases payload with
  | message msg => exact hplain rfl onlyOwn_receiveMessage fun _ => rfl
  | delivered messageId =>
    have hsame : ∀ r : StoredMessage, { r with delivered := true } = r ↔ r.delivered = true :=
      fun r => ⟨fun h => h ▸ rfl, fun h => h ▸ rfl⟩
    exact respects_mark_iff StoredMessage.delivered rfl (fun _ => rfl) hsame (fun _ => rfl) fun _ => rfl
  | read messageId =>
    have hsame : ∀ r : StoredMessage, { r with read := true } = r ↔ r.read = true :=
      fun r => ⟨fun h => h ▸ rfl, fun h => h ▸ rfl⟩
    exact respects_mark_iff StoredMessage.read rfl (fun _ => rfl) hsame (fun _ => rfl) fun _ => rfl
  | _ => exact hplain rfl OnlyOwn.saved fun _ => rfl

theorem signal_dispatch {sender : String} {signal : DmPayload}
    (h : .callSignal sender signal ∈ (dispatch X me peerDmPubkey a st payload m).notices) :
    m.getMasterPubkeyForDmPubkey peerDmPubkey = some sender ∧ signal = payload := by
  have hpeer : ∀ {p : DmPayload}, .callSignal sender signal ∈
      (m.getMasterPubkeyForDmPubkey peerDmPubkey).toList.map (Notice.callSignal · p) →
      m.getMasterPubkeyForDmPubkey peerDmPubkey = some sender ∧ signal = p := by
    intro p hmem
    simp only [List.mem_map, Option.mem_toList, Notice.callSignal.injEq] at hmem
    obtain ⟨q, hq, rfl, rfl⟩ := hmem
    exact ⟨hq, rfl⟩
  cases payload with
  | message msg =>
    unfold dispatch receiveMessage at h
    dsimp only at h
    split at h
    · cases h
    · split at h
      · cases h
      · split at h
        · split at h
          · cases h
          · simp at h
        · cases h
  | typing => simp [dispatch] at h
  | read messageId => simp [dispatch] at h
  | delivered messageId => simp [dispatch] at h
  | _ => exact hpeer h

end Rows

section Calls

open Call (CallHandler ActiveCall)

/-- The step of the call handler is one of those that handle this signal of the peer. The handling ends with
the connection; what a failure of the audio session it spawns does later is not the signal's. -/
def HandlesSignal (peer : String) (payload : DmPayload) (h : CallHandler) : Call.Label → Prop
  | .onCallOffer callId peerPubkey => peerPubkey = peer ∧ ∃ video, payload = .callOffer callId video
  | .installOffer => ∃ callId video, h.dispatch = .offering callId peer ∧ payload = .callOffer callId video
  | .onCallAnswered callId peerPubkey => peerPubkey = peer ∧ payload = .callAnswer callId
  | .resolveTransport _ => ∃ callId, h.dispatch = .resolving callId peer ∧ payload = .callAnswer callId
  | .connect _ => ∃ callId, h.dispatch = .connecting callId peer ∧ payload = .callAnswer callId
  | .onCallEnded callId => payload = .callReject callId ∨ payload = .callHangup callId
  | _ => False

/-- The active call and the tokens stay, or it is a call with the peer before and after. -/
def RespectsCall (peer : String) (h h' : CallHandler) : Prop :=
  (h'.activeCall = h.activeCall ∧ h'.cancelled = h.cancelled) ∨
    (∀ call, h.activeCall = some call → call.peerPubkey = peer) ∧
    ∀ call, h'.activeCall = some call → call.peerPubkey = peer

/-- The call that the step writes over, if it writes over one, is with the peer. -/
def CallsOwn (peer : String) (h : CallHandler) : Call.Label → Prop
  | .installOffer | .resolveTransport false | .connect false =>
    ∀ call, h.activeCall = some call → call.peerPubkey = peer
  | .onCallAnswered callId _ | .onCallEnded callId =>
    ∀ call, h.activeCall = some call → call.callId = callId → call.peerPubkey = peer
  | _ => True

variable {peer : String} {payload : DmPayload} {h h' : CallHandler} {label : Call.Label}

theorem respectsCall_of_replaced (hafter : ∀ call, h'.activeCall = some call → call.peerPubkey = peer) :
    RespectsCall peer h h' ↔ ∀ call, h.activeCall = some call → call.peerPubkey = peer := by
  constructor
  · rintro (⟨hsame, -⟩ | ⟨hbefore, -⟩) call hcall
    · exact hafter call (hsame.trans hcall)
    · exact hbefore call hcall
  · intro hown
    exact .inr ⟨hown, hafter⟩

theorem respectsCall_of_cancelled {callId : String}
    (hother : (∀ call, h.activeCall = some call → call.callId ≠ callId) →
      h'.activeCall = h.activeCall ∧ h'.cancelled = h.cancelled)
    (hcancel : ∀ call, h.activeCall = some call → call.callId = callId →
      h'.cancelled = call.cancel :: h.cancelled ∧
      ∀ after, h'.activeCall = some after → after.peerPubkey = call.peerPubkey) :
    RespectsCall peer h h' ↔
      ∀ call, h.activeCall = some call → call.callId = callId → call.peerPubkey = peer := by
  constructor
  · rintro (⟨-, htokens⟩ | ⟨hbefore, -⟩) call hcall hid
    · rw [(hcancel call hcall hid).1] at htokens
      exact absurd htokens (List.cons_ne_self _ _)
    · exact hbefore call hcall
  · intro hown
    by_cases hnamed : ∃ call, h.activeCall = some call ∧ call.callId = callId
    · obtain ⟨call, hcall, hid⟩ := hnamed
      have hpeer := hown call hcall hid
      refine .inr ⟨fun c hc => ?_, fun after ha => ((hcancel call hcall hid).2 after ha).trans hpeer⟩
      cases hcall.symm.trans hc
      exact hpeer
    · exact .inl (hother fun call hcall hid => hnamed ⟨call, hcall, hid⟩)

theorem respectsCall_onCallAnswered {callId peerPubkey : String} :
    RespectsCall peer h (h.onCallAnswered callId peerPubkey) ↔
      ∀ call, h.activeCall = some call → call.callId = callId → call.peerPubkey = peer := by
  apply respectsCall_of_cancelled
  · intro hother
    unfold CallHandler.onCallAnswered
    cases hcall : h.activeCall with
    | none => simp [CallHandler.record, hcall]
    | some call => simp [CallHandler.record, hcall, hother call hcall]
  · rintro call hcall rfl
    have hcall' : (h.record (.answerArrived call.callId peerPubkey)).activeCall = some call := hcall
    unfold CallHandler.onCallAnswered
    simp only [hcall', if_true]
    refine ⟨rfl, fun after ha => ?_⟩
    cases ha
    rfl

theorem respectsCall_onCallEnded {callId : String} :
    RespectsCall peer h (h.onCallEnded callId) ↔
      ∀ call, h.activeCall = some call → call.callId = callId → call.peerPubkey = peer := by
  apply respectsCall_of_cancelled
  · intro hother
    unfold CallHandler.onCallEnded CallHandler.clearIf
    cases hcall : h.activeCall with
    | none => simp [hcall]
    | some call => simp [hcall, hother call hcall]
  · rintro call hcall rfl
    unfold CallHandler.onCallEnded CallHandler.clearIf
    rw [hcall]
    simp only [if_true]
    refine ⟨rfl, fun after ha => ?_⟩
    cases ha

theorem respectsCall_installOffer {callId : String} :
    RespectsCall peer h (h.installOffer callId peer) ↔
      ∀ call, h.activeCall = some call → call.peerPubkey = peer := by
  apply respectsCall_of_replaced
  intro call hcall
  cases hcall
  rfl

theorem respectsCall_fail {callId peerPubkey : String} {dispatch : Call.Dispatch} :
    RespectsCall peer h { h.fail callId peerPubkey with dispatch := dispatch } ↔
      ∀ call, h.activeCall = some call → call.peerPubkey = peer := by
  apply respectsCall_of_replaced
  intro call hcall
  cases hcall

theorem activeCall_onCallOffer {callId peerPubkey : String} :
    (h.onCallOffer callId peerPubkey).activeCall = h.activeCall ∧
      (h.onCallOffer callId peerPubkey).cancelled = h.cancelled := by
  unfold CallHandler.onCallOffer
  split
  · exact ⟨rfl, rfl⟩
  · exact ⟨rfl, rfl⟩

theorem respectsCall_step_iff (hsignal : HandlesSignal peer payload h label) (hstep : h.step label = some h') :
    RespectsCall peer h h' ↔ CallsOwn peer h label := by
  have hkept : h'.activeCall = h.activeCall ∧ h'.cancelled = h.cancelled → (RespectsCall peer h h' ↔ True) :=
    fun hsame => iff_of_true (.inl hsame) trivial
  cases label with
  | onCallOffer callId peerPubkey =>
    simp only [CallHandler.step, Option.ite_none_right_eq_some, Option.some.injEq] at hstep
    obtain ⟨-, rfl⟩ := hstep
    exact hkept activeCall_onCallOffer
  | installOffer =>
    obtain ⟨callId, video, hdispatch, -⟩ := hsignal
    simp only [CallHandler.step, hdispatch, Option.some.injEq] at hstep
    subst hstep
    exact respectsCall_installOffer
  | onCallAnswered callId peerPubkey =>
    simp only [CallHandler.step, Option.ite_none_right_eq_some, Option.some.injEq] at hstep
    obtain ⟨-, rfl⟩ := hstep
    exact respectsCall_onCallAnswered
  | resolveTransport found =>
    obtain ⟨callId, hdispatch, -⟩ := hsignal
    simp only [CallHandler.step, hdispatch, Option.some.injEq] at hstep
    subst hstep
    cases found with
    | true => exact hkept ⟨rfl, rfl⟩
    | false => exact respectsCall_fail
  | connect ok =>
    obtain ⟨callId, hdispatch, -⟩ := hsignal
    simp only [CallHandler.step, hdispatch, Option.some.injEq] at hstep
    subst hstep
    cases ok with
    | true => exact hkept ⟨rfl, rfl⟩
    | false => exact respectsCall_fail
  | onCallEnded callId =>
    simp only [CallHandler.step, Option.ite_none_right_eq_some, Option.some.injEq] at hstep
    obtain ⟨-, rfl⟩ := hstep
    exact respectsCall_onCallEnded
  | _ => exact absurd hsignal id

end Calls

/-- What a payload from a peer changes belongs to the peer exactly if the unmarked message that a
receipt names was sent to it, and if the call that a step of the call handler writes over is with it. -/
theorem own_conversation_iff (X : SealCrates) (me peerDmPubkey : String) (a : Arrival) (st : RatchetState)
    (payload : DmPayload) (m : Mailbox) (peer : String) (h h' : Call.CallHandler) (label : Call.Label) :
    (Respects X me peerDmPubkey (m.getMasterPubkeyForDmPubkey peerDmPubkey) payload m
        (dispatch X me peerDmPubkey a st payload m).mailbox ↔
      ReceiptsOwn X me (m.getMasterPubkeyForDmPubkey peerDmPubkey) payload m) ∧
    (∀ sender signal, .callSignal sender signal ∈ (dispatch X me peerDmPubkey a st payload m).notices →
      m.getMasterPubkeyForDmPubkey peerDmPubkey = some sender ∧ signal = payload) ∧
    (HandlesSignal peer payload h label → h.step label = some h' →
      (RespectsCall peer h h' ↔ CallsOwn peer h label)) :=
  ⟨respects_dispatch_iff, fun _ _ => signal_dispatch, respectsCall_step_iff⟩

section Runs

open Call (CallHandler)
open Delivery (sampleSeal bobStart bobKnows)

def withCarol : CallHandler := CallHandler.new.install "k" "c"

def plainArrival : Arrival := ⟨⟨"da", ⟨"", 0, 0⟩, []⟩, 9, Vector.replicate 12 0, pairOf 4⟩

/-- Alice gives up on a call that the user does not have. -/
theorem own_conversation_other_call : withCarol.onCallEnded "l" = withCarol ∧
    (RespectsCall "a" withCarol (withCarol.onCallEnded "l") ↔ CallsOwn "a" withCarol (.onCallEnded "l")) := by
  have hsignal : HandlesSignal "a" (.callHangup "l") withCarol (.onCallEnded "l") := .inr rfl
  have hcall := (own_conversation_iff sampleSeal "b" "da" plainArrival bobStart (.callHangup "l") bobKnows "a"
    withCarol _ _).2.2 hsignal rfl
  exact ⟨rfl, hcall⟩

/-- Bob, who knows Alice, with a message that he sent to Carol. -/
def bobWithCarol : Mailbox :=
  { bobKnows with
    messages := [Delivery.outgoing sampleSeal "b" ⟨"m9", "hi", 5, [], none⟩ "c"] }

/-- A receipt from Alice marks the message to Carol, and a hangup from Alice ends the call with Carol. -/
theorem not_own_conversation_carol :
    ¬ Respects sampleSeal "b" "da" (bobWithCarol.getMasterPubkeyForDmPubkey "da") (.delivered "m9") bobWithCarol
      (dispatch sampleSeal "b" "da" plainArrival bobStart (.delivered "m9") bobWithCarol).mailbox ∧
    ¬ RespectsCall "a" withCarol (withCarol.onCallEnded "k") := by
  constructor
  · intro h
    have hsame : (dispatch sampleSeal "b" "da" plainArrival bobStart (.delivered "m9")
        bobWithCarol).mailbox.messages.filter
          (fun r => !isSentTo sampleSeal "b" (bobWithCarol.getMasterPubkeyForDmPubkey "da") r) ≠
        bobWithCarol.messages.filter
          fun r => !isSentTo sampleSeal "b" (bobWithCarol.getMasterPubkeyForDmPubkey "da") r := by
      decide +kernel
    exact hsame (h.sent rfl)
  · rintro (⟨hsame, -⟩ | ⟨hbefore, -⟩)
    · cases hsame
    · have hcarol := hbefore ⟨"k", "c", 0⟩ rfl
      revert hcarol
      decide

end Runs
end Proscenium.Dm.Incoming
