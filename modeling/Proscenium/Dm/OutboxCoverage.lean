import Proscenium.Dm.DeliveryAcks

/-! Is every message that is not delivered queued? `send_dm` stores the row
first and queues the envelope only when the envelope exists and could not be
sent; whatever ends the command in between leaves a row that nothing will send
again. While none of that happens, each such row has an outbox entry or a
command that is still at it. -/

namespace Proscenium.Dm.Delivery

open Crypto Proscenium.Types

variable {C : Crates} {X : SealCrates} {me you : String}

/-- The task is all that will still take care of the message. -/
def Task.Holds (id : String) : Task → Prop
  | .send _ (.upsert _) | .send _ .insert => False
  | .send msg _ => msg.id = id
  | .flush (entry :: _) .mark => entry.messageId = id
  | .flush _ _ => False

instance (id : String) : ∀ t : Task, Decidable (t.Holds id)
  | .send _ (.upsert _) | .send _ .insert => inferInstanceAs (Decidable False)
  | .send msg .establish | .send msg (.save _ _ _) | .send msg (.connect _)
  | .send msg (.awaitAck _ _) | .send msg (.queue _) | .send msg .mark =>
    inferInstanceAs (Decidable (msg.id = id))
  | .flush (entry :: _) .mark => inferInstanceAs (Decidable (entry.messageId = id))
  | .flush [] _ | .flush (_ :: _) .read | .flush (_ :: _) .connect | .flush (_ :: _) (.awaitAck _)
  | .flush (_ :: _) .remove => inferInstanceAs (Decidable False)

def Task.entries : Task → List OutboxRow
  | .send _ _ => []
  | .flush entries _ => entries

def Task.Keeps (w : World) (o : Outcome) : Task → Prop
  | .send _ .establish => ∃ s ∈ o.session, s.1.chainKeySend ≠ none
  | .send _ (.save _ _ _) | .send _ (.queue _) | .send _ .mark => o.ok = true
  | .flush (entry :: _) .mark => o.ok = true ∨ entry ∈ w.sender.outbox
  | .send _ _ | .flush _ _ => True

instance (w : World) (o : Outcome) : ∀ t : Task, Decidable (t.Keeps w o)
  | .send _ .establish => inferInstanceAs (Decidable (∃ s ∈ o.session, s.1.chainKeySend ≠ none))
  | .send _ (.save _ _ _) | .send _ (.queue _) | .send _ .mark =>
    inferInstanceAs (Decidable (o.ok = true))
  | .flush (entry :: _) .mark =>
    inferInstanceAs (Decidable (o.ok = true ∨ entry ∈ w.sender.outbox))
  | .send _ (.upsert _) | .send _ .insert | .send _ (.connect _) | .send _ (.awaitAck _ _)
  | .flush [] _ | .flush (_ :: _) .read | .flush (_ :: _) .connect | .flush (_ :: _) (.awaitAck _)
  | .flush (_ :: _) .remove => isTrue trivial

def Task.FreshId (w : World) (o : Outcome) : Task → Prop
  | .send _ (.queue _) => (∀ r ∈ w.sender.outbox, r.id ≠ o.id) ∧
      ∀ t ∈ w.tasks, ∀ r ∈ t.entries, r.id ≠ o.id
  | .send _ _ | .flush _ _ => True

instance (w : World) (o : Outcome) : ∀ t : Task, Decidable (t.FreshId w o)
  | .send _ (.queue _) => inferInstanceAs (Decidable ((∀ r ∈ w.sender.outbox, r.id ≠ o.id) ∧
      ∀ t ∈ w.tasks, ∀ r ∈ t.entries, r.id ≠ o.id))
  | .send _ .establish | .send _ (.save _ _ _) | .send _ .mark | .send _ (.upsert _)
  | .send _ .insert | .send _ (.connect _) | .send _ (.awaitAck _ _) | .flush _ _ => isTrue trivial

namespace World

/-- No step drops a message: sessions are established, writes succeed, and no restart comes
while a message is at hand. -/
def NothingDropped (w : World) : Label → Prop
  | .task i o => ∀ t ∈ w.tasks[i]?, t.Keeps w o
  | .restartSender => ∀ t ∈ w.tasks, ∀ r ∈ w.sender.messages, ¬ t.Holds r.id
  | .sendDm _ _ _ _ _ _ | .flushAllOutbox | .accept _ _ | .drop _ | .restartReceiver | .editSender _
  | .editReceiver _ | .receiverSends .. => True

/-- The ids that are drawn for outbox entries do not repeat. -/
def FreshIds (w : World) : Label → Prop
  | .task i o => ∀ t ∈ w.tasks[i]?, t.FreshId w o
  | .sendDm _ _ _ _ _ _ | .flushAllOutbox | .restartSender | .accept _ _ | .drop _ | .restartReceiver
  | .editSender _ | .editReceiver _ | .receiverSends .. => True

instance (w : World) : ∀ l, Decidable (w.NothingDropped l)
  | .task i o => inferInstanceAs (Decidable (∀ t ∈ w.tasks[i]?, t.Keeps w o))
  | .restartSender =>
    inferInstanceAs (Decidable (∀ t ∈ w.tasks, ∀ r ∈ w.sender.messages, ¬ t.Holds r.id))
  | .sendDm _ _ _ _ _ _ | .flushAllOutbox | .accept _ _ | .drop _ | .restartReceiver | .editSender _
  | .editReceiver _ | .receiverSends .. => isTrue trivial

instance (w : World) : ∀ l, Decidable (w.FreshIds l)
  | .task i o => inferInstanceAs (Decidable (∀ t ∈ w.tasks[i]?, t.FreshId w o))
  | .sendDm _ _ _ _ _ _ | .flushAllOutbox | .restartSender | .accept _ _ | .drop _ | .restartReceiver
  | .editSender _ | .editReceiver _ | .receiverSends .. => isTrue trivial

def Covers (w : World) (id : String) : Prop :=
  (∃ e ∈ w.sender.outbox, e.messageId = id) ∨ ∃ t ∈ w.tasks, t.Holds id

/-- The table has no other message under the id of this entry. -/
def Named (w : World) (e : OutboxRow) : Prop :=
  ∀ r ∈ w.sender.outbox, r.id = e.id → r.messageId = e.messageId

structure Covered (w : World) : Prop where
  covers : ∀ r ∈ w.sender.messages, r.delivered = false → w.Covers r.id
  outbox : ∀ e ∈ w.sender.outbox, w.Named e
  entries : ∀ t ∈ w.tasks, ∀ e ∈ t.entries, w.Named e

variable {w u : World}

/-- The other tasks stay, so the step has to account only for what `t` held, for outbox entries
that go and for rows that come. -/
theorem Covered.advance (h : w.Covered) {i : Nat} {t : Task} (hi : w.tasks[i]? = some t)
    (htasks : u.tasks = w.tasks) {next : Option Task}
    (hrows : ∀ r ∈ u.sender.messages, r.delivered = false →
      (∃ r' ∈ w.sender.messages, r'.id = r.id ∧ r'.delivered = false) ∨ ∃ x ∈ next, x.Holds r.id)
    (hold : ∀ r ∈ u.sender.messages, r.delivered = false →
      ((∃ e ∈ w.sender.outbox, e.messageId = r.id) ∨ t.Holds r.id) →
      (∃ e ∈ u.sender.outbox, e.messageId = r.id) ∨ ∃ x ∈ next, x.Holds r.id)
    (hnamed : ∀ e, w.Named e → (e ∈ w.sender.outbox ∨ ∃ x ∈ w.tasks, e ∈ x.entries) → u.Named e)
    (hbox : ∀ e ∈ u.sender.outbox, e ∈ w.sender.outbox ∨ u.Named e)
    (hnext : ∀ x ∈ next, ∀ e ∈ x.entries, e ∈ w.sender.outbox ∨ e ∈ t.entries) :
    (u.advance i next).Covered := by
  have hi' : u.tasks[i]? = some t := htasks ▸ hi
  have hnamed' : ∀ e, (e ∈ w.sender.outbox ∨ ∃ x ∈ w.tasks, e ∈ x.entries) → u.Named e := by
    rintro e (he | ⟨x, hx, he⟩)
    · exact hnamed e (h.outbox e he) (.inl he)
    · exact hnamed e (h.entries x hx e he) (.inr ⟨x, hx, he⟩)
  refine ⟨?_, fun e he => (hbox e he).elim (fun he => hnamed' e (.inl he)) id, ?_⟩
  · have hstays : ∀ r : StoredMessage,
        ((∃ e ∈ u.sender.outbox, e.messageId = r.id) ∨ ∃ x ∈ next, x.Holds r.id) →
        (u.advance i next).Covers r.id := by
      rintro r (hbox | ⟨x, hx, hheld⟩)
      · exact .inl hbox
      · exact .inr ⟨x, (Tasks.mem_advance hi').mpr (.inl hx), hheld⟩
    intro r hr hundelivered
    rcases hrows r hr hundelivered with ⟨r', hr', hid, hundelivered'⟩ | hnew
    · rcases h.covers r' hr' hundelivered' with hbox | ⟨x, hx, hheld⟩
      · exact hstays r (hold r hr hundelivered (.inl (hid ▸ hbox)))
      · rw [hid] at hheld
        rcases List.mem_cons.mp ((Tasks.perm_others hi).mem_iff.mpr hx) with rfl | hother
        · exact hstays r (hold r hr hundelivered (.inr hheld))
        · rw [← htasks] at hother
          exact .inr ⟨x, (Tasks.mem_advance hi').mpr (.inr hother), hheld⟩
    · exact hstays r (.inr hnew)
  · intro x hx e he
    rcases (Tasks.mem_advance hi').mp hx with hx | hx
    · rcases hnext x hx e he with he | he
      · exact hnamed' e (.inl he)
      · exact hnamed' e (.inr ⟨t, List.mem_of_getElem? hi, he⟩)
    · exact hnamed' e (.inr ⟨x, htasks ▸ List.mem_of_mem_eraseIdx hx, he⟩)

theorem Covered.go (h : w.Covered) {i : Nat} {t : Task} (hi : w.tasks[i]? = some t)
    (htasks : u.tasks = w.tasks) (hmessages : u.sender.messages = w.sender.messages)
    (houtbox : u.sender.outbox = w.sender.outbox) {next : Option Task}
    (hheld : ∀ r ∈ w.sender.messages, r.delivered = false → t.Holds r.id →
      (∃ e ∈ w.sender.outbox, e.messageId = r.id) ∨ ∃ x ∈ next, x.Holds r.id)
    (hnext : ∀ x ∈ next, ∀ e ∈ x.entries, e ∈ w.sender.outbox ∨ e ∈ t.entries) :
    (u.advance i next).Covered := by
  have hnamed : ∀ e, w.Named e → u.Named e := by
    intro e he r hr
    exact he r (houtbox ▸ hr)
  apply h.advance hi htasks
  · intro r hr hundelivered
    exact .inl ⟨r, hmessages ▸ hr, rfl, hundelivered⟩
  · intro r hr hundelivered hcovered
    rw [hmessages] at hr
    rw [houtbox]
    exact hcovered.elim .inl (hheld r hr hundelivered)
  · exact fun e he _ => hnamed e he
  · exact fun e he => .inl (houtbox ▸ he)
  · exact hnext

theorem Covered.mark (h : w.Covered) {i : Nat} {t : Task} (hi : w.tasks[i]? = some t)
    (htasks : u.tasks = w.tasks) {id : String}
    (hsender : u.sender = w.sender.markDmDelivered id) (hheld : ∀ id', t.Holds id' → id' = id)
    {next : Option Task} (hnext : ∀ x ∈ next, ∀ e ∈ x.entries, e ∈ t.entries) :
    (u.advance i next).Covered := by
  have houtbox : u.sender.outbox = w.sender.outbox := by rw [hsender]; rfl
  have hrows : ∀ r ∈ u.sender.messages, r.delivered = false →
      r ∈ w.sender.messages ∧ r.id ≠ id := by
    intro r hr hundelivered
    rw [hsender] at hr
    obtain ⟨r', hr', heq⟩ := List.mem_map.mp hr
    split at heq
    · rw [← heq] at hundelivered
      exact nomatch hundelivered
    · rename_i hne
      subst heq
      exact ⟨hr', by simpa using hne⟩
  apply h.advance hi htasks
  · intro r hr hundelivered
    exact .inl ⟨r, (hrows r hr hundelivered).1, rfl, hundelivered⟩
  · intro r hr hundelivered hcovered
    rw [houtbox]
    exact hcovered.elim .inl fun hholds => absurd (hheld _ hholds) (hrows r hr hundelivered).2
  · intro e he _ r hr
    exact he r (houtbox ▸ hr)
  · exact fun e he => .inl (houtbox ▸ he)
  · exact fun x hx e he => .inr (hnext x hx e he)

theorem sender_connect (w : World) (you peer id : String) (envelope : EncryptedEnvelope) :
    (w.connect you peer id envelope).1.sender = w.sender := by
  unfold World.connect
  split <;> rfl

theorem sender_act (w : World) (you peer id : String) : (w.act you peer id).sender = w.sender := by
  unfold World.act
  split <;> rfl

theorem not_mem_entries_send {msg : StoredMessage} {phase : SendPhase} {w : World} {t : Task} :
    ∀ x ∈ some (Task.send msg phase), ∀ e ∈ x.entries, e ∈ w.sender.outbox ∨ e ∈ t.entries := by
  intro x hx e he
  obtain rfl := Option.mem_some_iff.mp hx
  exact nomatch he

theorem Covered.runSend (h : w.Covered) {i : Nat} {o : Outcome} {msg : StoredMessage}
    {phase : SendPhase} (hi : w.tasks[i]? = some (.send msg phase))
    (hkeeps : (Task.send msg phase).Keeps w o)
    (hfresh : ∀ envelope, phase = .queue envelope → (∀ r ∈ w.sender.outbox, r.id ≠ o.id) ∧
      ∀ t ∈ w.tasks, ∀ r ∈ t.entries, r.id ≠ o.id)
    {out : World × Option Task} (hout : w.runSend C X you o msg phase = some out) :
    (out.1.advance i out.2).Covered := by
  have hnone : ∀ x ∈ (none : Option Task), ∀ e ∈ x.entries,
      e ∈ w.sender.outbox ∨ e ∈ (Task.send msg phase).entries := fun _ hx => nomatch hx
  unfold World.runSend at hout
  cases phase with
  | upsert preview =>
    dsimp only at hout
    split at hout
    · cases hout
      let sender := w.sender.upsertConversation msg.conversationId msg.toPubkey msg.timestamp preview
      exact h.go (u := { w with sender := sender }) hi rfl rfl rfl (fun _ _ _ hheld => hheld.elim)
        not_mem_entries_send
    · cases hout
      exact h.go hi rfl rfl rfl (fun _ _ _ hheld => hheld.elim) hnone
  | insert =>
    dsimp only at hout
    split at hout
    · cases hout
      have hrows : ∀ r ∈ (w.sender.insertDmMessage msg).messages,
          r ∈ w.sender.messages ∨ r.id = msg.id := by
        intro r hr
        unfold Mailbox.insertDmMessage at hr
        split at hr
        · exact .inl hr
        · rcases List.mem_append.mp hr with hr | hr
          · exact .inl hr
          · exact .inr (congrArg StoredMessage.id (List.mem_singleton.mp hr))
      have houtbox : (w.sender.insertDmMessage msg).outbox = w.sender.outbox := by
        unfold Mailbox.insertDmMessage
        split <;> rfl
      refine h.advance (u := { w with sender := w.sender.insertDmMessage msg }) hi rfl ?_ ?_ ?_ ?_
        not_mem_entries_send
      · intro r hr hundelivered
        rcases hrows r hr with hr | hid
        · exact .inl ⟨r, hr, rfl, hundelivered⟩
        · exact .inr ⟨_, rfl, hid.symm⟩
      · intro r hr hundelivered hcovered
        show (∃ e ∈ (w.sender.insertDmMessage msg).outbox, _) ∨ _
        rw [houtbox]
        exact hcovered.elim .inl fun hheld => hheld.elim
      · intro e he _ r hr
        exact he r (houtbox ▸ hr)
      · exact fun e he => .inl (houtbox ▸ he)
    · cases hout
      exact h.go hi rfl rfl rfl (fun _ _ _ hheld => hheld.elim) hnone
  | establish =>
    obtain ⟨⟨state, peerDmPubkey⟩, hsession, hchain⟩ := hkeeps
    rw [Option.mem_def.mp hsession] at hout
    dsimp only at hout
    split at hout
    · rename_i hencrypt
      unfold RatchetState.encrypt at hencrypt
      split at hencrypt
      · rename_i hnone
        exact absurd hnone hchain
      · exact nomatch hencrypt
    · cases hout
      exact h.go hi rfl rfl rfl (fun _ _ _ hheld => .inr ⟨_, rfl, hheld⟩) not_mem_entries_send
  | save peerDmPubkey state envelope =>
    have hok : o.ok = true := hkeeps
    rw [hok] at hout
    cases hout
    let sender := w.sender.saveRatchetSession peerDmPubkey (X.sealRatchetState o.nonce state) o.now
    exact h.go (u := { w with sender := sender }) hi rfl rfl rfl
      (fun _ _ _ hheld => .inr ⟨_, rfl, hheld⟩) not_mem_entries_send
  | connect envelope =>
    dsimp only at hout
    split at hout
    · cases hout
      have hsender := sender_connect w you msg.toPubkey msg.id envelope
      exact h.go hi (tasks_connect _ _ _) (by rw [hsender]) (by rw [hsender])
        (fun _ _ _ hheld => .inr ⟨_, rfl, hheld⟩) not_mem_entries_send
    · cases hout
      exact h.go hi rfl rfl rfl (fun _ _ _ hheld => .inr ⟨_, rfl, hheld⟩) not_mem_entries_send
  | awaitAck envelope conn =>
    dsimp only at hout
    split at hout
    · cases hout
      refine h.go hi rfl rfl rfl (fun r _ _ hheld => .inr ⟨_, rfl, ?_⟩) not_mem_entries_send
      have hid : msg.id = r.id := hheld
      split <;> exact hid
    · cases hout
  | queue envelope =>
    have hok : o.ok = true := hkeeps
    obtain ⟨hbox, hlists⟩ := hfresh envelope rfl
    dsimp only at hout
    rw [if_pos ⟨hok, hbox⟩] at hout
    cases hout
    refine h.advance (u := { w with sender := w.sender.insertOutboxMessage _ }) hi rfl ?_ ?_ ?_ ?_
      hnone
    · exact fun r hr hundelivered => .inl ⟨r, hr, rfl, hundelivered⟩
    · rintro r hr hundelivered (⟨e, he, hid⟩ | hheld)
      · exact .inl ⟨e, List.mem_append_left _ he, hid⟩
      · exact .inl ⟨_, List.mem_append_right _ (List.mem_singleton.mpr rfl), hheld⟩
    · intro e he hmem r hr
      rcases List.mem_append.mp hr with hr | hr
      · exact he r hr
      · obtain rfl := List.mem_singleton.mp hr
        intro hid
        rcases hmem with hmem | ⟨x, hx, hmem⟩
        · exact absurd hid.symm (hbox e hmem)
        · exact absurd hid.symm (hlists x hx e hmem)
    · intro e he
      rcases List.mem_append.mp he with he | he
      · exact .inl he
      · obtain rfl := List.mem_singleton.mp he
        refine .inr fun r hr hid => ?_
        rcases List.mem_append.mp hr with hr | hr
        · exact absurd hid (hbox r hr)
        · obtain rfl := List.mem_singleton.mp hr
          rfl
  | mark =>
    have hok : o.ok = true := hkeeps
    dsimp only at hout
    rw [if_pos hok] at hout
    cases hout
    let marked := { w with sender := w.sender.markDmDelivered msg.id }
    have htasks := tasks_act marked you msg.toPubkey msg.id
    have hsender := sender_act marked you msg.toPubkey msg.id
    exact h.mark hi htasks hsender (fun _ hheld => hheld.symm) fun _ hx => (nomatch hx)

theorem Covered.runFlush (h : w.Covered) {i : Nat} {o : Outcome} {entries : List OutboxRow}
    {phase : FlushPhase} (hi : w.tasks[i]? = some (.flush entries phase))
    (hkeeps : (Task.flush entries phase).Keeps w o)
    {out : World × Option Task} (hout : w.runFlush you o entries phase = some out) :
    (out.1.advance i out.2).Covered := by
  have hover : ∀ x ∈ (none : Option Task), ∀ e ∈ x.entries,
      e ∈ w.sender.outbox ∨ e ∈ (Task.flush entries phase).entries := fun _ hx => nomatch hx
  have hnext : ∀ entries' phase', entries' ⊆ entries → ∀ x ∈ some (Task.flush entries' phase'),
      ∀ e ∈ x.entries, e ∈ w.sender.outbox ∨ e ∈ (Task.flush entries phase).entries := by
    intro entries' phase' hsub x hx e he
    obtain rfl := Option.mem_some_iff.mp hx
    exact .inr (hsub he)
  unfold World.runFlush at hout
  split at hout
  · split at hout
    · cases hout
      refine h.go hi rfl rfl rfl (fun _ _ _ hheld => ?_) fun x hx e he => ?_
      · cases entries <;> exact hheld.elim
      · obtain rfl := Option.mem_some_iff.mp hx
        exact .inl ((List.perm_insertionSort _ _).mem_iff.mp he)
    · cases hout
      refine h.go hi rfl rfl rfl (fun _ _ _ hheld => ?_) hover
      cases entries <;> exact hheld.elim
  · cases hout
    refine h.go hi rfl rfl rfl (fun _ _ _ hheld => ?_) hover
    cases phase <;> exact hheld.elim
  · rename_i entry rest
    split at hout
    · cases hout
      have hsender := sender_connect w you entry.peerPubkey entry.messageId
        entry.envelope
      exact h.go hi (tasks_connect _ _ _) (by rw [hsender]) (by rw [hsender])
        (fun _ _ _ hheld => hheld.elim) (hnext _ _ (List.Subset.refl _))
    · cases hout
      exact h.go hi rfl rfl rfl (fun _ _ _ hheld => hheld.elim)
        (hnext _ _ (List.subset_cons_self _ _))
  · rename_i entry rest conn
    split at hout
    · cases hout
      split
      · exact h.go hi rfl rfl rfl (fun _ _ _ hheld => hheld.elim) (hnext _ _ (List.Subset.refl _))
      · exact h.go hi rfl rfl rfl (fun _ _ _ hheld => hheld.elim)
          (hnext _ _ (List.subset_cons_self _ _))
    · cases hout
  · rename_i entry rest
    split at hout
    · cases hout
      let removed := { w with sender := w.sender.removeOutboxMessage entry.id }
      have htasks := tasks_act removed you entry.peerPubkey entry.messageId
      have hsender := sender_act removed you entry.peerPubkey entry.messageId
      have houtbox : (removed.act you entry.peerPubkey entry.messageId).sender.outbox =
          w.sender.outbox.filter fun r => !decide (r.id = entry.id) := congrArg Mailbox.outbox hsender
      have hsub : ∀ e ∈ (removed.act you entry.peerPubkey entry.messageId).sender.outbox,
          e ∈ w.sender.outbox := by
        rw [houtbox]
        exact fun e he => (List.mem_filter.mp he).1
      refine h.advance hi htasks ?_ ?_ ?_ (fun e he => .inl (hsub e he))
        (hnext _ _ (List.Subset.refl _))
      · intro r hr hundelivered
        rw [hsender] at hr
        exact .inl ⟨r, hr, rfl, hundelivered⟩
      · -- the flush takes the message over from the entry that it removes
        rintro r hr hundelivered (⟨e, he, hid⟩ | hheld)
        · by_cases hentry : e.id = entry.id
          · have hnamed := h.entries _ (List.mem_of_getElem? hi) entry List.mem_cons_self e he hentry
            exact .inr ⟨_, rfl, hnamed.symm.trans hid⟩
          · refine .inl ⟨e, ?_, hid⟩
            rw [houtbox]
            exact List.mem_filter.mpr ⟨he, by simpa using hentry⟩
        · exact hheld.elim
      · exact fun e he _ r hr => he r (hsub r hr)
    · cases hout
      refine h.go hi rfl rfl rfl (fun _ _ _ hheld => ?_) (hnext _ _ (List.Subset.refl _))
      exact hheld.elim
  · rename_i entry rest
    split at hout
    · cases hout
      let marked := { w with sender := w.sender.markDmDelivered entry.messageId }
      have htasks := tasks_act marked you entry.peerPubkey entry.messageId
      have hsender := sender_act marked you entry.peerPubkey entry.messageId
      refine h.mark hi htasks hsender (fun _ hheld => hheld.symm) fun x hx e he => ?_
      obtain rfl := Option.mem_some_iff.mp hx
      exact List.mem_cons_of_mem _ he
    · rename_i hfail
      cases hout
      have hmem : entry ∈ w.sender.outbox := hkeeps.resolve_left hfail
      exact h.go hi rfl rfl rfl (fun r _ _ hheld => .inl ⟨entry, hmem, hheld⟩)
        (hnext _ _ (List.subset_cons_self _ _))

theorem Covered.same (h : w.Covered) (hsender : u.sender = w.sender) (htasks : u.tasks = w.tasks) :
    u.Covered := by
  have hnamed : ∀ e, w.Named e → u.Named e := fun e he r hr => he r (hsender ▸ hr)
  refine ⟨fun r hr hundelivered => ?_, fun e he => hnamed e (h.outbox e (hsender ▸ he)),
    fun t ht e he => hnamed e (h.entries t (htasks ▸ ht) e he)⟩
  have hcovers := h.covers r (hsender ▸ hr) hundelivered
  unfold Covers
  rw [hsender, htasks]
  exact hcovers

theorem Covered.storage (h : w.Covered) {sender : Mailbox}
    (hrows : ∀ r ∈ sender.messages, r.delivered = false →
      ∃ r' ∈ w.sender.messages, r'.id = r.id ∧ r'.delivered = false)
    (houtbox : sender.outbox = w.sender.outbox) : ({ w with sender := sender }).Covered := by
  have hnamed : ∀ e, w.Named e → ({ w with sender := sender }).Named e :=
    fun e he r hr => he r (houtbox ▸ hr)
  refine ⟨fun r hr hundelivered => ?_, fun e he => hnamed e (h.outbox e (houtbox ▸ he)),
    fun t ht e he => hnamed e (h.entries t ht e he)⟩
  obtain ⟨r', hr', hid, hundelivered'⟩ := hrows r hr hundelivered
  have hcovers := h.covers r' hr' hundelivered'
  rw [hid] at hcovers
  show (∃ e ∈ sender.outbox, _) ∨ _
  rw [houtbox]
  exact hcovers

theorem Covered.tasks (h : w.Covered) {tasks : List Task} (hsub : ∀ t ∈ w.tasks, t ∈ tasks)
    (hnew : ∀ t ∈ tasks, t ∈ w.tasks ∨ t.entries = []) : ({ w with tasks := tasks }).Covered := by
  refine ⟨fun r hr hundelivered => ?_, h.outbox, fun t ht e he => ?_⟩
  · rcases h.covers r hr hundelivered with hbox | ⟨t, ht, hheld⟩
    · exact .inl hbox
    · exact .inr ⟨t, hsub t ht, hheld⟩
  · rcases hnew t ht with ht | hempty
    · exact h.entries t ht e he
    · rw [hempty] at he
      exact nomatch he

/-- Apart from the commands, rows only come as delivered, and get delivered or deleted. -/
theorem undelivered_apply {m : Mailbox} (e : Edit) :
    ∀ r ∈ (e.apply X me m).messages, r.delivered = false →
      ∃ r' ∈ m.messages, r'.id = r.id ∧ r'.delivered = false := by
  have hupdate : ∀ (p : StoredMessage → Bool) (f : StoredMessage → StoredMessage),
      (∀ r, (f r).id = r.id ∧ ((f r).delivered = false → r.delivered = false)) →
      ∀ r ∈ Table.updateWhere p f m.messages, r.delivered = false →
        ∃ r' ∈ m.messages, r'.id = r.id ∧ r'.delivered = false := by
    intro p f hf
    apply Table.all_updateWhere
    · intro r hr hundelivered
      exact ⟨r, hr, rfl, hundelivered⟩
    · intro r hr _ hundelivered
      exact ⟨r, hr, (hf r).1.symm, (hf r).2 hundelivered⟩
  intro r hr hundelivered
  cases e with
  | saveRatchetSession _ _ _ | cachePeers _ => exact ⟨r, hr, rfl, hundelivered⟩
  | receive dm master stateJson now msg preview =>
    have hr' : r ∈ (m.insertDmMessage (incoming X me master msg)).messages := by
      rw [← Mailbox.messages_receive]
      exact hr
    unfold Mailbox.insertDmMessage at hr'
    split at hr'
    · exact ⟨r, hr', rfl, hundelivered⟩
    · rcases List.mem_append.mp hr' with hr' | hr'
      · exact ⟨r, hr', rfl, hundelivered⟩
      · obtain rfl := List.mem_singleton.mp hr'
        exact nomatch hundelivered
  | delivered messageId =>
    exact hupdate (fun r => r.id = messageId) (fun r => { r with delivered := true })
      (fun r => ⟨rfl, fun h => (nomatch h)⟩) r hr hundelivered
  | read messageId =>
    exact hupdate (fun r => r.id = messageId) (fun r => { r with read := true })
      (fun r => ⟨rfl, id⟩) r hr hundelivered
  | markConversationRead conversationId =>
    exact hupdate (fun r => r.conversationId = conversationId) (fun r => { r with read := true })
      (fun r => ⟨rfl, id⟩) r hr hundelivered
  | deleteDmMessage messageId => exact ⟨r, (List.mem_filter.mp hr).1, rfl, hundelivered⟩

theorem outbox_apply {m : Mailbox} (e : Edit) : (e.apply X me m).outbox = m.outbox := by
  cases e with
  | receive dm master stateJson now msg preview =>
    unfold Edit.apply Mailbox.receiveDmMessageAtomically Mailbox.insertDmMessage
    dsimp only [Mailbox.saveRatchetSession, Mailbox.upsertConversation]
    split <;> rfl
  | _ => rfl

theorem runAccept_sender (C : Crates) (X : SealCrates) (w : World) (you : String) (o : Outcome)
    (envelope : EncryptedEnvelope) (conn : Nat) (phase : AcceptPhase) :
    (w.runAccept C X you o envelope conn phase).1.sender = w.sender ∧
      (w.runAccept C X you o envelope conn phase).1.tasks = w.tasks := by
  unfold World.runAccept
  cases phase <;> dsimp only <;> split <;> try split
  all_goals exact ⟨rfl, rfl⟩

theorem Covered.step (h : w.Covered) {l : Label} (hl : w.NothingDropped l) (hfresh : w.FreshIds l)
    (hstep : w.step C X me you l = some u) : u.Covered := by
  cases l with
  | sendDm peer content media replyTo id now =>
    unfold World.step at hstep
    dsimp only at hstep
    split at hstep
    · cases hstep
      exact h
    · cases hstep
      refine h.tasks (fun t ht => List.mem_append_left _ ht) fun t ht => ?_
      exact (List.mem_append.mp ht).imp_right fun ht => by rw [List.mem_singleton.mp ht]; rfl
  | flushAllOutbox =>
    cases hstep
    refine h.tasks (fun t ht => List.mem_append_left _ ht) fun t ht => ?_
    exact (List.mem_append.mp ht).imp_right fun ht => by rw [List.mem_singleton.mp ht]; rfl
  | task i o =>
    obtain ⟨t, hi, hstep⟩ := Option.bind_eq_some_iff.mp hstep
    obtain ⟨out, hout, rfl⟩ := Option.map_eq_some_iff.mp hstep
    have hkeeps := hl t hi
    have hid := hfresh t hi
    cases t with
    | send msg phase =>
      refine h.runSend hi hkeeps ?_ hout
      rintro envelope rfl
      exact hid
    | flush entries phase => exact h.runFlush hi hkeeps hout
  | restartSender =>
    cases hstep
    refine ⟨fun r hr hundelivered => ?_, h.outbox, fun _ ht => nomatch ht⟩
    rcases h.covers r hr hundelivered with hbox | ⟨t, ht, hheld⟩
    · exact .inl hbox
    · exact absurd hheld (hl t ht r hr)
  | accept i o =>
    obtain ⟨a, hi, hstep⟩ := Option.bind_eq_some_iff.mp hstep
    obtain ⟨c, hconn, rfl⟩ := Option.map_eq_some_iff.mp hstep
    obtain ⟨hsender, htasks⟩ := runAccept_sender C X w you o c.2 a.conn a.phase
    exact h.same hsender htasks
  | drop i =>
    obtain ⟨a, hi, rfl⟩ := Option.map_eq_some_iff.mp hstep
    exact h.same rfl rfl
  | restartReceiver =>
    cases hstep
    exact h.same rfl rfl
  | editSender e =>
    cases hstep
    exact h.storage (undelivered_apply e) (outbox_apply e)
  | editReceiver e | receiverSends peer msg preview =>
    cases hstep
    exact h.same rfl rfl

theorem covered_start (receiver : Mailbox) : (start Mailbox.empty receiver).Covered :=
  ⟨fun _ h => (nomatch h), fun _ h => (nomatch h), fun _ h => nomatch h⟩

end World

/-- Along every run of the sending device in which no step drops a message: each message that is
not marked delivered has an outbox entry, or a command is still sending it. -/
theorem no_lost_message {C : Crates} {X : SealCrates} {me you : String} {receiver : Mailbox}
    {run : List Label} {w : World}
    (hfresh : Machine.Along (World.step C X me you) World.FreshIds
      (World.start Mailbox.empty receiver) run)
    (hkept : Machine.Along (World.step C X me you) World.NothingDropped
      (World.start Mailbox.empty receiver) run)
    (hrun : Machine.exec (World.step C X me you) (World.start Mailbox.empty receiver) run = some w) :
    ∀ r ∈ w.sender.messages, r.delivered = false →
      (∃ e ∈ w.sender.outbox, e.messageId = r.id) ∨ ∃ t ∈ w.tasks, t.Holds r.id := by
  have hstep : ∀ (v : World) (l : Label) (v' : World), v.Covered →
      v.FreshIds l ∧ v.NothingDropped l → v.step C X me you l = some v' → v'.Covered :=
    fun _ _ _ h hl hs => h.step hl.2 hl.1 hs
  exact (Machine.exec_invariant hstep (World.covered_start receiver) (hfresh.and hkept) hrun).covers

section Runs

abbrev offlineRun : List Label :=
  [.sendDm "b" "hi" [] none "m1" 5, .task 0 fine, .task 0 fine, .task 0 fine, .task 0 fine,
    .task 0 failed, .task 0 fine]

theorem no_lost_message_offline :
    ∃ w, Machine.exec deliveryStep (World.start Mailbox.empty Mailbox.empty) offlineRun = some w ∧
      w.tasks = [] ∧ w.sender.messages.map StoredMessage.id = ["m1"] ∧
      ∀ r ∈ w.sender.messages, r.delivered = false →
        (∃ e ∈ w.sender.outbox, e.messageId = r.id) ∨ ∃ t ∈ w.tasks, t.Holds r.id := by
  have hassumed : Machine.Along deliveryStep World.FreshIds (World.start Mailbox.empty Mailbox.empty)
        offlineRun ∧
      Machine.Along deliveryStep World.NothingDropped (World.start Mailbox.empty Mailbox.empty)
        offlineRun ∧
      (Machine.exec deliveryStep (World.start Mailbox.empty Mailbox.empty) offlineRun).map
        (fun w => (w.tasks, w.sender.messages.map StoredMessage.id)) = some ([], ["m1"]) := by
    decide +kernel
  obtain ⟨hfresh, hkept, hresult⟩ := hassumed
  obtain ⟨w, hw, hresult⟩ := Option.map_eq_some_iff.mp hresult
  obtain ⟨htasks, hmessages⟩ := Prod.mk.inj hresult
  exact ⟨w, hw, htasks, hmessages, no_lost_message hfresh hkept hw⟩

/-- Bob is offline and there is no session with him yet: the handshake fails. -/
abbrev firstContactRun : List Label :=
  [.sendDm "b" "hi" [] none "m1" 5, .task 0 fine, .task 0 fine, .task 0 { fine with session := none }]

theorem not_no_lost_message_first_contact :
    ∃ w ∈ Machine.exec deliveryStep (World.start Mailbox.empty Mailbox.empty) firstContactRun,
      w.tasks = [] ∧ ¬ ∀ r ∈ w.sender.messages, r.delivered = false →
        ∃ e ∈ w.sender.outbox, e.messageId = r.id := by
  decide +kernel

end Runs

end Proscenium.Dm.Delivery
