import Proscenium.Dm.DeliveryAcks
import Proscenium.Dm.IncomingDefs

/-! The slices that `handle_encrypted_message` and `send_dm` take of texts. Their
bounds count bytes, and a bound inside a character is a panic, so the handlers
come through exactly if a character of each text they cut ends at the bound. -/

namespace Proscenium.Dm.Incoming

open Crypto Proscenium.Types

/-- A character of the text ends `n` bytes after its beginning. -/
def CutsAt (n : Nat) (s : String) : Prop := ∃ k, ((s.toList.take k).map Char.utf8Size).sum = n

theorem isSome_takeBytes (n : Nat) (cs : List Char) :
    (takeBytes n cs).isSome = true ↔ ∃ k, ((cs.take k).map Char.utf8Size).sum = n := by
  induction cs generalizing n with
  | nil =>
    cases n with
    | zero => simp [takeBytes]
    | succ n => simp [takeBytes]
  | cons c cs ih =>
    cases n with
    | zero =>
      have hempty : ((List.take 0 (c :: cs)).map Char.utf8Size).sum = 0 := by simp
      simp only [takeBytes, Option.isSome_some, true_iff]
      exact ⟨0, hempty⟩
    | succ n =>
      have hpos := c.utf8Size_pos
      rw [takeBytes]
      split
      next hle =>
        -- a cut goes past the first character
        rw [Option.isSome_map, ih]
        constructor
        · intro ⟨k, hk⟩
          refine ⟨k + 1, ?_⟩
          rw [List.take_succ_cons, List.map_cons, List.sum_cons, hk]
          omega
        · intro ⟨k, hk⟩
          cases k with
          | zero => simp at hk
          | succ k =>
            rw [List.take_succ_cons, List.map_cons, List.sum_cons] at hk
            exact ⟨k, by omega⟩
      next hgt =>
        refine ⟨fun h => absurd h (by simp), fun ⟨k, hk⟩ => ?_⟩
        cases k with
        | zero => simp at hk
        | succ k =>
          rw [List.take_succ_cons, List.map_cons, List.sum_cons] at hk
          omega

theorem isSome_sliceTo (s : String) (n : Nat) : (sliceTo s n).isSome = true ↔ CutsAt n s := by
  unfold sliceTo
  rw [Option.isSome_map]
  exact isSome_takeBytes n s.toList

instance (n : Nat) (s : String) : Decidable (CutsAt n s) :=
  decidable_of_iff _ (isSome_sliceTo s n)

theorem utf8ByteSize_eq_sum (s : String) : s.utf8ByteSize = (s.toList.map Char.utf8Size).sum := by
  have hsize : ∀ cs : List Char, (cs.utf8Encode).size = (cs.map Char.utf8Size).sum := by
    intro cs
    induction cs with
    | nil => simp
    | cons c cs ih =>
      rw [List.utf8Encode_cons, ByteArray.size_append, ih, List.map_cons, List.sum_cons,
        List.utf8Encode_singleton, List.size_toByteArray, String.length_utf8EncodeChar]
  rw [← String.size_toByteArray, ← hsize, ← String.toByteArray_ofList, String.ofList_toList]

theorem cutsAt_utf8ByteSize (s : String) : CutsAt s.utf8ByteSize s :=
  ⟨s.toList.length, by rw [List.take_length, utf8ByteSize_eq_sum]⟩

/-- The text is short, or one of its characters ends after eight bytes. -/
def FitsShortId (id : String) : Prop := id.utf8ByteSize ≤ 8 ∨ CutsAt 8 id

/-- The text is its own preview, or one of its characters ends after 77 bytes. -/
def FitsPreview (content : String) : Prop := content.utf8ByteSize ≤ 80 ∨ CutsAt 77 content

theorem isSome_shortId (id : String) : (shortId id).isSome = true ↔ FitsShortId id := by
  unfold shortId FitsShortId
  rw [isSome_sliceTo]
  rcases Nat.le_total id.utf8ByteSize 8 with hle | hge
  · rw [Nat.min_eq_left hle]
    exact iff_of_true (cutsAt_utf8ByteSize id) (.inl hle)
  · rw [Nat.min_eq_right hge]
    refine ⟨.inr, fun h => h.elim (fun hle => ?_) fun hcut => hcut⟩
    rw [← Nat.le_antisymm hle hge]
    exact cutsAt_utf8ByteSize id

theorem isSome_previewOf (content : String) : (previewOf content).isSome = true ↔ FitsPreview content := by
  unfold previewOf FitsPreview
  split
  next hlong =>
    rw [Option.isSome_map, isSome_sliceTo]
    exact (or_iff_right (by omega)).symm
  next hshort => exact iff_of_true rfl (.inl (by omega))

section Generated

theorem utf8Size_hexDigit : ∀ n < 16, (Json.hexDigit n).utf8Size = 1 := by
  decide

theorem utf8Size_hexEncode (bytes : List UInt8) : ∀ c ∈ (hexEncode bytes).toList, c.utf8Size = 1 := by
  intro c hc
  rw [hexEncode, String.toList_ofList] at hc
  obtain ⟨b, -, hb⟩ := List.mem_flatMap.mp hc
  have hlt := b.toNat_lt
  rcases List.mem_pair.mp hb with rfl | rfl
  · exact utf8Size_hexDigit _ (by omega)
  · exact utf8Size_hexDigit _ (by omega)

theorem cutsAt_of_single {s : String} (hs : ∀ c ∈ s.toList, c.utf8Size = 1) {n : Nat} (hn : n ≤ s.utf8ByteSize) :
    CutsAt n s := by
  have hones : ∀ cs : List Char, (∀ c ∈ cs, c.utf8Size = 1) → (cs.map Char.utf8Size).sum = cs.length := by
    intro cs hcs
    rw [List.map_congr_left hcs]
    simp
  have hlen : s.utf8ByteSize = s.toList.length := by
    rw [utf8ByteSize_eq_sum, hones _ hs]
  refine ⟨n, ?_⟩
  rw [hones _ fun c hc => hs c (List.mem_of_mem_take hc), List.length_take]
  omega

/-- `generate_id`: two `u64`s read from the little end, as 16 digits each. -/
def generateId (bytes : Vector UInt8 16) : String :=
  hexEncode ((bytes.toList.take 8).reverse ++ (bytes.toList.drop 8).reverse)

theorem fitsShortId_generateId (bytes : Vector UInt8 16) : FitsShortId (generateId bytes) := by
  have hsize : (generateId bytes).utf8ByteSize = 32 := by
    simp [generateId, utf8ByteSize_hexEncode]
  have hlong : 8 ≤ (generateId bytes).utf8ByteSize := by omega
  exact .inr (cutsAt_of_single (utf8Size_hexEncode _) hlong)

end Generated

/-- What the world gives to one call of `send_dm`. -/
structure SendDraws where
  /-- The bytes of the ids of the message and of an outbox entry. -/
  random : Vector UInt8 16
  outboxRandom : Vector UInt8 16
  now : UInt64
  nonce : Vector UInt8 12
  /-- The own DM key. -/
  dmPubkey : String
  /-- The result of `get_or_establish_session`. -/
  session : Option (RatchetState × String)
  /-- Was the envelope acknowledged? -/
  sent : Bool
  deriving DecidableEq, Repr

structure Sent where
  /-- `none` is a panic. -/
  result : Option (Except IncomingError StoredMessage)
  mailbox : Mailbox
  deriving DecidableEq

section Sending

variable (C : Crates) (X : SealCrates) (debug : Bool)

/-- `DmHandler::send_dm`, whose errors are logged by the command. It cuts the key of the peer in
its texts too, which is cut before. -/
def deliver (o : SendDraws) (row : StoredMessage) (m : Mailbox) : Option Unit × Mailbox :=
  match o.session with
  | none => (some (), m)
  | some (st, peerDmPubkey) =>
    match st.encrypt C (X.payloadToVec (.message (Delivery.directMessage row))) with
    -- the `expect` in `encrypt`
    | none => (none, m)
    | some (st, header, ciphertext) =>
      let m := m.saveRatchetSession peerDmPubkey (X.sealRatchetState o.nonce st) o.now
      let envelope : EncryptedEnvelope := ⟨o.dmPubkey, ratchetHeaderToWire X header, ciphertext⟩
      let logged := (shortId envelope.sender).isSome ∧ (sliceTo envelope.ratchetHeader.dhPublic 8).isSome
      if debug ∧ ¬ logged then (none, m)
      else if o.sent then (some (), m.markDmDelivered row.id)
      else if ∀ r ∈ m.outbox, r.id ≠ generateId o.outboxRandom then
        (some (), m.insertOutboxMessage
          ⟨generateId o.outboxRandom, row.toPubkey, envelope, o.now, row.id⟩)
      else (some (), m)

/-- The command `send_dm`. -/
def sendDm (me : String) (o : SendDraws) (peer content : String) (media : List MediaAttachment)
    (replyTo : Option String) (m : Mailbox) : Sent :=
  match shortId peer with
  | none => ⟨none, m⟩
  | some _ =>
    match previewOf content with
    | none => ⟨none, m⟩
    | some preview =>
      let row := Delivery.outgoing X me ⟨generateId o.random, content, o.now, media, replyTo⟩ peer
      if m.Admits row.conversationId peer then
        let m := (m.upsertConversation row.conversationId peer o.now preview).insertDmMessage row
        match shortId row.id with
        | none => ⟨none, m⟩
        | some _ =>
          let out := deliver C X debug o row m
          ⟨out.1.map fun _ => .ok row, out.2⟩
      else ⟨some (.error .storage), m⟩

/-- The texts that `deliver` cuts for a log line, and the chain that it needs. -/
def DeliverFits (o : SendDraws) : Prop :=
  ∀ st peerDmPubkey, o.session = some (st, peerDmPubkey) →
    st.chainKeySend ≠ none ∧
    (debug = true → FitsShortId o.dmPubkey ∧ CutsAt 8 (X.hexEncode st.dhSelfPublic.toList))

structure SendFits (me : String) (o : SendDraws) (peer content : String) (m : Mailbox) : Prop where
  recipient : FitsShortId peer
  content : FitsPreview content
  delivery : m.Admits (conversationId X me peer) peer → DeliverFits X debug o

/-- The envelope opens under the stored session, and a message is in it. -/
def Carries (peerDmPubkey : String) (a : Arrival) (m : Mailbox) (msg : DirectMessage) : Prop :=
  ∃ st plaintext, openEnvelope C X peerDmPubkey a m = some (.ok (st, plaintext)) ∧
    X.payloadFromSlice plaintext = some (.message msg)

/-- The texts that are cut while the envelope is handled. -/
structure EnvelopeFits (me peerDmPubkey : String) (a : Arrival) (m : Mailbox) : Prop where
  logged : debug = true → FitsShortId a.envelope.sender ∧ CutsAt 8 a.envelope.ratchetHeader.dhPublic
  noSession : m.getRatchetSession peerDmPubkey = none → FitsShortId peerDmPubkey
  noMaster : m.getMasterPubkeyForDmPubkey peerDmPubkey = none →
    ∀ msg, Carries C X peerDmPubkey a m msg → FitsShortId peerDmPubkey
  message : ∀ peerMasterPubkey, m.getMasterPubkeyForDmPubkey peerDmPubkey = some peerMasterPubkey →
    ∀ msg, Carries C X peerDmPubkey a m msg → FitsPreview msg.content ∧
      (m.Admits (conversationId X me peerMasterPubkey) peerMasterPubkey → FitsShortId peerMasterPubkey)

variable {C X debug} {me : String} {o : SendDraws} {row : StoredMessage} {m : Mailbox}

theorem isSome_logged (debug : Bool) (sender dhPublic : String) :
    ¬ (debug = true ∧ ¬ ((shortId sender).isSome = true ∧ (sliceTo dhPublic 8).isSome = true)) ↔
      (debug = true → FitsShortId sender ∧ CutsAt 8 dhPublic) := by
  rw [isSome_shortId, isSome_sliceTo, not_and, not_not]

theorem encrypt_of_chain {st : RatchetState} (h : st.chainKeySend ≠ none) (plaintext : Crypto.Bytes) :
    ∃ st' header ciphertext, st.encrypt C plaintext = some (st', header, ciphertext) ∧
      header.dhPublic = st.dhSelfPublic := by
  obtain ⟨chainKey, hchain⟩ := Option.ne_none_iff_exists'.mp h
  unfold RatchetState.encrypt
  rw [hchain]
  exact ⟨_, _, _, rfl, rfl⟩

theorem isSome_deliver : (deliver C X debug o row m).1.isSome = true ↔ DeliverFits X debug o := by
  unfold deliver DeliverFits
  cases hsession : o.session with
  | none => simp
  | some out =>
    obtain ⟨st, peerDmPubkey⟩ := out
    have hone : ∀ P : RatchetState → Prop, (∀ st' peer, some (st, peerDmPubkey) = some (st', peer) → P st') ↔ P st := by
      intro P
      simp
    rw [hone]
    by_cases hchain : st.chainKeySend = none
    · have hpanic : ∀ plaintext, st.encrypt C plaintext = none := by
        intro plaintext
        unfold RatchetState.encrypt
        rw [hchain]
      simp [hpanic, hchain]
    · obtain ⟨st', header, ciphertext, henc, hpublic⟩ := encrypt_of_chain (C := C) hchain
        (X.payloadToVec (.message (Delivery.directMessage row)))
      have hlogged := isSome_logged debug o.dmPubkey (X.hexEncode st.dhSelfPublic.toList)
      simp only [henc, ratchetHeaderToWire, hpublic]
      split
      next hcut =>
        refine iff_of_false (by simp) fun hfits => ?_
        exact hlogged.mpr hfits.2 hcut
      next hfine =>
        have hfits := hlogged.mp hfine
        split
        · exact iff_of_true rfl ⟨hchain, hfits⟩
        · split
          · exact iff_of_true rfl ⟨hchain, hfits⟩
          · exact iff_of_true rfl ⟨hchain, hfits⟩

theorem isSome_sendDm {peer content : String} {media : List MediaAttachment} {replyTo : Option String} :
    (sendDm C X debug me o peer content media replyTo m).result.isSome = true ↔
      SendFits X debug me o peer content m := by
  have hpeer := isSome_shortId peer
  have hcontent := isSome_previewOf content
  unfold sendDm
  cases hcut : shortId peer with
  | none =>
    rw [hcut] at hpeer
    exact iff_of_false (by simp) fun h => absurd (hpeer.mpr h.recipient) (by simp)
  | some _ =>
    rw [hcut] at hpeer
    cases hpreview : previewOf content with
    | none =>
      rw [hpreview] at hcontent
      exact iff_of_false (by simp) fun h => absurd (hcontent.mpr h.content) (by simp)
    | some preview =>
      rw [hpreview] at hcontent
      have hrecipient := hpeer.mp rfl
      have hfits := hcontent.mp rfl
      dsimp only
      split
      next hadmits =>
        have hid : (shortId (generateId o.random)).isSome = true :=
          (isSome_shortId _).mpr (fitsShortId_generateId o.random)
        obtain ⟨s, hs⟩ := Option.isSome_iff_exists.mp hid
        have hrow : shortId (Delivery.outgoing X me ⟨generateId o.random, content, o.now, media, replyTo⟩ peer).id =
            some s := hs
        simp only [hrow, Option.isSome_map, isSome_deliver]
        exact ⟨fun h => ⟨hrecipient, hfits, fun _ => h⟩, fun h => h.delivery hadmits⟩
      next hrefused => exact iff_of_true rfl ⟨hrecipient, hfits, fun h => absurd h hrefused⟩

section Receiving

variable {peerDmPubkey : String} {a : Arrival} {st : RatchetState}

theorem isSome_openEnvelope : (openEnvelope C X peerDmPubkey a m).isSome = true ↔
    (m.getRatchetSession peerDmPubkey = none → FitsShortId peerDmPubkey) := by
  unfold openEnvelope
  cases m.getRatchetSession peerDmPubkey with
  | none => simp [isSome_shortId]
  | some stored =>
    refine iff_of_true ?_ (by simp)
    dsimp only
    split
    · rfl
    · split
      · rfl
      · split
        · rfl
        · rfl

theorem isSome_receiveMessage {msg : DirectMessage} :
    (receiveMessage X me peerDmPubkey a st msg m).result.isSome = true ↔
      (m.getMasterPubkeyForDmPubkey peerDmPubkey = none → FitsShortId peerDmPubkey) ∧
      ∀ peerMasterPubkey, m.getMasterPubkeyForDmPubkey peerDmPubkey = some peerMasterPubkey →
        FitsPreview msg.content ∧
        (m.Admits (conversationId X me peerMasterPubkey) peerMasterPubkey → FitsShortId peerMasterPubkey) := by
  have hcontent := isSome_previewOf msg.content
  unfold receiveMessage
  cases m.getMasterPubkeyForDmPubkey peerDmPubkey with
  | none => simp [isSome_shortId]
  | some peerMasterPubkey =>
    cases hpreview : previewOf msg.content with
    | none =>
      rw [hpreview] at hcontent
      refine iff_of_false (by simp) fun h => ?_
      exact absurd (hcontent.mpr (h.2 peerMasterPubkey rfl).1) (by simp)
    | some preview =>
      rw [hpreview] at hcontent
      have hfits := hcontent.mp rfl
      have hmaster := isSome_shortId peerMasterPubkey
      simp only [Option.some.injEq, forall_eq', reduceCtorEq, false_imp_iff, true_and, hfits]
      split
      next hadmits =>
        have hknown : m.Admits (conversationId X me peerMasterPubkey) peerMasterPubkey := hadmits
        rw [iff_true_intro hknown, true_imp_iff, ← hmaster]
        cases shortId peerMasterPubkey with
        | none => simp
        | some s => simp
      next hrefused => exact iff_of_true rfl fun h => absurd h hrefused

theorem isSome_dispatch {payload : DmPayload} :
    (dispatch X me peerDmPubkey a st payload m).result.isSome = true ↔
      ∀ msg, payload = .message msg → (receiveMessage X me peerDmPubkey a st msg m).result.isSome = true := by
  cases payload with
  | message msg => simp [dispatch]
  | _ => simp [dispatch]

theorem isSome_handleEncryptedMessage :
    (handleEncryptedMessage C X debug me peerDmPubkey a m).result.isSome = true ↔
      EnvelopeFits C X debug me peerDmPubkey a m := by
  have hlogged := isSome_logged debug a.envelope.sender a.envelope.ratchetHeader.dhPublic
  have hopen : (openEnvelope C X peerDmPubkey a m).isSome = true ↔
      (m.getRatchetSession peerDmPubkey = none → FitsShortId peerDmPubkey) := isSome_openEnvelope
  unfold handleEncryptedMessage
  dsimp only
  split
  next hcut => exact iff_of_false (by simp) fun h => hlogged.mpr h.logged hcut
  next hfine =>
    have hdebug := hlogged.mp hfine
    cases hout : openEnvelope C X peerDmPubkey a m with
    | none =>
      rw [hout] at hopen
      exact iff_of_false (by simp) fun h => absurd (hopen.mpr h.noSession) (by simp)
    | some out =>
      rw [hout] at hopen
      have hsession := hopen.mp rfl
      -- unless a message is in it, the rest of the handler cuts nothing
      have hother : (∀ msg, ¬ Carries C X peerDmPubkey a m msg) → EnvelopeFits C X debug me peerDmPubkey a m :=
        fun hno => ⟨hdebug, hsession, fun _ msg h => absurd h (hno msg), fun _ _ msg h => absurd h (hno msg)⟩
      rcases out with e | ⟨st, plaintext⟩
      · refine iff_of_true rfl (hother fun msg ⟨st, plaintext, hok, _⟩ => ?_)
        rw [hout] at hok
        cases hok
      · have hcarries : ∀ msg, Carries C X peerDmPubkey a m msg ↔
            X.payloadFromSlice plaintext = some (.message msg) := by
          intro msg
          unfold Carries
          simp [hout]
        dsimp only
        cases hpayload : X.payloadFromSlice plaintext with
        | none =>
          refine iff_of_true rfl (hother fun msg h => ?_)
          rw [hcarries, hpayload] at h
          cases h
        | some payload =>
          dsimp only
          rw [isSome_dispatch]
          constructor
          · intro h
            have hfits : ∀ msg, Carries C X peerDmPubkey a m msg → _ := fun msg hmsg => isSome_receiveMessage.mp
              (h msg (Option.some.inj (hpayload.symm.trans ((hcarries msg).mp hmsg))))
            exact ⟨hdebug, hsession, fun hnone msg hmsg => (hfits msg hmsg).1 hnone,
              fun master hmaster msg hmsg => (hfits msg hmsg).2 master hmaster⟩
          · rintro h msg rfl
            have hmsg := (hcarries msg).mpr hpayload
            exact isSome_receiveMessage.mpr ⟨fun hnone => h.noMaster hnone msg hmsg,
              fun master hmaster => h.message master hmaster msg hmsg⟩

end Receiving
end Sending

/-- A slice panics exactly if no character ends at its bound, and nothing else of a text can panic:
the handler of an envelope and `send_dm` return if and only if the texts that they cut fit. -/
theorem texts_cut_iff (C : Crates) (X : SealCrates) (debug : Bool) (me peerDmPubkey : String) (a : Arrival)
    (m : Mailbox) (o : SendDraws) (peer content : String) (media : List MediaAttachment)
    (replyTo : Option String) (text : String) :
    ((shortId text).isSome = true ↔ FitsShortId text) ∧
    ((previewOf text).isSome = true ↔ FitsPreview text) ∧
    ((sliceTo text 8).isSome = true ↔ CutsAt 8 text) ∧
    ((handleEncryptedMessage C X debug me peerDmPubkey a m).result.isSome = true ↔
      EnvelopeFits C X debug me peerDmPubkey a m) ∧
    ((sendDm C X debug me o peer content media replyTo m).result.isSome = true ↔
      SendFits X debug me o peer content m) :=
  ⟨isSome_shortId text, isSome_previewOf text, isSome_sliceTo text 8, isSome_handleEncryptedMessage,
    isSome_sendDm⟩

section Run

open Delivery (sampleMessage sampleSeal messageBytes aliceStart bobKnows)

/-- 81 bytes: the cut after 77 is inside the 26th character. -/
def euros : String := String.ofList (List.replicate 27 '€')

def eurosMessage : DirectMessage := { sampleMessage with content := euros }

def eurosSeal : SealCrates :=
  { sampleSeal with
    payloadFromSlice := fun bytes =>
      if bytes = messageBytes eurosMessage then some (.message eurosMessage) else none }

def plainDraws : SendDraws :=
  ⟨Vector.replicate 16 0, Vector.replicate 16 1, 9, Vector.replicate 12 0, "da", none, false⟩

/-- Alice sends the euros to Bob, who knows her, and her own `send_dm` comes no further. -/
theorem not_texts_cut_euros :
    (∃ out ∈ aliceStart.encrypt additiveCrates (messageBytes eurosMessage),
      (handleEncryptedMessage additiveCrates eurosSeal false "b" "da"
        ⟨⟨"da", ratchetHeaderToWire eurosSeal out.2.1, out.2.2⟩, 9, Vector.replicate 12 0, pairOf 4⟩
        bobKnows).result = none) ∧
    (sendDm additiveCrates eurosSeal false "a" plainDraws "b" euros [] none Mailbox.empty).result = none := by
  decide +kernel

end Run
end Proscenium.Dm.Incoming
