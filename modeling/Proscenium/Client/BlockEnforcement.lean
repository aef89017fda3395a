import Proscenium.Client.AcceptDefs
import Proscenium.Client.CacheAuthenticity
import Proscenium.Dm.DeliveryAcks
import Proscenium.Dm.SessionAgreement

/-! Blocks. Two of the three handlers look up the master key that the transport
of a connection is cached for and refuse the connection if that key is blocked.
Whoever acts in the request is found out later, from the DM key of an envelope
or the requester of a follow request, and is not looked up again. -/

namespace Proscenium.Client

open Proscenium.Types Crypto Dm Feed

namespace Device

inductive Label where
  /-- A device of `sender` connects from the transport node `remote`. -/
  | connect (sender remote : String) (req : Request) (o : Draws)
  | block (pubkey : String) (now : UInt64)
  | unblock (pubkey : String) (now : UInt64)
  /-- Whatever else writes the tables. -/
  | edit (d : Device)

variable (K : HandlerCrates)

def step (d : Device) : Label → Option Device
  | .connect _ remote req o => some (d.accept K o remote req).2
  | .block pubkey now => some { d with moderation := d.moderation.blockUser pubkey now }
  | .unblock pubkey now => some { d with moderation := d.moderation.unblockUser pubkey now }
  | .edit d => some d

/-- A connection of a user who is blocked leaves the device as it was, and nothing goes out: no
answer, no signal and not even an acknowledgement. -/
def Enforced (d : Device) : Label → Prop
  | .connect sender remote req o =>
    d.moderation.isBlocked sender = true → d.accept K o remote req = ([], d)
  | _ => True

/-- Would the request come to nothing whoever it is from? -/
def Fruitless (o : Draws) (remote : String) (d : Device) : Request → Prop
  | .handshake sender noiseMessage => ∀ response hash key,
    K.noise.respond d.identity.dm.priv noiseMessage o.random = some (response, hash, some key) →
      dmPubkeyToX25519 K sender ≠ some key
  | .envelope envelope =>
    (d.mailbox.getRatchetSession envelope.sender = none ∧ Incoming.shortId envelope.sender = none) ∨
    ∃ state msg, Delivery.readEnvelope K.ratchet K.sealing o.generated envelope d.mailbox =
        some (state, .message msg) ∧
      (d.mailbox.getMasterPubkeyForDmPubkey envelope.sender = none ∧ Incoming.shortId envelope.sender = none ∨
        (d.mailbox.getMasterPubkeyForDmPubkey envelope.sender).isSome = true ∧ previewOf msg.content = none)
  | .sync _ _ =>
    (⟨d.identity.masterPubkey, d.storage, d.content⟩ : SyncPeer).admits remote = false
  | .push msg => d.takesPush remote msg = false
  | .followRequest req => ∀ u, checkFollowRequest K.signature req ≠ .ok u
  | .audio => ∀ call ∈ d.activeCall, call.peerPubkey ≠ d.viewer remote

/-- The transport is cached for a key that is blocked, or for none and blocked itself, and the
handler is one that looks. -/
def TurnsAway (remote : String) (d : Device) (req : Request) : Prop :=
  req ≠ .audio ∧ d.rejects remote = true

/-- A blocked user connects only from where the lookup finds a blocked key, or with what comes to
nothing in any case. -/
def Covered (d : Device) : Label → Prop
  | .connect sender remote req o => d.moderation.isBlocked sender = true →
    d.TurnsAway remote req ∨ d.Fruitless K o remote req
  | _ => True

variable {K} {o : Draws} {remote : String} {d : Device}

theorem handleHandshake_eq_iff {sender : String} {noiseMessage : Crypto.Bytes} :
    d.handleHandshake K o sender noiseMessage = ([], d) ↔
      d.Fruitless K o remote (.handshake sender noiseMessage) := by
  unfold handleHandshake Fruitless
  split
  next response hash key hrespond =>
    by_cases hkey : dmPubkeyToX25519 K sender = some key
    · rw [if_pos hkey]
      constructor
      · intro h
        exact nomatch (Prod.mk.inj h).1
      · intro h
        exact absurd hkey (h response hash key hrespond)
    · rw [if_neg hkey]
      refine iff_of_true rfl ?_
      intro response' hash' key' hrespond'
      obtain ⟨rfl, rfl, hkey'⟩ : response = response' ∧ hash = hash' ∧ some key = some key' := by
        simpa using hrespond.symm.trans hrespond'
      rwa [← hkey']
  next hnone =>
    refine iff_of_true rfl ?_
    intro response hash key hrespond
    exact absurd hrespond (hnone response hash key)

theorem handleEnvelope_eq_iff {envelope : EncryptedEnvelope} :
    d.handleEnvelope K o envelope = ([], d) ↔ d.handleEncryptedMessage K o envelope = (none, d) := by
  unfold handleEnvelope
  rcases d.handleEncryptedMessage K o envelope with ⟨effects, d'⟩
  cases effects with
  | none => simp
  | some effects =>
    refine iff_of_false ?_ (by simp)
    intro h
    exact absurd (Prod.mk.inj h).1 (by simp)

theorem setMailbox_receive_ne (dm master sealed : String) (now : UInt64) (msg : StoredMessage) (preview : String) :
    d.setMailbox (d.mailbox.receiveDmMessageAtomically dm master sealed now msg preview) ≠ d :=
  fun heq => Mailbox.conversations_receive_ne dm master sealed now msg preview
    (congrArg (fun d => d.mailbox.conversations) heq)

theorem readEnvelope_of_no_session {envelope : EncryptedEnvelope}
    (h : d.mailbox.getRatchetSession envelope.sender = none) :
    Delivery.readEnvelope K.ratchet K.sealing o.generated envelope d.mailbox = none := by
  unfold Delivery.readEnvelope
  rw [h]
  rfl

theorem handleEncryptedMessage_panics_iff {envelope : EncryptedEnvelope} :
    d.handleEncryptedMessage K o envelope = (none, d) ↔ d.Fruitless K o remote (.envelope envelope) := by
  unfold handleEncryptedMessage Fruitless
  cases hread : Delivery.readEnvelope K.ratchet K.sealing o.generated envelope d.mailbox with
  | none =>
    by_cases hsession : d.mailbox.getRatchetSession envelope.sender = none
    · simp [hread, hsession]
    · simp [hread, hsession]
  | some out =>
    obtain ⟨state, payload⟩ := out
    have hsession : d.mailbox.getRatchetSession envelope.sender ≠ none := fun hnone =>
      nomatch hread.symm.trans (readEnvelope_of_no_session hnone)
    cases payload with
    | message msg =>
      cases hmaster : d.mailbox.getMasterPubkeyForDmPubkey envelope.sender with
      | none => simp [hread, hsession, hmaster]
      | some master =>
        cases hpreview : previewOf msg.content with
        | none => simp [hread, hsession, hmaster, hpreview]
        | some preview => simp [hread, hsession, hmaster, hpreview, setMailbox_receive_ne]
    | _ => simp [hread, hsession]

theorem handleSync_eq_iff {req : SyncRequest} {body : Option (List String)} :
    d.handleSync K remote req body = ([], d) ↔ d.Fruitless K o remote (.sync req body) := by
  unfold handleSync Fruitless SyncPeer.handleSync
  cases (⟨d.identity.masterPubkey, d.storage, d.content⟩ : SyncPeer).admits remote <;> simp

theorem handlePush_eq_iff {msg : Push} :
    d.handlePush K o remote msg = ([], d) ↔ d.Fruitless K o remote (.push msg) := by
  unfold handlePush Fruitless
  cases htakes : d.takesPush remote msg <;> simp [htakes]

theorem answers_followRequest {req : FollowRequest} {u : Unit}
    (h : checkFollowRequest K.signature req = .ok u) :
    ∃ response, (d.handleFollowRequest K o remote req).1 = [.followResponse response] := by
  unfold handleFollowRequest
  rw [h]
  dsimp only
  split
  · split
    · exact ⟨_, rfl⟩
    · split
      · exact ⟨_, rfl⟩
      · exact ⟨_, rfl⟩
  · exact ⟨_, rfl⟩
  · exact ⟨_, rfl⟩

theorem handleFollowRequest_eq_iff {req : FollowRequest} :
    d.handleFollowRequest K o remote req = ([], d) ↔ d.Fruitless K o remote (.followRequest req) := by
  unfold Fruitless
  cases hcheck : checkFollowRequest K.signature req with
  | error e =>
    unfold handleFollowRequest
    rw [hcheck]
    refine iff_of_true rfl ?_
    intro u hu
    exact nomatch hcheck.symm.trans hu
  | ok u =>
    obtain ⟨response, hresponse⟩ : ∃ response, (d.handleFollowRequest K o remote req).1 =
        [.followResponse response] := answers_followRequest hcheck
    refine iff_of_false ?_ fun h => h u hcheck
    intro h
    rw [h] at hresponse
    exact nomatch hresponse

theorem acceptAudio_eq_iff : d.acceptAudio remote = ([], d) ↔ d.Fruitless K o remote .audio := by
  unfold acceptAudio Fruitless
  cases d.activeCall with
  | none => simp
  | some call => simp

theorem accept_eq_iff {req : Request} :
    d.accept K o remote req = ([], d) ↔ d.TurnsAway remote req ∨ d.Fruitless K o remote req := by
  have hchecked : ∀ {out : List Effect × Device}, req ≠ .audio →
      (out = ([], d) ↔ d.Fruitless K o remote req) →
      ((if d.rejects remote then ([], d) else out) = ([], d) ↔
        d.TurnsAway remote req ∨ d.Fruitless K o remote req) := by
    intro out haudio hout
    unfold TurnsAway
    cases d.rejects remote with
    | true => exact iff_of_true rfl (Or.inl ⟨haudio, rfl⟩)
    | false => simpa using hout
  cases req with
  | handshake sender noiseMessage => exact hchecked nofun handleHandshake_eq_iff
  | envelope envelope =>
    exact hchecked nofun (handleEnvelope_eq_iff.trans handleEncryptedMessage_panics_iff)
  | sync req body => exact hchecked nofun handleSync_eq_iff
  | push msg => exact hchecked nofun handlePush_eq_iff
  | followRequest req => exact hchecked nofun handleFollowRequest_eq_iff
  | audio =>
    refine acceptAudio_eq_iff.trans (or_iff_right ?_).symm
    rintro ⟨haudio, -⟩
    exact haudio rfl

theorem enforced_iff_covered (d : Device) (l : Label) : d.Enforced K l ↔ d.Covered K l := by
  cases l with
  | connect sender remote req o => exact imp_congr_right fun _ => accept_eq_iff
  | block _ _ => exact Iff.rfl
  | unblock _ _ => exact Iff.rfl
  | edit _ => exact Iff.rfl

/-- Along a run no connection of a blocked user is let through just if each of them comes from where
the lookup finds a blocked key, or with what comes to nothing in any case. -/
theorem blocks_enforced_iff (d : Device) (run : List Label) :
    Machine.Along (step K) (Enforced K) d run ↔ Machine.Along (step K) (Covered K) d run := by
  refine Machine.along_iff (I := fun _ => True) ?_ ?_ trivial
  · intro d l _
    exact enforced_iff_covered d l
  · intro _ _ _ _ _ _
    trivial

section Examples

def sampleHandlers : HandlerCrates :=
  ⟨checksumCrates, compactJson, additiveCrates, Delivery.sampleSeal, Handshake.clearSnow⟩

/-- Alice is listed and has blocked Mallory, whose new device she has not heard of. -/
def blockedMallory : Device where
  identity := ⟨"alice", checksumDelegation "alice" "a0" "da" 0, "alice's node", pairOf 1⟩
  storage := ⟨[⟨"alice", "", "", none, none, "listed", ""⟩], [], []⟩
  mailbox := Mailbox.empty
  peerDelegations_eq := rfl
  content := ⟨[], []⟩
  moderation := Moderation.empty.blockUser "mallory" 2
  followRequests := []
  notifications := []
  activeCall := none

def malloryAsks : Label :=
  .connect "mallory" "new node" (.followRequest (followRequestOf "mallory" "m0" 0))
    ⟨9, Vector.replicate 12 0, pairOf 4, Vector.replicate 32 0⟩

/-- Mallory's request is answered, and stored with a notification. -/
theorem not_blocks_enforced_follow_request :
    ¬ Machine.Along (step sampleHandlers) (Enforced sampleHandlers) blockedMallory [malloryAsks] := by
  intro h
  have hrefused := h.1 (by decide)
  obtain ⟨-, hlooked⟩ | hfruitless := accept_eq_iff.mp hrefused
  · exact absurd hlooked (by decide)
  · exact hfruitless () (checkFollowRequest_followRequestOf "mallory" "m0" 0)

end Examples
end Device
end Proscenium.Client
