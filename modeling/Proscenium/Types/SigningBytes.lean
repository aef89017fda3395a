import Proscenium.DeviceSync.ChallengeDefs
import Proscenium.Types.ChecksumScheme
import Proscenium.Types.Stage

/-! Everything that the keys of a user sign, in one type. The bytes of two objects
are equal only if the objects are of one kind and agree in what is signed of
them: the kinds are told apart by the names of their fields, the two deletions
by their action, and a challenge by not being JSON at all. -/

namespace Proscenium.Types

inductive Signed where
  | post (p : Post)
  | interaction (i : Interaction)
  | profile (p : Profile)
  | deletePost (id author : String)
  | deleteInteraction (id author : String)
  | linkedDevices (a : LinkedDevicesAnnouncement)
  | delegation (d : SigningKeyDelegation)
  | rotation (r : SigningKeyRotation)
  | registration (r : RegistrationRequest)
  | followRequest (requester : String) (timestamp : UInt64)
  | stageControl (senderPubkey : String) (control : StageControl) (timestamp : UInt64)
  | deviceSyncChallenge (challenge : Bytes)
  deriving DecidableEq, Repr

inductive SignedKind where
  | post
  | interaction
  | profile
  | deletePost
  | deleteInteraction
  | linkedDevices
  | delegation
  | rotation
  | registration
  | followRequest
  | stageControl
  | deviceSyncChallenge
  deriving DecidableEq, Repr

namespace Signed

def signingBytes : Signed → Bytes
  | .post p => postSigningBytes p
  | .interaction i => interactionSigningBytes i
  | .profile p => profileSigningBytes p
  | .deletePost id author => deletePostSigningBytes id author
  | .deleteInteraction id author => deleteInteractionSigningBytes id author
  | .linkedDevices a => linkedDevicesSigningBytes a
  | .delegation d => delegationSigningBytes d
  | .rotation r => rotationSigningBytes r
  | .registration r => registrationSigningBytes r
  | .followRequest requester timestamp => followRequestSigningBytes requester timestamp
  | .stageControl senderPubkey control timestamp =>
    stageControlSigningBytes senderPubkey control timestamp
  | .deviceSyncChallenge challenge => DeviceSync.deviceSyncChallengeSigningBytes challenge

def noDelegation : SigningKeyDelegation := ⟨"", "", 0, "", 0, 0, ""⟩

/-- The object without the fields that its signature does not cover. -/
def signedPart : Signed → Signed
  | .post p => .post { p with signature := "" }
  | .interaction i => .interaction { i with signature := "" }
  | .profile p => .profile { p with signature := "" }
  | .linkedDevices a => .linkedDevices { a with delegation := noDelegation, signature := "" }
  | .delegation d => .delegation { d with signature := "" }
  | .rotation r => .rotation { r with signature := "", newDelegation := noDelegation }
  | .registration r => .registration { r with signature := "", delegation := noDelegation }
  | o => o

def kind : Signed → SignedKind
  | .post _ => .post
  | .interaction _ => .interaction
  | .profile _ => .profile
  | .deletePost _ _ => .deletePost
  | .deleteInteraction _ _ => .deleteInteraction
  | .linkedDevices _ => .linkedDevices
  | .delegation _ => .delegation
  | .rotation _ => .rotation
  | .registration _ => .registration
  | .followRequest _ _ => .followRequest
  | .stageControl _ _ _ => .stageControl
  | .deviceSyncChallenge _ => .deviceSyncChallenge

def mediaValue (m : MediaAttachment) : Json.Value :=
  Json.object ((mediaFields m).map fun f => (f.1, f.2.value))

def deviceValue (d : DeviceEntry) : Json.Value :=
  Json.object ((deviceFields d).map fun f => (f.1, f.2.value))

/-- The fields of the JSON object that is signed; a challenge has none. -/
def fields : Signed → List (String × Json.Value)
  | .post p => [("id", .str p.id), ("author", .str p.author), ("content", .str p.content),
      ("timestamp", .num p.timestamp.toNat), ("media", .arr (p.media.map mediaValue)),
      ("reply_to", (optionStr p.replyTo).value), ("reply_to_author", (optionStr p.replyToAuthor).value),
      ("quote_of", (optionStr p.quoteOf).value),
      ("quote_of_author", (optionStr p.quoteOfAuthor).value)]
  | .interaction i => [("id", .str i.id), ("author", .str i.author), ("kind", .str "Like"),
      ("target_post_id", .str i.targetPostId), ("target_author", .str i.targetAuthor),
      ("timestamp", .num i.timestamp.toNat)]
  | .profile p => [("display_name", .str p.displayName), ("bio", .str p.bio),
      ("avatar_hash", (optionStr p.avatarHash).value),
      ("avatar_ticket", (optionStr p.avatarTicket).value), ("visibility", .str p.visibility.toText)]
  | .deletePost id author =>
    [("action", .str "delete_post"), ("id", .str id), ("author", .str author)]
  | .deleteInteraction id author =>
    [("action", .str "delete_interaction"), ("id", .str id), ("author", .str author)]
  | .linkedDevices a => [("master_pubkey", .str a.masterPubkey),
      ("devices", .arr (a.devices.map deviceValue)), ("version", .num a.version.toNat),
      ("timestamp", .num a.timestamp.toNat)]
  | .delegation d => [("master_pubkey", .str d.masterPubkey), ("signing_pubkey", .str d.signingPubkey),
      ("key_index", .num d.keyIndex.toNat), ("dm_pubkey", .str d.dmPubkey),
      ("dm_key_index", .num d.dmKeyIndex.toNat), ("issued_at", .num d.issuedAt.toNat)]
  | .rotation r => [("action", .str "signing_key_rotation"), ("master_pubkey", .str r.masterPubkey),
      ("old_signing_pubkey", .str r.oldSigningPubkey), ("new_signing_pubkey", .str r.newSigningPubkey),
      ("new_key_index", .num r.newKeyIndex.toNat), ("timestamp", .num r.timestamp.toNat)]
  | .registration r => [("action", (optionStr r.action).value), ("master_pubkey", .str r.masterPubkey),
      ("server_url", .str r.serverUrl), ("timestamp", .num r.timestamp.toNat),
      ("transport_node_id", .str r.transportNodeId), ("visibility", .str r.visibility.toText)]
  | .followRequest requester timestamp =>
    [("requester", .str requester), ("timestamp", .num timestamp.toNat)]
  | .stageControl senderPubkey control timestamp => [("sender_pubkey", .str senderPubkey),
      ("control", control.value), ("timestamp", .num timestamp.toNat)]
  | .deviceSyncChallenge _ => []

end Signed

namespace SignedKind

/-- The names of the fields. -/
def keys : SignedKind → List String
  | .post => ["id", "author", "content", "timestamp", "media", "reply_to", "reply_to_author",
      "quote_of", "quote_of_author"]
  | .interaction => ["id", "author", "kind", "target_post_id", "target_author", "timestamp"]
  | .profile => ["display_name", "bio", "avatar_hash", "avatar_ticket", "visibility"]
  | .deletePost | .deleteInteraction => ["action", "id", "author"]
  | .linkedDevices => ["master_pubkey", "devices", "version", "timestamp"]
  | .delegation => ["master_pubkey", "signing_pubkey", "key_index", "dm_pubkey", "dm_key_index",
      "issued_at"]
  | .rotation => ["action", "master_pubkey", "old_signing_pubkey", "new_signing_pubkey",
      "new_key_index", "timestamp"]
  | .registration => ["action", "master_pubkey", "server_url", "timestamp", "transport_node_id",
      "visibility"]
  | .followRequest => ["requester", "timestamp"]
  | .stageControl => ["sender_pubkey", "control", "timestamp"]
  | .deviceSyncChallenge => []

theorem nodup_keys (k : SignedKind) : k.keys.Nodup := by
  cases k <;> decide

def all : List SignedKind := [.post, .interaction, .profile, .deletePost, .deleteInteraction,
  .linkedDevices, .delegation, .rotation, .registration, .followRequest, .stageControl,
  .deviceSyncChallenge]

theorem mem_all (k : SignedKind) : k ∈ all := by
  cases k <;> decide

theorem eq_or_deletion_of_perm {k k' : SignedKind} (h : k.keys.Perm k'.keys) :
    k = k' ∨ k = .deletePost ∧ k' = .deleteInteraction ∨
      k = .deleteInteraction ∧ k' = .deletePost := by
  have hkinds : ∀ k ∈ all, ∀ k' ∈ all, k.keys.isPerm k'.keys = true → k = k' ∨
      k = .deletePost ∧ k' = .deleteInteraction ∨ k = .deleteInteraction ∧ k' = .deletePost := by
    decide +kernel
  exact hkinds k k.mem_all k' k'.mem_all (List.isPerm_iff.mpr h)

end SignedKind

section Values

theorem optionStr_value_inj {a b : Option String} (h : (optionStr a).value = (optionStr b).value) :
    a = b := by
  cases a <;> cases b <;> simp_all [optionStr, Json.Scalar.value]

theorem Visibility.toText_injective : Function.Injective Visibility.toText := by
  intro v w h
  have hparse : Visibility.fromStr v.toText = Visibility.fromStr w.toText := congrArg fromStr h
  rw [fromStr_toText, fromStr_toText] at hparse
  exact Except.ok.inj hparse

theorem mediaValue_injective : Function.Injective Signed.mediaValue := by
  intro m n h
  rw [Signed.mediaValue, Signed.mediaValue] at h
  have hfields := Json.object_inj h rfl (by simp [mediaFields])
  obtain ⟨hash, ticket, mimeType, filename, size⟩ := m
  obtain ⟨hash', ticket', mimeType', filename', size'⟩ := n
  simp [mediaFields, Json.Atom.value, Json.Scalar.value, UInt64.toNat_inj] at hfields
  simp [hfields]

theorem deviceValue_injective : Function.Injective Signed.deviceValue := by
  intro m n h
  rw [Signed.deviceValue, Signed.deviceValue] at h
  have hfields := Json.object_inj h rfl (by simp [deviceFields])
  obtain ⟨nodeId, deviceName, isPrimary, addedAt⟩ := m
  obtain ⟨nodeId', deviceName', isPrimary', addedAt'⟩ := n
  simp [deviceFields, Json.Atom.value, Json.Scalar.value, UInt64.toNat_inj] at hfields
  simp [hfields]

end Values

namespace StageControl

theorem str_map_injective {xs ys : List String} (h : xs.map Json.Value.str = ys.map Json.Value.str) :
    xs = ys :=
  List.map_injective_iff.mpr (fun _ _ hst => Json.Value.str.inj hst) h

theorem map_fst_fields {c d : StageControl} (h : c.tag = d.tag) :
    c.fields.map Prod.fst = d.fields.map Prod.fst := by
  cases c <;> cases d <;> first | rfl | simp only [tag, String.reduceEq] at h

theorem nodup_fields (c : StageControl) : (c.fields.map Prod.fst).Nodup := by
  cases c <;> simp [fields]

theorem eq_of_fields {c d : StageControl} (htag : c.tag = d.tag) (h : c.fields = d.fields) : c = d := by
  cases c <;> cases d <;> first
    | (simp only [tag, String.reduceEq] at htag; done)
    | (simp only [fields, List.cons.injEq, Prod.mk.injEq, Json.Value.str.injEq, Json.Value.num.injEq,
         Json.Value.bool.injEq, Json.Value.arr.injEq, UInt64.toNat_inj, UInt32.toNat_inj, true_and,
         and_true] at h
       grind [StageRole.toText_injective, optionStr_value_inj, str_map_injective])

theorem value_injective : Function.Injective StageControl.value := by
  intro c d h
  obtain ⟨htag, hfields⟩ := Prod.mk.inj (List.head_eq_of_cons_eq (Json.Value.obj.inj h))
  exact eq_of_fields htag (Json.object_inj hfields (map_fst_fields htag) c.nodup_fields)

end StageControl

namespace Signed

theorem signingBytes_eq (o : Signed) (h : o.kind ≠ .deviceSyncChallenge) :
    o.signingBytes = (Json.object o.fields).toVec := by
  cases o with
  | post p =>
    rw [signingBytes, postSigningBytes, Json.entriesToVec_eq]
    simp only [List.map_cons, List.map_nil, Json.Entry.value, Json.Atom.value, List.map_map]
    rfl
  | linkedDevices a =>
    rw [signingBytes, linkedDevicesSigningBytes, Json.entriesToVec_eq]
    simp only [List.map_cons, List.map_nil, Json.Entry.value, Json.Atom.value, List.map_map]
    rfl
  | stageControl senderPubkey control timestamp => rfl
  | deviceSyncChallenge challenge => exact absurd rfl h
  | _ => exact Json.toVec_eq _

theorem map_fst_fields (o : Signed) : o.fields.map Prod.fst = o.kind.keys := by
  cases o <;> rfl

theorem media_inj {xs ys : List MediaAttachment} (h : xs.map mediaValue = ys.map mediaValue) :
    xs = ys :=
  List.map_injective_iff.mpr mediaValue_injective h

theorem devices_inj {xs ys : List DeviceEntry} (h : xs.map deviceValue = ys.map deviceValue) :
    xs = ys :=
  List.map_injective_iff.mpr deviceValue_injective h

theorem signedPart_eq {o o' : Signed} (hkind : o.kind = o'.kind) (hjson : o.kind ≠ .deviceSyncChallenge)
    (h : o.fields = o'.fields) : o.signedPart = o'.signedPart := by
  cases o <;> cases o' <;> first
    | (simp only [kind, reduceCtorEq] at hkind; done)
    | (simp only [fields, List.cons.injEq, Prod.mk.injEq, Json.Value.str.injEq, Json.Value.num.injEq,
         Json.Value.arr.injEq, UInt64.toNat_inj, UInt32.toNat_inj, true_and, and_true] at h
       grind [signedPart, kind, media_inj, devices_inj, optionStr_value_inj, Visibility.toText_injective,
         StageControl.value_injective])

theorem head?_challenge (challenge : Bytes) :
    (DeviceSync.deviceSyncChallengeSigningBytes challenge).head? = some 112 := by
  rw [DeviceSync.deviceSyncChallengeSigningBytes, Json.toUTF8_toList]
  rfl

theorem challenge_ne (challenge : Bytes) {o : Signed} (ho : o.kind ≠ .deviceSyncChallenge) :
    (deviceSyncChallenge challenge).signingBytes ≠ o.signingBytes := by
  intro h
  rw [signingBytes_eq o ho] at h
  have hhead := congrArg List.head? h
  rw [signingBytes, head?_challenge, Json.head?_toVec_object] at hhead
  exact absurd hhead (by decide)

theorem deletePost_fields_ne {o o' : Signed} (hpost : o.kind = .deletePost)
    (hinteraction : o'.kind = .deleteInteraction) : o.fields ≠ o'.fields := by
  cases o with
  | deletePost id author =>
    cases o' with
    | deleteInteraction id' author' => simp [fields]
    | _ => exact absurd hinteraction (by simp [kind])
  | _ => exact absurd hpost (by simp [kind])

theorem fields_perm {o o' : Signed} (h : Json.object o.fields = Json.object o'.fields) :
    o.fields.Perm o'.fields := by
  refine Json.perm_of_object_eq ?_ ?_ h
  · rw [map_fst_fields]
    exact o.kind.nodup_keys
  · rw [map_fst_fields]
    exact o'.kind.nodup_keys

theorem signedPart_of_signingBytes {o o' : Signed} (h : o.signingBytes = o'.signingBytes) :
    o.signedPart = o'.signedPart := by
  by_cases ho : o.kind = .deviceSyncChallenge
  · cases o with
    | deviceSyncChallenge challenge =>
      by_cases ho' : o'.kind = .deviceSyncChallenge
      · cases o' with
        | deviceSyncChallenge challenge' =>
          obtain rfl : challenge = challenge' := List.append_cancel_left h
          rfl
        | _ => exact absurd ho' (by simp [kind])
      · exact absurd h (challenge_ne challenge ho')
    | _ => exact absurd ho (by simp [kind])
  · by_cases ho' : o'.kind = .deviceSyncChallenge
    · cases o' with
      | deviceSyncChallenge challenge => exact absurd h.symm (challenge_ne challenge ho)
      | _ => exact absurd ho' (by simp [kind])
    · rw [signingBytes_eq o ho, signingBytes_eq o' ho'] at h
      have hobject := Json.Value.toVec_injective h
      have hkeys : o.kind.keys.Perm o'.kind.keys := by
        rw [← map_fst_fields, ← map_fst_fields]
        exact (fields_perm hobject).map Prod.fst
      have hfields : o.kind.keys = o'.kind.keys → o.fields = o'.fields := by
        intro hkeys
        refine Json.object_inj hobject ?_ ?_
        · rw [map_fst_fields, map_fst_fields, hkeys]
        · rw [map_fst_fields]
          exact o.kind.nodup_keys
      rcases SignedKind.eq_or_deletion_of_perm hkeys with hkind | ⟨hk, hk'⟩ | ⟨hk, hk'⟩
      · exact signedPart_eq hkind ho (hfields (congrArg SignedKind.keys hkind))
      · exact absurd (hfields (by rw [hk, hk']; rfl)) (deletePost_fields_ne hk hk')
      · exact absurd (hfields (by rw [hk, hk']; rfl)).symm (deletePost_fields_ne hk' hk)

end Signed

section Verification

variable (S : SignatureCrates) (key : PublicKey) (signature : String)

/-- `signature` is good for the object under `key`, as the function for its kind sees it. -/
def Signed.Verifies : Signed → Prop
  | .post p => verifyPostSignature S { p with signature := signature } key = .ok ()
  | .interaction i => verifyInteractionSignature S { i with signature := signature } key = .ok ()
  | .profile p => verifyProfileSignature S { p with signature := signature } key = .ok ()
  | .deletePost id author => verifyDeletePostSignature S id author signature key = .ok ()
  | .deleteInteraction id author => verifyDeleteInteractionSignature S id author signature key = .ok ()
  | .linkedDevices a => S.parsePublicKey a.delegation.signingPubkey = .ok key ∧
      verifyLinkedDevicesAnnouncement S { a with signature := signature } = .ok ()
  | .delegation d => S.parsePublicKey d.masterPubkey = .ok key ∧
      verifyDelegation S { d with signature := signature } = .ok ()
  | .rotation r => S.parsePublicKey r.masterPubkey = .ok key ∧
      verifyRotation S { r with signature := signature } = .ok ()
  | .registration r => S.parsePublicKey r.delegation.signingPubkey = .ok key ∧
      verifyRegistrationSignature S { r with signature := signature } = .ok ()
  | .followRequest requester timestamp =>
    verifyFollowRequest S ⟨requester, timestamp, signature, noDelegation⟩ key = .ok ()
  | .stageControl senderPubkey control timestamp =>
    verifyStageControl S ⟨senderPubkey, control, timestamp, signature⟩ key = .ok ()
  | .deviceSyncChallenge challenge =>
    DeviceSync.verifyDeviceSyncChallenge S challenge signature key = .ok ()

def SignatureCrates.Binds : Prop := ∀ sig, hexToSignature S signature = .ok sig →
  ∀ msg msg', S.verify key msg sig = true → S.verify key msg' sig = true → msg = msg'

variable {S key signature}

theorem Signed.Verifies.verify {o : Signed} (h : o.Verifies S key signature) :
    ∃ sig, hexToSignature S signature = .ok sig ∧ S.verify key o.signingBytes sig = true := by
  cases o with
  | post p => exact verifySigned_eq_ok.mp h
  | interaction i => exact verifySigned_eq_ok.mp h
  | profile p =>
    have hver : verifyProfileSignature S { p with signature := signature } key = .ok () := h
    unfold verifyProfileSignature at hver
    simp only [Checks.bind_eq_ok, Checks.accept_eq_ok] at hver
    exact hver
  | deletePost id author => exact verifySigned_eq_ok.mp h
  | deleteInteraction id author => exact verifySigned_eq_ok.mp h
  | linkedDevices a =>
    obtain ⟨hkey, hver⟩ := h
    obtain ⟨-, -, signer, hsigner, hsigned⟩ := (verifyLinkedDevicesAnnouncement_eq_ok S).mp hver
    obtain rfl : key = signer := Except.ok.inj (hkey.symm.trans hsigner)
    exact verifySigned_eq_ok.mp hsigned
  | delegation d =>
    obtain ⟨hkey, hver⟩ := h
    obtain ⟨sig, master, signing, hsig, hmaster, -, hsigned⟩ := verifyDelegation_eq_ok.mp hver
    obtain rfl : key = master := Except.ok.inj (hkey.symm.trans hmaster)
    exact ⟨sig, hsig, hsigned⟩
  | rotation r =>
    obtain ⟨hkey, hver⟩ := h
    unfold verifyRotation at hver
    simp only [Checks.bind_eq_ok, Checks.mapError_eq_ok, Checks.reject_eq_ok,
      Decidable.not_not] at hver
    obtain ⟨sig, hsig, master, hmaster, hsigned, -⟩ := hver
    obtain rfl : key = master := Except.ok.inj (hkey.symm.trans hmaster)
    exact ⟨sig, hsig, hsigned⟩
  | registration r =>
    obtain ⟨hkey, hver⟩ := h
    unfold verifyRegistrationSignature at hver
    simp only [Checks.bind_eq_ok, Checks.mapError_eq_ok, Checks.accept_eq_ok] at hver
    obtain ⟨sig, hsig, signing, hsigning, hsigned⟩ := hver
    obtain rfl : key = signing := Except.ok.inj (hkey.symm.trans hsigning)
    exact ⟨sig, hsig, hsigned⟩
  | followRequest requester timestamp => exact verifySigned_eq_ok.mp h
  | stageControl senderPubkey control timestamp => exact verifySigned_eq_ok.mp h
  | deviceSyncChallenge challenge =>
    have hver : DeviceSync.verifyDeviceSyncChallenge S challenge signature key = .ok () := h
    unfold DeviceSync.verifyDeviceSyncChallenge at hver
    simp only [Checks.bind_eq_ok, Checks.accept_eq_ok] at hver
    exact hver

end Verification

/-- What is signed is told apart by its bytes, so no signature passes for that of another object
or kind. -/
theorem signed_separated :
    (∀ o o' : Signed, o.signingBytes = o'.signingBytes → o.signedPart = o'.signedPart) ∧
    ∀ (S : SignatureCrates) (key : PublicKey) (signature : String), S.Binds key signature →
      ∀ o o' : Signed, o.Verifies S key signature → o'.Verifies S key signature →
        o.signedPart = o'.signedPart := by
  refine ⟨fun o o' => Signed.signedPart_of_signingBytes, ?_⟩
  intro S key signature hbinds o o' ho ho'
  obtain ⟨sig, hsig, hver⟩ := ho.verify
  obtain ⟨sig', hsig', hver'⟩ := ho'.verify
  obtain rfl : sig = sig' := Except.ok.inj (hsig.symm.trans hsig')
  exact Signed.signedPart_of_signingBytes (hbinds sig hsig _ _ hver hver')

def recordedCrates (signed : List (PublicKey × Bytes × Signature)) : SignatureCrates :=
  { checksumCrates with verify := fun key msg sig => signed.contains (key, msg, sig) }

theorem hexToSignature_recordedCrates (signed : List (PublicKey × Bytes × Signature)) (s : String) :
    hexToSignature (recordedCrates signed) s = hexToSignature checksumCrates s := rfl

def receivedPost (signature : String) : Post :=
  ⟨"p1", "alice", "hello", 1, [], none, none, none, none, signature⟩

def receivedPostSignature : Signature :=
  ⟨(checksumSign "alice" (postSigningBytes (receivedPost ""))).toArray, length_checksumSign ..⟩

def receivedPostCrates : SignatureCrates :=
  recordedCrates [(checksumKey "alice", postSigningBytes (receivedPost ""), receivedPostSignature)]

theorem signed_separated_receivedPost :
    (Signed.post (receivedPost "00")).signedPart = (Signed.post (receivedPost "11")).signedPart ∧
    (Signed.post (receivedPost "22")).signedPart = (Signed.post (receivedPost "33")).signedPart := by
  have hsig : hexToSignature receivedPostCrates
      (hexEncode (checksumSign "alice" (postSigningBytes (receivedPost "")))) =
      .ok receivedPostSignature := by
    rw [receivedPostCrates, hexToSignature_recordedCrates]
    exact hexToSignature_hexEncode (length_checksumSign ..)
  have hbinds : receivedPostCrates.Binds (checksumKey "alice")
      (hexEncode (checksumSign "alice" (postSigningBytes (receivedPost "")))) := by
    intro sig _ msg msg' hmsg hmsg'
    simp only [receivedPostCrates, recordedCrates, List.contains_cons, List.contains_nil,
      Bool.or_false, beq_iff_eq, Prod.mk.injEq] at hmsg hmsg'
    rw [hmsg.2.1, hmsg'.2.1]
  have hver : ∀ s : String, (Signed.post (receivedPost s)).Verifies receivedPostCrates
      (checksumKey "alice") (hexEncode (checksumSign "alice" (postSigningBytes (receivedPost "")))) := by
    intro s
    refine verifySigned_eq_ok.mpr ⟨receivedPostSignature, hsig, ?_⟩
    simp [receivedPostCrates, recordedCrates, receivedPost, postSigningBytes]
  exact ⟨signed_separated.1 _ _ rfl, signed_separated.2 _ _ _ hbinds _ _ (hver "22") (hver "33")⟩

end Proscenium.Types
