import Proscenium.Lib.JsonValue
import Proscenium.Link.LinkDefs
import Proscenium.Types.SyncSize

/-! The bundle of a link on its way to the new device: its JSON is one message of
the Noise transport, whatever its size, and the message goes as an array of
numbers into the response. What `snow` does is a parameter. -/

namespace Proscenium.Link

open Proscenium.Types Client
open Client.Author (SecretKey)

/-- What is used of `snow`: the reading or writing of a transport message into a buffer of the given
size, and the state after it. -/
structure Snow where
  TransportState : Type
  writeMessage : TransportState → Bytes → Nat → Except String (Bytes × TransportState)
  readMessage : TransportState → Bytes → Nat → Except String (Bytes × TransportState)

def maxMsgLen : Nat := 65535

def tagLen : Nat := 16

/-- Two transports of one handshake, before the first message from `t` to `u`. -/
structure Snow.Connected (S : Snow) (t u : S.TransportState) : Prop where
  write : ∀ payload room, payload.length + tagLen ≤ maxMsgLen → payload.length + tagLen ≤ room →
    ∃ message t', S.writeMessage t payload room = .ok (message, t') ∧
      message.length = payload.length + tagLen
  tooLong : ∀ payload room, maxMsgLen < payload.length + tagLen →
    ∃ e, S.writeMessage t payload room = .error e
  read : ∀ payload room message t' room', S.writeMessage t payload room = .ok (message, t') →
    payload.length ≤ room' → ∃ u', S.readMessage u message room' = .ok (payload, u')

section Noise

variable (S : Snow)

def noiseTransportEncrypt (t : S.TransportState) (plaintext : Bytes) : Except String Bytes :=
  (S.writeMessage t plaintext (plaintext.length + 65535)).map Prod.fst

def noiseTransportDecrypt (t : S.TransportState) (ciphertext : Bytes) : Except String Bytes :=
  (S.readMessage t ciphertext (ciphertext.length + 65535)).map Prod.fst

end Noise

section Texts

def delegationText (d : SigningKeyDelegation) : List Char :=
  objectText [("master_pubkey", Json.quote d.masterPubkey), ("signing_pubkey", Json.quote d.signingPubkey),
    ("key_index", numText d.keyIndex.toNat), ("dm_pubkey", Json.quote d.dmPubkey),
    ("dm_key_index", numText d.dmKeyIndex.toNat), ("issued_at", numText d.issuedAt.toNat),
    ("signature", Json.quote d.signature)]

def boolText (b : Bool) : List Char := (if b then "true" else "false").toList

def entryText (e : SocialGraphEntry) : List Char :=
  objectText [("pubkey", Json.quote e.pubkey), ("followed_at", numText e.followedAt.toNat),
    ("first_seen", numText e.firstSeen.toNat), ("last_seen", numText e.lastSeen.toNat),
    ("is_online", boolText e.isOnline)]

def sessionText (s : RatchetSessionExport) : List Char :=
  objectText [("peer_pubkey", Json.quote s.peerPubkey), ("state_json", Json.quote s.stateJson),
    ("updated_at", numText s.updatedAt.toNat)]

def bundleText (b : LinkBundleData) : List Char :=
  objectText [("signing_secret_key", Json.quote b.signingSecretKey),
    ("dm_secret_key", Json.quote b.dmSecretKey), ("delegation", delegationText b.delegation),
    ("transport_secret_key", Json.quote b.transportSecretKey), ("device_index", numText b.deviceIndex.toNat),
    ("master_secret_key", optionText b.masterSecretKey),
    ("profile", (b.profile.map profileText).getD (Json.Scalar.null).render),
    ("follows", arrayText (b.follows.map entryText)), ("bookmarks", arrayText (b.bookmarks.map Json.quote)),
    ("blocked_users", arrayText (b.blockedUsers.map Json.quote)),
    ("muted_users", arrayText (b.mutedUsers.map Json.quote)),
    ("ratchet_sessions", arrayText (b.ratchetSessions.map sessionText))]

def bytesText (bytes : Bytes) : List Char := arrayText (bytes.map fun b => numText b.toNat)

/-- `PeerResponse::LinkBundle`. -/
def responseText (noiseResponse encryptedBundle : Bytes) : List Char :=
  objectText [("LinkBundle", objectText [("noise_response", bytesText noiseResponse),
    ("encrypted_bundle", bytesText encryptedBundle)])]

/-- `serde_json::to_vec`. -/
def toVec (text : List Char) : Bytes := (String.ofList text).toUTF8.toList

end Texts

section Sizes

def delegationSize (d : SigningKeyDelegation) : Nat :=
  104 + (stringSize d.masterPubkey + stringSize d.signingPubkey + numSize d.keyIndex.toNat +
    stringSize d.dmPubkey + numSize d.dmKeyIndex.toNat + numSize d.issuedAt.toNat + stringSize d.signature)

def boolSize (b : Bool) : Nat := if b then 4 else 5

def entrySize (e : SocialGraphEntry) : Nat :=
  66 + (stringSize e.pubkey + numSize e.followedAt.toNat + numSize e.firstSeen.toNat +
    numSize e.lastSeen.toNat + boolSize e.isOnline)

def sessionSize (s : RatchetSessionExport) : Nat :=
  44 + (stringSize s.peerPubkey + stringSize s.stateJson + numSize s.updatedAt.toNat)

def profileSize (p : Profile) : Nat :=
  83 + (stringSize p.displayName + stringSize p.bio + optionSize p.avatarHash + optionSize p.avatarTicket +
    stringSize p.visibility.toText + stringSize p.signature)

def bundleSize (b : LinkBundleData) : Nat :=
  202 + (stringSize b.signingSecretKey + stringSize b.dmSecretKey + delegationSize b.delegation +
    stringSize b.transportSecretKey + numSize b.deviceIndex.toNat + optionSize b.masterSecretKey +
    (b.profile.map profileSize).getD 4 + listSize (b.follows.map entrySize) +
    listSize (b.bookmarks.map stringSize) + listSize (b.blockedUsers.map stringSize) +
    listSize (b.mutedUsers.map stringSize) + listSize (b.ratchetSessions.map sessionSize))

theorem textLen_delegationText (d : SigningKeyDelegation) : textLen (delegationText d) = delegationSize d := by
  have hkeys : listSize (["master_pubkey", "signing_pubkey", "key_index", "dm_pubkey", "dm_key_index", "issued_at",
      "signature"].map fun k => stringSize k + 1) = 104 := by
    decide
  unfold delegationText delegationSize
  rw [textLen_objectText]
  refine congrArg₂ (· + ·) hkeys ?_
  simp only [List.map_cons, List.map_nil, List.sum_cons, List.sum_nil, textLen_quote, textLen_numText]
  omega

theorem textLen_boolText (b : Bool) : textLen (boolText b) = boolSize b := by
  cases b with
  | false => rfl
  | true => rfl

theorem textLen_entryText (e : SocialGraphEntry) : textLen (entryText e) = entrySize e := by
  have hkeys : listSize (["pubkey", "followed_at", "first_seen", "last_seen", "is_online"].map
      fun k => stringSize k + 1) = 66 := by
    decide
  unfold entryText entrySize
  rw [textLen_objectText]
  refine congrArg₂ (· + ·) hkeys ?_
  simp only [List.map_cons, List.map_nil, List.sum_cons, List.sum_nil, textLen_quote, textLen_numText,
    textLen_boolText]
  omega

theorem textLen_sessionText (s : RatchetSessionExport) : textLen (sessionText s) = sessionSize s := by
  have hkeys : listSize (["peer_pubkey", "state_json", "updated_at"].map fun k => stringSize k + 1) = 44 := by decide
  unfold sessionText sessionSize
  rw [textLen_objectText]
  refine congrArg₂ (· + ·) hkeys ?_
  simp only [List.map_cons, List.map_nil, List.sum_cons, List.sum_nil, textLen_quote, textLen_numText]
  omega

theorem textLen_profileText (p : Profile) : textLen (profileText p) = profileSize p := by
  have hkeys : listSize (["display_name", "bio", "avatar_hash", "avatar_ticket", "visibility", "signature"].map
      fun k => stringSize k + 1) = 83 := by
    decide
  unfold profileText profileSize
  rw [textLen_objectText]
  refine congrArg₂ (· + ·) hkeys ?_
  simp only [List.map_cons, List.map_nil, List.sum_cons, List.sum_nil, textLen_quote, textLen_optionText]
  omega

theorem textLen_bundleText (b : LinkBundleData) : textLen (bundleText b) = bundleSize b := by
  have hkeys : listSize (["signing_secret_key", "dm_secret_key", "delegation", "transport_secret_key", "device_index",
      "master_secret_key", "profile", "follows", "bookmarks", "blocked_users", "muted_users",
      "ratchet_sessions"].map fun k => stringSize k + 1) = 202 := by
    decide
  have hprofile : textLen ((b.profile.map profileText).getD (Json.Scalar.null).render) =
      (b.profile.map profileSize).getD 4 := by
    cases b.profile with
    | none => rfl
    | some p => exact textLen_profileText p
  unfold bundleText bundleSize
  rw [textLen_objectText]
  refine congrArg₂ (· + ·) hkeys ?_
  simp only [List.map_cons, List.map_nil, List.sum_cons, List.sum_nil, textLen_quote, textLen_numText,
    textLen_optionText, textLen_delegationText, hprofile, textLen_entries textLen_entryText,
    textLen_entries textLen_quote, textLen_entries textLen_sessionText]
  omega

theorem length_toVec (text : List Char) : (toVec text).length = textLen text := by
  rw [toVec, Json.toUTF8_toList, ← utf8ByteSize_ofList, ← String.size_toByteArray]
  rfl

theorem textLen_bytesText_le (bytes : Bytes) : textLen (bytesText bytes) ≤ 2 + 4 * bytes.length := by
  have hdigits : ∀ b : UInt8, numSize b.toNat ≤ 3 := fun b =>
    Nat.toDigits_length 10 b.toNat 3 (by decide) (b.toNat_lt.trans (by decide))
  have hsum : ∀ bytes : Bytes, (bytes.map fun b => numSize b.toNat).sum ≤ 3 * bytes.length := by
    intro bytes
    induction bytes with
    | nil => exact Nat.le_refl 0
    | cons b bytes ih =>
      have hb := hdigits b
      rw [List.map_cons, List.sum_cons, List.length_cons]
      omega
  have hbytes := hsum bytes
  have htext : ∀ b : UInt8, textLen (numText b.toNat) = numSize b.toNat := fun b => textLen_numText b.toNat
  unfold bytesText
  rw [textLen_entries htext]
  unfold listSize
  rw [List.length_map]
  omega

theorem textLen_responseText_le {noiseResponse encryptedBundle : Bytes}
    (hresponse : noiseResponse.length ≤ maxMsgLen) (hbundle : encryptedBundle.length ≤ maxMsgLen) :
    textLen (responseText noiseResponse encryptedBundle) ≤ 600000 := by
  have hresponse' := textLen_bytesText_le noiseResponse
  have hbundle' := textLen_bytesText_le encryptedBundle
  have houter : listSize (["LinkBundle"].map fun k => stringSize k + 1) = 15 := by decide
  have hkeys : listSize (["noise_response", "encrypted_bundle"].map fun k => stringSize k + 1) = 39 := by decide
  have hlen : textLen (responseText noiseResponse encryptedBundle) =
      15 + (39 + (textLen (bytesText noiseResponse) + textLen (bytesText encryptedBundle))) := by
    unfold responseText
    rw [textLen_objectText]
    refine congrArg₂ (· + ·) houter ?_
    rw [List.map_singleton, List.sum_singleton, textLen_objectText]
    refine congrArg₂ (· + ·) hkeys ?_
    simp only [List.map_cons, List.map_nil, List.sum_cons, List.sum_nil, Nat.add_zero]
  unfold maxMsgLen at hresponse hbundle
  omega

end Sizes

section Transfer

variable {S : Snow} {t u : S.TransportState}

/-- What `link_with_device` reads of a response. -/
def maxLinkResponse : Nat := 10000000

/-- The message of `noise_psk_respond`, out of its buffer. -/
def noiseResponse (buf : Vector UInt8 maxMsgLen) (len : Nat) : Bytes := buf.toList.take len

/-- The bundle is encrypted, the response with it is read, and the other side has the same bytes. -/
def Transfers (S : Snow) (t u : S.TransportState) (response : Bytes) (bundle : LinkBundleData) : Prop :=
  ∃ ciphertext, noiseTransportEncrypt S t (toVec (bundleText bundle)) = .ok ciphertext ∧
    (toVec (responseText response ciphertext)).length ≤ maxLinkResponse ∧
    noiseTransportDecrypt S u ciphertext = .ok (toVec (bundleText bundle))

theorem Snow.Connected.encrypt_iff (h : S.Connected t u) (plaintext : Bytes) :
    (∃ ciphertext, noiseTransportEncrypt S t plaintext = .ok ciphertext) ↔
      plaintext.length + tagLen ≤ maxMsgLen := by
  rcases Nat.lt_or_ge maxMsgLen (plaintext.length + tagLen) with hlong | hshort
  · obtain ⟨e, he⟩ := h.tooLong plaintext (plaintext.length + 65535) hlong
    refine iff_of_false ?_ (Nat.not_le.mpr hlong)
    rintro ⟨ciphertext, hencrypt⟩
    rw [noiseTransportEncrypt, he] at hencrypt
    cases hencrypt
  · have hroom : plaintext.length + tagLen ≤ plaintext.length + 65535 := Nat.add_le_add_left (by decide) _
    obtain ⟨message, t', hwrite, -⟩ := h.write plaintext _ hshort hroom
    refine iff_of_true ⟨message, ?_⟩ hshort
    rw [noiseTransportEncrypt, hwrite]
    rfl

theorem Snow.Connected.decrypt (h : S.Connected t u) {plaintext ciphertext : Bytes}
    (hencrypt : noiseTransportEncrypt S t plaintext = .ok ciphertext) :
    noiseTransportDecrypt S u ciphertext = .ok plaintext ∧ ciphertext.length ≤ maxMsgLen := by
  have hshort := (h.encrypt_iff plaintext).mp ⟨ciphertext, hencrypt⟩
  have hroom : plaintext.length + tagLen ≤ plaintext.length + 65535 := Nat.add_le_add_left (by decide) _
  obtain ⟨message, t', hwrite, hlength⟩ := h.write plaintext _ hshort hroom
  rw [noiseTransportEncrypt, hwrite] at hencrypt
  cases hencrypt
  have hbuf : plaintext.length ≤ message.length + 65535 := by
    rw [hlength]
    omega
  obtain ⟨u', hread⟩ := h.read plaintext _ message t' _ hwrite hbuf
  refine ⟨?_, hlength.trans_le hshort⟩
  rw [noiseTransportDecrypt, hread]
  rfl

theorem transfers_iff_size (h : S.Connected t u) (buf : Vector UInt8 maxMsgLen) (len : Nat)
    (bundle : LinkBundleData) :
    Transfers S t u (noiseResponse buf len) bundle ↔ bundleSize bundle + tagLen ≤ maxMsgLen := by
  have hsize : (toVec (bundleText bundle)).length = bundleSize bundle := by
    rw [length_toVec, textLen_bundleText]
  rw [← hsize, ← h.encrypt_iff]
  constructor
  · rintro ⟨ciphertext, hencrypt, -⟩
    exact ⟨ciphertext, hencrypt⟩
  · rintro ⟨ciphertext, hencrypt⟩
    obtain ⟨hdecrypt, hlength⟩ := h.decrypt hencrypt
    have hresponse : (noiseResponse buf len).length ≤ maxMsgLen := by
      rw [noiseResponse, List.length_take, Vector.length_toList]
      exact Nat.min_le_right _ _
    refine ⟨ciphertext, hencrypt, ?_, hdecrypt⟩
    rw [length_toVec]
    exact (textLen_responseText_le hresponse hlength).trans (by decide)

/-- A bundle is transferred exactly if its JSON is one message of the transport. -/
theorem bundle_transfers_iff (h : S.Connected t u) (buf : Vector UInt8 maxMsgLen) (len : Nat) (st : LinkStore)
    (reads : LinkQuery → Bool) (masterPubkey : String) (signingSecret dmSecret : SecretKey)
    (delegation : SigningKeyDelegation) (transportSecret : SecretKey) (deviceIndex : UInt32)
    (masterSecret : Option SecretKey) :
    let bundle := st.exportLinkBundle reads masterPubkey signingSecret dmSecret delegation transportSecret
      deviceIndex masterSecret
    Transfers S t u (noiseResponse buf len) bundle ↔ bundleSize bundle ≤ 65519 := by
  intro bundle
  have hlimit : bundleSize bundle + tagLen ≤ maxMsgLen ↔ bundleSize bundle ≤ 65519 := by
    unfold tagLen maxMsgLen
    omega
  rw [transfers_iff_size h, hlimit]

end Transfer

section Examples

/-- A transport that appends a tag of zeros. -/
def plainSnow : Snow where
  TransportState := Unit
  writeMessage _ payload room :=
    if payload.length + tagLen > maxMsgLen ∨ payload.length + tagLen > room then .error "input error"
    else .ok (payload ++ List.replicate tagLen 0, ())
  readMessage _ message room :=
    if message.length > maxMsgLen ∨ message.length < tagLen ∨ message.length > room + tagLen then
      .error "input error"
    else .ok (message.take (message.length - tagLen), ())

theorem connected_plainSnow : plainSnow.Connected () () where
  write payload room hlength hroom := by
    refine ⟨payload ++ List.replicate tagLen 0, (), if_neg ?_, ?_⟩
    · exact not_or.mpr ⟨Nat.not_lt.mpr hlength, Nat.not_lt.mpr hroom⟩
    · rw [List.length_append, List.length_replicate]
  tooLong payload room hlength := ⟨_, if_pos (.inl hlength)⟩
  read payload room message t' room' hwrite hroom := by
    by_cases hshort : payload.length + tagLen > maxMsgLen ∨ payload.length + tagLen > room
    · cases (if_pos hshort).symm.trans hwrite
    · cases (if_neg hshort).symm.trans hwrite
      have hlength : (payload ++ List.replicate tagLen (0 : UInt8)).length = payload.length + tagLen := by
        rw [List.length_append, List.length_replicate]
      refine ⟨(), (if_neg ?_).trans ?_⟩
      · rw [hlength]
        omega
      · rw [hlength, Nat.add_sub_cancel, List.take_left]
        rfl

def noDelegation : SigningKeyDelegation := ⟨"", "", 0, "", 0, 0, ""⟩

def longId (n : Nat) : String := String.ofList (List.replicate 40 (Char.ofNat 97) ++ Nat.toDigits 10 n)

theorem longId_injective {m n : Nat} (h : longId m = longId n) : m = n := by
  have hdigits := List.append_cancel_left (String.ofList_injective h)
  rw [← Nat.ofDigitChars_ten_toDigits (n := m), hdigits, Nat.ofDigitChars_ten_toDigits]

theorem le_stringSize_longId (n : Nat) : 42 ≤ stringSize (longId n) := by
  have hletters : ((List.replicate 40 (Char.ofNat 97)).map charSize).sum = 40 := by decide
  rw [stringSize, longId, String.toList_ofList, List.map_append, List.sum_append, hletters]
  omega

theorem bookmarks_toggled {ids : List String} (hnodup : ids.Nodup) {st : LinkStore}
    (hnew : ∀ b ∈ st.bookmarks, b.postId ∉ ids) :
    (ids.foldl (fun st id => st.toggleBookmark 0 id) st).bookmarks.map DeviceSync.Bookmark.postId =
      st.bookmarks.map DeviceSync.Bookmark.postId ++ ids := by
  induction ids generalizing st with
  | nil => exact (List.append_nil _).symm
  | cons id ids ih =>
    obtain ⟨hid, hnodup⟩ := List.nodup_cons.mp hnodup
    have hmissing : ¬ st.bookmarks.any (·.postId = id) = true := by
      intro hany
      obtain ⟨b, hb, heq⟩ := List.any_eq_true.mp hany
      exact hnew b hb (of_decide_eq_true heq ▸ List.mem_cons_self)
    -- the ids differ, so that no toggle takes a bookmark away again
    have htoggle : (st.toggleBookmark 0 id).bookmarks = st.bookmarks ++ [⟨id, (0 : UInt64).toInt64⟩] := by
      rw [LinkStore.toggleBookmark, if_neg hmissing]
    have hrest : ∀ b ∈ (st.toggleBookmark 0 id).bookmarks, b.postId ∉ ids := by
      intro b hb
      rw [htoggle] at hb
      rcases List.mem_append.mp hb with hb | hb
      · exact fun hmem => hnew b hb (List.mem_cons_of_mem id hmem)
      · rw [List.mem_singleton.mp hb]
        exact hid
    rw [List.foldl_cons, ih hnodup hrest, htoggle, List.map_append, List.append_assoc]
    rfl

def bookmarkedStore (n : Nat) : LinkStore :=
  ((List.range n).map longId).foldl (fun st id => st.toggleBookmark 0 id) emptyStore

def bookmarkedBundle (n : Nat) : LinkBundleData :=
  (bookmarkedStore n).exportLinkBundle (fun _ => true) "alice" Client.Author.zeroSecret Client.Author.zeroSecret
    noDelegation Client.Author.zeroSecret 1 none

theorem bundle_transfers_iff_bookmarks : (bookmarkedBundle 3).bookmarks.length = 3 ∧
    Transfers plainSnow () () (noiseResponse (Vector.replicate _ 0) 48) (bookmarkedBundle 3) := by
  have hsize : bundleSize (bookmarkedBundle 3) ≤ 65519 := by decide +kernel
  have hiff := bundle_transfers_iff connected_plainSnow (Vector.replicate _ 0) 48 (bookmarkedStore 3) (fun _ => true)
    "alice" Client.Author.zeroSecret Client.Author.zeroSecret noDelegation Client.Author.zeroSecret 1 none
  exact ⟨by decide +kernel, hiff.mpr hsize⟩

theorem le_bundleSize_bookmarked (n : Nat) : n * 42 ≤ bundleSize (bookmarkedBundle n) := by
  have hnodup : ((List.range n).map longId).Nodup :=
    List.nodup_range.map fun _ _ => longId_injective
  have hstored : (bookmarkedStore n).bookmarks.map DeviceSync.Bookmark.postId = (List.range n).map longId :=
    bookmarks_toggled hnodup fun _ hb => absurd hb List.not_mem_nil
  have hids : (bookmarkedBundle n).bookmarks.Perm ((List.range n).map longId) := by
    rw [← hstored]
    exact (List.perm_insertionSort _ _).map _
  have hcard := List.card_nsmul_le_sum (((List.range n).map longId).map stringSize) 42 fun size hsize => by
    obtain ⟨id, hid, rfl⟩ := List.mem_map.mp hsize
    obtain ⟨k, -, rfl⟩ := List.mem_map.mp hid
    exact le_stringSize_longId k
  rw [List.length_map, List.length_map, List.length_range, smul_eq_mul] at hcard
  have hlist := listSize_perm (hids.map stringSize)
  unfold listSize at hlist
  unfold bundleSize listSize
  omega

theorem not_transfers_of_lt {n : Nat} (hn : 65519 < n * 42) (buf : Vector UInt8 maxMsgLen) (len : Nat) :
    ¬ Transfers plainSnow () () (noiseResponse buf len) (bookmarkedBundle n) := by
  have hsize := le_bundleSize_bookmarked n
  have hlimit : maxMsgLen = 65519 + tagLen := rfl
  rw [transfers_iff_size connected_plainSnow, hlimit]
  omega

/-- With two thousand bookmarks the bundle is not sent. -/
theorem not_transfers_bookmarks :
    ¬ Transfers plainSnow () () (noiseResponse (Vector.replicate maxMsgLen 0) 48) (bookmarkedBundle 2000) :=
  not_transfers_of_lt (by decide) _ 48

end Examples

end Proscenium.Link
