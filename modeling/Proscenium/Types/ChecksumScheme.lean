import Proscenium.Lib.JsonValue
import Proscenium.Types.Identity

/-! A small signature scheme to run the model with: a key is the text it is
written as, and a signature is the key followed by a checksum of the message. What
a key signs verifies under it. -/

namespace Proscenium.Types

def keyBytes (s : String) : Bytes := (s.toUTF8.toList ++ List.replicate 32 0).take 32

def checksumSign (key : String) (msg : Bytes) : Bytes :=
  keyBytes key ++ msg.sum :: List.replicate 31 0

def hexEncode (bytes : Bytes) : String :=
  String.ofList (bytes.flatMap fun b => [Json.hexDigit (b.toNat / 16), Json.hexDigit (b.toNat % 16)])

def hexValue (c : UInt8) : Option UInt8 :=
  if 48 ≤ c ∧ c ≤ 57 then some (c - 48)
  else if 97 ≤ c ∧ c ≤ 102 then some (c - 87)
  else none

def hexDecode : Bytes → Except String Bytes
  | [] => .ok []
  | [_] => .error "Odd number of digits"
  | a :: b :: rest =>
    match hexValue a, hexValue b with
    | some hi, some lo => (hexDecode rest).map fun bytes => (16 * hi + lo) :: bytes
    | _, _ => .error "Invalid character"

def checksumCrates : SignatureCrates where
  parsePublicKey s := .ok ⟨⟨keyBytes s⟩, by simp [keyBytes]⟩
  hexDecode s := hexDecode s.toUTF8.toList
  verify key msg sig := sig.toList = key.toList ++ msg.sum :: List.replicate 31 0

def digitByte (n : Nat) : UInt8 := UInt8.ofNat (if n < 10 then 48 + n else 87 + n)

theorem utf8EncodeChar_hexDigit : ∀ n < 16, String.utf8EncodeChar (Json.hexDigit n) = [digitByte n] := by
  decide

theorem hexValue_digitByte : ∀ n < 16, hexValue (digitByte n) = some (UInt8.ofNat n) := by
  decide

theorem nibbles (b : UInt8) : 16 * UInt8.ofNat (b.toNat / 16) + UInt8.ofNat (b.toNat % 16) = b := by
  have hlt := b.toNat_lt
  apply UInt8.toNat_inj.mp
  simp
  omega

theorem toByteArray_hexEncode (bytes : Bytes) : (hexEncode bytes).toByteArray =
    (bytes.flatMap fun b => [digitByte (b.toNat / 16), digitByte (b.toNat % 16)]).toByteArray := by
  have hdigits : ∀ b ∈ bytes, [Json.hexDigit (b.toNat / 16), Json.hexDigit (b.toNat % 16)].flatMap
      String.utf8EncodeChar = [digitByte (b.toNat / 16), digitByte (b.toNat % 16)] := by
    intro b _
    have hlt := b.toNat_lt
    simp [utf8EncodeChar_hexDigit _ (show b.toNat / 16 < 16 by omega),
      utf8EncodeChar_hexDigit _ (show b.toNat % 16 < 16 by omega)]
  rw [hexEncode, String.toByteArray_ofList, List.utf8Encode, List.flatMap_assoc,
    List.flatMap_congr hdigits]

theorem hexDecode_hexEncode (bytes : Bytes) :
    hexDecode (hexEncode bytes).toUTF8.toList = .ok bytes := by
  rw [String.toUTF8_eq_toByteArray, toByteArray_hexEncode, ByteArray.toList, Json.toList_loop]
  simp only [List.reverse_nil, List.nil_append, List.drop_zero, List.toList_data_toByteArray]
  induction bytes with
  | nil => rfl
  | cons b bytes ih =>
    have hlt := b.toNat_lt
    rw [List.flatMap_cons, List.cons_append, List.cons_append, List.nil_append, hexDecode,
      hexValue_digitByte _ (by omega), hexValue_digitByte _ (by omega), ih]
    exact congrArg (fun c => Except.ok (c :: bytes)) (nibbles b)

theorem hexEncode_injective : Function.Injective hexEncode := by
  intro bytes bytes' h
  have hdecode := hexDecode_hexEncode bytes
  rw [h, hexDecode_hexEncode] at hdecode
  exact (Except.ok.inj hdecode).symm

theorem utf8ByteSize_hexEncode (bytes : Bytes) :
    (hexEncode bytes).utf8ByteSize = 2 * bytes.length := by
  rw [← String.size_toByteArray, toByteArray_hexEncode]
  induction bytes with
  | nil => rfl
  | cons b bytes ih => 
    simp only [List.flatMap_cons, List.size_toByteArray, List.length_append, List.length_cons, List.length_nil] at ih ⊢
    omega

theorem length_checksumSign (key : String) (msg : Bytes) : (checksumSign key msg).length = 64 := by
  simp [checksumSign, keyBytes]

theorem hexToSignature_hexEncode {bytes : Bytes} (h : bytes.length = 64) :
    hexToSignature checksumCrates (hexEncode bytes) = .ok ⟨bytes.toArray, h⟩ := by
  have hdecode : checksumCrates.hexDecode (hexEncode bytes) = .ok bytes := hexDecode_hexEncode bytes
  unfold hexToSignature
  rw [utf8ByteSize_hexEncode, h, if_neg (by decide), hdecode]
  simp [h]

def checksumKey (s : String) : PublicKey := ⟨⟨keyBytes s⟩, by simp [keyBytes]⟩

theorem verify_checksumSign (key : String) (msg : Bytes) :
    checksumCrates.verify (checksumKey key) msg ⟨(checksumSign key msg).toArray,
      length_checksumSign key msg⟩ = true := by
  simp [checksumCrates, checksumSign, checksumKey]

theorem verifySigned_checksum (what key : String) (bytes : Bytes) :
    verifySigned checksumCrates what bytes (hexEncode (checksumSign key bytes)) (checksumKey key) =
      .ok () :=
  verifySigned_eq_ok.mpr ⟨_, hexToSignature_hexEncode (length_checksumSign ..),
    verify_checksumSign key bytes⟩

/-- The delegation of `signer` that `master` signs. -/
def checksumDelegation (master signer dm : String) (keyIndex : UInt32) : SigningKeyDelegation :=
  let d : SigningKeyDelegation := ⟨master, signer, keyIndex, dm, 0, 0, ""⟩
  { d with signature := hexEncode (checksumSign master (delegationSigningBytes d)) }

def checksumRotation (master old new : String) (newKeyIndex : UInt32) : SigningKeyRotation :=
  let r : SigningKeyRotation :=
    ⟨master, old, new, newKeyIndex, 0, "", checksumDelegation master new "" newKeyIndex⟩
  { r with signature := hexEncode (checksumSign master (rotationSigningBytes r)) }

/-- The announcement of `devices` that `signer` signs for `master`. -/
def checksumAnnouncement (master signer : String) (devices : List DeviceEntry) (version : UInt64) :
    LinkedDevicesAnnouncement :=
  let a : LinkedDevicesAnnouncement :=
    ⟨master, checksumDelegation master signer "" 0, devices, version, 0, ""⟩
  { a with signature := hexEncode (checksumSign signer (linkedDevicesSigningBytes a)) }

theorem verifyDelegation_checksumDelegation (master signer dm : String) (keyIndex : UInt32) :
    verifyDelegation checksumCrates (checksumDelegation master signer dm keyIndex) = .ok () := by
  refine verifyDelegation_eq_ok.mpr ⟨_, checksumKey master, checksumKey signer,
    hexToSignature_hexEncode (length_checksumSign ..), rfl, rfl, ?_⟩
  exact verify_checksumSign master _

theorem verifyRotation_checksumRotation (master old new : String) (newKeyIndex : UInt32) :
    verifyRotation checksumCrates (checksumRotation master old new newKeyIndex) = .ok () := by
  unfold verifyRotation
  simp only [Checks.bind_eq_ok, Checks.mapError_eq_ok, Checks.reject_eq_ok, Decidable.not_not]
  refine ⟨_, hexToSignature_hexEncode (length_checksumSign ..), checksumKey master, rfl, ?_, (), ?_,
    rfl, rfl, rfl, trivial⟩
  · exact verify_checksumSign master _
  · exact verifyDelegation_checksumDelegation master new "" newKeyIndex

theorem verify_checksumAnnouncement (master signer : String) (devices : List DeviceEntry)
    (version : UInt64) :
    verifyLinkedDevicesAnnouncement checksumCrates (checksumAnnouncement master signer devices version) =
      .ok () :=
  (verifyLinkedDevicesAnnouncement_eq_ok checksumCrates).mpr
    ⟨verifyDelegation_checksumDelegation master signer "" 0, rfl, checksumKey signer, rfl, verifySigned_checksum ..⟩

end Proscenium.Types
