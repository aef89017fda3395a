import Mathlib

/-! Texts as the bytes of their UTF-8 encoding. A position in the bytes that a
character ends at splits the text, and a class of ASCII bytes takes from the
bytes what the class of their characters takes from the text. -/

namespace Utf8

def encode (cs : List Char) : List UInt8 := cs.flatMap String.utf8EncodeChar

theorem encode_nil : encode [] = [] := rfl

theorem encode_cons (c : Char) (cs : List Char) : encode (c :: cs) = String.utf8EncodeChar c ++ encode cs :=
  List.flatMap_cons

theorem encode_append (cs ds : List Char) : encode (cs ++ ds) = encode cs ++ encode ds :=
  List.flatMap_append

theorem length_encode_cons (c : Char) (cs : List Char) :
    (encode (c :: cs)).length = c.utf8Size + (encode cs).length := by
  rw [encode_cons, List.length_append, String.length_utf8EncodeChar]

theorem drop_encode (cs ds : List Char) : (encode (cs ++ ds)).drop (encode cs).length = encode ds := by
  rw [encode_append, List.drop_left]

theorem high_of_mem {c : Char} (hc : c.utf8Size ≠ 1) : ∀ b ∈ String.utf8EncodeChar c, 128 ≤ b := by
  have hor : ∀ x y : UInt8, 128 ≤ y → 128 ≤ x ||| y := by
    intro x y hy
    rw [UInt8.le_iff_toNat_le, UInt8.toNat_or] at *
    exact hy.trans Nat.right_le_or
  rcases c.utf8Size_eq with h | h | h | h
  · exact absurd h hc
  · rw [String.utf8EncodeChar_eq_cons_cons h]
    intro b hb
    rcases List.mem_pair.mp hb with rfl | rfl
    · exact hor _ _ (by decide)
    · exact hor _ _ (by decide)
  · rw [String.utf8EncodeChar_eq_cons_cons_cons h]
    simp only [List.mem_cons, List.not_mem_nil, or_false]
    rintro b (rfl | rfl | rfl)
    · exact hor _ _ (by decide)
    · exact hor _ _ (by decide)
    · exact hor _ _ (by decide)
  · rw [String.utf8EncodeChar_eq_cons_cons_cons_cons h]
    simp only [List.mem_cons, List.not_mem_nil, or_false]
    rintro b (rfl | rfl | rfl | rfl)
    · exact hor _ _ (by decide)
    · exact hor _ _ (by decide)
    · exact hor _ _ (by decide)
    · exact hor _ _ (by decide)

/-- A class of characters and the class of the bytes these are encoded as; all of them are ASCII. -/
structure AsciiClass where
  onChar : Char → Bool
  onByte : UInt8 → Bool
  ascii : ∀ b, onByte b = true → b < 128
  onChar_iff : ∀ c, onChar c = true ↔ c.utf8Size = 1 ∧ onByte c.val.toUInt8 = true

namespace AsciiClass

variable (A : AsciiClass)

theorem onByte_of_high {b : UInt8} (hb : 128 ≤ b) : A.onByte b = false := by
  by_contra h
  have hlt : b < 128 := A.ascii b (by simpa using h)
  exact absurd hb (UInt8.not_le.mpr hlt)

theorem encode_of_onChar {c : Char} (hc : A.onChar c = true) :
    String.utf8EncodeChar c = [c.val.toUInt8] ∧ A.onByte c.val.toUInt8 = true := by
  obtain ⟨hsize, hbyte⟩ := (A.onChar_iff c).mp hc
  exact ⟨String.utf8EncodeChar_eq_singleton hsize, hbyte⟩

theorem not_onByte_of_mem {c : Char} (hc : A.onChar c = false) : ∀ b ∈ String.utf8EncodeChar c, A.onByte b = false := by
  intro b hb
  by_cases hsize : c.utf8Size = 1
  · rw [String.utf8EncodeChar_eq_singleton hsize, List.mem_singleton] at hb
    subst hb
    by_contra h
    have hon : A.onChar c = true := (A.onChar_iff c).mpr ⟨hsize, by simpa using h⟩
    rw [hon] at hc
    exact absurd hc (by simp)
  · exact A.onByte_of_high (high_of_mem hsize b hb)

theorem takeWhile_encode (cs : List Char) : (encode cs).takeWhile A.onByte = encode (cs.takeWhile A.onChar) := by
  induction cs with
  | nil => rfl
  | cons c cs ih =>
    rw [encode_cons]
    cases hc : A.onChar c with
    | true =>
      obtain ⟨henc, hbyte⟩ := A.encode_of_onChar hc
      rw [List.takeWhile_cons_of_pos hc, encode_cons, henc, List.singleton_append,
        List.takeWhile_cons_of_pos hbyte, ih, List.singleton_append]
    | false =>
      have hnot : ¬ A.onChar c = true := by simp [hc]
      rw [List.takeWhile_cons_of_neg hnot, encode_nil]
      -- the first byte of the character ends the run
      cases hbytes : String.utf8EncodeChar c with
      | nil =>
        have hlen : (String.utf8EncodeChar c).length = 0 := by simp [hbytes]
        have hpos := c.utf8Size_pos
        rw [String.length_utf8EncodeChar] at hlen
        omega
      | cons b bs =>
        have hb : A.onByte b = false := A.not_onByte_of_mem hc b (by simp [hbytes])
        simp [hb]

theorem length_encode {cs : List Char} (h : ∀ c ∈ cs, A.onChar c = true) : (encode cs).length = cs.length := by
  induction cs with
  | nil => rfl
  | cons c cs ih =>
    have hsize : c.utf8Size = 1 := ((A.onChar_iff c).mp (h c (List.mem_cons_self ..))).1
    have hrest : (encode cs).length = cs.length := ih fun d hd => h d (List.mem_cons_of_mem _ hd)
    rw [length_encode_cons, hsize, hrest, List.length_cons]
    omega

end AsciiClass

end Utf8
