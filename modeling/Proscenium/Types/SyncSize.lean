import Proscenium.Types.ChecksumScheme
import Proscenium.Types.Sync

/-! How many bytes the texts of a sync are, counted from what is in them: a
character takes up to six once it is escaped, and every member of an array or
of an object a comma or a bracket more. -/

namespace Proscenium.Types

def charSize (c : Char) : Nat :=
  if c.toNat ∈ [34, 92, 8, 9, 10, 12, 13] then 2 else if c.toNat < 32 then 6 else c.utf8Size

def stringSize (s : String) : Nat := 2 + (s.toList.map charSize).sum

def numSize (n : Nat) : Nat := (Nat.toDigits 10 n).length

def optionSize : Option String → Nat
  | none => 4
  | some s => stringSize s

def listSize (sizes : List Nat) : Nat := 2 + (sizes.sum + (sizes.length - 1))

def mediaSize (m : MediaAttachment) : Nat :=
  52 + (stringSize m.hash + stringSize m.ticket + stringSize m.mimeType + stringSize m.filename +
    numSize m.size.toNat)

def postSize (p : Post) : Nat :=
  125 + (stringSize p.id + stringSize p.author + stringSize p.content + numSize p.timestamp.toNat +
    listSize (p.media.map mediaSize) + optionSize p.replyTo + optionSize p.replyToAuthor +
    optionSize p.quoteOf + optionSize p.quoteOfAuthor + stringSize p.signature)

section Texts

theorem textLen_cons (c : Char) (text : List Char) : textLen (c :: text) = c.utf8Size + textLen text := by
  unfold textLen
  rw [List.map_cons, List.sum_cons]

theorem textLen_append (a b : List Char) : textLen (a ++ b) = textLen a + textLen b := by
  unfold textLen
  rw [List.map_append, List.sum_append]

theorem utf8Size_hexDigit : ∀ n < 16, (Json.hexDigit n).utf8Size = 1 := by decide

theorem textLen_escapeChar (c : Char) : textLen (Json.escapeChar c) = charSize c := by
  unfold Json.escapeChar
  split
  case h_8 n h34 h92 h8 h9 h10 h12 h13 =>
    have hplain : c.toNat ∉ [34, 92, 8, 9, 10, 12, 13] := by
      simp only [List.mem_cons, List.not_mem_nil, or_false, not_or]
      exact ⟨h34, h92, h8, h9, h10, h12, h13⟩
    unfold charSize
    rw [if_neg hplain]
    split
    next hcontrol =>
      have hhigh := utf8Size_hexDigit (c.toNat / 16) (by omega)
      have hlow := utf8Size_hexDigit (c.toNat % 16) (Nat.mod_lt _ (by decide))
      show _ + (_ + (_ + (_ + (Char.utf8Size _ + (Char.utf8Size _ + 0))))) = 6
      rw [hhigh, hlow]
      rfl
    next => exact Nat.add_zero _
  all_goals
    rename_i hc
    unfold charSize
    rw [hc]
    rfl

theorem textLen_quote (s : String) : textLen (Json.quote s) = stringSize s := by
  have hescaped : ∀ cs : List Char, textLen (cs.flatMap Json.escapeChar) = (cs.map charSize).sum := by
    intro cs
    induction cs with
    | nil => rfl
    | cons c cs ih => rw [List.flatMap_cons, textLen_append, textLen_escapeChar, ih, List.map_cons, List.sum_cons]
  have hmark : (Char.ofNat 34).utf8Size = 1 := rfl
  unfold Json.quote stringSize
  rw [textLen_cons, textLen_append, hescaped, textLen_cons, hmark]
  show 1 + (_ + (1 + 0)) = _
  omega

theorem textLen_numText (n : Nat) : textLen (numText n) = numSize n := by
  have hone : ∀ c ∈ Nat.toDigits 10 n, c.utf8Size = 1 := by
    intro c hc
    have hdigit := Nat.isDigit_of_mem_toDigits (by decide) (by decide) hc
    rw [Char.isDigit, Bool.and_eq_true, decide_eq_true_eq, decide_eq_true_eq] at hdigit
    have hbound : (57 : UInt32) ≤ 127 := by decide
    exact Char.utf8Size_eq_one_iff.mpr (UInt32.le_trans hdigit.2 hbound)
  have htext : numText n = Nat.toDigits 10 n := Nat.toList_repr
  unfold textLen numSize
  rw [htext, List.map_congr_left hone, List.map_const', List.sum_replicate, smul_eq_mul, mul_one]

theorem textLen_optionText (s : Option String) : textLen (optionText s) = optionSize s := by
  cases s with
  | none => rfl
  | some s => exact textLen_quote s

theorem textLen_commaSep (items : List (List Char)) :
    textLen (Json.commaSep items) = (items.map textLen).sum + (items.length - 1) := by
  induction items with
  | nil => rfl
  | cons item items ih =>
    cases items with
    | nil =>
      show textLen item = textLen item + 0 + 0
      omega
    | cons item' items =>
      have hcomma : (Char.ofNat 44).utf8Size = 1 := rfl
      show textLen (item ++ Char.ofNat 44 :: Json.commaSep (item' :: items)) = _
      rw [textLen_append, textLen_cons, hcomma, ih]
      simp only [List.map_cons, List.sum_cons, List.length_cons]
      omega

theorem textLen_arrayText (items : List (List Char)) : textLen (arrayText items) = listSize (items.map textLen) := by
  have hopen : (Char.ofNat 91).utf8Size = 1 := rfl
  have hclose : textLen [Char.ofNat 93] = 1 := rfl
  unfold arrayText listSize
  rw [textLen_cons, textLen_append, textLen_commaSep, List.length_map, hopen, hclose]
  omega

theorem textLen_entries {α : Type} {text : α → List Char} {size : α → Nat}
    (h : ∀ a, textLen (text a) = size a) (as : List α) :
    textLen (arrayText (as.map text)) = listSize (as.map size) := by
  rw [textLen_arrayText, List.map_map]
  exact congrArg listSize (List.map_congr_left fun a _ => h a)

theorem textLen_objectText (fields : List (String × List Char)) :
    textLen (objectText fields) =
      listSize (fields.map fun f => stringSize f.1 + 1) + (fields.map fun f => textLen f.2).sum := by
  have hopen : (Char.ofNat 123).utf8Size = 1 := rfl
  have hclose : textLen [Char.ofNat 125] = 1 := rfl
  have hcolon : (Char.ofNat 58).utf8Size = 1 := rfl
  have hfield : textLen ∘ (fun f : String × List Char => Json.quote f.1 ++ Char.ofNat 58 :: f.2) =
      fun f => (stringSize f.1 + 1) + textLen f.2 := by
    funext f
    show textLen (Json.quote f.1 ++ Char.ofNat 58 :: f.2) = _
    rw [textLen_append, textLen_quote, textLen_cons, hcolon, Nat.add_assoc]
  unfold objectText listSize
  rw [textLen_cons, textLen_append, textLen_commaSep, List.length_map, List.length_map, List.map_map, hopen, hclose,
    hfield, List.sum_map_add]
  omega

end Texts

section Bounds

theorem listSize_perm {xs ys : List Nat} (h : xs.Perm ys) : listSize xs = listSize ys := by
  unfold listSize
  rw [h.sum_eq, h.length_eq]

theorem utf8ByteSize_ofList (cs : List Char) : (String.ofList cs).utf8ByteSize = textLen cs := by
  rw [← String.size_toByteArray, String.toByteArray_ofList, List.utf8Encode, List.size_toByteArray, List.length_flatMap]
  exact congrArg List.sum (List.map_congr_left fun c _ => String.length_utf8EncodeChar c)

end Bounds

end Proscenium.Types
