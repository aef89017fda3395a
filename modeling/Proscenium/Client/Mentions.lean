import Proscenium.Client.AcceptDefs
import Proscenium.Lib.JsonValue
import Proscenium.Lib.Utf8

/-! `parse_mentions` on the bytes of a post. The scanner moves by bytes and slices
the text, which panics inside a character; it comes through for every text and
finds what the scan of the characters finds, the keys behind an `@`. -/

namespace Proscenium.Client

open Proscenium.Types

/-- The characters from byte `n` on, unless it is inside one or beyond the end. -/
def dropBytes : Nat → List Char → Option (List Char)
  | 0, cs => some cs
  | _ + 1, [] => none
  | n + 1, c :: cs => if c.utf8Size ≤ n + 1 then dropBytes (n + 1 - c.utf8Size) cs else none

/-- `&s[start..stop]`, or its panic. -/
def sliceBytes (s : String) (start stop : Nat) : Option String :=
  if start ≤ stop then
    ((dropBytes start s.toList).bind (takeBytes (stop - start))).map String.ofList
  else none

/-- `u8::is_ascii_hexdigit`. -/
def isAsciiHexByte (b : UInt8) : Bool := (48 ≤ b && b ≤ 57) || (97 ≤ b && b ≤ 102) || (65 ≤ b && b ≤ 70)

def hexEnd (bytes : List UInt8) (stop : Nat) : Nat :=
  if h : stop < bytes.length then
    if isAsciiHexByte bytes[stop] then hexEnd bytes (stop + 1) else stop
  else stop
termination_by bytes.length - stop

theorem le_hexEnd (bytes : List UInt8) (stop : Nat) : stop ≤ hexEnd bytes stop := by
  induction stop using hexEnd.induct bytes with
  | case1 stop h hdigit ih =>
    rw [hexEnd, dif_pos h, if_pos hdigit]
    omega
  | case2 stop h hdigit => rw [hexEnd, dif_pos h, if_neg hdigit]
  | case3 stop h => rw [hexEnd, dif_neg h]

variable (S : SignatureCrates)

/-- The digits of one run: a mention if there are enough, they are a key and it is a new one. -/
def pushMention (content : String) (start stop : Nat) (mentions : List String) : Option (List String) :=
  if 52 ≤ stop - start then
    (sliceBytes content start stop).map fun text =>
      let candidate := String.ofList (text.toList.map Char.toLower)
      if (S.parsePublicKey candidate).toBool ∧ candidate ∉ mentions then mentions ++ [candidate]
      else mentions
  else some mentions

/-- The outer loop from index `i` on; `none` is a panic. -/
def mentionsFrom (content : String) (bytes : List UInt8) (i : Nat) (mentions : List String) :
    Option (List String) :=
  if h : i < bytes.length then
    if bytes[i] = 64 then
      let start := i + 1
      let stop := hexEnd bytes start
      (pushMention S content start stop mentions).bind (mentionsFrom content bytes stop)
    else mentionsFrom content bytes (i + 1) mentions
  else some mentions
termination_by bytes.length - i
decreasing_by
  · have hle := le_hexEnd bytes (i + 1)
    omega
  · omega

def parseMentionsBytes (content : String) : Option (List String) :=
  mentionsFrom S content content.toUTF8.toList 0 []

section Slices

variable {cs ds : List Char}

theorem dropBytes_encode (cs ds : List Char) : dropBytes (Utf8.encode cs).length (cs ++ ds) = some ds := by
  induction cs with
  | nil =>
    rw [Utf8.encode_nil, List.length_nil, List.nil_append, dropBytes]
  | cons c cs ih =>
    have hpos := c.utf8Size_pos
    obtain ⟨n, hn⟩ : ∃ n, c.utf8Size + (Utf8.encode cs).length = n + 1 := ⟨_, (Nat.succ_pred (by omega)).symm⟩
    have hle : c.utf8Size ≤ n + 1 := by omega
    have hrest : n + 1 - c.utf8Size = (Utf8.encode cs).length := by omega
    rw [Utf8.length_encode_cons, hn, List.cons_append, dropBytes, if_pos hle, hrest]
    exact ih

theorem takeBytes_encode (cs ds : List Char) : takeBytes (Utf8.encode cs).length (cs ++ ds) = some cs := by
  induction cs with
  | nil =>
    rw [Utf8.encode_nil, List.length_nil, takeBytes]
  | cons c cs ih =>
    have hpos := c.utf8Size_pos
    obtain ⟨n, hn⟩ : ∃ n, c.utf8Size + (Utf8.encode cs).length = n + 1 := ⟨_, (Nat.succ_pred (by omega)).symm⟩
    have hle : c.utf8Size ≤ n + 1 := by omega
    have hrest : n + 1 - c.utf8Size = (Utf8.encode cs).length := by omega
    rw [Utf8.length_encode_cons, hn, List.cons_append, takeBytes, if_pos hle, hrest, ih]
    rfl

theorem sliceBytes_encode {content : String} {before run rest : List Char}
    (h : content.toList = before ++ (run ++ rest)) :
    sliceBytes content (Utf8.encode before).length ((Utf8.encode before).length + (Utf8.encode run).length) =
      some (String.ofList run) := by
  unfold sliceBytes
  rw [if_pos (Nat.le_add_right _ _), h, dropBytes_encode, Nat.add_sub_cancel_left, Option.bind_some,
    takeBytes_encode, Option.map_some]

end Slices

theorem toUTF8_toList_eq_encode (s : String) : s.toUTF8.toList = Utf8.encode s.toList := by
  have h : ∀ cs : List Char, (String.ofList cs).toUTF8.toList = Utf8.encode cs := by
    intro cs
    induction cs with
    | nil => simp [Utf8.encode_nil]
    | cons c cs ih => rw [Json.toUTF8_toList_cons, ih, Utf8.encode_cons]
  rw [← h, String.ofList_toList]

theorem isAsciiHexByte_iff {b : UInt8} : isAsciiHexByte b = true ↔
    48 ≤ b.toNat ∧ b.toNat ≤ 57 ∨ 97 ≤ b.toNat ∧ b.toNat ≤ 102 ∨ 65 ≤ b.toNat ∧ b.toNat ≤ 70 := by
  simp [isAsciiHexByte, UInt8.le_iff_toNat_le, or_assoc]

theorem isAsciiHexDigit_iff {c : Char} : isAsciiHexDigit c = true ↔
    48 ≤ c.toNat ∧ c.toNat ≤ 57 ∨ 97 ≤ c.toNat ∧ c.toNat ≤ 102 ∨ 65 ≤ c.toNat ∧ c.toNat ≤ 70 := by
  simp [isAsciiHexDigit, Char.isDigit, Char.le_def, UInt32.le_iff_toNat_le, or_assoc]

/-- The digits as characters and as bytes. -/
def hexClass : Utf8.AsciiClass where
  onChar := isAsciiHexDigit
  onByte := isAsciiHexByte
  ascii b hb := by
    have hrange := isAsciiHexByte_iff.mp hb
    rw [UInt8.lt_iff_toNat_lt]
    show b.toNat < 128
    omega
  onChar_iff c := by
    have hbyte : c.val.toUInt8.toNat = c.toNat % 256 := UInt32.toNat_toUInt8 c.val
    have hascii : c.utf8Size = 1 ↔ c.toNat ≤ 127 := by
      rw [Char.utf8Size_eq_one_iff, UInt32.le_iff_toNat_le]
      rfl
    rw [isAsciiHexDigit_iff, hascii, isAsciiHexByte_iff, hbyte]
    omega

/-- The sign before a mention, as a class of its own. -/
def atClass : Utf8.AsciiClass where
  onChar c := c = '@'
  onByte b := b = 64
  ascii b hb := by
    obtain rfl : b = 64 := of_decide_eq_true hb
    decide
  onChar_iff c := by
    have hbyte : c.val.toUInt8.toNat = c.toNat % 256 := UInt32.toNat_toUInt8 c.val
    have hascii : c.utf8Size = 1 ↔ c.toNat ≤ 127 := by
      rw [Char.utf8Size_eq_one_iff, UInt32.le_iff_toNat_le]
      rfl
    have hat : c = '@' ↔ c.toNat = 64 := Char.toNat_inj.symm
    rw [decide_eq_true_iff, decide_eq_true_iff, hascii, hat, ← UInt8.toNat_inj, hbyte]
    show c.toNat = 64 ↔ c.toNat ≤ 127 ∧ c.toNat % 256 = 64
    omega

section Bytes

theorem hexEnd_eq (bytes : List UInt8) (stop : Nat) :
    hexEnd bytes stop = stop + ((bytes.drop stop).takeWhile isAsciiHexByte).length := by
  induction stop using hexEnd.induct bytes with
  | case1 stop h hdigit ih =>
    rw [hexEnd, dif_pos h, if_pos hdigit, ih, List.drop_eq_getElem_cons h,
      List.takeWhile_cons_of_pos hdigit, List.length_cons]
    omega
  | case2 stop h hdigit =>
    rw [hexEnd, dif_pos h, if_neg hdigit, List.drop_eq_getElem_cons h, List.takeWhile_cons_of_neg hdigit]
    rfl
  | case3 stop h =>
    have hnil : bytes.drop stop = [] := List.drop_eq_nil_of_le (not_lt.mp h)
    rw [hexEnd, dif_neg h, hnil]
    rfl

variable {S} {content : String} {bytes : List UInt8} {mentions : List String}

theorem mentionsFrom_skip {passed : List UInt8} (hpassed : ∀ b ∈ passed, b ≠ 64) {rest : List UInt8} {i : Nat}
    (hdrop : bytes.drop i = passed ++ rest) :
    mentionsFrom S content bytes i mentions =
      mentionsFrom S content bytes (i + passed.length) mentions := by
  induction passed generalizing i with
  | nil => rfl
  | cons b passed ih =>
    have hlt : i < bytes.length := by
      by_contra hge
      rw [List.drop_eq_nil_of_le (not_lt.mp hge)] at hdrop
      simp at hdrop
    rw [List.drop_eq_getElem_cons hlt, List.cons_append, List.cons.injEq] at hdrop
    have hne : bytes[i] ≠ 64 := hdrop.1 ▸ hpassed b (List.mem_cons_self ..)
    have hrest := ih (fun b hb => hpassed b (List.mem_cons_of_mem _ hb)) hdrop.2
    rw [mentionsFrom, dif_pos hlt, if_neg hne, hrest, List.length_cons]
    congr 1
    omega

theorem pushMention_encode {before run rest : List Char} (hcontent : content.toList = before ++ (run ++ rest))
    (hrun : ∀ c ∈ run, isAsciiHexDigit c) :
    pushMention S content (Utf8.encode before).length
      ((Utf8.encode before).length + (Utf8.encode run).length) mentions = some (addMention S run mentions) := by
  have hlen : (Utf8.encode run).length = run.length := hexClass.length_encode hrun
  unfold pushMention addMention
  rw [sliceBytes_encode hcontent, Nat.add_sub_cancel_left, hlen, Option.map_some, String.toList_ofList]
  by_cases hlong : 52 ≤ run.length
  · simp [hlong]
  · simp [hlong]

end Bytes

section Scan

theorem scan_induction {P : List Char → Prop} (nil : P [])
    (mark : ∀ cs, P (cs.dropWhile isAsciiHexDigit) → P ('@' :: cs))
    (other : ∀ c cs, c ≠ '@' → P cs → P (c :: cs)) (cs : List Char) : P cs := by
  induction hn : cs.length using Nat.strong_induction_on generalizing cs with
  | _ n ih =>
    cases cs with
    | nil => exact nil
    | cons c cs =>
      rw [List.length_cons] at hn
      by_cases hc : c = '@'
      · have hlen := List.length_dropWhile_le isAsciiHexDigit cs
        subst hc
        apply mark
        exact ih (cs.dropWhile isAsciiHexDigit).length (by omega) _ rfl
      · apply other c cs hc
        exact ih cs.length (by omega) cs rfl

variable {S} {mentions : List String}

theorem scanMentions_run (digits cs : List Char) : scanMentions S (some digits) mentions cs =
    scanMentions S none (addMention S (digits ++ cs.takeWhile isAsciiHexDigit) mentions)
      (cs.dropWhile isAsciiHexDigit) := by
  induction cs generalizing digits with
  | nil => simp [scanMentions]
  | cons c cs ih =>
    rw [scanMentions]
    by_cases hc : isAsciiHexDigit c = true
    · rw [if_pos hc, ih, List.takeWhile_cons_of_pos hc, List.dropWhile_cons_of_pos hc, List.append_assoc,
        List.singleton_append]
    · rw [if_neg hc, List.takeWhile_cons_of_neg hc, List.dropWhile_cons_of_neg hc, List.append_nil,
        scanMentions]

/-- From the end of a character on, the bytes are scanned as the characters are. -/
theorem mentionsFrom_eq_scanMentions {content : String} {cs : List Char} (before : List Char)
    (hcontent : content.toList = before ++ cs) :
    mentionsFrom S content (Utf8.encode content.toList) (Utf8.encode before).length mentions =
      some (scanMentions S none mentions cs) := by
  induction cs using scan_induction generalizing before mentions with
  | nil =>
    have hend : ¬ (Utf8.encode before).length < (Utf8.encode content.toList).length := by
      simp [hcontent]
    rw [mentionsFrom, dif_neg hend, scanMentions]
  | mark cs ih =>
    have hdrop : (Utf8.encode content.toList).drop (Utf8.encode before).length = 64 :: Utf8.encode cs := by
      rw [hcontent, Utf8.drop_encode, Utf8.encode_cons]
      rfl
    have hlt : (Utf8.encode before).length < (Utf8.encode content.toList).length := by
      by_contra hge
      rw [List.drop_eq_nil_of_le (not_lt.mp hge)] at hdrop
      simp at hdrop
    rw [List.drop_eq_getElem_cons hlt, List.cons.injEq] at hdrop
    obtain ⟨hbyte, hrest⟩ := hdrop
    have hsplit : cs = cs.takeWhile isAsciiHexDigit ++ cs.dropWhile isAsciiHexDigit :=
      (List.takeWhile_append_dropWhile ..).symm
    have hstart : (Utf8.encode before).length + 1 = (Utf8.encode (before ++ ['@'])).length := by
      rw [Utf8.encode_append, List.length_append]
      rfl
    have hcontent' : content.toList =
        (before ++ ['@']) ++ (cs.takeWhile isAsciiHexDigit ++ cs.dropWhile isAsciiHexDigit) := by
      rw [← hsplit, hcontent]
      simp
    have hstop : hexEnd (Utf8.encode content.toList) ((Utf8.encode before).length + 1) =
        (Utf8.encode (before ++ ['@'])).length + (Utf8.encode (cs.takeWhile isAsciiHexDigit)).length := by
      have htake : (Utf8.encode cs).takeWhile isAsciiHexByte = Utf8.encode (cs.takeWhile isAsciiHexDigit) :=
        hexClass.takeWhile_encode cs
      rw [hexEnd_eq, hrest, hstart, htake]
    have hpush : pushMention S content (Utf8.encode (before ++ ['@'])).length
        ((Utf8.encode (before ++ ['@'])).length + (Utf8.encode (cs.takeWhile isAsciiHexDigit)).length)
          mentions = some (addMention S (cs.takeWhile isAsciiHexDigit) mentions) := by
      apply pushMention_encode hcontent'
      intro c hc
      exact List.mem_takeWhile_imp hc
    have hbehind : (Utf8.encode (before ++ ['@'])).length +
        (Utf8.encode (cs.takeWhile isAsciiHexDigit)).length =
          (Utf8.encode (before ++ ['@'] ++ cs.takeWhile isAsciiHexDigit)).length := by
      rw [Utf8.encode_append (before ++ ['@']), List.length_append]
    have hbehind' : content.toList = (before ++ ['@'] ++ cs.takeWhile isAsciiHexDigit) ++
        cs.dropWhile isAsciiHexDigit := by
      rw [hcontent', List.append_assoc (before ++ ['@'])]
    rw [mentionsFrom, dif_pos hlt, if_pos hbyte]
    show (pushMention S content ((Utf8.encode before).length + 1)
      (hexEnd (Utf8.encode content.toList) ((Utf8.encode before).length + 1)) mentions).bind _ = _
    rw [hstop, hstart, hpush, Option.bind_some, hbehind, ih _ hbehind', scanMentions, if_pos rfl,
      scanMentions_run, List.nil_append]
  | other c cs hc ih =>
    have hdrop : (Utf8.encode content.toList).drop (Utf8.encode before).length =
        String.utf8EncodeChar c ++ Utf8.encode cs := by
      rw [hcontent, Utf8.drop_encode, Utf8.encode_cons]
    have hpassed : ∀ b ∈ String.utf8EncodeChar c, b ≠ 64 := by
      intro b hb
      have hoff : atClass.onChar c = false := decide_eq_false hc
      exact of_decide_eq_false (atClass.not_onByte_of_mem hoff b hb)
    have hlen : (Utf8.encode before).length + (String.utf8EncodeChar c).length =
        (Utf8.encode (before ++ [c])).length := by
      simp [Utf8.encode_append, Utf8.encode_cons, Utf8.encode_nil]
    have hcontent' : content.toList = (before ++ [c]) ++ cs := by simp [hcontent]
    rw [mentionsFrom_skip hpassed hdrop, hlen, ih _ hcontent', scanMentions, if_neg hc]

theorem parseMentionsBytes_eq (content : String) :
    parseMentionsBytes S content = some (parseMentions S content) := by
  unfold parseMentionsBytes parseMentions
  rw [toUTF8_toList_eq_encode]
  exact mentionsFrom_eq_scanMentions [] rfl

end Scan

/-- At this position there is an `@`, and the digits behind it, as many as follow each other, are the
mentioned key when they are made small. -/
def MentionAt (content : List Char) (i : Nat) (mention : String) : Prop :=
  ∃ run rest, content.drop i = '@' :: (run ++ rest) ∧ (∀ c ∈ run, isAsciiHexDigit c) ∧
    (∀ c ∈ rest.head?, ¬ isAsciiHexDigit c) ∧ 52 ≤ run.length ∧
    mention = String.ofList (run.map Char.toLower) ∧ (S.parsePublicKey mention).toBool

/-- The mentions that begin before position `k`, each once and in the order of their first places. -/
structure Collected (content : List Char) (k : Nat) (mentions : List String) : Prop where
  nodup : mentions.Nodup
  mem_iff : ∀ m, m ∈ mentions ↔ ∃ i < k, MentionAt S content i m
  ordered : mentions.Pairwise fun a b =>
    ∃ i, MentionAt S content i a ∧ ∀ j, MentionAt S content j b → i < j

section Collected

variable {S} {content : List Char} {mentions : List String} {k : Nat}

theorem mentionAt_get {i : Nat} {m : String} (h : MentionAt S content i m) : content[i]? = some '@' := by
  obtain ⟨run, rest, hdrop, -⟩ := h
  rw [← List.head?_drop, hdrop]
  rfl

theorem mentionAt_iff {i : Nat} {cs : List Char} (hdrop : content.drop i = '@' :: cs) {m : String} :
    MentionAt S content i m ↔ 52 ≤ (cs.takeWhile isAsciiHexDigit).length ∧
      m = String.ofList ((cs.takeWhile isAsciiHexDigit).map Char.toLower) ∧
      (S.parsePublicKey m).toBool := by
  constructor
  · intro ⟨run, rest, hat, hrun, hrest, hlong, hm, hparse⟩
    rw [hdrop, List.cons.injEq] at hat
    have htake : cs.takeWhile isAsciiHexDigit = run := by
      rw [hat.2, List.takeWhile_append_of_pos hrun]
      cases rest with
      | nil => simp
      | cons c rest =>
        have hc : ¬ isAsciiHexDigit c = true := hrest c rfl
        rw [List.takeWhile_cons_of_neg hc, List.append_nil]
    rw [htake]
    exact ⟨hlong, hm, hparse⟩
  · intro ⟨hlong, hm, hparse⟩
    refine ⟨cs.takeWhile isAsciiHexDigit, cs.dropWhile isAsciiHexDigit, ?_, ?_, ?_, hlong, hm, hparse⟩
    · rw [hdrop, List.takeWhile_append_dropWhile]
    · intro c hc
      exact List.mem_takeWhile_imp hc
    · intro c hc
      have hnot := List.head?_dropWhile_not isAsciiHexDigit cs
      rw [Option.mem_def.mp hc] at hnot
      simpa using hnot

theorem Collected.skip {k' : Nat} (h : Collected S content k mentions) (hle : k ≤ k')
    (hnone : ∀ i m, k ≤ i → i < k' → ¬ MentionAt S content i m) : Collected S content k' mentions := by
  refine ⟨h.nodup, fun m => ?_, h.ordered⟩
  rw [h.mem_iff]
  constructor
  · intro ⟨i, hi, hat⟩
    exact ⟨i, by omega, hat⟩
  · intro ⟨i, hi, hat⟩
    by_cases hk : i < k
    · exact ⟨i, hk, hat⟩
    · exact absurd hat (hnone i m (by omega) hi)

/-- One more place: what stands there is new, or was found before. -/
theorem Collected.push {m : String} (h : Collected S content k mentions) (hat : MentionAt S content k m)
    (honly : ∀ m', MentionAt S content k m' → m' = m) :
    Collected S content (k + 1) (if m ∈ mentions then mentions else mentions ++ [m]) := by
  have hmem : ∀ m', (∃ i < k + 1, MentionAt S content i m') ↔ m' ∈ mentions ∨ m' = m := by
    intro m'
    rw [h.mem_iff]
    constructor
    · intro ⟨i, hi, hat'⟩
      by_cases hk : i < k
      · exact Or.inl ⟨i, hk, hat'⟩
      · obtain rfl : i = k := by omega
        exact Or.inr (honly m' hat')
    · rintro (⟨i, hi, hat'⟩ | rfl)
      · exact ⟨i, by omega, hat'⟩
      · exact ⟨k, by omega, hat⟩
  by_cases hold : m ∈ mentions
  · rw [if_pos hold]
    refine ⟨h.nodup, fun m' => ?_, h.ordered⟩
    rw [hmem]
    constructor
    · exact Or.inl
    · rintro (hm' | rfl)
      · exact hm'
      · exact hold
  · rw [if_neg hold]
    -- a new mention is nowhere before `k`, where all the others begin
    have hlater : ∀ j, MentionAt S content j m → k ≤ j := by
      intro j hj
      by_contra hlt
      exact hold ((h.mem_iff m).mpr ⟨j, by omega, hj⟩)
    constructor
    case nodup =>
      rw [List.nodup_append]
      refine ⟨h.nodup, List.nodup_singleton m, fun a ha b hb => ?_⟩
      rintro rfl
      exact hold (List.mem_singleton.mp hb ▸ ha)
    case mem_iff =>
      intro m'
      rw [hmem, List.mem_append, List.mem_singleton]
    case ordered =>
      rw [List.pairwise_append]
      refine ⟨h.ordered, List.pairwise_singleton _ m, fun a ha b hb => ?_⟩
      obtain rfl := List.mem_singleton.mp hb
      obtain ⟨i, hi, hai⟩ := (h.mem_iff a).mp ha
      exact ⟨i, hai, fun j hj => hi.trans_le (hlater j hj)⟩

theorem not_isAsciiHexDigit_at : ¬ isAsciiHexDigit '@' = true := by
  decide

theorem Collected.addMention {cs : List Char} (h : Collected S content k mentions)
    (hdrop : content.drop k = '@' :: cs) :
    Collected S content (k + 1) (addMention S (cs.takeWhile isAsciiHexDigit) mentions) := by
  have hat := fun m => mentionAt_iff (S := S) hdrop (m := m)
  unfold Client.addMention
  by_cases hvalid : 52 ≤ (cs.takeWhile isAsciiHexDigit).length ∧
      (S.parsePublicKey (String.ofList ((cs.takeWhile isAsciiHexDigit).map Char.toLower))).toBool
  · have hmention := (hat _).mpr ⟨hvalid.1, rfl, hvalid.2⟩
    have hpush := h.push hmention fun m' hm' => ((hat m').mp hm').2.1
    by_cases hold : String.ofList ((cs.takeWhile isAsciiHexDigit).map Char.toLower) ∈ mentions
    · rw [if_pos hold] at hpush
      simpa [hold] using hpush
    · rw [if_neg hold] at hpush
      simpa [hold, hvalid.1, hvalid.2] using hpush
  · rw [if_neg fun hall => hvalid ⟨hall.1, hall.2.1⟩]
    apply h.skip (Nat.le_succ k)
    intro i m hi hi' hm
    obtain rfl : i = k := by omega
    obtain ⟨hlong, rfl, hparse⟩ := (hat m).mp hm
    exact hvalid ⟨hlong, hparse⟩

theorem collected_scanMentions {cs : List Char} (before : List Char) (hcontent : content = before ++ cs)
    (h : Collected S content before.length mentions) :
    Collected S content content.length (scanMentions S none mentions cs) := by
  induction cs using scan_induction generalizing before mentions with
  | nil =>
    have hlen : content.length = before.length := by simp [hcontent]
    rw [scanMentions, hlen]
    exact h
  | mark cs ih =>
    have hdrop : content.drop before.length = '@' :: cs := by
      rw [hcontent, List.drop_left]
    have hsplit : content = (before ++ '@' :: cs.takeWhile isAsciiHexDigit) ++ cs.dropWhile isAsciiHexDigit := by
      rw [hcontent, List.append_assoc, List.cons_append, List.takeWhile_append_dropWhile]
    rw [scanMentions, if_pos rfl, scanMentions_run, List.nil_append]
    apply ih _ hsplit
    apply (h.addMention hdrop).skip (by simp)
    intro i m hi hlt hm
    -- the positions of the run hold digits
    have hget := mentionAt_get hm
    rw [List.length_append, List.length_cons] at hlt
    rw [hsplit, List.append_assoc, List.getElem?_append_right (by omega), List.cons_append,
      List.getElem?_cons, if_neg (by omega), List.getElem?_append_left (by omega)] at hget
    have hdigit : isAsciiHexDigit '@' = true := List.mem_takeWhile_imp (List.mem_of_getElem? hget)
    exact not_isAsciiHexDigit_at hdigit
  | other c cs hc ih =>
    have hsplit : content = (before ++ [c]) ++ cs := by simp [hcontent]
    rw [scanMentions, if_neg hc]
    apply ih _ hsplit
    apply h.skip (by simp)
    intro i m hi hlt hm
    rw [List.length_append, List.length_singleton] at hlt
    obtain rfl : i = before.length := by omega
    have hget := mentionAt_get hm
    rw [hcontent, List.getElem?_append_right le_rfl, Nat.sub_self, List.getElem?_cons_zero] at hget
    exact hc (Option.some.inj hget)

end Collected

/-- The scan of the bytes comes to its end for every text. It finds each key that is mentioned
somewhere, once, in the order in which they are mentioned first. -/
theorem parse_mentions_lists (content : String) :
    ∃ mentions, parseMentionsBytes S content = some mentions ∧ mentions.Nodup ∧
      (∀ m, m ∈ mentions ↔ ∃ i, MentionAt S content.toList i m) ∧
      mentions.Pairwise fun a b =>
        ∃ i, MentionAt S content.toList i a ∧ ∀ j, MentionAt S content.toList j b → i < j := by
  have hempty : Collected S content.toList ([] : List Char).length [] := by
    refine ⟨List.nodup_nil, fun m => ?_, List.Pairwise.nil⟩
    simp
  have hall := collected_scanMentions [] rfl hempty
  refine ⟨parseMentions S content, parseMentionsBytes_eq content, hall.nodup, fun m => ?_, hall.ordered⟩
  constructor
  · intro hm
    obtain ⟨i, -, hat⟩ := (hall.mem_iff m).mp hm
    exact ⟨i, hat⟩
  · intro ⟨i, hat⟩
    have hlt : i < content.toList.length := (List.getElem?_eq_some_iff.mp (mentionAt_get hat)).1
    exact (hall.mem_iff m).mpr ⟨i, hlt, hat⟩

end Proscenium.Client
