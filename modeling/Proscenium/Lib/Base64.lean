import Mathlib

/-! Base64 over any alphabet of 64 symbols, with or without padding. An engine
that pads wants the padding when it decodes, and one that does not pad refuses it;
the bits that are left over in the last symbol are zero. -/

namespace Base64

structure Alphabet where
  symbols : List Char
  length_eq : symbols.length = 64
  nodup : symbols.Nodup
  pad_not_mem : '=' ∉ symbols

namespace Alphabet

def symbol (a : Alphabet) (n : Nat) : Char := a.symbols.getD n 'A'

def value (a : Alphabet) (c : Char) : Option Nat :=
  if c ∈ a.symbols then some (a.symbols.idxOf c) else none

def standard : Alphabet where
  symbols := "ABCDEFGHIJKLMNOPQRSTUVWXYZabcdefghijklmnopqrstuvwxyz0123456789+/".toList
  length_eq := by decide
  nodup := by decide
  pad_not_mem := by decide

def urlSafe : Alphabet where
  symbols := "ABCDEFGHIJKLMNOPQRSTUVWXYZabcdefghijklmnopqrstuvwxyz0123456789-_".toList
  length_eq := by decide
  nodup := by decide
  pad_not_mem := by decide

variable (a : Alphabet) {n : Nat}

theorem symbol_mem (h : n < 64) : a.symbol n ∈ a.symbols := by
  have hlt : n < a.symbols.length := by
    rw [a.length_eq]
    exact h
  unfold symbol
  rw [List.getD_eq_getElem _ _ hlt]
  exact List.getElem_mem hlt

theorem value_symbol (h : n < 64) : a.value (a.symbol n) = some n := by
  have hlt : n < a.symbols.length := by
    rw [a.length_eq]
    exact h
  unfold value
  rw [if_pos (a.symbol_mem h)]
  unfold symbol
  rw [List.getD_eq_getElem _ _ hlt, a.nodup.idxOf_getElem]

theorem symbol_ne_pad (h : n < 64) : a.symbol n ≠ '=' := by
  intro hpad
  exact a.pad_not_mem (hpad ▸ a.symbol_mem h)

end Alphabet

/-- The bits of the bytes, six by six. -/
def sextets : List UInt8 → List Nat
  | [] => []
  | [a] => [a.toNat / 4, a.toNat % 4 * 16]
  | [a, b] => [a.toNat / 4, a.toNat % 4 * 16 + b.toNat / 16, b.toNat % 16 * 4]
  | a :: b :: c :: rest =>
    a.toNat / 4 :: (a.toNat % 4 * 16 + b.toNat / 16) :: (b.toNat % 16 * 4 + c.toNat / 64) ::
      c.toNat % 64 :: sextets rest

def ofSextets : List Nat → Option (List UInt8)
  | [] => some []
  | [_] => none
  | [p, q] => if q % 16 = 0 then some [UInt8.ofNat (p * 4 + q / 16)] else none
  | [p, q, r] =>
    if r % 4 = 0 then some [UInt8.ofNat (p * 4 + q / 16), UInt8.ofNat (q % 16 * 16 + r / 4)] else none
  | p :: q :: r :: s :: rest =>
    (ofSextets rest).map fun bytes =>
      UInt8.ofNat (p * 4 + q / 16) :: UInt8.ofNat (q % 16 * 16 + r / 4) :: UInt8.ofNat (r % 4 * 64 + s) ::
        bytes

theorem lt_of_mem_sextets {bytes : List UInt8} : ∀ n ∈ sextets bytes, n < 64 := by
  induction bytes using sextets.induct with
  | case1 =>
    intro n hn
    exact absurd hn List.not_mem_nil
  | case2 a =>
    have ha := a.toNat_lt
    simp only [sextets, List.forall_mem_cons, List.not_mem_nil, false_implies, implies_true, and_true]
    omega
  | case3 a b =>
    have ha := a.toNat_lt
    have hb := b.toNat_lt
    simp only [sextets, List.forall_mem_cons, List.not_mem_nil, false_implies, implies_true, and_true]
    omega
  | case4 a b c rest ih =>
    have ha := a.toNat_lt
    have hb := b.toNat_lt
    have hc := c.toNat_lt
    simp only [sextets, List.forall_mem_cons]
    refine ⟨?_, ?_, ?_, ?_, ih⟩ <;> omega

theorem byte_eq {m : Nat} {b : UInt8} (h : m = b.toNat) : UInt8.ofNat m = b := by
  rw [h]
  exact UInt8.ofNat_toNat

theorem ofSextets_sextets (bytes : List UInt8) : ofSextets (sextets bytes) = some bytes := by
  induction bytes using sextets.induct with
  | case1 => rfl
  | case2 a =>
    have hbits : a.toNat % 4 * 16 % 16 = 0 := by omega
    simp only [sextets, ofSextets, hbits, if_true]
    rw [byte_eq (b := a) (by omega)]
  | case3 a b =>
    have hb := b.toNat_lt
    have hbits : b.toNat % 16 * 4 % 4 = 0 := by omega
    simp only [sextets, ofSextets, hbits, if_true]
    rw [byte_eq (b := a) (by omega), byte_eq (b := b) (by omega)]
  | case4 a b c rest ih =>
    have hb := b.toNat_lt
    have hc := c.toNat_lt
    simp only [sextets, ofSextets, ih, Option.map_some]
    rw [byte_eq (b := a) (by omega), byte_eq (b := b) (by omega), byte_eq (b := c) (by omega)]

theorem length_sextets_mod (bytes : List UInt8) : (sextets bytes).length % 4 = 0 ↔ bytes.length % 3 = 0 := by
  induction bytes using sextets.induct with
  | case1 => exact Iff.rfl
  | case2 a => exact iff_of_false (Nat.succ_ne_zero 1) (Nat.succ_ne_zero 0)
  | case3 a b => exact iff_of_false (Nat.succ_ne_zero 2) (Nat.succ_ne_zero 1)
  | case4 a b c rest ih =>
    simp only [sextets, List.length_cons]
    omega

structure Engine where
  alphabet : Alphabet
  pads : Bool

namespace Engine

def standard : Engine := ⟨.standard, true⟩

def urlSafeNoPad : Engine := ⟨.urlSafe, false⟩

/-- What follows `m` symbols. -/
def padding (e : Engine) (m : Nat) : List Char :=
  if e.pads then List.replicate ((4 - m % 4) % 4) '=' else []

def encode (e : Engine) (bytes : List UInt8) : String :=
  let symbols := (sextets bytes).map e.alphabet.symbol
  String.ofList (symbols ++ e.padding symbols.length)

def decode (e : Engine) (text : String) : Option (List UInt8) :=
  let symbols := text.toList.takeWhile (· ≠ '=')
  if text.toList.dropWhile (· ≠ '=') = e.padding symbols.length then
    (symbols.mapM e.alphabet.value).bind ofSextets
  else none

variable {e e' : Engine} {bytes : List UInt8}

theorem symbols_ne_pad (e : Engine) (bytes : List UInt8) :
    ∀ c ∈ (sextets bytes).map e.alphabet.symbol, (decide (c ≠ '=')) = true := by
  intro c hc
  obtain ⟨n, hn, rfl⟩ := List.mem_map.mp hc
  exact decide_eq_true (e.alphabet.symbol_ne_pad (lt_of_mem_sextets n hn))

theorem padding_head (e : Engine) (m : Nat) : (e.padding m).takeWhile (· ≠ '=') = [] := by
  unfold padding
  split
  · cases (4 - m % 4) % 4 with
    | zero => rfl
    | succ k => rfl
  · rfl

theorem padding_drop (e : Engine) (m : Nat) : (e.padding m).dropWhile (· ≠ '=') = e.padding m := by
  unfold padding
  split
  · cases (4 - m % 4) % 4 with
    | zero => rfl
    | succ k => rfl
  · rfl

theorem mapM_value (a : Alphabet) {values : List Nat} (h : ∀ n ∈ values, n < 64) :
    (values.map a.symbol).mapM a.value = some values := by
  induction values with
  | nil => rfl
  | cons n values ih =>
    obtain ⟨hn, hvalues⟩ := List.forall_mem_cons.mp h
    rw [List.map_cons, List.mapM_cons, a.value_symbol hn, ih hvalues]
    rfl

theorem decode_encode (e : Engine) (bytes : List UInt8) : e.decode (e.encode bytes) = some bytes := by
  have hsymbols := symbols_ne_pad e bytes
  unfold decode encode
  dsimp only
  rw [String.toList_ofList, List.takeWhile_append_of_pos hsymbols, List.dropWhile_append_of_pos hsymbols,
    padding_head, padding_drop, List.append_nil, if_pos rfl, mapM_value e.alphabet lt_of_mem_sextets]
  exact ofSextets_sextets bytes

theorem decode_of_mem_pad (he : e.pads = false) {text : String} (hpad : '=' ∈ text.toList) :
    e.decode text = none := by
  refine if_neg fun hdrop => ?_
  unfold padding at hdrop
  rw [he] at hdrop
  have hall := List.dropWhile_eq_nil_iff.mp hdrop '=' hpad
  exact absurd rfl (of_decide_eq_true hall)

theorem pad_mem_encode (he : e.pads = true) (hlength : bytes.length % 3 ≠ 0) : '=' ∈ (e.encode bytes).toList := by
  have hgroup := mt (length_sextets_mod bytes).mp hlength
  unfold encode padding
  rw [String.toList_ofList, if_pos he, List.length_map]
  refine List.mem_append_right _ (List.mem_replicate.mpr ⟨?_, rfl⟩)
  omega

theorem decode_encode_of_pads (he : e.pads = false) (he' : e'.pads = true) (hlength : bytes.length % 3 ≠ 0) :
    e.decode (e'.encode bytes) = none :=
  decode_of_mem_pad he (pad_mem_encode he' hlength)

end Engine
end Base64
