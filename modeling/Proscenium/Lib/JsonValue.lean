import Proscenium.Lib.Json

/-! JSON values as trees. The text of a value is read in one way only: where it
ends can be told from the text itself, for a number from the character after
it, so two values with the same text are equal. -/

namespace Json

inductive Value where
  | null
  | bool (b : Bool)
  | num (n : Nat)
  | str (s : String)
  | arr (vs : List Value)
  | obj (ms : List (String × Value))

mutual

def Value.render : Value → List Char
  | .null => "null".toList
  | .bool b => (if b then "true" else "false").toList
  | .num n => (toString n).toList
  | .str s => quote s
  | .arr vs => Char.ofNat 91 :: (renderElems vs ++ [Char.ofNat 93])
  | .obj ms => Char.ofNat 123 :: (renderMembers ms ++ [Char.ofNat 125])

def renderElems : List Value → List Char
  | [] => []
  | v :: vs => v.render ++ renderMoreElems vs

def renderMoreElems : List Value → List Char
  | [] => []
  | v :: vs => Char.ofNat 44 :: (v.render ++ renderMoreElems vs)

def renderMembers : List (String × Value) → List Char
  | [] => []
  | (k, v) :: ms => quote k ++ Char.ofNat 58 :: (v.render ++ renderMoreMembers ms)

def renderMoreMembers : List (String × Value) → List Char
  | [] => []
  | (k, v) :: ms => Char.ofNat 44 :: (quote k ++ Char.ofNat 58 :: (v.render ++ renderMoreMembers ms))

end

def object (fields : List (String × Value)) : Value := .obj (sortKeys fields)

def Value.toVec (v : Value) : List UInt8 := (String.ofList v.render).toUTF8.toList

section Strings

def hexDigitValue (c : Char) : Nat := if c.toNat < 58 then c.toNat - 48 else c.toNat - 87

/-- The character that an escape or a plain character stands for, and what follows. -/
def readChar : List Char → Option (Char × List Char)
  | [] => none
  | c :: rest =>
    if c.toNat = 92 then
      match rest with
      | [] => none
      | e :: rest =>
        match e.toNat with
        | 98 => some (Char.ofNat 8, rest)
        | 116 => some (Char.ofNat 9, rest)
        | 110 => some (Char.ofNat 10, rest)
        | 102 => some (Char.ofNat 12, rest)
        | 114 => some (Char.ofNat 13, rest)
        | 117 =>
          match rest with
          | _ :: _ :: hi :: lo :: rest =>
            some (Char.ofNat (16 * hexDigitValue hi + hexDigitValue lo), rest)
          | _ => none
        | _ => some (e, rest)
    else some (c, rest)

theorem hexDigitValue_hexDigit : ∀ n < 16, hexDigitValue (hexDigit n) = n := by
  decide

theorem readChar_escapeChar (c : Char) (r : List Char) : readChar (escapeChar c ++ r) = some (c, r) := by
  have hc : Char.ofNat c.toNat = c := Char.ofNat_toNat c
  unfold escapeChar
  dsimp only
  split
  all_goals try (rename_i h; rw [h] at hc; subst hc; rfl)
  split
  next n hn =>
    have hread : readChar (Char.ofNat 92 :: Char.ofNat 117 :: hexDigit 0 :: hexDigit 0 ::
        hexDigit (c.toNat / 16) :: hexDigit (c.toNat % 16) :: r) =
        some (Char.ofNat (16 * hexDigitValue (hexDigit (c.toNat / 16)) +
          hexDigitValue (hexDigit (c.toNat % 16))), r) := rfl
    refine hread.trans ?_
    rw [hexDigitValue_hexDigit _ (by omega), hexDigitValue_hexDigit _ (by omega),
      Nat.div_add_mod, hc]
  next hn =>
    have hplain : c.toNat ≠ 92 := by assumption
    show readChar (c :: r) = _
    rw [readChar.eq_def]
    exact if_neg hplain

theorem escapeChar_ne_quote (c : Char) (r s : List Char) : escapeChar c ++ r ≠ Char.ofNat 34 :: s := by
  intro h
  have hread := readChar_escapeChar c r
  rw [h] at hread
  have hquote : some (Char.ofNat 34, s) = some (c, r) := hread
  simp only [Option.some.injEq, Prod.mk.injEq] at hquote
  obtain ⟨rfl, rfl⟩ := hquote
  exact absurd (congrArg List.length h) (by simp [escapeChar])

theorem escaped_append_inj {cs ds r s : List Char}
    (h : cs.flatMap escapeChar ++ Char.ofNat 34 :: r = ds.flatMap escapeChar ++ Char.ofNat 34 :: s) :
    cs = ds ∧ r = s := by
  induction cs generalizing ds with
  | nil =>
    cases ds with
    | nil => exact ⟨rfl, List.tail_eq_of_cons_eq h⟩
    | cons d ds =>
      rw [List.flatMap_cons, List.append_assoc] at h
      exact absurd h.symm (escapeChar_ne_quote d _ _)
  | cons c cs ih =>
    cases ds with
    | nil =>
      rw [List.flatMap_cons, List.append_assoc] at h
      exact absurd h (escapeChar_ne_quote c _ _)
    | cons d ds =>
      rw [List.flatMap_cons, List.flatMap_cons, List.append_assoc, List.append_assoc] at h
      have hread := congrArg readChar h
      rw [readChar_escapeChar, readChar_escapeChar] at hread
      obtain ⟨rfl, hrest⟩ := Prod.mk.inj (Option.some.inj hread)
      obtain ⟨rfl, hr⟩ := ih hrest
      exact ⟨rfl, hr⟩

theorem quote_append_inj {s t : String} {r u : List Char} (h : quote s ++ r = quote t ++ u) :
    s = t ∧ r = u := by
  simp only [quote, List.cons_append, List.append_assoc, List.nil_append, List.cons.injEq,
    true_and] at h
  obtain ⟨hst, hr⟩ := escaped_append_inj h
  exact ⟨String.toList_inj.mp hst, hr⟩

end Strings

section Numbers

def Stops (r : List Char) : Prop := ∀ c ∈ r.head?, c.isDigit = false

theorem stops_cons {c : Char} (h : c.isDigit = false) (r : List Char) : Stops (c :: r) := by
  rintro _ ⟨⟩
  exact h

theorem takeWhile_isDigit {cs r : List Char} (hcs : ∀ c ∈ cs, c.isDigit = true) (hr : Stops r) :
    (cs ++ r).takeWhile Char.isDigit = cs := by
  rw [List.takeWhile_append_of_pos hcs]
  cases r with
  | nil => simp
  | cons c r =>
    rw [List.takeWhile_cons_of_neg, List.append_nil]
    rw [hr c rfl]
    exact Bool.false_ne_true

theorem isDigit_of_mem_toString {n : Nat} {c : Char} (h : c ∈ (toString n).toList) :
    c.isDigit = true := by
  have hdigits : (toString n).toList = Nat.toDigits 10 n := by simp
  rw [hdigits] at h
  exact Nat.isDigit_of_mem_toDigits (by decide) (by decide) h

theorem num_append_inj {m n : Nat} {r u : List Char} (hr : Stops r) (hu : Stops u)
    (h : (toString m).toList ++ r = (toString n).toList ++ u) : m = n ∧ r = u := by
  have hdigits := congrArg (List.takeWhile Char.isDigit) h
  rw [takeWhile_isDigit (fun _ => isDigit_of_mem_toString) hr,
    takeWhile_isDigit (fun _ => isDigit_of_mem_toString) hu] at hdigits
  rw [hdigits] at h
  exact ⟨Nat.repr_injective (String.toList_inj.mp hdigits), List.append_cancel_left h⟩

end Numbers

section Values

/-- What kind of text a character opens; 7 is for those that open none. -/
def sortOf (c : Char) : Nat :=
  if c.isDigit then 3
  else match c.toNat with
    | 110 => 0
    | 116 => 1
    | 102 => 2
    | 34 => 4
    | 91 => 5
    | 123 => 6
    | _ => 7

def Value.sort : Value → Nat
  | .null => 0
  | .bool b => if b then 1 else 2
  | .num _ => 3
  | .str _ => 4
  | .arr _ => 5
  | .obj _ => 6

theorem Value.render_eq_cons (v : Value) : ∃ c cs, v.render = c :: cs ∧ sortOf c = v.sort := by
  cases v with
  | null => exact ⟨_, _, rfl, by decide⟩
  | bool b => cases b <;> exact ⟨_, _, rfl, by decide⟩
  | num n =>
    cases hdigits : (toString n).toList with
    | nil =>
      have hlength : (toString n).toList.length = 0 := congrArg List.length hdigits
      simp at hlength
    | cons c cs =>
      refine ⟨c, cs, hdigits, ?_⟩
      have hdigit : c.isDigit = true := isDigit_of_mem_toString (hdigits ▸ List.mem_cons_self)
      exact if_pos hdigit
  | str s => exact ⟨_, _, rfl, (by decide : sortOf (Char.ofNat 34) = 4)⟩
  | arr vs => exact ⟨_, _, by rw [render], (by decide : sortOf (Char.ofNat 91) = 5)⟩
  | obj ms => exact ⟨_, _, by rw [render], (by decide : sortOf (Char.ofNat 123) = 6)⟩

theorem Value.sort_eq {v w : Value} {r u : List Char} (h : v.render ++ r = w.render ++ u) :
    v.sort = w.sort := by
  obtain ⟨c, cs, hv, hc⟩ := v.render_eq_cons
  obtain ⟨d, ds, hw, hd⟩ := w.render_eq_cons
  rw [hv, hw] at h
  rw [← hc, ← hd, List.head_eq_of_cons_eq h]

theorem Value.render_append_ne (v : Value) {c : Char} (hc : sortOf c = 7) (r u : List Char) :
    v.render ++ r ≠ c :: u := by
  obtain ⟨d, ds, hv, hd⟩ := v.render_eq_cons
  rw [hv]
  intro h
  have hsort : v.sort = 7 := by rw [← hd, List.head_eq_of_cons_eq h, hc]
  cases v with
  | bool b => cases b <;> exact absurd hsort (by decide)
  | _ => exact absurd hsort (by simp [Value.sort])

theorem stops_of_sortOf {c : Char} (h : sortOf c = 7) (r : List Char) : Stops (c :: r) := by
  refine stops_cons ?_ r
  by_contra hdigit
  rw [Bool.not_eq_false] at hdigit
  rw [sortOf, if_pos hdigit] at h
  exact absurd h (by decide)

theorem stops_moreElems (vs : List Value) (r : List Char) :
    Stops (renderMoreElems vs ++ Char.ofNat 93 :: r) := by
  cases vs with
  | nil => exact stops_of_sortOf (by decide) r
  | cons v vs =>
    rw [renderMoreElems]
    exact stops_of_sortOf (by decide) _

theorem stops_moreMembers (ms : List (String × Value)) (r : List Char) :
    Stops (renderMoreMembers ms ++ Char.ofNat 125 :: r) := by
  cases ms with
  | nil => exact stops_of_sortOf (by decide) r
  | cons m ms =>
    rw [renderMoreMembers]
    exact stops_of_sortOf (by decide) _

mutual

/-- Where a value ends can be told from its text and the character after it. -/
theorem Value.render_append_inj : ∀ (v w : Value) {r u : List Char}, Stops r → Stops u →
    v.render ++ r = w.render ++ u → v = w ∧ r = u
  | .null, w, r, u, _, _, h => by
    have hsort := Value.sort_eq h
    cases w with
    | null => exact ⟨rfl, List.append_cancel_left h⟩
    | bool c => cases c <;> exact absurd hsort (by decide)
    | _ => exact absurd hsort (by simp [Value.sort])
  | .bool b, w, r, u, _, _, h => by
    have hsort := Value.sort_eq h
    cases w with
    | bool c =>
      cases b <;> cases c <;>
        first | exact ⟨rfl, List.append_cancel_left h⟩ | exact absurd hsort (by decide)
    | _ => cases b <;> exact absurd hsort (by simp [Value.sort])
  | .num n, w, r, u, hr, hu, h => by
    have hsort := Value.sort_eq h
    cases w with
    | num m =>
      obtain ⟨rfl, hrest⟩ := num_append_inj hr hu h
      exact ⟨rfl, hrest⟩
    | bool c => cases c <;> exact absurd hsort (by simp [Value.sort])
    | _ => exact absurd hsort (by simp [Value.sort])
  | .str s, w, r, u, _, _, h => by
    have hsort := Value.sort_eq h
    cases w with
    | str t =>
      obtain ⟨rfl, hrest⟩ := quote_append_inj h
      exact ⟨rfl, hrest⟩
    | bool c => cases c <;> exact absurd hsort (by simp [Value.sort])
    | _ => exact absurd hsort (by simp [Value.sort])
  | .arr vs, w, r, u, _, _, h => by
    have hsort := Value.sort_eq h
    cases w with
    | arr ws =>
      simp only [Value.render, List.cons_append, List.append_assoc, List.nil_append, List.cons.injEq,
        true_and] at h
      obtain ⟨rfl, hrest⟩ := renderElems_append_inj vs ws h
      exact ⟨rfl, hrest⟩
    | bool c => cases c <;> exact absurd hsort (by simp [Value.sort])
    | _ => exact absurd hsort (by simp [Value.sort])
  | .obj ms, w, r, u, _, _, h => by
    have hsort := Value.sort_eq h
    cases w with
    | obj ns =>
      simp only [Value.render, List.cons_append, List.append_assoc, List.nil_append, List.cons.injEq,
        true_and] at h
      obtain ⟨rfl, hrest⟩ := renderMembers_append_inj ms ns h
      exact ⟨rfl, hrest⟩
    | bool c => cases c <;> exact absurd hsort (by simp [Value.sort])
    | _ => exact absurd hsort (by simp [Value.sort])

theorem renderElems_append_inj : ∀ (vs ws : List Value) {r u : List Char},
    renderElems vs ++ Char.ofNat 93 :: r = renderElems ws ++ Char.ofNat 93 :: u → vs = ws ∧ r = u
  | [], [], _, _, h => ⟨rfl, List.tail_eq_of_cons_eq h⟩
  | [], w :: ws, r, u, h => by
    rw [renderElems, renderElems, List.append_assoc] at h
    exact absurd h.symm (w.render_append_ne (by decide) _ _)
  | v :: vs, [], r, u, h => by
    rw [renderElems, renderElems, List.append_assoc] at h
    exact absurd h (v.render_append_ne (by decide) _ _)
  | v :: vs, w :: ws, r, u, h => by
    rw [renderElems, renderElems, List.append_assoc, List.append_assoc] at h
    obtain ⟨rfl, hmore⟩ := Value.render_append_inj v w (stops_moreElems vs r) (stops_moreElems ws u) h
    obtain ⟨rfl, hrest⟩ := renderMoreElems_append_inj vs ws hmore
    exact ⟨rfl, hrest⟩

theorem renderMoreElems_append_inj : ∀ (vs ws : List Value) {r u : List Char},
    renderMoreElems vs ++ Char.ofNat 93 :: r = renderMoreElems ws ++ Char.ofNat 93 :: u →
      vs = ws ∧ r = u
  | [], [], _, _, h => ⟨rfl, List.tail_eq_of_cons_eq h⟩
  | [], w :: ws, r, u, h => by
    rw [renderMoreElems, renderMoreElems] at h
    exact absurd (List.head_eq_of_cons_eq h) (by decide)
  | v :: vs, [], r, u, h => by
    rw [renderMoreElems, renderMoreElems] at h
    exact absurd (List.head_eq_of_cons_eq h) (by decide)
  | v :: vs, w :: ws, r, u, h => by
    simp only [renderMoreElems, List.cons_append, List.append_assoc, List.cons.injEq, true_and] at h
    obtain ⟨rfl, hmore⟩ := Value.render_append_inj v w (stops_moreElems vs r) (stops_moreElems ws u) h
    obtain ⟨rfl, hrest⟩ := renderMoreElems_append_inj vs ws hmore
    exact ⟨rfl, hrest⟩

theorem renderMembers_append_inj : ∀ (ms ns : List (String × Value)) {r u : List Char},
    renderMembers ms ++ Char.ofNat 125 :: r = renderMembers ns ++ Char.ofNat 125 :: u →
      ms = ns ∧ r = u
  | [], [], _, _, h => ⟨rfl, List.tail_eq_of_cons_eq h⟩
  | [], (l, w) :: ns, r, u, h => by
    rw [renderMembers, renderMembers, quote] at h
    exact absurd (List.head_eq_of_cons_eq h) (by decide)
  | (k, v) :: ms, [], r, u, h => by
    rw [renderMembers, renderMembers, quote] at h
    exact absurd (List.head_eq_of_cons_eq h) (by decide)
  | (k, v) :: ms, (l, w) :: ns, r, u, h => by
    simp only [renderMembers, List.cons_append, List.append_assoc] at h
    obtain ⟨rfl, hvalue⟩ := quote_append_inj h
    rw [List.cons.injEq] at hvalue
    obtain ⟨rfl, hmore⟩ :=
      Value.render_append_inj v w (stops_moreMembers ms r) (stops_moreMembers ns u) hvalue.2
    obtain ⟨rfl, hrest⟩ := renderMoreMembers_append_inj ms ns hmore
    exact ⟨rfl, hrest⟩

theorem renderMoreMembers_append_inj : ∀ (ms ns : List (String × Value)) {r u : List Char},
    renderMoreMembers ms ++ Char.ofNat 125 :: r = renderMoreMembers ns ++ Char.ofNat 125 :: u →
      ms = ns ∧ r = u
  | [], [], _, _, h => ⟨rfl, List.tail_eq_of_cons_eq h⟩
  | [], (l, w) :: ns, r, u, h => by
    rw [renderMoreMembers, renderMoreMembers] at h
    exact absurd (List.head_eq_of_cons_eq h) (by decide)
  | (k, v) :: ms, [], r, u, h => by
    rw [renderMoreMembers, renderMoreMembers] at h
    exact absurd (List.head_eq_of_cons_eq h) (by decide)
  | (k, v) :: ms, (l, w) :: ns, r, u, h => by
    simp only [renderMoreMembers, List.cons_append, List.append_assoc, List.cons.injEq,
      true_and] at h
    obtain ⟨rfl, hvalue⟩ := quote_append_inj h
    rw [List.cons.injEq] at hvalue
    obtain ⟨rfl, hmore⟩ :=
      Value.render_append_inj v w (stops_moreMembers ms r) (stops_moreMembers ns u) hvalue.2
    obtain ⟨rfl, hrest⟩ := renderMoreMembers_append_inj ms ns hmore
    exact ⟨rfl, hrest⟩

end

theorem Value.render_injective : Function.Injective Value.render := by
  intro v w h
  have hstops : Stops [] := fun c hc => absurd hc (Option.not_mem_none c)
  exact (render_append_inj v w hstops hstops (congrArg (· ++ []) h)).1

end Values

section Bytes

theorem toList_loop (bs : ByteArray) (i : Nat) (r : List UInt8) :
    ByteArray.toList.loop bs i r = r.reverse ++ bs.data.toList.drop i := by
  fun_induction ByteArray.toList.loop bs i r with
  | case1 i r hlt ih =>
    have hdrop : bs.data.toList.drop i = bs.get! i :: bs.data.toList.drop (i + 1) := by
      have hi : i < bs.data.toList.length := hlt
      rw [List.drop_eq_getElem_cons hi]
      simp [ByteArray.get!, hlt]
    rw [ih, hdrop]
    simp
  | case2 i r hge =>
    have hdrop : bs.data.toList.drop i = [] := List.drop_eq_nil_of_le (Nat.le_of_not_lt hge)
    simp [hdrop]

theorem toUTF8_toList (s : String) : s.toUTF8.toList = s.toByteArray.data.toList := by
  rw [String.toUTF8_eq_toByteArray, ByteArray.toList, toList_loop]
  simp

theorem toUTF8_toList_injective {cs ds : List Char}
    (h : (String.ofList cs).toUTF8.toList = (String.ofList ds).toUTF8.toList) : cs = ds := by
  rw [toUTF8_toList, toUTF8_toList, Array.toList_inj, ← ByteArray.ext_iff,
    String.toByteArray_inj] at h
  exact String.ofList_injective h

theorem toUTF8_toList_append (s t : String) : (s ++ t).toUTF8.toList = s.toUTF8.toList ++ t.toUTF8.toList := by
  rw [toUTF8_toList, toUTF8_toList, toUTF8_toList, String.toByteArray_append, ByteArray.toList_data_append]

theorem toUTF8_toList_cons (c : Char) (cs : List Char) :
    (String.ofList (c :: cs)).toUTF8.toList =
      String.utf8EncodeChar c ++ (String.ofList cs).toUTF8.toList := by
  rw [toUTF8_toList, toUTF8_toList, String.toByteArray_ofList, String.toByteArray_ofList,
    List.utf8Encode, List.utf8Encode, List.flatMap_cons, List.toList_data_toByteArray,
    List.toList_data_toByteArray]

theorem head?_toVec_object (fields : List (String × Value)) :
    (object fields).toVec.head? = some 123 := by
  rw [Value.toVec, object, Value.render, toUTF8_toList_cons]
  rfl

theorem Value.toVec_injective : Function.Injective Value.toVec := by
  intro v w h
  exact render_injective (toUTF8_toList_injective h)

end Bytes

/-! An object with different keys says what its members are. -/

section Members

variable {α : Type}

theorem perm_insertKey {k : String} {v : α} {entries : List (String × α)}
    (hk : k ∉ entries.map Prod.fst) : (insertKey k v entries).Perm ((k, v) :: entries) := by
  induction entries with
  | nil => exact .refl _
  | cons e entries ih =>
    rw [List.map_cons, List.mem_cons, not_or] at hk
    rw [insertKey, if_neg hk.1]
    split
    · exact .refl _
    · exact ((ih hk.2).cons e).trans (.swap ..)

theorem perm_sortKeys {entries : List (String × α)} (h : (entries.map Prod.fst).Nodup) :
    (sortKeys entries).Perm entries := by
  have hfold : ∀ acc entries : List (String × α), ((acc ++ entries).map Prod.fst).Nodup →
      (entries.foldl (fun acc e => insertKey e.1 e.2 acc) acc).Perm (acc ++ entries) := by
    intro acc entries
    induction entries generalizing acc with
    | nil =>
      intro _
      rw [List.append_nil]
      exact .refl _
    | cons e entries ih =>
      intro hnodup
      have hmiddle : (acc ++ e :: entries).Perm ((e :: acc) ++ entries) := List.perm_middle
      have hfresh : e.1 ∉ acc.map Prod.fst := by
        have hcons := (hmiddle.map Prod.fst).nodup hnodup
        rw [List.cons_append, List.map_cons, List.nodup_cons, List.map_append, List.mem_append,
          not_or] at hcons
        exact hcons.1.1
      have hinsert : (insertKey e.1 e.2 acc ++ entries).Perm (acc ++ e :: entries) :=
        ((perm_insertKey hfresh).append_right entries).trans hmiddle.symm
      have hnext := ih (insertKey e.1 e.2 acc) ((hinsert.map Prod.fst).nodup_iff.mpr hnodup)
      exact hnext.trans hinsert
  exact hfold [] entries h

theorem eq_of_perm_of_keys {xs ys : List (String × α)} (hperm : xs.Perm ys)
    (hkeys : xs.map Prod.fst = ys.map Prod.fst) (hnodup : (xs.map Prod.fst).Nodup) : xs = ys := by
  induction xs generalizing ys with
  | nil => exact hperm.nil_eq
  | cons x xs ih =>
    cases ys with
    | nil => exact absurd hperm.length_eq (by simp)
    | cons y ys =>
      rw [List.map_cons, List.map_cons, List.cons.injEq] at hkeys
      rw [List.map_cons, List.nodup_cons] at hnodup
      obtain rfl : x = y := by
        rcases List.mem_cons.mp (hperm.mem_iff.mp List.mem_cons_self) with hxy | hmem
        · exact hxy
        · exact absurd (hkeys.2 ▸ List.mem_map_of_mem hmem) hnodup.1
      rw [ih (List.perm_cons x |>.mp hperm) hkeys.2 hnodup.2]

theorem perm_of_object_eq {xs ys : List (String × Value)} (hxs : (xs.map Prod.fst).Nodup)
    (hys : (ys.map Prod.fst).Nodup) (h : object xs = object ys) : xs.Perm ys := by
  have hsort : sortKeys xs = sortKeys ys := Value.obj.inj h
  have hperm := (perm_sortKeys hxs).symm
  rw [hsort] at hperm
  exact hperm.trans (perm_sortKeys hys)

theorem object_inj {xs ys : List (String × Value)} (h : object xs = object ys)
    (hkeys : xs.map Prod.fst = ys.map Prod.fst) (hnodup : (xs.map Prod.fst).Nodup) : xs = ys :=
  eq_of_perm_of_keys (perm_of_object_eq hnodup (hkeys ▸ hnodup) h) hkeys hnodup

end Members

/-! The objects of scalars and of arrays of objects are values. -/

section Objects

variable {α β : Type}

def Scalar.value : Scalar → Value
  | .null => .null
  | .num n => .num n
  | .str s => .str s

def Atom.value : Atom → Value
  | .scalar s => s.value
  | .bool b => .bool b

def Entry.value : Entry → Value
  | .atom a => a.value
  | .objects os => .arr (os.map fun o => object (o.map fun f => (f.1, f.2.value)))

@[simp] theorem Scalar.render_value (s : Scalar) : s.value.render = s.render := by
  cases s <;> rfl

@[simp] theorem Atom.render_value (a : Atom) : a.value.render = a.render := by
  cases a with
  | scalar s => exact s.render_value
  | bool b => rfl

theorem insertKey_map (f : α → β) (k : String) (v : α) (entries : List (String × α)) :
    insertKey k (f v) (entries.map fun e => (e.1, f e.2)) =
      (insertKey k v entries).map fun e => (e.1, f e.2) := by
  induction entries with
  | nil => rfl
  | cons e entries ih =>
    simp only [List.map_cons, insertKey]
    split
    · rfl
    · split
      · rfl
      · rw [ih]
        rfl

theorem sortKeys_map (f : α → β) (entries : List (String × α)) :
    sortKeys (entries.map fun e => (e.1, f e.2)) = (sortKeys entries).map fun e => (e.1, f e.2) := by
  have hfold : ∀ (acc entries : List (String × α)),
      (entries.map fun e => (e.1, f e.2)).foldl (fun acc e => insertKey e.1 e.2 acc)
          (acc.map fun e => (e.1, f e.2)) =
        (entries.foldl (fun acc e => insertKey e.1 e.2 acc) acc).map fun e => (e.1, f e.2) := by
    intro acc entries
    induction entries generalizing acc with
    | nil => rfl
    | cons e entries ih =>
      simp only [List.map_cons, List.foldl_cons]
      rw [insertKey_map, ih]
  exact hfold [] entries

theorem sortFields_eq (fields : Fields) : sortFields fields = sortKeys fields := by
  have hinsert : ∀ (k : String) (v : Scalar) (acc : Fields), insertField k v acc = insertKey k v acc := by
    intro k v acc
    induction acc with
    | nil => rfl
    | cons f acc ih => rw [insertField, insertKey, ih]
  unfold sortFields sortKeys
  simp only [hinsert]

theorem renderMoreMembers_map (render : α → List Char) (value : α → Value)
    (h : ∀ a, (value a).render = render a) (e : String × α) (entries : List (String × α)) :
    renderMembers ((e :: entries).map fun e => (e.1, value e.2)) =
      commaSep ((e :: entries).map fun e => quote e.1 ++ Char.ofNat 58 :: render e.2) := by
  induction entries generalizing e with
  | nil => simp [renderMembers, renderMoreMembers, commaSep, h]
  | cons e' entries ih =>
    have hnext := ih e'
    simp only [List.map_cons, renderMembers, renderMoreMembers, commaSep, h, List.append_assoc,
      List.cons_append] at hnext ⊢
    rw [← hnext]

theorem renderMembers_map (render : α → List Char) (value : α → Value)
    (h : ∀ a, (value a).render = render a) (entries : List (String × α)) :
    renderMembers (entries.map fun e => (e.1, value e.2)) =
      commaSep (entries.map fun e => quote e.1 ++ Char.ofNat 58 :: render e.2) := by
  cases entries with
  | nil => rfl
  | cons e entries => exact renderMoreMembers_map render value h e entries

theorem renderElems_eq (vs : List Value) : renderElems vs = commaSep (vs.map Value.render) := by
  induction vs with
  | nil => rfl
  | cons v vs ih =>
    cases vs with
    | nil => simp [renderElems, renderMoreElems, commaSep]
    | cons w vs =>
      simp only [List.map_cons, renderElems, renderMoreElems, commaSep] at ih ⊢
      rw [ih]

theorem render_object (render : α → List Char) (value : α → Value)
    (h : ∀ a, (value a).render = render a) (entries : List (String × α)) :
    (object (entries.map fun e => (e.1, value e.2))).render = renderObject render entries := by
  rw [object, sortKeys_map, Value.render, renderMembers_map render value h]
  rfl

@[simp] theorem Entry.render_value (e : Entry) : e.value.render = e.render := by
  cases e with
  | atom a => exact a.render_value
  | objects os =>
    rw [value, Value.render, renderElems_eq, List.map_map]
    have hobjects : os.map (Value.render ∘ fun o => object (o.map fun f => (f.1, f.2.value))) =
        os.map (renderObject Atom.render) :=
      List.map_congr_left fun o _ => render_object Atom.render Atom.value Atom.render_value o
    rw [hobjects]
    rfl

theorem renderFields_eq (fields : Fields) :
    renderFields fields = commaSep (fields.map fun f => quote f.1 ++ Char.ofNat 58 :: f.2.render) := by
  induction fields with
  | nil => rfl
  | cons f fields ih =>
    cases fields with
    | nil => rfl
    | cons g fields =>
      simp only [List.map_cons, renderFields, commaSep] at ih ⊢
      rw [ih]

theorem toVec_eq (fields : Fields) :
    toVec fields = (object (fields.map fun f => (f.1, f.2.value))).toVec := by
  rw [toVec, Value.toVec, render_object Scalar.render Scalar.value Scalar.render_value, renderFields_eq,
    sortFields_eq]
  rfl

theorem entriesToVec_eq (entries : List (String × Entry)) :
    entriesToVec entries = (object (entries.map fun e => (e.1, e.2.value))).toVec := by
  rw [entriesToVec, Value.toVec, render_object Entry.render Entry.value Entry.render_value]

end Objects

end Json
