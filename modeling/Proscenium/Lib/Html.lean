import Mathlib

/-! Text in a page, as UTF-16 code units: the four characters that are escaped,
and what a page shows of a text with markup in it, the tags left out and the
escapes read back. -/

namespace Html

abbrev Text := List UInt16

def unit (c : Char) : UInt16 := UInt16.ofNat c.toNat

def units (s : String) : Text := s.toList.map unit

def escapeUnit (c : UInt16) : Text :=
  if c = unit '&' then units "&amp;"
  else if c = unit '<' then units "&lt;"
  else if c = unit '>' then units "&gt;"
  else if c = unit '"' then units "&quot;"
  else [c]

def escape (t : Text) : Text := t.flatMap escapeUnit

/-- None of the characters that begin or end a tag or a quoted value. -/
def Inert (t : Text) : Prop := ∀ c ∈ t, c ≠ unit '<' ∧ c ≠ unit '>' ∧ c ≠ unit '"'

instance (t : Text) : Decidable (Inert t) := List.decidableBAll _ t

theorem escape_append (s t : Text) : escape (s ++ t) = escape s ++ escape t := List.flatMap_append

theorem escape_cons (c : UInt16) (t : Text) : escape (c :: t) = escapeUnit c ++ escape t := List.flatMap_cons

theorem inert_escapeUnit (c : UInt16) : Inert (escapeUnit c) := by
  unfold escapeUnit
  split_ifs with hamp hlt hgt hquot
  · decide
  · decide
  · decide
  · decide
  · intro d hd
    obtain rfl := List.mem_singleton.mp hd
    exact ⟨hlt, hgt, hquot⟩

theorem inert_escape (t : Text) : Inert (escape t) := by
  intro c hc
  obtain ⟨d, -, hd⟩ := List.mem_flatMap.mp hc
  exact inert_escapeUnit d c hd

section Unescape

def entities : List (Text × UInt16) :=
  [(units "&amp;", unit '&'), (units "&lt;", unit '<'), (units "&gt;", unit '>'), (units "&quot;", unit '"')]

def entityAt (t : Text) : Option (Text × UInt16) := entities.find? fun e => e.1.isPrefixOf t

/-- `skip` units belong to an escape that is read. -/
def unescapeFrom : ℕ → Text → Text
  | _, [] => []
  | skip + 1, _ :: t => unescapeFrom skip t
  | 0, c :: t =>
    match entityAt (c :: t) with
    | some e => e.2 :: unescapeFrom (e.1.length - 1) t
    | none => c :: unescapeFrom 0 t

def unescape (t : Text) : Text := unescapeFrom 0 t

theorem unescapeFrom_append (s t : Text) : unescapeFrom s.length (s ++ t) = unescape t := by
  induction s with
  | nil => rfl
  | cons c s ih => exact ih

theorem unescape_cons_of_entity {c : UInt16} {s t : Text} {d : UInt16} (h : entityAt (c :: s ++ t) = some (c :: s, d)) :
    unescape (c :: s ++ t) = d :: unescape t := by
  show (match entityAt (c :: s ++ t) with
    | some e => e.2 :: unescapeFrom (e.1.length - 1) (s ++ t)
    | none => c :: unescapeFrom 0 (s ++ t)) = _
  rw [h]
  exact congrArg (d :: ·) (unescapeFrom_append s t)

theorem entityAt_of_ne {c : UInt16} (hc : c ≠ unit '&') (t : Text) : entityAt (c :: t) = none := by
  have hfirst : (unit '&' == c) = false := by simpa using hc.symm
  unfold entityAt
  rw [List.find?_eq_none]
  intro e he
  simp only [entities, List.mem_cons, List.not_mem_nil, or_false] at he
  rcases he with rfl | rfl | rfl | rfl <;> simp [units, List.isPrefixOf, hfirst]

theorem unescape_escapeUnit (c : UInt16) (t : Text) : unescape (escapeUnit c ++ t) = c :: unescape t := by
  unfold escapeUnit
  split_ifs with hamp hlt hgt hquot
  · exact hamp ▸ unescape_cons_of_entity rfl
  · exact hlt ▸ unescape_cons_of_entity rfl
  · exact hgt ▸ unescape_cons_of_entity rfl
  · exact hquot ▸ unescape_cons_of_entity rfl
  · show (match entityAt (c :: t) with
      | some e => e.2 :: unescapeFrom (e.1.length - 1) t
      | none => c :: unescapeFrom 0 t) = _
    rw [entityAt_of_ne hamp]
    rfl

theorem unescape_escape (t : Text) : unescape (escape t) = t := by
  induction t with
  | nil => rfl
  | cons c t ih => rw [escape_cons, unescape_escapeUnit, ih]

end Unescape

section Tags

/-- Where a character stands: between tags, in a tag, or in a quoted value of a tag. -/
inductive Place where
  | text
  | tag
  | quoted
  deriving DecidableEq, Repr

def Place.next (c : UInt16) : Place → Place
  | .text => if c = unit '<' then .tag else .text
  | .tag => if c = unit '>' then .text else if c = unit '"' then .quoted else .tag
  | .quoted => if c = unit '"' then .tag else .quoted

def Place.after (p : Place) (t : Text) : Place := t.foldl (fun p c => p.next c) p

def stripTags : Place → Text → Text
  | _, [] => []
  | p, c :: t => if p = .text ∧ c ≠ unit '<' then c :: stripTags .text t else stripTags (p.next c) t

def shown (t : Text) : Text := unescape (stripTags .text t)

/-- The values of `href` in the tags of a page. -/
def hrefsFrom : Place → Text → List Text
  | _, [] => []
  | p, c :: t =>
    if p = .tag ∧ (units "href=\"").isPrefixOf (c :: t) then
      unescape ((t.drop 5).takeWhile (· ≠ unit '"')) :: hrefsFrom (p.next c) t
    else hrefsFrom (p.next c) t

def hrefs (t : Text) : List Text := hrefsFrom .text t

variable {p : Place} {s t : Text}

theorem after_append (p : Place) (s t : Text) : p.after (s ++ t) = (p.after s).after t := List.foldl_append

theorem stripTags_append (p : Place) (s t : Text) :
    stripTags p (s ++ t) = stripTags p s ++ stripTags (p.after s) t := by
  induction s generalizing p with
  | nil => rfl
  | cons c s ih =>
    have hcons : ∀ u : Text, stripTags p (c :: u) =
        if p = .text ∧ c ≠ unit '<' then c :: stripTags .text u else stripTags (p.next c) u := fun u => rfl
    rw [List.cons_append, hcons, hcons]
    split_ifs with hc
    · have hnext : p.next c = .text := by
        obtain ⟨rfl, hne⟩ := hc
        exact if_neg hne
      rw [ih, List.cons_append]
      show _ = c :: (stripTags .text s ++ stripTags ((p.next c).after s) t)
      rw [hnext]
    · exact ih (p.next c)

theorem after_text (h : Inert s) : Place.after .text s = .text := by
  induction s with
  | nil => rfl
  | cons c s ih =>
    have hnext : Place.next c .text = .text := if_neg (h c List.mem_cons_self).1
    show Place.after (Place.next c .text) s = .text
    rw [hnext]
    exact ih fun d hd => h d (List.mem_cons_of_mem c hd)

theorem after_quoted (h : Inert s) : Place.after .quoted s = .quoted := by
  induction s with
  | nil => rfl
  | cons c s ih =>
    have hnext : Place.next c .quoted = .quoted := if_neg (h c List.mem_cons_self).2.2
    show Place.after (Place.next c .quoted) s = .quoted
    rw [hnext]
    exact ih fun d hd => h d (List.mem_cons_of_mem c hd)

theorem stripTags_text (h : Inert s) : stripTags .text s = s := by
  induction s with
  | nil => rfl
  | cons c s ih =>
    have hc : c ≠ unit '<' := (h c List.mem_cons_self).1
    show (if Place.text = .text ∧ c ≠ unit '<' then c :: stripTags .text s else _) = _
    rw [if_pos ⟨rfl, hc⟩, ih fun d hd => h d (List.mem_cons_of_mem c hd)]

theorem stripTags_quoted (h : Inert s) : stripTags .quoted s = [] := by
  induction s with
  | nil => rfl
  | cons c s ih =>
    have hnext : Place.next c .quoted = .quoted := if_neg (h c List.mem_cons_self).2.2
    show (if Place.quoted = .text ∧ c ≠ unit '<' then c :: stripTags .text s
      else stripTags (Place.next c .quoted) s) = []
    rw [if_neg (by simp), hnext]
    exact ih fun d hd => h d (List.mem_cons_of_mem c hd)

theorem hrefsFrom_cons_of (c : UInt16) (t : Text) (h : p ≠ .tag ∨ c ≠ unit 'h') :
    hrefsFrom p (c :: t) = hrefsFrom (p.next c) t := by
  show (if p = .tag ∧ (units "href=\"").isPrefixOf (c :: t) then _ else _) = _
  rw [if_neg]
  rintro ⟨htag, hhref⟩
  rcases h with h | h
  · exact h htag
  · have hfirst : (unit 'h' == c) = true := (Bool.and_eq_true_iff.mp hhref).1
    exact h (eq_of_beq hfirst).symm

theorem hrefsFrom_append (p : Place) (h : unit 'h' ∉ s) (t : Text) :
    hrefsFrom p (s ++ t) = hrefsFrom (p.after s) t := by
  induction s generalizing p with
  | nil => rfl
  | cons c s ih =>
    have hc : c ≠ unit 'h' := fun hc => h (hc ▸ List.mem_cons_self)
    rw [List.cons_append, hrefsFrom_cons_of c _ (Or.inr hc)]
    exact ih _ fun hmem => h (List.mem_cons_of_mem c hmem)

theorem hrefsFrom_text (h : Inert s) (t : Text) : hrefsFrom .text (s ++ t) = hrefsFrom .text t := by
  induction s with
  | nil => rfl
  | cons c s ih =>
    have hnext : Place.next c .text = .text := if_neg (h c List.mem_cons_self).1
    rw [List.cons_append, hrefsFrom_cons_of c _ (Or.inl (by decide)), hnext]
    exact ih fun d hd => h d (List.mem_cons_of_mem c hd)

theorem hrefsFrom_quoted (h : Inert s) (t : Text) : hrefsFrom .quoted (s ++ t) = hrefsFrom .quoted t := by
  induction s with
  | nil => rfl
  | cons c s ih =>
    have hnext : Place.next c .quoted = .quoted := if_neg (h c List.mem_cons_self).2.2
    rw [List.cons_append, hrefsFrom_cons_of c _ (Or.inl (by decide)), hnext]
    exact ih fun d hd => h d (List.mem_cons_of_mem c hd)

theorem hrefsFrom_tag (h : Inert s) (t : Text) :
    hrefsFrom .tag (units "href=\"" ++ s ++ unit '"' :: t) = unescape s :: hrefsFrom .tag t := by
  have hvalue : (s ++ unit '"' :: t).takeWhile (· ≠ unit '"') = s := by
    have hall : ∀ c ∈ s, decide (c ≠ unit '"') = true := fun c hc => decide_eq_true (h c hc).2.2
    rw [List.takeWhile_append_of_pos hall, List.takeWhile_cons_of_neg (by simp), List.append_nil]
  have hfirst : hrefsFrom .tag (units "href=\"" ++ s ++ unit '"' :: t) =
      unescape ((s ++ unit '"' :: t).takeWhile (· ≠ unit '"')) ::
        hrefsFrom .tag (units "ref=\"" ++ (s ++ unit '"' :: t)) := rfl
  rw [hfirst, hvalue, hrefsFrom_append .tag (by decide)]
  have hquoted : Place.after .tag (units "ref=\"") = .quoted := by decide
  rw [hquoted, hrefsFrom_quoted h, hrefsFrom_cons_of _ _ (Or.inl (by decide))]
  rfl

end Tags

end Html
