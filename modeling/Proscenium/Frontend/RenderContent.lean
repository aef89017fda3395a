import Proscenium.Frontend.RenderDefs

/-! What becomes of a post's text on the page. All of it, and of the names, goes
through `escapeHtml`; the page shows the text with the names in place of the
keys, and its links lead to the web or to profiles. -/

namespace Proscenium.Frontend

open Html Matches

section Escape

theorem replaceAll_append (c : UInt16) (r s t : Text) :
    replaceAll c r (s ++ t) = replaceAll c r s ++ replaceAll c r t := List.flatMap_append

theorem escapeHtml_append (s t : Text) : escapeHtml (s ++ t) = escapeHtml s ++ escapeHtml t := by
  unfold escapeHtml
  simp only [replaceAll_append]

theorem escapeHtml_singleton (c : UInt16) : escapeHtml [c] = escapeUnit c := by
  unfold escapeUnit
  split_ifs with hamp hlt hgt hquot
  · rw [hamp]
    decide
  · rw [hlt]
    decide
  · rw [hgt]
    decide
  · rw [hquot]
    decide
  · simp [escapeHtml, replaceAll, hamp, hlt, hgt, hquot]

theorem escapeHtml_eq (t : Text) : escapeHtml t = escape t := by
  induction t with
  | nil => rfl
  | cons c t ih =>
    have hcons : c :: t = [c] ++ t := rfl
    rw [hcons, escapeHtml_append, escapeHtml_singleton, ih]
    rfl

theorem inert_escapeHtml (t : Text) : Inert (escapeHtml t) := by
  rw [escapeHtml_eq]
  exact inert_escape t

end Escape

section Patterns

theorem schemes_ne_nil : ∀ scheme ∈ schemes, 0 < scheme.length := by decide

theorem urlPattern_eq_some {t : Text} {n : ℕ} (h : urlPattern t = some n) :
    0 < n ∧ n ≤ t.length ∧ ∃ scheme ∈ schemes, scheme <+: t.take n := by
  obtain ⟨scheme, hfind, h⟩ := Option.bind_eq_some_iff.mp h
  have hmem : scheme ∈ schemes := List.mem_of_find?_eq_some hfind
  have hbegins : scheme <+: t := by
    have hfound := List.find?_some hfind
    simpa using hfound
  obtain ⟨rest, rfl⟩ := hbegins
  dsimp only at h
  rw [List.drop_left] at h
  split at h
  next => cases h
  next =>
    obtain rfl := Option.some.inj h
    have hscheme : 0 < scheme.length := schemes_ne_nil scheme hmem
    have hrun : (rest.takeWhile isUrlChar).length ≤ rest.length := (List.takeWhile_sublist _).length_le
    refine ⟨by omega, ?_, scheme, hmem, ?_⟩
    · rw [List.length_append]
      omega
    · rw [List.take_append, List.take_of_length_le (Nat.le_add_right _ _)]
      exact List.prefix_append _ _

theorem mentionPattern_eq_some {t : Text} {n : ℕ} (h : mentionPattern t = some n) :
    1 < n ∧ n ≤ t.length ∧ ∃ digits, t.take n = unit '@' :: digits := by
  cases t with
  | nil => cases h
  | cons c t =>
    unfold mentionPattern at h
    dsimp only at h
    split at h
    next hat =>
      obtain rfl := Option.some.inj h
      obtain ⟨rfl, hdigits⟩ := hat
      have hrun : (t.takeWhile isHexDigit).length ≤ t.length := (List.takeWhile_sublist _).length_le
      refine ⟨by omega, ?_, t.take (min (t.takeWhile isHexDigit).length 64), ?_⟩
      · rw [List.length_cons]
        omega
      · rw [Nat.add_comm, List.take_succ_cons]
    next => cases h

end Patterns

/-- Where a match is and what it holds; the key of a mention is what follows the sign. -/
structure ContentMatch.Found (text : Text) (m : ContentMatch) : Prop where
  lt : m.start < m.stop
  le : m.stop ≤ text.length
  text_eq : m.text = slice text m.start m.stop
  url : m.type = .url → ∃ scheme ∈ schemes, scheme <+: m.text
  mention : m.type = .mention → ∃ digits, m.text = unit '@' :: digits ∧ digits ≠ [] ∧
    m.pubkey = some (toLowerCase digits)

section Selection

variable {text : Text} {m : ContentMatch}

theorem found_of_mem_urlMatches (h : m ∈ urlMatches text) : m.Found text := by
  obtain ⟨r, hr, rfl⟩ := List.mem_map.mp h
  obtain ⟨n, hn, hstop⟩ := pattern_of_mem_findAll (i := 0) hr
  obtain ⟨hpos, hle, hscheme⟩ := urlPattern_eq_some hn
  have hslice : slice text r.1 r.2 = (text.drop r.1).take n := by
    unfold slice
    rw [hstop, Nat.add_sub_cancel_left]
  rw [List.length_drop] at hle
  refine ⟨?_, ?_, rfl, fun _ => ?_, fun hmention => ?_⟩
  · show r.1 < r.2
    omega
  · show r.2 ≤ text.length
    omega
  · show ∃ scheme ∈ schemes, scheme <+: slice text r.1 r.2
    rw [hslice]
    exact hscheme
  · cases hmention

theorem found_of_mem_mentionMatches (h : m ∈ mentionMatches text) : m.Found text := by
  obtain ⟨r, hr, rfl⟩ := List.mem_map.mp h
  obtain ⟨n, hn, hstop⟩ := pattern_of_mem_findAll (i := 0) hr
  obtain ⟨hpos, hle, digits, hdigits⟩ := mentionPattern_eq_some hn
  have hslice : slice text r.1 r.2 = unit '@' :: digits := by
    unfold slice
    rw [hstop, Nat.add_sub_cancel_left]
    exact hdigits
  rw [List.length_drop] at hle
  -- what the pattern takes is the `@` and the digits
  have hlength : digits.length + 1 = n := by
    have htake := congrArg List.length hdigits
    rw [List.length_take, List.length_drop, List.length_cons] at htake
    omega
  refine ⟨?_, ?_, rfl, fun hurl => ?_, fun _ => ⟨digits, hslice, ?_, ?_⟩⟩
  · show r.1 < r.2
    omega
  · show r.2 ≤ text.length
    omega
  · cases hurl
  · rintro rfl
    simp at hlength
    omega
  · show some (toLowerCase ((slice text r.1 r.2).drop 1)) = some (toLowerCase digits)
    rw [hslice]
    rfl

theorem filtered_subset (text : Text) : filtered text ⊆ urlMatches text ++ mentionMatches text := by
  intro m hm
  have hsorted : m ∈ sortedMatches text := mem_of_mem_select hm
  exact (List.perm_insertionSort _ _).mem_iff.mp hsorted

theorem found_of_mem_filtered (h : m ∈ filtered text) : m.Found text := by
  rcases List.mem_append.mp (filtered_subset text h) with h | h
  · exact found_of_mem_urlMatches h
  · exact found_of_mem_mentionMatches h

theorem filtered_covers {text : Text} {m : ContentMatch} (h : m ∈ urlMatches text ++ mentionMatches text) :
    m ∈ filtered text ∨ ∃ m' ∈ filtered text, m'.start ≤ m.start ∧ m.start < m'.stop := by
  have hsorted : (sortedMatches text).Pairwise fun a b => a.start ≤ b.start := by
    unfold sortedMatches
    exact List.pairwise_insertionSort (fun a b : ContentMatch => a.start ≤ b.start) _
  have hmem : m ∈ sortedMatches text := (List.perm_insertionSort _ _).mem_iff.mpr h
  have hcovers : m ∈ filtered text ∨ m.start < 0 ∨
      ∃ m' ∈ filtered text, m'.start ≤ m.start ∧ m.start < m'.stop := select_covers 0 hsorted hmem
  rcases hcovers with hsel | hlt | hover
  · exact Or.inl hsel
  · exact absurd hlt (Nat.not_lt_zero _)
  · exact Or.inr hover

theorem inOrder_filtered (text : Text) : InOrder ContentMatch.start ContentMatch.stop 0 (filtered text) := by
  apply inOrder_select
  intro m hm
  have hmem : m ∈ urlMatches text ++ mentionMatches text := (List.perm_insertionSort _ _).mem_iff.mp hm
  rcases List.mem_append.mp hmem with h | h
  · exact (found_of_mem_urlMatches h).lt.le
  · exact (found_of_mem_mentionMatches h).lt.le

end Selection

/-- A part of the output: markup, or a text that is escaped. -/
inductive Piece where
  | markup (t : Text)
  | user (t : Text)
  deriving DecidableEq, Repr

def Piece.html : Piece → Text
  | .markup t => t
  | .user t => escapeHtml t

def openUrl : Text := units "<a href=\""

def openProfile : Text := units "<a href=\"/profile/"

def urlRest : Text := units "\" target=\"_blank\" rel=\"noopener noreferrer\">"

def profileRest : Text := units "\" class=\"mention\">@"

def closeLink : Text := units "</a>"

section Segments

variable (cache : ProfileCache) (selfId : Text)

abbrev Segment := Text ⊕ ContentMatch

def segments (text : Text) : List Segment := weave ContentMatch.start ContentMatch.stop text 0 (filtered text)

def source : Segment → Text := Sum.elim id ContentMatch.text

def mentionName (m : ContentMatch) : Text := displayName cache selfId (m.pubkey.getD [])

def pieces : Segment → List Piece
  | .inl gap => [.user gap]
  | .inr m =>
    match m.type with
    | .url => [.markup openUrl, .user m.text, .markup urlRest, .user m.text, .markup closeLink]
    | .mention => [.markup openProfile, .user (m.pubkey.getD []), .markup profileRest,
        .user (mentionName cache selfId m), .markup closeLink]

/-- What a segment is to the reader: a mention has the name in place of the key. -/
def seen : Segment → Text
  | .inl gap => gap
  | .inr m =>
    match m.type with
    | .url => m.text
    | .mention => unit '@' :: mentionName cache selfId m

def ContentMatch.href (m : ContentMatch) : Text :=
  match m.type with
  | .url => m.text
  | .mention => units "/profile/" ++ m.pubkey.getD []

def link (address rest body : Text) : Text := openUrl ++ escape address ++ rest ++ escape body ++ closeLink

variable {cache selfId} {address rest body : Text}

theorem after_link (hrest : Place.after .quoted rest = .text) :
    Place.after .text (link address rest body) = .text := by
  have hopen : Place.after .text openUrl = .quoted := by decide
  have hclose : Place.after .text closeLink = .text := by decide
  unfold link
  rw [after_append, after_append, after_append, after_append, hopen, after_quoted (inert_escape address), hrest,
    after_text (inert_escape body), hclose]

theorem stripTags_link (hrest : Place.after .quoted rest = .text) :
    stripTags .text (link address rest body) = stripTags .quoted rest ++ escape body := by
  have hopen : Place.after .text openUrl = .quoted := by decide
  have hopened : stripTags .text openUrl = [] := by decide
  have hclosed : stripTags .text closeLink = [] := by decide
  unfold link
  simp only [stripTags_append, after_append, hopen, after_quoted (inert_escape address), hrest,
    after_text (inert_escape body), hopened, hclosed, stripTags_quoted (inert_escape address),
    stripTags_text (inert_escape body), List.append_nil, List.nil_append]

theorem hrefsFrom_link (hlacks : unit 'h' ∉ rest) (hrest : Place.after .tag rest = .text) (t : Text) :
    hrefsFrom .text (link address (unit '"' :: rest) body ++ t) = address :: hrefsFrom .text t := by
  have hsplit : link address (unit '"' :: rest) body ++ t =
      units "<a " ++ (units "href=\"" ++ escape address ++
        unit '"' :: (rest ++ (escape body ++ (closeLink ++ t)))) := by
    have hopen : openUrl = units "<a " ++ units "href=\"" := by decide
    unfold link
    rw [hopen]
    simp only [List.append_assoc, List.cons_append]
  have htag : Place.after .text (units "<a ") = .tag := by decide
  have hclose : Place.after .text closeLink = .text := by decide
  rw [hsplit, hrefsFrom_append .text (by decide), htag, hrefsFrom_tag (inert_escape address), unescape_escape,
    hrefsFrom_append .tag hlacks, hrest, hrefsFrom_text (inert_escape body), hrefsFrom_append .text (by decide), hclose]

def htmlOf (cache : ProfileCache) (selfId : Text) (seg : Segment) : Text :=
  (pieces cache selfId seg).flatMap Piece.html

theorem htmlOf_gap (gap : Text) : htmlOf cache selfId (.inl gap) = escape gap := by
  show escapeHtml gap ++ [] = escape gap
  rw [List.append_nil, escapeHtml_eq]

theorem htmlOf_url {m : ContentMatch} (h : m.type = .url) :
    htmlOf cache selfId (.inr m) = link m.text urlRest m.text := by
  unfold htmlOf pieces link
  simp only [h]
  simp [Piece.html, escapeHtml_eq]

theorem htmlOf_mention {m : ContentMatch} (h : m.type = .mention) : htmlOf cache selfId (.inr m) =
    link (units "/profile/" ++ m.pubkey.getD []) profileRest (mentionName cache selfId m) := by
  have hopen : openProfile = openUrl ++ escape (units "/profile/") := by decide
  unfold htmlOf pieces link
  simp only [h]
  rw [escape_append, hopen]
  simp [Piece.html, escapeHtml_eq]

theorem stripTags_htmlOf (cache : ProfileCache) (selfId : Text) (seg : Segment) :
    stripTags .text (htmlOf cache selfId seg) = escape (seen cache selfId seg) ∧
      Place.after .text (htmlOf cache selfId seg) = .text := by
  cases seg with
  | inl gap =>
    rw [htmlOf_gap]
    exact ⟨stripTags_text (inert_escape gap), after_text (inert_escape gap)⟩
  | inr m =>
    cases htype : m.type with
    | url =>
      have hrest : Place.after .quoted urlRest = .text := by decide
      have hstrip : stripTags .quoted urlRest = [] := by decide
      rw [htmlOf_url htype, stripTags_link hrest, hstrip]
      refine ⟨?_, after_link hrest⟩
      simp [seen, htype]
    | mention =>
      have hrest : Place.after .quoted profileRest = .text := by decide
      have hstrip : stripTags .quoted profileRest = escapeUnit (unit '@') := by decide
      rw [htmlOf_mention htype, stripTags_link hrest, hstrip, ← escape_cons]
      refine ⟨?_, after_link hrest⟩
      simp [seen, htype]

theorem stripTags_segments (segs : List Segment) :
    stripTags .text (segs.flatMap (htmlOf cache selfId)) = escape (segs.flatMap (seen cache selfId)) := by
  induction segs with
  | nil => rfl
  | cons seg segs ih =>
    obtain ⟨hstrip, hafter⟩ := stripTags_htmlOf cache selfId seg
    rw [List.flatMap_cons, List.flatMap_cons, stripTags_append, hstrip, hafter, ih, escape_append]

def segmentHref : Segment → List Text
  | .inl _ => []
  | .inr m => [m.href]

theorem hrefsFrom_htmlOf (seg : Segment) (t : Text) :
    hrefsFrom .text (htmlOf cache selfId seg ++ t) = segmentHref seg ++ hrefsFrom .text t := by
  cases seg with
  | inl gap =>
    rw [htmlOf_gap]
    exact hrefsFrom_text (inert_escape gap) t
  | inr m =>
    have hlink : ∀ rest, urlRest = unit '"' :: rest ∨ profileRest = unit '"' :: rest →
        unit 'h' ∉ rest ∧ Place.after .tag rest = .text := by
      rintro rest (hrest | hrest)
      · obtain rfl := (List.cons.inj hrest).2
        decide
      · obtain rfl := (List.cons.inj hrest).2
        decide
    cases htype : m.type with
    | url =>
      obtain ⟨hlacks, hrest⟩ := hlink urlRest.tail (Or.inl rfl)
      have hhref : m.href = m.text := by simp [ContentMatch.href, htype]
      rw [htmlOf_url htype]
      show _ = m.href :: _
      rw [hhref]
      exact hrefsFrom_link hlacks hrest t
    | mention =>
      obtain ⟨hlacks, hrest⟩ := hlink profileRest.tail (Or.inr rfl)
      have hhref : m.href = units "/profile/" ++ m.pubkey.getD [] := by simp [ContentMatch.href, htype]
      rw [htmlOf_mention htype]
      show _ = m.href :: _
      rw [hhref]
      exact hrefsFrom_link hlacks hrest t

theorem hrefs_segments (segs : List Segment) :
    hrefs (segs.flatMap (htmlOf cache selfId)) = segs.flatMap segmentHref := by
  unfold hrefs
  induction segs with
  | nil => rfl
  | cons seg segs ih => rw [List.flatMap_cons, List.flatMap_cons, hrefsFrom_htmlOf, ih]

end Segments

section Parts

variable {cache : ProfileCache} {text selfId : Text}

theorem flatten_renderMatch {m : ContentMatch} (h : m.Found text) :
    (renderMatch cache selfId m).flatten = htmlOf cache selfId (.inr m) := by
  cases htype : m.type with
  | url =>
    rw [htmlOf_url htype]
    unfold renderMatch link
    simp only [htype]
    rw [escapeHtml_eq, List.flatten_singleton]
    rfl
  | mention =>
    obtain ⟨digits, -, hne, hpubkey⟩ := h.mention htype
    have hkey : toLowerCase digits ≠ [] := by
      intro hnil
      exact hne (List.map_eq_nil_iff.mp hnil)
    unfold htmlOf pieces renderMatch mentionName
    simp only [htype, hpubkey, Option.getD_some]
    rw [if_neg hkey]
    simp [Piece.html, openProfile, profileRest, closeLink]

theorem flatten_renderParts {last : ℕ} {ms : List ContentMatch} (h : ∀ m ∈ ms, m.Found text) :
    (renderParts cache text selfId last ms).flatten =
      (weave ContentMatch.start ContentMatch.stop text last ms).flatMap (htmlOf cache selfId) := by
  induction ms generalizing last with
  | nil =>
    unfold renderParts weave
    split
    · rw [List.flatten_singleton, List.flatMap_singleton, htmlOf_gap, escapeHtml_eq]
    · rfl
  | cons m ms ih =>
    have hgap : (if m.start > last then [escapeHtml (slice text last m.start)] else []).flatten =
        (if last < m.start then [Sum.inl (slice text last m.start)] else []).flatMap (htmlOf cache selfId) := by
      split
      · rw [List.flatten_singleton, List.flatMap_singleton, htmlOf_gap, escapeHtml_eq]
      · rfl
    unfold renderParts weave
    rw [List.flatten_append, List.flatten_append, hgap, flatten_renderMatch (h m List.mem_cons_self),
      ih fun m' hm' => h m' (List.mem_cons_of_mem m hm'), List.flatMap_append, List.flatMap_cons, List.append_assoc]

theorem renderContent_eq (cache : ProfileCache) (text selfId : Text) :
    renderContent cache text selfId = (segments text).flatMap (htmlOf cache selfId) :=
  flatten_renderParts fun _ hm => found_of_mem_filtered hm

end Parts

def origins : List Text := [units "http://", units "https://", units "/profile/"]

/-- The output is the markup of the code with escaped texts, which show the text on the page. -/
structure RendersInert (cache : ProfileCache) (text selfId html : Text) : Prop where
  disjoint : (filtered text).Pairwise fun a b => a.stop ≤ b.start
  found : ∀ m ∈ filtered text, m.Found text
  matched : filtered text ⊆ urlMatches text ++ mentionMatches text
  selected : ∀ m ∈ urlMatches text ++ mentionMatches text, m ∈ filtered text ∨
    ∃ m' ∈ filtered text, m'.start ≤ m.start ∧ m.start < m'.stop
  tiles : (segments text).flatMap source = text
  escaped : html = ((segments text).flatMap (pieces cache selfId)).flatMap Piece.html
  markup : ∀ t, .markup t ∈ (segments text).flatMap (pieces cache selfId) →
    t ∈ [openUrl, openProfile, urlRest, profileRest, closeLink]
  inert : ∀ t, .user t ∈ (segments text).flatMap (pieces cache selfId) → Inert (Piece.user t).html
  links : hrefs html = (filtered text).map ContentMatch.href
  hrefs : ∀ address ∈ hrefs html, ∃ origin ∈ origins, origin <+: address
  shown : shown html = (segments text).flatMap (seen cache selfId)

theorem mem_markups {seg : Segment} {cache : ProfileCache} {selfId t : Text}
    (h : .markup t ∈ pieces cache selfId seg) :
    t ∈ [openUrl, openProfile, urlRest, profileRest, closeLink] := by
  cases seg with
  | inl gap => simp [pieces] at h
  | inr m =>
    unfold pieces at h
    cases htype : m.type with
    | url =>
      simp only [htype] at h
      have hcases : t = openUrl ∨ t = urlRest ∨ t = closeLink := by simpa using h
      rcases hcases with rfl | rfl | rfl <;> simp
    | mention =>
      simp only [htype] at h
      have hcases : t = openProfile ∨ t = profileRest ∨ t = closeLink := by simpa using h
      rcases hcases with rfl | rfl | rfl <;> simp

theorem hrefs_weave (text : Text) (last : ℕ) (ms : List ContentMatch) :
    (weave ContentMatch.start ContentMatch.stop text last ms).flatMap segmentHref = ms.map ContentMatch.href := by
  induction ms generalizing last with
  | nil =>
    unfold weave
    split <;> rfl
  | cons m ms ih =>
    have hgap : (if last < m.start then [Sum.inl (slice text last m.start)] else []).flatMap segmentHref = [] := by
      split <;> rfl
    unfold weave
    rw [List.flatMap_append, hgap, List.flatMap_cons, ih]
    rfl

theorem ContentMatch.Found.href_begins {text : Text} {m : ContentMatch} (h : m.Found text) :
    ∃ origin ∈ origins, origin <+: m.href := by
  unfold ContentMatch.href
  cases htype : m.type with
  | url =>
    obtain ⟨scheme, hmem, hbegins⟩ := h.url htype
    have hlisted : ∀ scheme ∈ schemes, scheme ∈ origins := by decide
    exact ⟨scheme, hlisted scheme hmem, hbegins⟩
  | mention => exact ⟨units "/profile/", by simp [origins], List.prefix_append _ _⟩

theorem renderContent_inert (cache : ProfileCache) (text selfId : Text) :
    RendersInert cache text selfId (renderContent cache text selfId) := by
  have heq := renderContent_eq cache text selfId
  have hlinks : Html.hrefs (renderContent cache text selfId) = (filtered text).map ContentMatch.href := by
    rw [heq, hrefs_segments]
    exact hrefs_weave text 0 (filtered text)
  refine ⟨(inOrder_filtered text).pairwise, fun m hm => found_of_mem_filtered hm, filtered_subset text,
    fun m hm => filtered_covers hm, ?_, ?_, ?_, ?_, hlinks, ?_, ?_⟩
  · exact flatMap_weave (inOrder_filtered text) fun m hm => (found_of_mem_filtered hm).text_eq
  · rw [heq, List.flatMap_assoc]
    rfl
  · intro t ht
    obtain ⟨seg, -, hseg⟩ := List.mem_flatMap.mp ht
    exact mem_markups hseg
  · intro t _
    exact inert_escapeHtml t
  · rw [hlinks]
    intro address haddress
    obtain ⟨m, hm, rfl⟩ := List.mem_map.mp haddress
    exact (found_of_mem_filtered hm).href_begins
  · unfold Html.shown
    rw [heq, stripTags_segments, unescape_escape]

end Proscenium.Frontend
