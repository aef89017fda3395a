import Proscenium.Lib.Html
import Proscenium.Lib.Matches

/-! How the client shows a post (`src/lib/utils.ts`): web addresses and mentions
become links, everything else is escaped. A string is its UTF-16 code units, and
the two regular expressions are matchers at a position. -/

namespace Proscenium.Frontend

open Html Matches

def replaceAll (c : UInt16) (replacement t : Text) : Text := t.flatMap fun d => if d = c then replacement else [d]

def escapeHtml (text : Text) : Text :=
  replaceAll (unit '"') (units "&quot;") (replaceAll (unit '>') (units "&gt;")
    (replaceAll (unit '<') (units "&lt;") (replaceAll (unit '&') (units "&amp;") text)))

/-- `id.slice(0, 8) + "..." + id.slice(-4)`. -/
def shortId (id : Text) : Text := id.take 8 ++ units "..." ++ id.drop (id.length - 4)

/-- The class `\s`. -/
def isWhitespace (c : UInt16) : Bool :=
  c ∈ [0x20, 0xA0, 0x1680, 0x2028, 0x2029, 0x202F, 0x205F, 0x3000, 0xFEFF] || (0x09 ≤ c && c ≤ 0x0D) ||
    (0x2000 ≤ c && c ≤ 0x200A)

def isUrlChar (c : UInt16) : Bool :=
  !isWhitespace c && c ∉ [unit '<', unit '>', unit '"', unit '\'', unit ')', unit ']']

/-- `https?:\/\/`. -/
def schemes : List Text := [units "https://", units "http://"]

/-- `/https?:\/\/[^\s<>"')\]]+/`: nothing can follow a run of the class but its end. -/
def urlPattern (t : Text) : Option ℕ :=
  (schemes.find? (·.isPrefixOf t)).bind fun scheme =>
    let run := (t.drop scheme.length).takeWhile isUrlChar
    if run.isEmpty then none else some (scheme.length + run.length)

def isHexDigit (c : UInt16) : Bool :=
  (unit '0' ≤ c && c ≤ unit '9') || (unit 'a' ≤ c && c ≤ unit 'f') || (unit 'A' ≤ c && c ≤ unit 'F')

/-- `/@([0-9a-fA-F]{52,64})/`. -/
def mentionPattern : Text → Option ℕ
  | [] => none
  | c :: t =>
    let digits := min (t.takeWhile isHexDigit).length 64
    if c = unit '@' ∧ 52 ≤ digits then some (1 + digits) else none

/-- `toLowerCase` of hexadecimal digits. -/
def toLowerCase (t : Text) : Text := t.map fun c => if unit 'A' ≤ c ∧ c ≤ unit 'Z' then c + 32 else c

inductive MatchType where
  | url
  | mention
  deriving DecidableEq, Repr

structure ContentMatch where
  start : ℕ
  stop : ℕ
  type : MatchType
  text : Text
  pubkey : Option Text
  deriving DecidableEq, Repr

def urlMatches (text : Text) : List ContentMatch :=
  (findAll urlPattern 0 0 text).map fun r => ⟨r.1, r.2, .url, slice text r.1 r.2, none⟩

def mentionMatches (text : Text) : List ContentMatch :=
  (findAll mentionPattern 0 0 text).map fun r =>
    ⟨r.1, r.2, .mention, slice text r.1 r.2, some (toLowerCase ((slice text r.1 r.2).drop 1))⟩

def sortedMatches (text : Text) : List ContentMatch :=
  (urlMatches text ++ mentionMatches text).insertionSort fun a b => a.start ≤ b.start

def filtered (text : Text) : List ContentMatch :=
  select ContentMatch.start ContentMatch.stop 0 (sortedMatches text)

/-- The names of the profile cache; the lookups of missing ones end after the text is rendered. -/
abbrev ProfileCache := Text → Option Text

variable (cache : ProfileCache) (text selfId : Text)

def displayName (pubkey : Text) : Text :=
  if pubkey = selfId then units "You" else (cache pubkey).getD (shortId pubkey)

def renderMatch (m : ContentMatch) : List Text :=
  match m.type, m.pubkey with
  | .url, _ =>
    [units "<a href=\"" ++ escapeHtml m.text ++ units "\" target=\"_blank\" rel=\"noopener noreferrer\">" ++
      escapeHtml m.text ++ units "</a>"]
  | .mention, some pubkey =>
    if pubkey = [] then []
    else
      [units "<a href=\"/profile/" ++ escapeHtml pubkey ++ units "\" class=\"mention\">@" ++
        escapeHtml (displayName cache selfId pubkey) ++ units "</a>"]
  | .mention, none => []

def renderParts : ℕ → List ContentMatch → List Text
  | lastIndex, [] => if lastIndex < text.length then [escapeHtml (text.drop lastIndex)] else []
  | lastIndex, m :: ms =>
    (if m.start > lastIndex then [escapeHtml (slice text lastIndex m.start)] else []) ++
      renderMatch cache selfId m ++ renderParts m.stop ms

def renderContent : Text := (renderParts cache text selfId 0 (filtered text)).flatten

end Proscenium.Frontend
