import Proscenium.Types.Signing

/-! What users write: posts and interactions with the checks that receivers
make, direct messages and what goes over a session with a peer. A slice of a
text is given by bytes, as in the source, and panics inside a character. -/

namespace Proscenium.Types

structure MediaAttachment where
  hash : String
  ticket : String
  mimeType : String
  filename : String
  size : UInt64
  deriving DecidableEq, Repr

structure Post where
  id : String
  author : String
  content : String
  timestamp : UInt64
  media : List MediaAttachment
  replyTo : Option String
  replyToAuthor : Option String
  quoteOf : Option String
  quoteOfAuthor : Option String
  signature : String
  deriving DecidableEq, Repr

inductive InteractionKind where
  | like
  deriving DecidableEq, Repr

structure Interaction where
  id : String
  author : String
  kind : InteractionKind
  targetPostId : String
  targetAuthor : String
  timestamp : UInt64
  signature : String
  deriving DecidableEq, Repr

def maxPostContentLen : Nat := 10000
def maxMediaCount : Nat := 10
def maxTimestampDriftMs : Nat := 5 * 60 * 1000

/-- `now` is what the clock says. -/
def validateInteraction (now : UInt64) (i : Interaction) : Except String Unit :=
  if i.timestamp.toNat > now.toNat + maxTimestampDriftMs then
    .error ("interaction timestamp " ++ toString i.timestamp ++ " is too far in the future (now: " ++
      toString now ++ ")")
  else .ok ()

def validatePost (now : UInt64) (p : Post) : Except String Unit :=
  if p.content.utf8ByteSize > maxPostContentLen then
    .error ("post content too long: " ++ toString p.content.utf8ByteSize ++ " bytes (max " ++
      toString maxPostContentLen ++ ")")
  else if p.media.length > maxMediaCount then
    .error ("too many media attachments: " ++ toString p.media.length ++ " (max " ++
      toString maxMediaCount ++ ")")
  else if p.timestamp.toNat > now.toNat + maxTimestampDriftMs then
    .error ("post timestamp " ++ toString p.timestamp ++ " is too far in the future (now: " ++
      toString now ++ ")")
  else .ok ()

section Signing

variable (S : SignatureCrates)

def mediaFields (m : MediaAttachment) : List (String × Json.Atom) :=
  [("hash", .scalar (.str m.hash)), ("ticket", .scalar (.str m.ticket)),
    ("mime_type", .scalar (.str m.mimeType)), ("filename", .scalar (.str m.filename)),
    ("size", .scalar (.num m.size.toNat))]

def postSigningBytes (p : Post) : Bytes :=
  Json.entriesToVec [("id", .atom (.scalar (.str p.id))), ("author", .atom (.scalar (.str p.author))),
    ("content", .atom (.scalar (.str p.content))),
    ("timestamp", .atom (.scalar (.num p.timestamp.toNat))),
    ("media", .objects (p.media.map mediaFields)),
    ("reply_to", .atom (.scalar (optionStr p.replyTo))),
    ("reply_to_author", .atom (.scalar (optionStr p.replyToAuthor))),
    ("quote_of", .atom (.scalar (optionStr p.quoteOf))),
    ("quote_of_author", .atom (.scalar (optionStr p.quoteOfAuthor)))]

def interactionSigningBytes (i : Interaction) : Bytes :=
  Json.toVec [("id", .str i.id), ("author", .str i.author), ("kind", .str "Like"),
    ("target_post_id", .str i.targetPostId), ("target_author", .str i.targetAuthor),
    ("timestamp", .num i.timestamp.toNat)]

def deletePostSigningBytes (id author : String) : Bytes :=
  Json.toVec [("action", .str "delete_post"), ("id", .str id), ("author", .str author)]

def deleteInteractionSigningBytes (id author : String) : Bytes :=
  Json.toVec [("action", .str "delete_interaction"), ("id", .str id), ("author", .str author)]

/-- Every verification of content: `signature` over `bytes`, or an error naming `what`. -/
def verifySigned (what : String) (bytes : Bytes) (signature : String) (signerPubkey : PublicKey) :
    Except String Unit := do
  let sig ← hexToSignature S signature
  if S.verify signerPubkey bytes sig then .ok ()
  else .error (what ++ " signature verification failed")

theorem verifySigned_eq_ok {S : SignatureCrates} {what : String} {bytes : Bytes} {signature : String}
    {key : PublicKey} : verifySigned S what bytes signature key = .ok () ↔
      ∃ sig, hexToSignature S signature = .ok sig ∧ S.verify key bytes sig = true := by
  unfold verifySigned
  simp only [Checks.bind_eq_ok, Checks.accept_eq_ok]

def verifyPostSignature (p : Post) : PublicKey → Except String Unit :=
  verifySigned S "post" (postSigningBytes p) p.signature

def verifyInteractionSignature (i : Interaction) : PublicKey → Except String Unit :=
  verifySigned S "interaction" (interactionSigningBytes i) i.signature

def verifyDeletePostSignature (id author signature : String) : PublicKey → Except String Unit :=
  verifySigned S "delete post" (deletePostSigningBytes id author) signature

def verifyDeleteInteractionSignature (id author signature : String) :
    PublicKey → Except String Unit :=
  verifySigned S "delete interaction" (deleteInteractionSigningBytes id author) signature

end Signing

structure DirectMessage where
  id : String
  content : String
  timestamp : UInt64
  media : List MediaAttachment
  replyTo : Option String
  deriving DecidableEq, Repr

inductive DmPayload where
  | message (msg : DirectMessage)
  | typing
  | read (messageId : String)
  | delivered (messageId : String)
  | callOffer (callId : String) (video : Bool)
  | callAnswer (callId : String)
  | callReject (callId : String)
  | callHangup (callId : String)
  deriving DecidableEq, Repr

/-- The characters of the first `n` bytes, unless the cut is inside one or beyond the end. -/
def takeBytes : Nat → List Char → Option (List Char)
  | 0, _ => some []
  | _ + 1, [] => none
  | n + 1, c :: cs =>
    if c.utf8Size ≤ n + 1 then (takeBytes (n + 1 - c.utf8Size) cs).map (c :: ·) else none

/-- `&s[..n]`, or its panic. -/
def sliceTo (s : String) (n : Nat) : Option String := (takeBytes n s.toList).map String.ofList

/-- The preview of a message in the list of conversations, or the panic of its slice. -/
def previewOf (content : String) : Option String :=
  if content.utf8ByteSize > 80 then (sliceTo content 77).map (· ++ "...") else some content

end Proscenium.Types
