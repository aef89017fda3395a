import Proscenium.Lib.Timeline
import Proscenium.Types.Identity

/-! The messages of a sync: what a client says it has of an author, what the
server makes of it, and the frames of the stream that follows. Of their JSON
texts the lengths matter, as each side limits what it reads. -/

namespace Proscenium.Types

def Post.storedTimestamp (p : Post) : Int64 := p.timestamp.toInt64

def Interaction.storedTimestamp (i : Interaction) : Int64 := i.timestamp.toInt64

structure SyncRequest where
  author : String
  postCount : Nat
  interactionCount : Nat
  newestTimestamp : UInt64
  newestInteractionTimestamp : UInt64
  deriving DecidableEq, Repr

inductive SyncMode where
  | upToDate
  | timestampCatchUp
  | needIdDiff
  deriving DecidableEq, Repr

structure SyncSummary where
  serverPostCount : Nat
  serverInteractionCount : Nat
  postsAfterCount : Nat
  interactionsAfterCount : Nat
  mode : SyncMode
  profile : Option Profile
  deriving DecidableEq, Repr

inductive SyncFrame where
  | posts (posts : List Post)
  | interactions (interactions : List Interaction)
  | deviceAnnouncements (announcements : List LinkedDevicesAnnouncement)
  deriving DecidableEq, Repr

namespace SyncFrame

def posts? : SyncFrame → List Post
  | .posts ps => ps
  | _ => []

def interactions? : SyncFrame → List Interaction
  | .interactions is => is
  | _ => []

end SyncFrame

/-- The lengths of what `serde_json` writes. -/
structure SerdeJson where
  summaryLen : SyncSummary → Nat
  idsLen : List String → Nat
  frameLen : SyncFrame → Nat
  frameLen_pos : ∀ frame, 0 < frameLen frame

/-- A frame is preceded by its length in four bytes, which a longer one does not fit in. -/
def SerdeJson.header (J : SerdeJson) (f : SyncFrame) : Nat := J.frameLen f % 2 ^ 32

def maxSummarySize : Nat := 65536
def maxFrameSize : Nat := 10000000
def maxKnownIdsSize : Nat := 5000000
def batchSize : Nat := 200

section Compact

/-! The texts themselves, without blanks. -/

def textLen (text : List Char) : Nat := (text.map Char.utf8Size).sum

def arrayText (items : List (List Char)) : List Char :=
  Char.ofNat 91 :: (Json.commaSep items ++ [Char.ofNat 93])

def objectText (fields : List (String × List Char)) : List Char :=
  Char.ofNat 123 :: (Json.commaSep (fields.map fun f =>
    Json.quote f.1 ++ Char.ofNat 58 :: f.2) ++ [Char.ofNat 125])

def numText (n : Nat) : List Char := (Json.Scalar.num n).render

def optionText (s : Option String) : List Char := (optionStr s).render

def SyncMode.toText : SyncMode → String
  | .upToDate => "UpToDate"
  | .timestampCatchUp => "TimestampCatchUp"
  | .needIdDiff => "NeedIdDiff"

def profileText (p : Profile) : List Char :=
  objectText [("display_name", Json.quote p.displayName), ("bio", Json.quote p.bio),
    ("avatar_hash", optionText p.avatarHash), ("avatar_ticket", optionText p.avatarTicket),
    ("visibility", Json.quote p.visibility.toText), ("signature", Json.quote p.signature)]

def summaryText (s : SyncSummary) : List Char :=
  objectText [("server_post_count", numText s.serverPostCount),
    ("server_interaction_count", numText s.serverInteractionCount),
    ("posts_after_count", numText s.postsAfterCount),
    ("interactions_after_count", numText s.interactionsAfterCount),
    ("mode", Json.quote s.mode.toText),
    ("profile", (s.profile.map profileText).getD (Json.Scalar.null).render)]

def mediaText (m : MediaAttachment) : List Char :=
  objectText [("hash", Json.quote m.hash), ("ticket", Json.quote m.ticket),
    ("mime_type", Json.quote m.mimeType), ("filename", Json.quote m.filename),
    ("size", numText m.size.toNat)]

def postText (p : Post) : List Char :=
  objectText [("id", Json.quote p.id), ("author", Json.quote p.author),
    ("content", Json.quote p.content), ("timestamp", numText p.timestamp.toNat),
    ("media", arrayText (p.media.map mediaText)), ("reply_to", optionText p.replyTo),
    ("reply_to_author", optionText p.replyToAuthor), ("quote_of", optionText p.quoteOf),
    ("quote_of_author", optionText p.quoteOfAuthor), ("signature", Json.quote p.signature)]

def interactionText (i : Interaction) : List Char :=
  objectText [("id", Json.quote i.id), ("author", Json.quote i.author), ("kind", Json.quote "Like"),
    ("target_post_id", Json.quote i.targetPostId), ("target_author", Json.quote i.targetAuthor),
    ("timestamp", numText i.timestamp.toNat), ("signature", Json.quote i.signature)]

def announcementText (a : LinkedDevicesAnnouncement) : List Char :=
  objectText [("master_pubkey", Json.quote a.masterPubkey), ("version", numText a.version.toNat)]

def frameText : SyncFrame → List Char
  | .posts ps => objectText [("Posts", arrayText (ps.map postText))]
  | .interactions is => objectText [("Interactions", arrayText (is.map interactionText))]
  | .deviceAnnouncements as =>
    objectText [("DeviceAnnouncements", arrayText (as.map announcementText))]

theorem length_le_textLen (text : List Char) : text.length ≤ textLen text := by
  induction text with
  | nil => exact Nat.le_refl 0
  | cons c text ih =>
    have hc := Char.utf8Size_pos c
    unfold textLen at ih ⊢
    rw [List.map_cons, List.sum_cons, List.length_cons]
    omega

def compactJson : SerdeJson where
  summaryLen s := textLen (summaryText s)
  idsLen ids := textLen (arrayText (ids.map Json.quote))
  frameLen frame := textLen (frameText frame)
  frameLen_pos frame := by
    have hlen := length_le_textLen (frameText frame)
    have hpos : 0 < (frameText frame).length := by
      cases frame with
      | posts ps => simp [frameText, objectText]
      | interactions is => simp [frameText, objectText]
      | deviceAnnouncements as => simp [frameText, objectText]
    omega

theorem length_le_escape (cs : List Char) : cs.length ≤ (cs.flatMap Json.escapeChar).length := by
  induction cs with
  | nil => exact Nat.le_refl 0
  | cons c cs ih =>
    have hc : 1 ≤ (Json.escapeChar c).length := by
      unfold Json.escapeChar
      split
      all_goals first | (split <;> simp) | simp
    rw [List.flatMap_cons, List.length_append, List.length_cons]
    omega

theorem length_le_idsLen (id : String) : id.toList.length ≤ compactJson.idsLen [id] := by
  have hescape := length_le_escape id.toList
  have htext := length_le_textLen (arrayText [Json.quote id])
  have hquote : id.toList.length ≤ (arrayText [Json.quote id]).length := by
    simp only [arrayText, Json.commaSep, Json.quote, List.length_cons, List.length_append]
    omega
  exact hquote.trans htext

end Compact

end Proscenium.Types
