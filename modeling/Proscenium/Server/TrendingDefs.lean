import Proscenium.Lib.CursorWalk
import Proscenium.Server.VisibilityDefs

/-! The trending hashtags of the server (`server/src/trending.rs`): the newest
posts of public users are scanned for hashtags, and the tags counted in a map.
What Rust takes for a letter and how it makes it small is a parameter. -/

namespace Proscenium.Server

open Proscenium.Types Timeline

/-- `char::is_alphanumeric` and `str::to_lowercase`; the sign itself is no letter. -/
structure CharCase where
  isAlphanumeric : Char → Bool
  toLowercase : List Char → String
  isAlphanumeric_hash : isAlphanumeric '#' = false

variable (U : CharCase)

def CharCase.isTagChar (c : Char) : Bool := U.isAlphanumeric c || c = '_'

/-- The loop over the characters; the inner one stops before the first that is not of the tag. -/
def extractHashtags : List Char → List String
  | [] => []
  | ch :: chars =>
    if ch = '#' then
      let tag := chars.takeWhile U.isTagChar
      let tags := extractHashtags (chars.dropWhile U.isTagChar)
      if tag.isEmpty then tags else U.toLowercase tag :: tags
    else extractHashtags chars
termination_by chars => chars.length
decreasing_by
  · exact Nat.lt_succ_of_le (List.length_dropWhile_le _ _)
  · exact Nat.lt_succ_self _

structure TagStats where
  posts : List Int64
  authors : Finset String
  deriving DecidableEq

/-- `score`, of the type `F`, is what the floating-point formula comes to. -/
structure TrendingHashtag (F : Type) where
  tag : String
  postCount : ℕ
  uniqueAuthors : ℕ
  latestPostAt : Int64
  score : F
  computedAt : Int64

namespace Store

/-- The rows of `get_feed(limit, None, None)`. -/
def isPublic (s : Store) (p : Post) : Bool :=
  s.registrations.any fun r => r.pubkey = p.author ∧ r.visibility = "public" ∧ r.isActive = 1

variable (order : NewestFirst Post.storedTimestamp)

def feedPage (s : Store) (limit : Int64) : List Post :=
  limited limit (order.sort (s.posts.filter s.isPublic))

end Store

def trendingLimit : Int64 := 10000

def cutoff (now : Int64) (windowHours : UInt64) : Int64 := now - (windowHours * 60 * 60 * 1000).toInt64

def inWindow (since : Int64) (p : Post) : Bool := since ≤ p.storedTimestamp

def windowPosts (order : NewestFirst Post.storedTimestamp) (s : Store) (since : Int64) : List Post :=
  (s.feedPage order trendingLimit).filter (inWindow since)

abbrev TagMap := List (String × TagStats)

/-- `entry(tag).or_insert_with`, and the two insertions. -/
def countTag (p : Post) (m : TagMap) (tag : String) : TagMap :=
  Table.upsert Prod.fst tag (tag, ⟨[p.storedTimestamp], {p.author}⟩)
    (fun e => (e.1, ⟨e.2.posts ++ [p.storedTimestamp], insert p.author e.2.authors⟩)) m

def countPost (m : TagMap) (p : Post) : TagMap := (extractHashtags U p.content.toList).foldl (countTag p) m

def tagStats (posts : List Post) : TagMap := posts.foldl (countPost U) []

variable {F : Type} (score : Int64 → TagStats → F)

def toTrending (now : Int64) (e : String × TagStats) : TrendingHashtag F where
  tag := e.1
  postCount := e.2.posts.length
  uniqueAuthors := e.2.authors.card
  latestPostAt := e.2.posts.max?.getD now
  score := score now e.2
  computedAt := now

/-- What comes out of the map, before it is sorted by the score and cut to fifty. -/
def aggregate (now : Int64) (posts : List Post) : List (TrendingHashtag F) :=
  (tagStats U posts).map (toTrending score now)

def maxTrending : ℕ := 50

/-- What `update_trending` gets; `byScore` is the sort. -/
def computeTrending (order : NewestFirst Post.storedTimestamp)
    (byScore : List (TrendingHashtag F) → List (TrendingHashtag F)) (s : Store) (now : Int64)
    (windowHours : UInt64) : List (TrendingHashtag F) :=
  (byScore (aggregate U score now (windowPosts order s (cutoff now windowHours)))).take maxTrending

end Proscenium.Server
