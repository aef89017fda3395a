import Proscenium.Client.DeletionAuthority
import Proscenium.Client.ModerationDefs
import Proscenium.Dm.MailboxDefs
import Proscenium.Lib.CursorWalk
import Proscenium.Server.VisibilityDefs

/-! The lists that are read page by page: the feed, the posts of an author, the
messages of a conversation and the notifications on a device, and the posts of a
user on a server. The cursor is the time of the oldest row that was shown. -/

namespace Proscenium

open Proscenium.Types Client Dm
open Timeline

def Dm.StoredMessage.storedTimestamp (m : StoredMessage) : Int64 := m.timestamp.toInt64

namespace Client

/-- `LIKE` with the text anywhere, which does not tell the cases of ASCII letters apart. -/
def sqlContains (needle : String) (text : List Char) : Bool :=
  (text.map Char.toLower).tails.any needle.toList.isPrefixOf

def mediaJson (p : Post) : List Char := arrayText (p.media.map mediaText)

def mediaClause (mediaFilter : Option String) (p : Post) : Bool :=
  if mediaFilter = some "images" then sqlContains "image/" (mediaJson p)
  else if mediaFilter = some "videos" then sqlContains "video/" (mediaJson p)
  else if mediaFilter = some "audio" then sqlContains "audio/" (mediaJson p)
  else if mediaFilter = some "files" then
    mediaJson p ≠ "[]".toList ∧ !sqlContains "image/" (mediaJson p) ∧ !sqlContains "video/" (mediaJson p) ∧
      !sqlContains "audio/" (mediaJson p)
  else if mediaFilter = some "text" then mediaJson p = "[]".toList
  else true

def inFeed (m : Moderation) (p : Post) : Bool := !m.isHidden p.author

def isBy (author : String) (mediaFilter : Option String) (p : Post) : Bool :=
  p.author = author ∧ mediaClause mediaFilter p

def isNoticed (m : Moderation) (n : Notification) : Bool := !m.isHidden n.actor

def isIn (conversationId : String) (r : StoredMessage) : Bool := r.conversationId = conversationId

section Queries

variable (posts : NewestFirst Post.storedTimestamp) (messages : NewestFirst StoredMessage.storedTimestamp)
variable (notices : NewestFirst Notification.timestamp)

def getFeed (m : Moderation) (c : ContentStore) (limit : UInt64) (before : Option UInt64) : List Post :=
  selectPage posts UInt64.toInt64 (inFeed m) c.posts limit.toInt64 before

def getPostsByAuthor (c : ContentStore) (author : String) (limit : UInt64) (mediaFilter : Option String)
    (before : Option UInt64) : List Post :=
  selectPage posts UInt64.toInt64 (isBy author mediaFilter) c.posts limit.toInt64 before

def getDmMessages (m : Mailbox) (conversationId : String) (limit : UInt64) (before : Option UInt64) :
    List StoredMessage :=
  (selectPage messages UInt64.toInt64 (isIn conversationId) m.messages limit.toInt64 before).reverse

def getNotifications (m : Moderation) (s : NoticeStore) (limit : UInt64) (before : Option UInt64) :
    List Notification :=
  selectPage notices UInt64.toInt64 (isNoticed m) s.notifications limit.toInt64 before

/-- The statement behind the endpoint `get_user_posts` of a server. -/
def selectUserPosts (s : Server.Store) (pubkey : String) (limit : Int64) (before : Option Int64) : List Post :=
  selectPage posts id (fun p => p.author = pubkey) s.posts limit before

end Queries

/-- The walk ends, and it shows every row that is to be shown once if and only if `fits`. -/
def CompleteIff {ρ κ : Type} (query : Option κ → List ρ) (oldest : List ρ → Option κ) (shown : List ρ) (fits : Prop) :
    Prop :=
  ∃ pages, Walk query oldest none pages ∧ (pages.flatten.Perm shown ↔ fits)

theorem toInt64_ne_zero {limit : UInt64} (hlimit : 0 < limit) : limit.toInt64 ≠ 0 := by
  intro h
  have hzero : limit = 0 := by
    rw [← UInt64.toUInt64_toInt64 limit, h]
    rfl
  rw [hzero] at hlimit
  exact absurd hlimit (by decide)

/-- Every list is walked to its end, and completely if no rows of one time are cut by a page. -/
theorem pages_complete_iff (posts : NewestFirst Post.storedTimestamp)
    (messages : NewestFirst StoredMessage.storedTimestamp) (notices : NewestFirst Notification.timestamp)
    (m : Moderation) (s : NoticeStore) (mailbox : Mailbox) (server : Server.Store) (limit : UInt64) (rows : Int64)
    (hlimit : 0 < limit) (hrows : 0 < rows) :
    CompleteIff (getFeed posts m s.content limit) (fun p => p.getLast?.map Post.timestamp)
        (s.content.posts.filter (inFeed m))
        (FitsLimit Post.storedTimestamp limit.toInt64 (s.content.posts.filter (inFeed m))) ∧
      (∀ author mediaFilter, CompleteIff (getPostsByAuthor posts s.content author limit mediaFilter)
        (fun p => p.getLast?.map Post.timestamp) (s.content.posts.filter (isBy author mediaFilter))
        (FitsLimit Post.storedTimestamp limit.toInt64 (s.content.posts.filter (isBy author mediaFilter)))) ∧
      (∀ conversationId, CompleteIff (getDmMessages messages mailbox conversationId limit)
        (fun p => p.head?.map StoredMessage.timestamp) (mailbox.messages.filter (isIn conversationId))
        (FitsLimit StoredMessage.storedTimestamp limit.toInt64 (mailbox.messages.filter (isIn conversationId)))) ∧
      CompleteIff (getNotifications notices m s limit) (fun p => p.getLast?.map fun n => n.timestamp.toUInt64)
        (s.notifications.filter (isNoticed m))
        (FitsLimit Notification.timestamp limit.toInt64 (s.notifications.filter (isNoticed m))) ∧
      ∀ pubkey, CompleteIff (selectUserPosts posts server pubkey rows) (fun p => p.getLast?.map Post.storedTimestamp)
        (server.posts.filter fun p => p.author = pubkey)
        (FitsLimit Post.storedTimestamp rows (server.posts.filter fun p => p.author = pubkey)) := by
  have hlimit' := toInt64_ne_zero hlimit
  have hrows' : rows ≠ 0 := fun h => by simp [h] at hrows
  have hpost : ∀ p : List Post, (p.getLast?.map Post.timestamp).map UInt64.toInt64 =
      p.getLast?.map Post.storedTimestamp := fun p => by
    rw [Option.map_map]
    rfl
  refine ⟨?_, fun author mediaFilter => ?_, fun conversationId => ?_, ?_, fun pubkey => ?_⟩
  · exact exists_walk_selectPage id List.Perm.refl hpost hlimit'
  · exact exists_walk_selectPage id List.Perm.refl hpost hlimit'
  · refine exists_walk_selectPage List.reverse List.reverse_perm (fun p => ?_) hlimit'
    rw [List.head?_reverse, Option.map_map]
    rfl
  · refine exists_walk_selectPage id List.Perm.refl (fun p => ?_) hlimit'
    rw [Option.map_map]
    refine congrArg (Option.map · p.getLast?) (funext fun n => ?_)
    simp
  · exact exists_walk_selectPage id List.Perm.refl (fun p => by simp) hrows'

def twoAtOnce : ContentStore :=
  ⟨[⟨"p1", "a", "", 5, [], none, none, none, none, ""⟩, ⟨"p2", "b", "", 5, [], none, none, none, none, ""⟩], []⟩

abbrev feedOf (limit : UInt64) : Option UInt64 → List Post := getFeed (stable _) Moderation.empty twoAtOnce limit

theorem pages_complete_two_at_once : ∃ pages, Walk (feedOf 2) (fun p => p.getLast?.map Post.timestamp) none pages ∧
    pages.flatten.Perm twoAtOnce.posts := by
  have hall := pages_complete_iff (stable _) (stable _) (stable _) Moderation.empty ⟨twoAtOnce, []⟩ Mailbox.empty
    Server.Store.empty 2 1 (by decide) (by decide)
  obtain ⟨pages, hwalk, hiff⟩ := hall.1
  refine ⟨pages, hwalk, hiff.mpr (.inr ?_)⟩
  decide

theorem not_complete_two_at_once : ¬ ∃ pages, Walk (feedOf 1) (fun p => p.getLast?.map Post.timestamp) none pages ∧
    pages.flatten.Perm (twoAtOnce.posts.filter (inFeed Moderation.empty)) := by
  rintro ⟨pages, hwalk, hperm⟩
  have hone : Walk (feedOf 1) (fun p => p.getLast?.map Post.timestamp) none [feedOf 1 none] :=
    .more (by decide) (by rfl) (.done (by rfl))
  rw [hwalk.unique hone] at hperm
  exact absurd hperm.length_eq (by decide)

end Client
end Proscenium
