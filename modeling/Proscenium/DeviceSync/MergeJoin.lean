import Proscenium.DeviceSync.DeltaDefs
import Proscenium.Lib.LwwJoin

/-! Merging follows, mutes and blocks is a join: the newest entry of a key wins,
whatever list it came in. The times are stored as signed integers and compared
as unsigned ones, so one beyond `i64::MAX` is negative in its row and still the newest. -/

namespace Proscenium.DeviceSync

open Proscenium.Types Client Lww

theorem followWire_faithful (me : String) : (followWire me).Faithful := by
  constructor
  case entry_row =>
    intro e
    simp [followWire]
  case entry_update =>
    intro e r hkey
    obtain ⟨hme, hfollowee⟩ := Prod.mk.inj hkey
    simp [followWire, hme, hfollowee]
  case update_row =>
    intro e f hkey
    have hpubkey : f.pubkey = e.pubkey := (Prod.mk.inj hkey).2
    simp [followWire, hpubkey]
  case update_update =>
    intro e f r
    rfl

theorem moderationWire_faithful : moderationWire.Faithful := by
  constructor
  case entry_row =>
    intro e
    simp [moderationWire]
  case entry_update =>
    intro e r hkey
    obtain ⟨hpubkey, hkind⟩ := Prod.mk.inj hkey
    simp [moderationWire, hpubkey, hkind]
  case update_row =>
    intro e f hkey
    obtain ⟨hpubkey, hkind⟩ := Prod.mk.inj hkey
    simp [moderationWire, hpubkey, hkind]
  case update_update =>
    intro e f r
    rfl

/-- Both merges are joins, for times of the whole range. -/
theorem lww_merges_join (me : String) (follows : List FollowEntry) (g : SocialGraph)
    (marks : List ModerationEntry) (m : Moderation)
    (hfollows : (followWire me).Consistent follows g.rows)
    (hmarks : moderationWire.Consistent marks m.rows) :
    (followWire me).Joins SocialGraph.rows (mergeFollowsLww me) follows g ∧
      moderationWire.Joins Moderation.rows mergeModerationLww marks m := by
  have hgraph : Function.Injective SocialGraph.rows := by
    intro g g' h
    cases g
    cases g'
    simpa using h
  have hmoderation : Function.Injective Moderation.rows := by
    intro m m' h
    cases m
    cases m'
    simpa using h
  constructor
  · apply Wire.joins_of_merge (followWire_faithful me) SocialGraph.nodup_keys _ hgraph hfollows
    intro entries t
    rfl
  · apply Wire.joins_of_merge moderationWire_faithful Moderation.nodup_keys _ hmoderation hmarks
    intro entries t
    rfl

section Examples

/-- The times of the rows here are 7 and, read as signed, -1. -/
theorem lww_merges_join_extremes :
    let follows : List FollowEntry :=
      [⟨"bob", 3, "removed", 9223372036854775808⟩, ⟨"bob", 18446744073709551615, "active", u64Max⟩,
        ⟨"bob", 3, "removed", 9223372036854775808⟩]
    let g : SocialGraph :=
      ⟨[⟨"alice", "bob", some 5, "active", 7, some 5, none, true⟩], List.nodup_singleton _⟩
    let marks : List ModerationEntry :=
      [⟨"bob", "mute", 1, "active", 9223372036854775807⟩, ⟨"carol", "block", 2, "active", 1⟩]
    let m : Moderation := ⟨[⟨"bob", "mute", 4, "removed", -1⟩], List.nodup_singleton _⟩
    (followWire "alice").Joins SocialGraph.rows (mergeFollowsLww "alice") follows g ∧
      moderationWire.Joins Moderation.rows mergeModerationLww marks m := by
  apply lww_merges_join
  · constructor
    · decide +kernel
    · decide +kernel
  · constructor
    · decide +kernel
    · decide +kernel

end Examples

end Proscenium.DeviceSync
