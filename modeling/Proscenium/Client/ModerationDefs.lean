import Proscenium.Lib.Refresh
import Proscenium.Types.Signing

/-! The table of mutes and blocks. Lifting one leaves its row, with a state that
says so. -/

namespace Proscenium.Client

structure ModerationRow where
  pubkey : String
  kind : String
  createdAt : Int64
  state : String
  lastChangedAt : Int64
  deriving DecidableEq, Repr

def ModerationRow.key (r : ModerationRow) : String × String := (r.pubkey, r.kind)

structure Moderation where
  rows : List ModerationRow
  nodup_keys : (rows.map ModerationRow.key).Nodup

namespace Moderation

def empty : Moderation := ⟨[], List.nodup_nil⟩

def row (m : Moderation) (pubkey kind : String) : Option ModerationRow :=
  Table.find ModerationRow.key (pubkey, kind) m.rows

/-- `mute_user` and `block_user`; the time of the first one stays. -/
def activate (kind pubkey : String) (now : UInt64) (m : Moderation) : Moderation where
  rows := Table.upsert ModerationRow.key (pubkey, kind)
    ⟨pubkey, kind, now.toInt64, "active", now.toInt64⟩
    (fun r => { r with state := "active", lastChangedAt := now.toInt64 }) m.rows
  nodup_keys := Table.nodup_upsert (by rfl) (fun _ => by rfl) m.nodup_keys

def lift (kind pubkey : String) (now : UInt64) (m : Moderation) : Moderation where
  rows := Table.updateWhere (fun r => r.pubkey = pubkey ∧ r.kind = kind)
    (fun r => { r with state := "removed", lastChangedAt := now.toInt64 }) m.rows
  nodup_keys := by
    have hkeys : (Table.updateWhere (fun r : ModerationRow => r.pubkey = pubkey ∧ r.kind = kind)
        (fun r => { r with state := "removed", lastChangedAt := now.toInt64 }) m.rows).map
          ModerationRow.key = m.rows.map ModerationRow.key := by
      unfold Table.updateWhere
      rw [List.map_map]
      refine List.map_congr_left fun r _ => ?_
      simp only [Function.comp_apply]
      split <;> rfl
    rw [hkeys]
    exact m.nodup_keys

def blockUser (pubkey : String) (now : UInt64) (m : Moderation) : Moderation := m.activate "block" pubkey now

def unblockUser (pubkey : String) (now : UInt64) (m : Moderation) : Moderation := m.lift "block" pubkey now

def muteUser (pubkey : String) (now : UInt64) (m : Moderation) : Moderation := m.activate "mute" pubkey now

def unmuteUser (pubkey : String) (now : UInt64) (m : Moderation) : Moderation := m.lift "mute" pubkey now

def isBlocked (pubkey : String) (m : Moderation) : Bool :=
  m.rows.any fun r => r.pubkey = pubkey ∧ r.kind = "block" ∧ r.state = "active"

def isMuted (pubkey : String) (m : Moderation) : Bool :=
  m.rows.any fun r => r.pubkey = pubkey ∧ r.kind = "mute" ∧ r.state = "active"

def isHidden (pubkey : String) (m : Moderation) : Bool :=
  m.rows.any fun r => r.pubkey = pubkey ∧ r.state = "active"

end Moderation
end Proscenium.Client
