import Proscenium.Server.IngestionDefs
import Proscenium.Types.Sync

/-! The discovery server's own sync with the device of a user. It asks with
counts of zero and the newest timestamps it has seen before, sends no ids, and
takes in whatever frames arrive until one is missing or does not parse. Of the
profile in the summary nothing is followed. -/

namespace Proscenium.Server

open Proscenium.Types

namespace Index

def syncRow (pubkey : String) (ix : Index) : Option SyncRow := Table.find SyncRow.pubkey pubkey ix.syncState

def lastPostTimestamp (pubkey : String) (ix : Index) : Option Int64 :=
  (ix.syncRow pubkey).bind SyncRow.lastPostTimestamp

def lastInteractionTimestamp (pubkey : String) (ix : Index) : Option Int64 :=
  (ix.syncRow pubkey).bind SyncRow.lastInteractionTimestamp

/-- A timestamp that is not given leaves the one that is stored; a row stands only for a user that
is registered. -/
def updateSyncState (pubkey : String) (now : UInt64) (lastPostTs lastInteractionTs : Option Int64)
    (ix : Index) : Index :=
  if pubkey ∈ ix.registered then
    { ix with
      syncState := Table.upsert SyncRow.pubkey pubkey
        ⟨pubkey, now.toInt64, lastPostTs, lastInteractionTs⟩
        (fun r => ⟨r.pubkey, now.toInt64, lastPostTs.or r.lastPostTimestamp,
          lastInteractionTs.or r.lastInteractionTimestamp⟩) ix.syncState }
  else ix

end Index

/-- What the ingestion of an item meets: the clock, and the statements that fail. -/
structure IngestEnv where
  post : Post → IngestFails × UInt64
  interaction : Interaction → IngestFails × UInt64

structure Progress where
  index : Index
  postCount : Nat
  interactionCount : Nat
  lastPost : Option Int64
  lastInt : Option Int64
  deriving DecidableEq, Repr

/-- `last.is_none_or(|prev| ts > prev)`. -/
def latest (last : Option Int64) (ts : Int64) : Option Int64 :=
  if last.all (· < ts) then some ts else last

variable (S : SignatureCrates) (env : IngestEnv)

/-- A post counts whether it is stored or not. -/
def Progress.takePost (s : Progress) (p : Post) : Progress where
  index := ingestPost S (env.post p).1 (env.post p).2 p s.index
  postCount := s.postCount + 1
  interactionCount := s.interactionCount
  lastPost := latest s.lastPost p.storedTimestamp
  lastInt := s.lastInt

def Progress.takeInteraction (s : Progress) (i : Interaction) : Progress where
  index := ingestInteraction S (env.interaction i).1 (env.interaction i).2 i s.index
  postCount := s.postCount
  interactionCount := s.interactionCount + 1
  lastPost := s.lastPost
  lastInt := latest s.lastInt i.storedTimestamp

def Progress.takeFrame (s : Progress) : SyncFrame → Progress
  | .posts ps => ps.foldl (Progress.takePost S env) s
  | .interactions is => is.foldl (Progress.takeInteraction S env) s
  | .deviceAnnouncements _ => s

def takeFrames (frames : List SyncFrame) (ix : Index) : Progress :=
  frames.foldl (Progress.takeFrame S env) ⟨ix, 0, 0, none, none⟩

def serverSyncRequest (pubkey : String) (ix : Index) : SyncRequest where
  author := pubkey
  postCount := 0
  interactionCount := 0
  newestTimestamp := ((ix.lastPostTimestamp pubkey).map Int64.toUInt64).getD 0
  newestInteractionTimestamp := ((ix.lastInteractionTimestamp pubkey).map Int64.toUInt64).getD 0

/-- `answer` gives the summary, unless the connection or the reading of it fails, and the frames
that arrive. -/
def syncFromPeerInner (now : UInt64) (pubkey : String)
    (answer : SyncRequest → Option (SyncSummary × List SyncFrame)) (ix : Index) :
    Option (Nat × Nat) × Index :=
  match answer (serverSyncRequest pubkey ix) with
  | none => (none, ix)
  | some (summary, frames) =>
    if summary.mode = .upToDate then (some (0, 0), ix.updateSyncState pubkey now none none)
    else
      let s := takeFrames S env frames ix
      (some (s.postCount, s.interactionCount),
        s.index.updateSyncState pubkey now s.lastPost s.lastInt)

/-- The frames that are read of what a peer writes: up to the first whose length does not fit in its
header. -/
def readIngestFrames (J : SerdeJson) (frames : List SyncFrame) : List SyncFrame :=
  frames.takeWhile fun frame => J.header frame ≠ 0 ∧ J.header frame = J.frameLen frame

end Proscenium.Server
