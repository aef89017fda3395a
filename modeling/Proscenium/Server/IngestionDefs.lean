import Proscenium.Server.RegistrationDefs
import Proscenium.Types.Content

/-! What the discovery server stores of what authors write: the check of every
post and interaction it is given, and the tables they go to. A row of `posts`
or `interactions` is stored only for an author that is registered. -/

namespace Proscenium.Server

open Proscenium.Types

structure SyncRow where
  pubkey : String
  lastSyncedAt : Int64
  lastPostTimestamp : Option Int64
  lastInteractionTimestamp : Option Int64
  deriving DecidableEq, Repr

/-- The tables of an ingestion; of `registrations`, the keys. -/
structure Index where
  registered : List String
  peerDelegations : List PeerDelegation
  posts : List Post
  interactions : List Interaction
  syncState : List SyncRow
  deriving DecidableEq, Repr

inductive IngestStatement where
  | signingPubkey
  | insertPost
  | insertInteraction
  deriving DecidableEq, Repr

abbrev IngestFails := IngestStatement → Bool

namespace Index

def getPeerSigningPubkey (masterPubkey : String) (ix : Index) : Option String :=
  (Table.find PeerDelegation.masterPubkey masterPubkey ix.peerDelegations).map
    PeerDelegation.signingPubkey

def insertPost (p : Post) (ix : Index) : Index :=
  { ix with posts := Table.insertOrIgnore (fun q => q.author = p.author ∧ q.id = p.id) p ix.posts }

def insertInteraction (i : Interaction) (ix : Index) : Index :=
  { ix with
    interactions := Table.insertOrIgnore (fun j => j.author = i.author ∧ j.id = i.id) i
      ix.interactions }

end Index

variable (S : SignatureCrates) (fails : IngestFails) (now : UInt64)

/-- The key that an author's content is verified with: the cached signing key, which has to be a
key, and the author's own key only if there is none. -/
def signerOf (author : String) (ix : Index) : Except String PublicKey :=
  match if fails .signingPubkey then none else ix.getPeerSigningPubkey author with
  | some signingPubkey => S.parsePublicKey signingPubkey
  | none => S.parsePublicKey author

def signerAccepts (verify : PublicKey → Except String Unit) (author : String) (ix : Index) : Bool :=
  match signerOf S fails author ix with
  | .ok signer => (verify signer).toBool
  | .error _ => false

def acceptsPost (p : Post) (ix : Index) : Bool :=
  (validatePost now p).toBool && signerAccepts S fails (verifyPostSignature S p) p.author ix

def acceptsInteraction (i : Interaction) (ix : Index) : Bool :=
  (validateInteraction now i).toBool &&
    signerAccepts S fails (verifyInteractionSignature S i) i.author ix

def ingestPost (p : Post) (ix : Index) : Index :=
  if acceptsPost S fails now p ix ∧ fails .insertPost = false ∧ p.author ∈ ix.registered then
    ix.insertPost p
  else ix

def ingestInteraction (i : Interaction) (ix : Index) : Index :=
  if acceptsInteraction S fails now i ix ∧ fails .insertInteraction = false ∧
      i.author ∈ ix.registered then
    ix.insertInteraction i
  else ix

end Proscenium.Server
