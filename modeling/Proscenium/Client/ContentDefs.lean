import Proscenium.Client.ProfileDefs
import Proscenium.Types.Content

/-! Posts and interactions of the client: the two tables with the statements
that write them, and the checks every incoming item goes through before it is
stored. Gossip, pushes and syncs differ in what they check before that. -/

namespace Proscenium.Client

open Proscenium.Types

structure ContentStore where
  posts : List Post
  interactions : List Interaction
  deriving DecidableEq, Repr

/-- The statements that may fail, with those of the tables behind a profile. -/
inductive PeerStatement where
  | table (s : Statement)
  | insertPost
  | saveInteraction
  | postById
  | deletePost
  | deleteInteraction
  | peerDelegation
  | transportNodeIds
  | announcementVersion
  | saveAnnouncement
  | updateTransportNodeIds
  deriving DecidableEq, Repr

abbrev PeerFails := PeerStatement → Bool

def PeerFails.table (fails : PeerFails) : Fails := fun s => fails (.table s)

namespace ContentStore

def insertPost (p : Post) (c : ContentStore) : ContentStore :=
  { c with posts := Table.insertOrIgnore (fun q => q.author = p.author ∧ q.id = p.id) p c.posts }

def saveInteraction (i : Interaction) (c : ContentStore) : ContentStore :=
  { c with
    interactions := Table.insertOrIgnore (fun j => j.author = i.author ∧
      (j.id = i.id ∨ j.kind = i.kind ∧ j.targetPostId = i.targetPostId)) i c.interactions }

def getPostById (id : String) (c : ContentStore) : Option Post := c.posts.find? (·.id = id)

def deletePost (id : String) (c : ContentStore) : ContentStore :=
  { c with posts := Table.deleteWhere (·.id = id) c.posts }

def deleteInteraction (id author : String) (c : ContentStore) : ContentStore :=
  { c with
    interactions := Table.deleteWhere (fun i => i.id = id ∧ i.author = author) c.interactions }

def postsBy (author : String) (c : ContentStore) : List Post := c.posts.filter (·.author = author)

def interactionsBy (author : String) (c : ContentStore) : List Interaction :=
  c.interactions.filter (·.author = author)

end ContentStore

variable (S : SignatureCrates) (fails : PeerFails) (now : UInt64)

def signerAccepts (verify : PublicKey → Except String Unit) (author : String) (st : Storage) : Bool :=
  match resolveSigner S fails.table author st with
  | some signer => (verify signer).toBool
  | none => false

def acceptsPost (p : Post) (st : Storage) : Bool :=
  (validatePost now p).toBool && signerAccepts S fails (verifyPostSignature S p) p.author st

def processIncomingPost (p : Post) (st : Storage) (c : ContentStore) : Bool × ContentStore :=
  if acceptsPost S fails now p st ∧ fails .insertPost = false then (true, c.insertPost p)
  else (false, c)

def acceptsInteraction (i : Interaction) (expectedAuthor : String) (st : Storage) : Bool :=
  decide (i.author = expectedAuthor) && (validateInteraction now i).toBool &&
    signerAccepts S fails (verifyInteractionSignature S i) i.author st

def processIncomingInteraction (i : Interaction) (expectedAuthor : String) (st : Storage)
    (c : ContentStore) : ContentStore :=
  if acceptsInteraction S fails now i expectedAuthor st ∧ fails .saveInteraction = false then
    c.saveInteraction i
  else c

/-- Does a deletion pass the check of its signature? One whose author's key cannot be resolved
does. -/
def deletionSigned (verify : PublicKey → Except String Unit) (author : String) (st : Storage) :
    Bool :=
  match resolveSigner S fails.table author st with
  | some signer => (verify signer).toBool
  | none => true

/-- A `DeletePost` on the topic of `pk`. -/
def handleDeletePost (pk id author signature : String) (st : Storage) (c : ContentStore) :
    ContentStore :=
  if author = pk ∧ deletionSigned S fails (verifyDeletePostSignature S id author signature) pk st then
    match if fails .postById then none else c.getPostById id with
    | some post => if post.author = pk ∧ fails .deletePost = false then c.deletePost id else c
    | none => c
  else c

/-- A `DeleteInteraction` on the topic of `pk`. -/
def handleDeleteInteraction (pk id author signature : String) (st : Storage) (c : ContentStore) :
    ContentStore :=
  if author = pk ∧
      deletionSigned S fails (verifyDeleteInteractionSignature S id author signature) pk st ∧
      fails .deleteInteraction = false then
    c.deleteInteraction id author
  else c

end Proscenium.Client
