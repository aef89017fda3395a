import Proscenium.Client.AcceptDefs
import Proscenium.Client.RotationDefs

/-! An author and one follower. What goes from one to the other are the messages
on the author's own feed, identity responses, pushes and syncs; the follower
handles each of them to its end, and nothing fails there. Broadcast messages may
come late, more than once or never; the other three are built when they are
handled. Follow requests of the author, which carry a delegation as identity
responses do, are not among them. -/

namespace Proscenium.Client.Author

open Proscenium.Types Feed

/-- What a message on the feed of `pk` is to a follower. -/
def eventsOf (pk : String) : GossipMessage → List Event
  | .newPost p => [.post (some pk) p]
  | .deletePost id author signature => [.deletePost pk id author signature]
  | .newInteraction i => [.interaction pk i]
  | .deleteInteraction id author signature => [.deleteInteraction pk id author signature]
  | .profileUpdate profile => [.profileUpdate pk profile]
  | .linkedDevices a => [.linkedDevices pk a]
  | .signingKeyRotation rotation => [.signingKeyRotation pk rotation]
  | .other => []

inductive Delivery where
  /-- The `k`-th message that was broadcast. -/
  | gossip (k : Nat)
  | identityResponse (transportNodeIds : List String) (profile : Option Profile)
  | push (remote : String) (posts : List Post) (interactions : List Interaction)
      (profile : Option Profile)
  /-- The follower syncs, over a connection from `remote`. -/
  | sync (remote : String)
  deriving DecidableEq, Repr

namespace Device

/-- What the rotations under way broadcast in this step. -/
def broadcasts (w : Device) : Label → List GossipMessage
  | .task i true _ =>
    match w.tasks[i]? with
    | some (.rotate plan .broadcastRotation) => [.signingKeyRotation plan.rotation]
    | some (.rotate _ (.broadcastLinkedDevices a)) => [.linkedDevices a]
    | _ => []
  | _ => []

/-- Does a rotation succeed in this step? -/
def completesRotation (w : Device) : Label → Bool
  | .task i _ _ =>
    match w.tasks[i]? with
    | some (.rotate _ .setIdentity) => true
    | _ => false
  | _ => false

end Device

section Follower

variable (S : SignatureCrates) (you : String) (now : UInt64)

def finish (l : Client.Label) (w : Node) (t : Client.Task) : Node :=
  match w.runTask l t with
  | (w, none) => w
  | (w, some t) => (w.runTask l t).1

def receive (store : PeerStore) (e : Event) : PeerStore :=
  let l : Client.Label := ⟨.event e, now, noFails⟩
  let out := Node.handle S you l ⟨store, []⟩ e
  (out.tasks.foldl (finish l) ⟨out.store, []⟩).store

end Follower

structure World where
  author : Device
  /-- The author's tables that a sync reads. -/
  tables : Storage
  /-- Is the own feed up? It is while the author is public, but for moments. -/
  mySender : Bool
  broadcasts : List GossipMessage
  follower : PeerStore
  /-- Has a rotation succeeded? -/
  rotated : Bool
  /-- The index in the last delegation that reached the follower; a rotation message counts if its
  index is higher than that. -/
  told : Option UInt32
  deriving DecidableEq, Repr

namespace World

inductive Label where
  | author (l : Author.Label)
  | tables (st : Storage)
  | ownFeed (up : Bool)
  /-- Anything but a rotation. -/
  | broadcast (msg : GossipMessage)
  | deliver (d : Delivery) (now : UInt64)
  /-- What the follower does to its other tables. -/
  | follower (profiles : List ProfileRow) (socialGraph : List SocialRow) (content : ContentStore)
  deriving DecidableEq, Repr

variable (K : KeyCrates) (J : SerdeJson) (you : String)

def start (identity : Identity) (indexFile : Option UInt32) (linkedDevices : List DeviceEntry)
    (tables : Storage) : World :=
  ⟨.start identity indexFile linkedDevices, tables, false, [], ⟨⟨[], [], []⟩, [], ⟨[], []⟩⟩, false, none⟩

def masterPubkey (w : World) : String := w.author.identity.masterPubkey

def send (w : World) (msgs : List GossipMessage) : World :=
  if w.mySender then { w with broadcasts := w.broadcasts ++ msgs } else w

/-- What the delivery is to the follower, unless it does not come about or is refused. -/
def events (w : World) : Delivery → Option (List Event)
  | .gossip k => w.broadcasts[k]?.map (eventsOf w.masterPubkey)
  | .identityResponse ids profile =>
    some [.identity ⟨w.masterPubkey, w.author.identity.delegation, ids, profile⟩]
  | .push remote posts interactions profile =>
    let msg : PushMessage := ⟨w.masterPubkey, posts.length, interactions.length, profile⟩
    if w.follower.storage.takesPush you remote msg then
      some (posts.map (.post (some w.masterPubkey)) ++ interactions.map (.interaction w.masterPubkey) ++
        [.pushProfile remote msg])
    else none
  | .sync remote =>
    let peer : SyncPeer := ⟨w.masterPubkey, w.tables, w.author.content⟩
    (syncFromPeer J peer remote w.masterPubkey w.follower.content).map fun result =>
      result.posts.map (.post none) ++ result.profile.toList.map (.syncProfile w.masterPubkey) ++
        result.interactions.map (.interaction w.masterPubkey)

/-- The index in the last delegation, this delivery included. -/
def heard (w : World) : Delivery → Option UInt32
  | .identityResponse _ _ => some w.author.identity.signingKeyIndex
  | .gossip k =>
    match w.broadcasts[k]? with
    | some (.signingKeyRotation rotation) =>
      if ∀ i ∈ w.told, i < rotation.newKeyIndex then some rotation.newKeyIndex else w.told
    | _ => w.told
  | .push .. | .sync _ => w.told

def step (w : World) : Label → Option World
  | .author l => (w.author.step K l).map fun author =>
    { w.send (w.author.broadcasts l) with
      author
      rotated := w.rotated || w.author.completesRotation l }
  | .tables st => some { w with tables := st }
  | .ownFeed up => some { w with mySender := up }
  | .broadcast (.signingKeyRotation _) => none
  | .broadcast msg => some (w.send [msg])
  | .deliver d now => (w.events J you d).map fun events =>
    { w with
      follower := events.foldl (receive K.toSignatureCrates you now) w.follower
      told := w.heard d }
  | .follower profiles socialGraph content =>
    let storage := { w.follower.storage with profiles, socialGraph }
    some { w with follower := { w.follower with storage, content } }

end World
end Proscenium.Client.Author
