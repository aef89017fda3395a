import Proscenium.Client.ProfileDefs
import Proscenium.Lib.Machine

/-! The own-feed topic of the gossip service and the visibility stored for its
owner. `save_my_profile` and `start_own_feed` are tasks that stop at every
await, so their steps interleave with each other and with what the user
publishes; the outcome of each awaited operation is in the label. -/

namespace Proscenium.Gossip

open Proscenium.Types Client

/-- Where a `save_my_profile` call stands: what it does next. -/
inductive Phase where
  | readVisibility
  /-- The announcement of a downgrade, while the topic is still up. -/
  | announceDowngrade
  | stopOwnFeed
  | startOwnFeed
  | announceUpgrade
  | saveProfile
  | broadcastProfile
  deriving DecidableEq, Repr

inductive Task where
  /-- `changing` and `agreed` record the start of the call: does it change the stored
  visibility, and did the feed agree with the store? -/
  | save (profile : Profile) (phase : Phase) (changing agreed : Bool)
  /-- `start_own_feed`, before and after its check of the visibility. -/
  | start (checked : Bool)
  deriving DecidableEq, Repr

inductive Item where
  | profile (profile : Profile)
  | post (id : String)
  | interaction (id : String)
  | deletePost (id : String)
  | deleteInteraction (id : String)
  | heartbeat
  deriving DecidableEq, Repr

/-- What went out and what calls returned, newest first, with the visibility stored then. -/
inductive Event where
  | broadcast (item : Item) (stored : Visibility)
  | pushed (item : Item) (recipients : List String) (stored : Visibility)
  | saved
  | saveFailed (agreed agrees : Bool)
  deriving DecidableEq, Repr

structure GossipClient where
  storage : Storage
  mySender : Bool
  /-- The listener task, and whether it still runs. -/
  ownFeedHandle : Option Bool
  tasks : List Task
  log : List Event
  deriving DecidableEq, Repr

inductive Label where
  | saveMyProfile (req : ProfileRequest)
  | startOwnFeed
  /-- The `i`-th task goes on; `ok` is the outcome of what it awaits. -/
  | task (i : Nat) (ok : Bool)
  | publish (item : Item) (ok : Bool)
  | ownFeedEnds
  | restart
  | socialGraph (rows : List SocialRow)
  deriving DecidableEq, Repr

namespace GossipClient

variable (me : String)

def visibility (c : GossipClient) : Visibility := c.storage.getVisibility me

/-- The own feed is up exactly when the stored visibility is public. -/
def agrees (c : GossipClient) : Bool := c.mySender == decide (c.visibility me = .isPublic)

def record (c : GossipClient) (e : Event) : GossipClient := { c with log := e :: c.log }

def pushRecipients (c : GossipClient) : List String :=
  match c.visibility me with
  | .isPublic => []
  | .listed => c.storage.getFollowers me
  | .isPrivate =>
    (c.storage.getFollowers me).filter fun pk => (c.storage.getFollows me).contains pk

def Item.hasPush : Item → Bool
  | .profile _ | .post _ | .interaction _ => true
  | .deletePost _ | .deleteInteraction _ | .heartbeat => false

/-- `broadcast_msg` with the fallback of its callers; `none` is its error. -/
def broadcast (c : GossipClient) (item : Item) (ok : Bool) : Option GossipClient :=
  if c.mySender then
    if ok then some (c.record (.broadcast item (c.visibility me))) else none
  else if Item.hasPush item then
    some (c.record (.pushed item (c.pushRecipients me) (c.visibility me)))
  else some c

def stopOwnFeed (c : GossipClient) : GossipClient :=
  match c.ownFeedHandle with
  | some _ => { c with ownFeedHandle := none, mySender := false }
  | none => c

/-- `none` when the subscription fails. -/
def startOwnFeedUnconditional (c : GossipClient) (subscribed : Bool) : Option GossipClient :=
  if c.ownFeedHandle = some true then some c
  else if subscribed then some { c with mySender := true, ownFeedHandle := some true }
  else none

/-- The first phase of `handle_visibility_change`, or the write when nothing changes. -/
def transitionPhase (old new : Visibility) : Phase :=
  if old = new then .saveProfile
  else if old = .isPublic then .announceDowngrade
  else if new = .isPublic then .startOwnFeed
  else .saveProfile

/-- A task continues, or ends (`none`). -/
def runTask (c : GossipClient) (ok : Bool) : Task → GossipClient × Option Task
  | .save profile phase changing agreed =>
    let goOn (c : GossipClient) (next : Phase) := (c, some (Task.save profile next changing agreed))
    let failed := (c.record (.saveFailed agreed (c.agrees me)), none)
    match phase with
    | .readVisibility =>
      goOn c (transitionPhase (if ok then c.visibility me else .isPublic) profile.visibility)
    | .announceDowngrade =>
      match c.broadcast me (.profile profile) ok with
      | some c => goOn c .stopOwnFeed
      | none => failed
    | .stopOwnFeed => goOn c.stopOwnFeed .saveProfile
    | .startOwnFeed =>
      match c.startOwnFeedUnconditional ok with
      | some c => goOn c .announceUpgrade
      | none => failed
    | .announceUpgrade =>
      match c.broadcast me (.profile profile) ok with
      | some c => goOn c .saveProfile
      | none => failed
    | .saveProfile =>
      if ok then goOn { c with storage := c.storage.saveProfile me profile } .broadcastProfile
      else failed
    | .broadcastProfile =>
      match c.broadcast me (.profile profile) ok with
      | some c => (c.record .saved, none)
      | none => failed
  | .start checked =>
    if checked then ((c.startOwnFeedUnconditional ok).getD c, none)
    else if (if ok then c.visibility me else .isPublic) = .isPublic then (c, some (.start true))
    else (c, none)

def advance (c : GossipClient) (i : Nat) : Option Task → GossipClient
  | some t => { c with tasks := c.tasks.set i t }
  | none => { c with tasks := c.tasks.eraseIdx i }

variable (sign : Bytes → String)

def step (c : GossipClient) : Label → Option GossipClient
  | .saveMyProfile req =>
    match req.prepare sign with
    | .error _ => some (c.record (.saveFailed (c.agrees me) (c.agrees me)))
    | .ok profile => some { c with
        tasks := c.tasks ++ [.save profile .readVisibility
          (decide (profile.visibility ≠ c.visibility me)) (c.agrees me)] }
  | .startOwnFeed => some { c with tasks := c.tasks ++ [.start false] }
  | .task i ok =>
    match c.tasks[i]? with
    | none => none
    | some t =>
      let out := c.runTask me ok t
      some (out.1.advance i out.2)
  -- a failed broadcast is only reported to the caller
  | .publish item ok => some ((c.broadcast me item ok).getD c)
  | .ownFeedEnds => some { c with ownFeedHandle := c.ownFeedHandle.map fun _ => false }
  | .restart => some { c with mySender := false, ownFeedHandle := none, tasks := [] }
  | .socialGraph rows => some { c with storage := { c.storage with socialGraph := rows } }

end GossipClient
end Proscenium.Gossip
