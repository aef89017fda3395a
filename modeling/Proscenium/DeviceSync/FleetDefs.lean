import Proscenium.DeviceSync.DeltaDefs
import Proscenium.Lib.LwwHistory
import Proscenium.Lib.Machine

/-! The devices of a user, with the follows, mutes and blocks they exchange. Each
device edits its own tables, and any number of sessions go on between any two of
them at the same time. A merge compares an entry in one statement and writes it
in another, and a session can break off before any statement, so all of these
are steps of their own. A vector is built in one step, though its entries come
from several queries: no edit of the device falls between them. Posts, interactions, bookmarks and ratchet sessions,
which travel in the same sessions, are not followed here. -/

namespace Proscenium.DeviceSync

open Proscenium.Types Client

inductive Key where
  | followee (pubkey : String)
  | mark (pubkey kind : String)
  deriving DecidableEq, Repr

inductive Entry where
  | follow (e : FollowEntry)
  | moderation (e : ModerationEntry)
  deriving DecidableEq, Repr

namespace Entry

def key : Entry → Key
  | follow e => .followee e.pubkey
  | moderation e => .mark e.pubkey e.kind

def lastChangedAt : Entry → UInt64
  | follow e => e.lastChangedAt
  | moderation e => e.lastChangedAt

end Entry

/-- What the user asks a device to do, each one statement. -/
inductive Edit where
  | follow (entry : SocialGraphEntry)
  | unfollow (pubkey : String)
  | muteUser (pubkey : String)
  | unmuteUser (pubkey : String)
  | blockUser (pubkey : String)
  | unblockUser (pubkey : String)
  deriving DecidableEq

namespace Edit

def key : Edit → Key
  | follow entry => .followee entry.pubkey
  | unfollow pubkey => .followee pubkey
  | muteUser pubkey => .mark pubkey "mute"
  | unmuteUser pubkey => .mark pubkey "mute"
  | blockUser pubkey => .mark pubkey "block"
  | unblockUser pubkey => .mark pubkey "block"

def apply (me : String) (now : UInt64) (st : OwnStore) : Edit → OwnStore
  | follow entry => { st with graph := st.graph.follow me entry now }
  | unfollow pubkey => { st with graph := st.graph.unfollow me pubkey now }
  | muteUser pubkey => { st with moderation := st.moderation.muteUser pubkey now }
  | unmuteUser pubkey => { st with moderation := st.moderation.unmuteUser pubkey now }
  | blockUser pubkey => { st with moderation := st.moderation.blockUser pubkey now }
  | unblockUser pubkey => { st with moderation := st.moderation.unblockUser pubkey now }

end Edit

namespace OwnStore

def exported (me : String) (st : OwnStore) : Key → Option Entry
  | .followee pubkey => ((st.graph.row me pubkey).bind (followWire me).entry).map .follow
  | .mark pubkey kind => ((st.moderation.row pubkey kind).bind moderationWire.entry).map .moderation

def shouldUpdate (me : String) (st : OwnStore) : Entry → Bool
  | .follow e => (st.graph.row me e.pubkey).all fun r =>
      (followWire me).stamp r < (followWire me).stampOf e
  | .moderation e => (st.moderation.row e.pubkey e.kind).all fun r =>
      moderationWire.stamp r < moderationWire.stampOf e

/-- The second one. -/
def write (me : String) (st : OwnStore) : Entry → OwnStore
  | .follow e =>
    { st with graph := ⟨(followWire me).put st.graph.rows e, Lww.Wire.nodup_put st.graph.nodup_keys⟩ }
  | .moderation e =>
    { st with moderation :=
      ⟨moderationWire.put st.moderation.rows e, Lww.Wire.nodup_put st.moderation.nodup_keys⟩ }

end OwnStore

namespace DeviceSyncVector

def entries (v : DeviceSyncVector) : List Entry := v.follows.map .follow ++ v.moderation.map .moderation

end DeviceSyncVector

/-- The entries that `send_deltas` takes from our vector, in the order of its frames. -/
def entryDeltas (me : String) (ours peer : DeviceSyncVector) : List Entry :=
  ((followWire me).deltas ours.follows peer.follows).map .follow ++
    (moderationWire.deltas ours.moderation peer.moderation).map .moderation

/-- Where a session stands. The initiator imports first; `reply` is what it sends after that. -/
inductive Session (ι : Type) where
  | requested (initiator responder : ι) (vector : DeviceSyncVector)
  | importing (sender importer : ι) (todo : List Entry) (chosen : Option Entry)
      (reply : Option (List Entry))

structure Fleet (ι : Type) where
  stores : ι → OwnStore
  sessions : ℕ → Option (Session ι)

/-- A step of the fleet; `drop` is a session that breaks off. -/
inductive FleetLabel (ι : Type) where
  | edit (device : ι) (edit : Edit) (now : UInt64)
  | request (session : ℕ) (initiator responder : ι)
  | answer (session : ℕ)
  | compare (session : ℕ)
  | write (session : ℕ)
  | finish (session : ℕ)
  | drop (session : ℕ)
  deriving DecidableEq

variable {ι : Type} [DecidableEq ι] (me : String)

namespace Fleet

def setSession (f : Fleet ι) (s : ℕ) (session : Option (Session ι)) : Fleet ι :=
  { f with sessions := Function.update f.sessions s session }

def setStore (f : Fleet ι) (device : ι) (st : OwnStore) : Fleet ι :=
  { f with stores := Function.update f.stores device st }

def step (f : Fleet ι) : FleetLabel ι → Option (Fleet ι)
  | .edit device edit now => some (f.setStore device (edit.apply me now (f.stores device)))
  | .request s initiator responder =>
    match f.sessions s with
    | none =>
      some (f.setSession s (some (.requested initiator responder
        ((f.stores initiator).buildDeviceSyncVector me))))
    | some _ => none
  | .answer s =>
    match f.sessions s with
    | some (.requested initiator responder vector) =>
      let ourVector := (f.stores responder).buildDeviceSyncVector me
      some (f.setSession s (some (.importing responder initiator (entryDeltas me ourVector vector) none
        (some (entryDeltas me vector ourVector)))))
    | _ => none
  | .compare s =>
    match f.sessions s with
    | some (.importing sender importer (e :: todo) none reply) =>
      let chosen := if (f.stores importer).shouldUpdate me e then some e else none
      some (f.setSession s (some (.importing sender importer todo chosen reply)))
    | _ => none
  | .write s =>
    match f.sessions s with
    | some (.importing sender importer todo (some e) reply) =>
      some ((f.setStore importer ((f.stores importer).write me e)).setSession s
        (some (.importing sender importer todo none reply)))
    | _ => none
  | .finish s =>
    match f.sessions s with
    | some (.importing sender importer [] none reply) =>
      some (f.setSession s (reply.map fun entries => .importing importer sender entries none none))
    | _ => none
  | .drop s => some (f.setSession s none)

end Fleet

/-- What the steps were about: every entry an edit wrote, the entries each device has heard of, and for
a session what its initiator and its responder had heard when their vectors were built. -/
structure History (ι : Type) where
  log : List Entry
  heard : ι → List Entry
  carried : ℕ → List Entry × List Entry

namespace History

def hear (h : History ι) (device : ι) (entries : List Entry) : History ι :=
  { h with heard := Function.update h.heard device (entries ++ h.heard device) }

/-- What a step adds; an importer that has read the last entry has heard of all that its sender had. -/
def record (f : Fleet ι) (h : History ι) : FleetLabel ι → History ι
  | .edit device edit now =>
    match (edit.apply me now (f.stores device)).exported me edit.key with
    | some e => { h.hear device [e] with log := e :: h.log }
    | none => h
  | .request s initiator _ => { h with carried := Function.update h.carried s (h.heard initiator, []) }
  | .answer s =>
    match f.sessions s with
    | some (.requested _ responder _) =>
      { h with carried := Function.update h.carried s ((h.carried s).1, h.heard responder) }
    | _ => h
  | .write s =>
    match f.sessions s with
    | some (.importing _ importer _ (some e) _) => h.hear importer [e]
    | _ => h
  | .finish s =>
    match f.sessions s with
    | some (.importing _ importer _ _ (some _)) => h.hear importer (h.carried s).2
    | some (.importing _ importer _ _ none) => h.hear importer (h.carried s).1
    | _ => h
  | .compare _ => h
  | .drop _ => h

end History

structure Observed (ι : Type) where
  fleet : Fleet ι
  history : History ι

namespace Observed

def step (o : Observed ι) (l : FleetLabel ι) : Option (Observed ι) :=
  (o.fleet.step me l).map fun f => ⟨f, o.history.record me o.fleet l⟩

/-- Nothing has been followed, muted or blocked yet, and no session is going on. -/
structure Fresh (o : Observed ι) : Prop where
  graph : ∀ device, ∀ r ∈ (o.fleet.stores device).graph.rows, r.follower ≠ me
  moderation : ∀ device, (o.fleet.stores device).moderation.rows = []
  sessions : ∀ s, o.fleet.sessions s = none
  heard : ∀ device, o.history.heard device = []
  log : o.history.log = []

end Observed

def lastWrites : Lww.Stamped Key Entry Nat := ⟨Entry.key, fun e => e.lastChangedAt.toNat⟩

/-- Clocks and statements do not go back: an edit is made no earlier than what its row says, and when
an entry is written its row has not become newer since the comparison. -/
def InOrder (f : Fleet ι) : FleetLabel ι → Prop
  | .edit device edit now =>
    ∀ e ∈ (f.stores device).exported me edit.key, e.lastChangedAt ≤ now
  | .write s =>
    match f.sessions s with
    | some (.importing _ importer _ (some e) _) => lastWrites.InOrder ((f.stores importer).exported me) e
    | _ => True
  | _ => True

instance decidableInOrder (f : Fleet ι) : ∀ l, Decidable (InOrder me f l)
  | .edit device edit now =>
    inferInstanceAs (Decidable (∀ e ∈ (f.stores device).exported me edit.key, e.lastChangedAt ≤ now))
  | .write s =>
    match h : f.sessions s with
    | some (.importing _ importer _ (some e) _) =>
      decidable_of_iff (lastWrites.InOrder ((f.stores importer).exported me) e) (by simp [InOrder, h])
    | some (.importing _ _ _ none _) => isTrue (by simp [InOrder, h])
    | some (.requested _ _ _) => isTrue (by simp [InOrder, h])
    | none => isTrue (by simp [InOrder, h])
  | .request _ _ _ => isTrue trivial
  | .answer _ => isTrue trivial
  | .compare _ => isTrue trivial
  | .finish _ => isTrue trivial
  | .drop _ => isTrue trivial

end Proscenium.DeviceSync
