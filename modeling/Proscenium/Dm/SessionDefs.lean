import Proscenium.Crypto.RatchetChannel
import Proscenium.Lib.Machine
import Proscenium.Lib.Tasks

/-! The session of one user with one peer, as the linked devices of the user
keep it. Every device stores one row. Sends and receives are tasks that load
the row, step the ratchet in memory and save, and their steps interleave; an
incoming handshake writes the row without reading it; device sync copies rows
from device to device by their timestamps, which are compared first and then
written, and a link bundle copies them as they are. A sealed state is opened with a key that all devices share, so a row
holds the state itself. -/

namespace Proscenium.Dm

open Crypto

/-- The row of `dm_ratchet_sessions` for the peer. Only `state` and `updatedAt` are stored; the
rest says where the row comes from. -/
structure Row where
  state : RatchetState
  updatedAt : Nat
  /-- Each new state that a device writes gets a greater one. -/
  version : Nat
  /-- The version of the state that began the session. -/
  session : Nat
  /-- The session began with an incoming handshake, and nothing was received since. -/
  awaiting : Bool
  /-- How many messages were sent in the current sending chain. -/
  sent : Nat
  deriving DecidableEq, Repr

structure Envelope where
  header : RatchetHeader
  ciphertext : Bytes
  deriving DecidableEq, Repr

inductive Job where
  | send (plaintext : Bytes)
  | receive (envelope : Envelope)
  deriving DecidableEq, Repr

inductive Phase where
  | load
  /-- The answer to the Noise message made with this ephemeral pair is awaited. -/
  | handshake (ephemeral : KeyPair)
  | saveNew (state : RatchetState)
  | ratchet (row : Row)
  | save (row : Row) (state : RatchetState) (envelope : Option Envelope)
  deriving DecidableEq, Repr

structure Task where
  device : Nat
  job : Job
  phase : Phase
  deriving DecidableEq, Repr

/-- What has happened to the session so far, on all devices, newest first. -/
structure History where
  rows : List Row
  emitted : List Envelope
  drawn : List Bytes32
  /-- The states `encrypt` was called on. -/
  encrypts : List RatchetState
  /-- A stored row and the row of another device that replaced it. -/
  adoptions : List (Row × Row)
  deriving DecidableEq, Repr

/-- A merge that has found the row newer than the device's and is about to write it. -/
structure Merge where
  device : Nat
  row : Row
  deriving DecidableEq, Repr

structure Fleet where
  stored : List (Option Row)
  tasks : List Task
  /-- The `updated_at` in the sync vectors that were sent. -/
  summaries : List (Option Nat)
  /-- The rows that `send_deltas` sent. -/
  transfers : List Row
  merges : List Merge
  bundles : List Row
  history : History
  deriving DecidableEq, Repr

/-- What the world hands to a task: the outcome of what it awaits, the clock, a random pair, and
the secret of a completed handshake. -/
structure Outcome where
  ok : Bool
  now : Nat
  generated : KeyPair
  sharedSecret : Bytes32
  deriving DecidableEq, Repr

inductive Label where
  | send (device : Nat) (plaintext : Bytes)
  | receive (device : Nat) (envelope : Envelope)
  | handleHandshake (device : Nat) (sharedSecret : Bytes32) (now : Nat)
  | task (i : Nat) (outcome : Outcome)
  | restart (device : Nat)
  | syncVector (device : Nat)
  | sendDeltas (device : Nat) (summary : Nat)
  /-- The `SELECT` of a merge, and then its `INSERT`, which may fail. -/
  | mergeRatchetSession (device : Nat) (transfer : Nat)
  | insertMerged (i : Nat) (ok : Bool)
  | exportLinkBundle (device : Nat)
  | importLinkBundle (device : Nat) (bundle : Nat) (now : Nat)
  deriving DecidableEq, Repr

namespace Row

def founded (h : History) (state : RatchetState) (now : Nat) (awaiting : Bool) : Row :=
  ⟨state, now, h.rows.length + 1, h.rows.length + 1, awaiting, 0⟩

/-- The row after a task that loaded `row` has stepped the ratchet. -/
def advanced (h : History) (row : Row) (state : RatchetState) (now : Nat)
    (envelope : Option Envelope) : Row where
  state := state
  updatedAt := now
  version := h.rows.length + 1
  session := row.session
  awaiting := row.awaiting && envelope.isSome
  -- a receive that changes the counter has begun a new chain
  sent :=
    if envelope.isSome then row.sent + 1
    else if state.sendCount = row.state.sendCount then row.sent
    else 0

end Row

namespace Fleet

/-- `devices` devices of a user with this DM key, before the first session. -/
def start (devices : Nat) (me : KeyPair) : Fleet where
  stored := List.replicate devices none
  tasks := []
  summaries := []
  transfers := []
  merges := []
  bundles := []
  history := ⟨[], [], [me.pub], [], []⟩

def getRatchetSession (w : Fleet) (d : Nat) : Option Row := w.stored[d]?.join

def write (w : Fleet) (d : Nat) (row : Row) : Fleet :=
  { w with stored := w.stored.set d (some row) }

def saveRatchetSession (w : Fleet) (d : Nat) (row : Row) : Fleet :=
  { w.write d row with history := { w.history with rows := row :: w.history.rows } }

def adopt (w : Fleet) (d : Nat) (row : Row) : Fleet :=
  { w.write d row with
    history := { w.history with
      adoptions := ((w.getRatchetSession d).map (·, row)).toList ++ w.history.adoptions } }

def draw (w : Fleet) (pub : Bytes32) : Fleet :=
  { w with history := { w.history with drawn := pub :: w.history.drawn } }

def emit (w : Fleet) (envelope : Option Envelope) : Fleet :=
  { w with history := { w.history with emitted := envelope.toList ++ w.history.emitted } }

variable (C : Crates) (me : KeyPair) (peer : Bytes32)

/-- `encrypt_and_save` or `handle_encrypted_message` from one await to the next. The task goes
on, or it is over (`none`): finished, failed, or panicked in `encrypt`. -/
def runTask (w : Fleet) (o : Outcome) (t : Task) : Fleet × Option Task :=
  match t.phase with
  | .load =>
    match o.ok, w.getRatchetSession t.device, t.job with
    | false, _, _ => (w, none)
    | true, some row, _ => (w, some { t with phase := .ratchet row })
    | true, none, .send _ => (w, some { t with phase := .handshake o.generated })
    | true, none, .receive _ => (w, none)
  | .handshake _ =>
    if o.ok then
      (w.draw o.generated.pub, some { t with
        phase := .saveNew (RatchetState.initAlice C o.generated o.sharedSecret peer) })
    else (w, none)
  | .saveNew state =>
    if o.ok then
      let row := Row.founded w.history state o.now false
      (w.saveRatchetSession t.device row, some { t with phase := .ratchet row })
    else (w, none)
  | .ratchet row =>
    match t.job with
    | .send plaintext =>
      let w := { w with history := { w.history with encrypts := row.state :: w.history.encrypts } }
      match row.state.encrypt C plaintext with
      | none => (w, none)
      | some (state, header, ciphertext) =>
        (w, some { t with phase := .save row state (some ⟨header, ciphertext⟩) })
    | .receive envelope =>
      let w := if row.state.drawsKey C envelope.header then w.draw o.generated.pub else w
      match row.state.decrypt C o.generated envelope.header envelope.ciphertext with
      | (.error _, _) => (w, none)
      | (.ok _, state) => (w, some { t with phase := .save row state none })
  -- not `ok` also stands for a payload that cannot be handled
  | .save row state envelope =>
    if o.ok then
      ((w.saveRatchetSession t.device
        (Row.advanced w.history row state o.now envelope)).emit envelope, none)
    else (w, none)

def advance (w : Fleet) (i : Nat) (next : Option Task) : Fleet :=
  { w with tasks := Tasks.advance w.tasks i next }

def begin (w : Fleet) (d : Nat) (job : Job) : Option Fleet :=
  if d < w.stored.length then some { w with tasks := w.tasks ++ [⟨d, job, .load⟩] } else none

/-- The part of `send_deltas` about the row: is it newer than what the vector reports? -/
def isDelta (summary : Option Nat) (row : Row) : Bool := summary.all fun ts => row.updatedAt > ts

/-- `merge_ratchet_sessions_lww` for the row, up to the write. -/
def mergeRatchetSession (w : Fleet) (d : Nat) (row : Row) : Fleet :=
  if (w.getRatchetSession d).all fun stored => row.updatedAt > stored.updatedAt then
    { w with merges := w.merges ++ [⟨d, row⟩] }
  else w

def insertMerged (w : Fleet) (i : Nat) (ok : Bool) (m : Merge) : Fleet :=
  let w := { w with merges := w.merges.eraseIdx i }
  if ok then w.adopt m.device m.row else w

/-- `import_link_bundle` stamps the row anew. -/
def importLinkBundle (w : Fleet) (d : Nat) (row : Row) (now : Nat) : Fleet :=
  let row := { row with updatedAt := now }
  let w := w.adopt d row
  { w with history := { w.history with rows := row :: w.history.rows } }

def step (w : Fleet) : Label → Option Fleet
  | .send d plaintext => w.begin d (.send plaintext)
  | .receive d envelope => w.begin d (.receive envelope)
  | .handleHandshake d sharedSecret now =>
    if d < w.stored.length then
      some (w.saveRatchetSession d
        (Row.founded w.history (RatchetState.initBob sharedSecret me) now true))
    else none
  | .task i o => w.tasks[i]?.map fun t =>
    let out := w.runTask C peer o t
    out.1.advance i out.2
  | .restart d => some { w with
      tasks := w.tasks.filter fun t => t.device ≠ d
      merges := w.merges.filter fun m => m.device ≠ d }
  | .syncVector d => w.stored[d]?.map fun row =>
    { w with summaries := w.summaries ++ [row.map Row.updatedAt] }
  | .sendDeltas d k => w.summaries[k]?.map fun summary =>
    { w with transfers := w.transfers ++ ((w.getRatchetSession d).filter (isDelta summary)).toList }
  | .mergeRatchetSession d k =>
    if d < w.stored.length then w.transfers[k]?.map (w.mergeRatchetSession d) else none
  | .insertMerged i ok => w.merges[i]?.map (w.insertMerged i ok)
  | .exportLinkBundle d =>
    some { w with bundles := w.bundles ++ (w.getRatchetSession d).toList }
  | .importLinkBundle d k now =>
    if d < w.stored.length then w.bundles[k]?.map (w.importLinkBundle d · now) else none

end Fleet
end Proscenium.Dm
