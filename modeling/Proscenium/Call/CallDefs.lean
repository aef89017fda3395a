import Proscenium.Lib.Machine

/-! The call handler of `call/` with every party that drives it: the user's
commands, the loop of `setup.rs` that dispatches call signals one after the
other, incoming `CALL_ALPN` connections and the tasks these spawn. A step is
what one of them does between two awaits. What is awaited while `active_call`
is locked belongs to the step that holds the lock, and so does what follows
the last lock of a function, since it no longer touches the handler. Logging
and the mute, capture and playback handles are left out. -/

namespace Proscenium.Call

structure ActiveCall where
  callId : String
  peerPubkey : String
  /-- The `CancellationToken`, by the number it was created under. -/
  cancel : Nat
  deriving DecidableEq, Repr

inductive CallState where
  | ringing
  | incoming
  | active
  | ended
  | failed
  deriving DecidableEq, Repr

/-- The payloads of `DmPayload` that the handler sends and receives. -/
inductive CallPayload where
  | offer (callId : String)
  | answer (callId : String)
  | reject (callId : String)
  | hangup (callId : String)
  deriving DecidableEq, Repr

inductive CallError where
  | alreadyInCall
  | noIncomingCall
  | otherCall (peerPubkey callId : String)
  | noActiveCall
  | signal (text : String)
  deriving DecidableEq, Repr

/-- `short_id`; `none` is the panic of a slice that ends inside a character. -/
def shortId (id : String) : Option String :=
  String.fromUTF8? (id.toUTF8.extract 0 (min id.utf8ByteSize 8))

def CallError.text : CallError → Option String
  | .alreadyInCall => some "already in a call"
  | .noIncomingCall => some "no incoming call with that ID"
  | .otherCall pk callId => (shortId pk).map fun s => "active call is " ++ s ++ ", not " ++ callId
  | .noActiveCall => some "no active call"
  | .signal text => some text

/-- What happened, newest first: the user's commands, arrived answers, started
captures, and what the handler emitted, sent and returned. -/
inductive Event where
  | startCalled (callId peerPubkey : String)
  | acceptCalled (callId : String)
  | answerArrived (callId peerPubkey : String)
  | captureStarted (callId : String)
  | emitted (callId peerPubkey : String) (state : CallState)
  | sent (peerPubkey : String) (payload : CallPayload)
  | returned (result : Except CallError String)
  deriving DecidableEq

inductive Task where
  /-- The 30 s timer of `start_call`, or of `on_call_offer` when `incoming`. -/
  | ringTimer (incoming : Bool) (callId peerPubkey : String) (cancel : Nat)
  /-- `accept` past its check of the active call, before `accept_bi`. -/
  | acceptingBi (callId : String)
  /-- `accept` past its second lock, before `AudioCapture::start`. -/
  | acceptReady (callId : String) (cancel : Nat)
  /-- `run_audio_session` before its lock. -/
  | session (callId peerPubkey : String)
  | openingBi (callId peerPubkey : String) (cancel : Nat)
  | sessionReady (callId peerPubkey : String) (cancel : Nat)
  /-- Either of the two waiting for its streams to end. -/
  | streaming (callId : String) (cancel : Nat)
  deriving DecidableEq, Repr

inductive Dispatch where
  | idle
  /-- `on_call_offer` between its two locks. -/
  | offering (callId peerPubkey : String)
  /-- `on_call_answered` past its lock, looking for the peer's transport. -/
  | resolving (callId peerPubkey : String)
  | connecting (callId peerPubkey : String)
  deriving DecidableEq, Repr

structure CallHandler where
  activeCall : Option ActiveCall
  dispatch : Dispatch
  tasks : List Task
  tokens : Nat
  cancelled : List Nat
  log : List Event
  deriving DecidableEq

/-- What a run leaves open is in the labels: ids that are generated, outcomes of
what is awaited, and everything a remote peer chooses. -/
inductive Label where
  | startCall (callId peerPubkey : String) (signal : Except String Unit)
  | acceptCall (callId : String) (signal : Except String Unit)
  | rejectCall (callId : String)
  | hangup
  | onCallOffer (callId peerPubkey : String)
  | installOffer
  | onCallAnswered (callId peerPubkey : String)
  | resolveTransport (found : Bool)
  | connect (ok : Bool)
  | onCallEnded (callId : String)
  /-- A connection from `remote`, with the master key its transport is cached for. -/
  | accept (remote : String) (masterPubkey : Option String)
  /-- The `i`-th task goes on; `ok` is the outcome of what it awaited. -/
  | task (i : Nat) (ok : Bool)
  deriving DecidableEq

namespace CallHandler

def new : CallHandler := ⟨none, .idle, [], 0, [], []⟩

def record (h : CallHandler) (e : Event) : CallHandler := { h with log := e :: h.log }

def emitCallEvent (h : CallHandler) (callId peerPubkey : String) (state : CallState) :
    CallHandler :=
  h.record (.emitted callId peerPubkey state)

def spawn (h : CallHandler) (t : Task) : CallHandler := { h with tasks := h.tasks ++ [t] }

def cancelToken (h : CallHandler) (token : Nat) : CallHandler :=
  { h with cancelled := token :: h.cancelled }

/-- `*lock = Some(ActiveCall { .. })` with a fresh token. -/
def install (h : CallHandler) (callId peerPubkey : String) : CallHandler :=
  { h with activeCall := some ⟨callId, peerPubkey, h.tokens⟩, tokens := h.tokens + 1 }

/-- `*lock = None`. -/
def clear (h : CallHandler) : CallHandler := { h with activeCall := none }

/-- `call.cancel.cancel(); call.cancel = CancellationToken::new()`. -/
def renewToken (h : CallHandler) (call : ActiveCall) : CallHandler :=
  { h.cancelToken call.cancel with
    activeCall := some { call with cancel := h.tokens }, tokens := h.tokens + 1 }

def clearIf (h : CallHandler) (callId : String) (then_ : CallHandler → ActiveCall → CallHandler) :
    CallHandler :=
  match h.activeCall with
  | some call => if call.callId = callId then then_ h.clear call else h
  | none => h

def startCall (h : CallHandler) (callId peerPubkey : String) (signal : Except String Unit) :
    CallHandler :=
  match h.activeCall with
  | some _ => h.record (.returned (.error .alreadyInCall))
  | none =>
    match signal with
    | .error text => h.record (.returned (.error (.signal text)))
    | .ok _ =>
      let h := (h.record (.sent peerPubkey (.offer callId))).record (.startCalled callId peerPubkey)
      (((h.install callId peerPubkey).emitCallEvent callId peerPubkey .ringing).spawn
        (.ringTimer false callId peerPubkey h.tokens)).record (.returned (.ok callId))

def acceptCall (h : CallHandler) (callId : String) (signal : Except String Unit) : CallHandler :=
  let h := h.record (.acceptCalled callId)
  match h.activeCall with
  | some call =>
    if call.callId = callId then
      let h := h.renewToken call
      match signal with
      | .error text => h.record (.returned (.error (.signal text)))
      | .ok _ =>
        ((h.record (.sent call.peerPubkey (.answer callId))).emitCallEvent callId call.peerPubkey
          .active).record (.returned (.ok ""))
    else h.record (.returned (.error .noIncomingCall))
  | none => h.record (.returned (.error .noIncomingCall))

def rejectCall (h : CallHandler) (callId : String) : CallHandler :=
  match h.activeCall with
  | some call =>
    if call.callId = callId then
      (((h.clear.cancelToken call.cancel).record (.sent call.peerPubkey (.reject callId))).emitCallEvent
        callId call.peerPubkey .ended).record (.returned (.ok ""))
    else h.record (.returned (.error (.otherCall call.peerPubkey callId)))
  | none => h.record (.returned (.error .noActiveCall))

def hangup (h : CallHandler) : CallHandler :=
  match h.activeCall with
  | some call =>
    (((h.clear.cancelToken call.cancel).record
      (.sent call.peerPubkey (.hangup call.callId))).emitCallEvent
        call.callId call.peerPubkey .ended).record (.returned (.ok ""))
  | none => h.record (.returned (.error .noActiveCall))

/-- The first lock of `on_call_offer`; a busy handler sends its reject under it. -/
def onCallOffer (h : CallHandler) (callId peerPubkey : String) : CallHandler :=
  match h.activeCall with
  | some _ => h.record (.sent peerPubkey (.reject callId))
  | none => { h with dispatch := .offering callId peerPubkey }

/-- The second lock of `on_call_offer`, which does not look at the call again. -/
def installOffer (h : CallHandler) (callId peerPubkey : String) : CallHandler :=
  (({ h with dispatch := .idle }.install callId peerPubkey).emitCallEvent callId peerPubkey
    .incoming).spawn (.ringTimer true callId peerPubkey h.tokens)

def onCallAnswered (h : CallHandler) (callId peerPubkey : String) : CallHandler :=
  let h := h.record (.answerArrived callId peerPubkey)
  match h.activeCall with
  | some call =>
    if call.callId = callId then
      { (h.renewToken call).emitCallEvent callId peerPubkey .active with
        dispatch := .resolving callId peerPubkey }
    else h
  | none => h

def fail (h : CallHandler) (callId peerPubkey : String) : CallHandler :=
  (h.emitCallEvent callId peerPubkey .failed).clear

def resolveTransport (h : CallHandler) (callId peerPubkey : String) (found : Bool) : CallHandler :=
  if found then { h with dispatch := .connecting callId peerPubkey }
  else { h.fail callId peerPubkey with dispatch := .idle }

def connect (h : CallHandler) (callId peerPubkey : String) (ok : Bool) : CallHandler :=
  if ok then { h.spawn (.session callId peerPubkey) with dispatch := .idle }
  else { h.fail callId peerPubkey with dispatch := .idle }

def onCallEnded (h : CallHandler) (callId : String) : CallHandler :=
  h.clearIf callId fun h call =>
    (h.cancelToken call.cancel).emitCallEvent callId call.peerPubkey .ended

/-- `accept` up to its check: it looks at the peer of the active call only. -/
def accept (h : CallHandler) (peerPubkey : String) : CallHandler :=
  match h.activeCall with
  | some call => if call.peerPubkey = peerPubkey then h.spawn (.acceptingBi call.callId) else h
  | none => h

/-- One step of a task: the handler after it and the task's next position. -/
def runTask (h : CallHandler) (ok : Bool) : Task → Option (CallHandler × Option Task)
  | .ringTimer incoming callId peerPubkey token =>
    if ok then
      let h := h.emitCallEvent callId peerPubkey (if incoming then .ended else .failed)
      some (h.clearIf callId fun h _ =>
        if incoming then h.record (.sent peerPubkey (.reject callId)) else h, none)
    -- the other arm of the `select!`
    else if token ∈ h.cancelled then some (h, none) else none
  | .acceptingBi callId =>
    if ok then
      match h.activeCall with
      | some call => some (h, some (.acceptReady callId call.cancel))
      -- `lock.as_ref().unwrap()` panics and the task is gone
      | none => some (h, none)
    else some (h, none)
  | .acceptReady callId token =>
    let h := h.record (.captureStarted callId)
    some (h, if ok then some (.streaming callId token) else none)
  | .session callId peerPubkey =>
    match h.activeCall with
    | some call =>
      some (h, if call.callId = callId then some (.openingBi callId peerPubkey call.cancel) else none)
    | none => some (h, none)
  | .openingBi callId peerPubkey token =>
    if ok then some (h, some (.sessionReady callId peerPubkey token))
    else some (h.fail callId peerPubkey, none)
  | .sessionReady callId peerPubkey token =>
    let h := h.record (.captureStarted callId)
    if ok then some (h, some (.streaming callId token)) else some (h.fail callId peerPubkey, none)
  | .streaming callId _ =>
    some (h.clearIf callId fun h call => h.emitCallEvent callId call.peerPubkey .ended, none)

def advance (h : CallHandler) (i : Nat) : Option Task → CallHandler
  | some t => { h with tasks := h.tasks.set i t }
  | none => { h with tasks := h.tasks.eraseIdx i }

def step (h : CallHandler) : Label → Option CallHandler
  | .startCall callId peerPubkey signal => some (h.startCall callId peerPubkey signal)
  | .acceptCall callId signal => some (h.acceptCall callId signal)
  | .rejectCall callId => some (h.rejectCall callId)
  | .hangup => some h.hangup
  | .onCallOffer callId peerPubkey =>
    if h.dispatch = .idle then some (h.onCallOffer callId peerPubkey) else none
  | .installOffer =>
    match h.dispatch with
    | .offering callId peerPubkey => some (h.installOffer callId peerPubkey)
    | _ => none
  | .onCallAnswered callId peerPubkey =>
    if h.dispatch = .idle then some (h.onCallAnswered callId peerPubkey) else none
  | .resolveTransport found =>
    match h.dispatch with
    | .resolving callId peerPubkey => some (h.resolveTransport callId peerPubkey found)
    | _ => none
  | .connect ok =>
    match h.dispatch with
    | .connecting callId peerPubkey => some (h.connect callId peerPubkey ok)
    | _ => none
  | .onCallEnded callId => if h.dispatch = .idle then some (h.onCallEnded callId) else none
  | .accept remote masterPubkey => some (h.accept (masterPubkey.getD remote))
  | .task i ok =>
    match h.tasks[i]? with
    | none => none
    | some t => (h.runTask ok t).map fun out => out.1.advance i out.2

end CallHandler
end Proscenium.Call
