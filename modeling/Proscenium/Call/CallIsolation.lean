import Proscenium.Call.CallDefs

/-! Whose call a step is performed for. Calls are numbered in the order in which
they are installed, and every task and the dispatch loop carry the number of
the call they were started for. A step that is not the active call's own has
to leave `active_call` as it is. -/

namespace Proscenium.Call

open Machine

/-- What the DM handler passes to the loop of `setup.rs`. -/
structure CallSignal where
  peerPubkey : String
  payload : CallPayload
  deriving DecidableEq

/-- The `match signal.payload` of `setup.rs`; a reject and a hangup lose their sender. -/
def CallSignal.label (s : CallSignal) : Label :=
  match s.payload with
  | .offer callId => .onCallOffer callId s.peerPubkey
  | .answer callId => .onCallAnswered callId s.peerPubkey
  | .reject callId => .onCallEnded callId
  | .hangup callId => .onCallEnded callId

def CallPayload.names : CallPayload → Option String
  | .offer _ => none
  | .answer callId | .reject callId | .hangup callId => some callId

def Label.isSignal : Label → Bool
  | .onCallOffer _ _ | .onCallAnswered _ _ | .onCallEnded _ => true
  | _ => false

inductive Input where
  | signal (s : CallSignal)
  /-- A command, a connection, or the next step of the dispatch loop or a task. -/
  | own (a : Label)
  deriving DecidableEq

def Input.label : Input → Option Label
  | .signal s => some s.label
  | .own a => if a.isSignal then none else some a

/-- `accept` is past `accept_bi` and unwraps what its second lock holds. -/
def Task.unwraps : Task → Bool → Bool
  | .acceptingBi _, ok => ok
  | _, _ => false

/-- The handler with the numbers of the calls its parts were started for. -/
structure Tracked where
  handler : CallHandler
  calls : Nat
  current : Option Nat
  /-- The call of the answer that the dispatch loop is busy with. -/
  serving : Nat
  owners : List Nat
  deriving DecidableEq

namespace Tracked

def new : Tracked := ⟨.new, 0, none, 0, []⟩

def installs (t : Tracked) : Label → Bool
  | .startCall _ _ (.ok _) => t.handler.activeCall.isNone
  | .installOffer => true
  | _ => false

def spawner (t : Tracked) : Label → Nat
  | .connect _ => t.serving
  | .accept _ _ => t.current.getD t.calls
  | _ => t.calls

/-- The numbers after the handler has gone on to `h`. -/
def follow (t : Tracked) (a : Label) (h : CallHandler) : Tracked where
  handler := h
  calls := if t.installs a then t.calls + 1 else t.calls
  current :=
    if h.activeCall = none then none
    else if t.installs a then some t.calls
    else t.current
  serving :=
    match a with
    | .onCallAnswered _ _ => t.current.getD t.calls
    | _ => t.serving
  owners :=
    if t.handler.tasks.length < h.tasks.length then t.owners ++ [t.spawner a]
    else if h.tasks.length < t.handler.tasks.length then
      match a with
      | .task i _ => t.owners.eraseIdx i
      | _ => t.owners
    else t.owners

def step (t : Tracked) (e : Input) : Option Tracked :=
  e.label.bind fun a => (t.handler.step a).map (t.follow a)

theorem step_eq_some {t t' : Tracked} {e : Input} :
    t.step e = some t' ↔
      ∃ a h', e.label = some a ∧ t.handler.step a = some h' ∧ t' = t.follow a h' := by
  unfold step
  constructor
  · intro hstep
    obtain ⟨a, ha, hmap⟩ := Option.bind_eq_some_iff.mp hstep
    obtain ⟨h', hh', rfl⟩ := Option.map_eq_some_iff.mp hmap
    exact ⟨a, h', ha, hh', rfl⟩
  · rintro ⟨a, h', ha, hh', rfl⟩
    rw [ha, Option.bind_some, hh', Option.map_some]

/-- The step is performed for the active call: its peer or the user names it, or the
task, or the dispatch loop, was started for it. -/
def ActsFor (t : Tracked) (call : ActiveCall) : Input → Prop
  | .signal s => s.payload.names = some call.callId ∧ call.peerPubkey = s.peerPubkey
  | .own (.acceptCall callId _) => call.callId = callId
  | .own (.rejectCall callId) => call.callId = callId
  | .own .hangup => True
  | .own (.resolveTransport _) => t.current = some t.serving
  | .own (.connect _) => t.current = some t.serving
  | .own (.task i _) => t.current = t.owners[i]?
  | .own _ => False

/-- The step neither clears, overwrites nor cancels a call that it is not performed for. -/
def Spares (t : Tracked) (e : Input) : Prop :=
  ∀ call, t.handler.activeCall = some call → ¬ t.ActsFor call e → ∀ t', t.step e = some t' →
    t'.handler.activeCall = some call ∧ t'.handler.cancelled = t.handler.cancelled

def NoPanic (t : Tracked) : Input → Prop
  | .own (.task i ok) => ∀ task, t.handler.tasks[i]? = some task → task.unwraps ok →
      t.handler.activeCall ≠ none
  | _ => True

structure Isolated (t : Tracked) (e : Input) : Prop where
  spares : t.Spares e
  noPanic : t.NoPanic e

end Tracked

/-- The active calls that the next step of a task clears: the cleanups look at the id, the
failure paths do not look at all. -/
def Task.Clears (call : ActiveCall) : Task → Bool → Prop
  | .ringTimer _ callId _ _, ok => ok = true ∧ call.callId = callId
  | .streaming callId _, _ => call.callId = callId
  | .openingBi _ _ _, ok => ok = false
  | .sessionReady _ _ _, ok => ok = false
  | .acceptingBi _, _ => False
  | .acceptReady _ _, _ => False
  | .session _ _, _ => False

/-- Nobody is in the way of the step: an offer is installed into a free slot, a signal about
the active call is from its peer, what clears the slot finds it free or was started for the
call in it, and an audio stream is accepted while there is a call. -/
def Tracked.Undisturbed (t : Tracked) : Input → Prop
  | .signal s => t.handler.dispatch = .idle → ∀ call, t.handler.activeCall = some call →
      s.payload.names = some call.callId → call.peerPubkey = s.peerPubkey
  | .own .installOffer => ∀ callId peerPubkey, t.handler.dispatch = .offering callId peerPubkey →
      t.handler.activeCall = none
  | .own (.resolveTransport found) => ∀ callId peerPubkey,
      t.handler.dispatch = .resolving callId peerPubkey → found = false →
        t.handler.activeCall = none ∨ t.current = some t.serving
  | .own (.connect ok) => ∀ callId peerPubkey,
      t.handler.dispatch = .connecting callId peerPubkey → ok = false →
        t.handler.activeCall = none ∨ t.current = some t.serving
  | .own (.task i ok) => ∀ task, t.handler.tasks[i]? = some task →
      (∀ call, t.handler.activeCall = some call → task.Clears call ok →
        t.current = t.owners[i]?) ∧
      (task.unwraps ok → t.handler.activeCall ≠ none)
  | .own _ => True

namespace CallHandler

variable {h h' : CallHandler}

structure Keeps (h h' : CallHandler) : Prop where
  activeCall : h'.activeCall = h.activeCall
  cancelled : h'.cancelled = h.cancelled
  tokens : h'.tokens = h.tokens

theorem Keeps.refl (h : CallHandler) : Keeps h h := ⟨rfl, rfl, rfl⟩

theorem Keeps.trans {h'' : CallHandler} (h₁ : Keeps h h') (h₂ : Keeps h' h'') : Keeps h h'' :=
  ⟨h₂.activeCall.trans h₁.activeCall, h₂.cancelled.trans h₁.cancelled, h₂.tokens.trans h₁.tokens⟩

theorem forall_active {p : ActiveCall → Prop} {call : ActiveCall} (hcall : h.activeCall = some call)
    (hp : p call) : ∀ call', h.activeCall = some call' → p call' := by
  intro call' hcall'
  obtain rfl : call = call' := Option.some.inj (hcall.symm.trans hcall')
  exact hp

inductive Effect (h h' : CallHandler) : Prop
  | kept (hkeeps : Keeps h h')
  | cleared (hnone : h'.activeCall = none)
  | written (call : ActiveCall) (hcall : h'.activeCall = some call) (hfresh : call.cancel < h'.tokens)

def TokenKnown (h : CallHandler) : Prop :=
  ∀ call, h.activeCall = some call → call.cancel < h.tokens

theorem TokenKnown.of_effect (hknown : h.TokenKnown) (heffect : Effect h h') : h'.TokenKnown := by
  intro call hcall
  cases heffect with
  | kept hkeeps =>
    rw [hkeeps.tokens]
    exact hknown call (hkeeps.activeCall ▸ hcall)
  | cleared hnone => exact absurd (hnone.symm.trans hcall) (Option.some_ne_none call).symm
  | written call' hcall' hfresh =>
    obtain rfl : call' = call := Option.some.inj (hcall'.symm.trans hcall)
    exact hfresh

theorem startCall_occupied {call : ActiveCall} (hcall : h.activeCall = some call)
    (callId peerPubkey : String) (signal : Except String Unit) :
    Keeps h (h.startCall callId peerPubkey signal) := by
  unfold startCall
  rw [hcall]
  exact ⟨rfl, rfl, rfl⟩

theorem startCall_effect (callId peerPubkey : String) (signal : Except String Unit) :
    Effect h (h.startCall callId peerPubkey signal) := by
  cases hcall : h.activeCall with
  | some call => exact .kept (startCall_occupied hcall callId peerPubkey signal)
  | none =>
    unfold startCall
    rw [hcall]
    cases signal with
    | error text => exact .kept ⟨rfl, rfl, rfl⟩
    | ok _ => exact .written _ rfl (Nat.lt_succ_self _)

theorem acceptCall_other {callId : String}
    (hother : ∀ call, h.activeCall = some call → call.callId ≠ callId) (signal : Except String Unit) :
    Keeps h (h.acceptCall callId signal) := by
  unfold acceptCall
  dsimp only
  split
  next call hcall =>
    rw [if_neg (hother call hcall)]
    exact ⟨rfl, rfl, rfl⟩
  next => exact ⟨rfl, rfl, rfl⟩

theorem acceptCall_effect (callId : String) (signal : Except String Unit) :
    Effect h (h.acceptCall callId signal) := by
  unfold acceptCall
  dsimp only
  split
  · split
    · split
      · exact .written _ rfl (Nat.lt_succ_self _)
      · exact .written _ rfl (Nat.lt_succ_self _)
    · exact .kept ⟨rfl, rfl, rfl⟩
  · exact .kept ⟨rfl, rfl, rfl⟩

theorem rejectCall_other {callId : String}
    (hother : ∀ call, h.activeCall = some call → call.callId ≠ callId) :
    Keeps h (h.rejectCall callId) := by
  unfold rejectCall
  split
  next call hcall =>
    rw [if_neg (hother call hcall)]
    exact ⟨rfl, rfl, rfl⟩
  next => exact ⟨rfl, rfl, rfl⟩

theorem rejectCall_effect (callId : String) : Effect h (h.rejectCall callId) := by
  unfold rejectCall
  split
  · split
    · exact .cleared rfl
    · exact .kept ⟨rfl, rfl, rfl⟩
  · exact .kept ⟨rfl, rfl, rfl⟩

theorem hangup_effect : Effect h h.hangup := by
  unfold hangup
  split
  · exact .cleared rfl
  · exact .kept ⟨rfl, rfl, rfl⟩

theorem onCallOffer_keeps (callId peerPubkey : String) :
    Keeps h (h.onCallOffer callId peerPubkey) := by
  unfold onCallOffer
  split
  · exact ⟨rfl, rfl, rfl⟩
  · exact ⟨rfl, rfl, rfl⟩

theorem onCallAnswered_other {callId : String}
    (hother : ∀ call, h.activeCall = some call → call.callId ≠ callId) (peerPubkey : String) :
    Keeps h (h.onCallAnswered callId peerPubkey) := by
  unfold onCallAnswered
  dsimp only
  split
  next call hcall =>
    rw [if_neg (hother call hcall)]
    exact ⟨rfl, rfl, rfl⟩
  next => exact ⟨rfl, rfl, rfl⟩

theorem onCallAnswered_named {call : ActiveCall} (hcall : h.activeCall = some call)
    (peerPubkey : String) :
    (h.onCallAnswered call.callId peerPubkey).activeCall = some { call with cancel := h.tokens } ∧
    (h.onCallAnswered call.callId peerPubkey).cancelled = call.cancel :: h.cancelled ∧
    (h.onCallAnswered call.callId peerPubkey).tokens = h.tokens + 1 := by
  have hmatch : h.onCallAnswered call.callId peerPubkey =
      { ((h.record (.answerArrived call.callId peerPubkey)).renewToken call).emitCallEvent
          call.callId peerPubkey .active with
        dispatch := .resolving call.callId peerPubkey } := by
    unfold onCallAnswered
    dsimp only [record]
    rw [hcall]
    exact if_pos rfl
  rw [hmatch]
  exact ⟨rfl, rfl, rfl⟩

theorem onCallAnswered_effect (callId peerPubkey : String) :
    Effect h (h.onCallAnswered callId peerPubkey) := by
  by_cases hnamed : ∃ call, h.activeCall = some call ∧ call.callId = callId
  · obtain ⟨call, hcall, rfl⟩ := hnamed
    obtain ⟨hactive, -, htokens⟩ := onCallAnswered_named hcall peerPubkey
    refine .written _ hactive ?_
    rw [htokens]
    exact Nat.lt_succ_self _
  · refine .kept (onCallAnswered_other ?_ peerPubkey)
    intro call hcall hid
    exact hnamed ⟨call, hcall, hid⟩

theorem clearIf_other {callId : String} {then_ : CallHandler → ActiveCall → CallHandler}
    (hother : ∀ call, h.activeCall = some call → call.callId ≠ callId) :
    h.clearIf callId then_ = h := by
  unfold clearIf
  split
  next call hcall => exact if_neg (hother call hcall)
  next => rfl

theorem clearIf_named {call : ActiveCall} {then_ : CallHandler → ActiveCall → CallHandler}
    (hcall : h.activeCall = some call) :
    h.clearIf call.callId then_ = then_ h.clear call := by
  unfold clearIf
  rw [hcall]
  exact if_pos rfl

theorem clearIf_effect {callId : String} {then_ : CallHandler → ActiveCall → CallHandler}
    (hthen : ∀ g call, (then_ g call).activeCall = g.activeCall) :
    Effect h (h.clearIf callId then_) := by
  by_cases hnamed : ∃ call, h.activeCall = some call ∧ call.callId = callId
  · obtain ⟨call, hcall, rfl⟩ := hnamed
    refine .cleared ?_
    rw [clearIf_named hcall]
    exact hthen h.clear call
  · refine .kept ?_
    rw [clearIf_other fun call hcall hid => hnamed ⟨call, hcall, hid⟩]
    exact Keeps.refl h

theorem accept_keeps (peerPubkey : String) : Keeps h (h.accept peerPubkey) := by
  unfold accept
  split
  · split
    · exact ⟨rfl, rfl, rfl⟩
    · exact Keeps.refl h
  · exact Keeps.refl h

theorem advance_keeps (h : CallHandler) (i : Nat) (next : Option Task) : Keeps h (h.advance i next) := by
  cases next with
  | none => exact ⟨rfl, rfl, rfl⟩
  | some t => exact ⟨rfl, rfl, rfl⟩

theorem fail_keeps (hfree : ∀ call, h.activeCall ≠ some call) (callId peerPubkey : String) :
    Keeps h (h.fail callId peerPubkey) :=
  ⟨(Option.eq_none_iff_forall_ne_some.mpr hfree).symm, rfl, rfl⟩

/-- A task keeps the slot as long as it has no reason to clear it. -/
theorem runTask_keeps {ok : Bool} {t : Task} {out : CallHandler × Option Task}
    (hout : h.runTask ok t = some out)
    (hclears : ∀ call, h.activeCall = some call → ¬ t.Clears call ok) : Keeps h out.1 := by
  cases t with
  | ringTimer incoming callId peerPubkey token =>
    simp only [runTask] at hout
    split at hout
    next hok =>
      obtain rfl := Option.some.inj hout
      dsimp only
      rw [clearIf_other]
      · exact ⟨rfl, rfl, rfl⟩
      · intro call hcall hid
        exact hclears call hcall ⟨hok, hid⟩
    next =>
      split at hout
      · obtain rfl := Option.some.inj hout
        exact Keeps.refl h
      · exact absurd hout.symm (Option.some_ne_none out)
  | acceptingBi callId =>
    simp only [runTask] at hout
    split at hout
    · split at hout
      all_goals
        obtain rfl := Option.some.inj hout
        exact Keeps.refl h
    · obtain rfl := Option.some.inj hout
      exact Keeps.refl h
  | acceptReady callId token =>
    obtain rfl := Option.some.inj hout
    exact ⟨rfl, rfl, rfl⟩
  | session callId peerPubkey =>
    simp only [runTask] at hout
    split at hout
    all_goals
      obtain rfl := Option.some.inj hout
      exact Keeps.refl h
  | openingBi callId peerPubkey token =>
    simp only [runTask] at hout
    split at hout
    · obtain rfl := Option.some.inj hout
      exact Keeps.refl h
    next hok =>
      obtain rfl := Option.some.inj hout
      refine fail_keeps (fun call hcall => ?_) callId peerPubkey
      exact hclears call hcall (Bool.eq_false_iff.mpr hok)
  | sessionReady callId peerPubkey token =>
    simp only [runTask] at hout
    split at hout
    · obtain rfl := Option.some.inj hout
      exact ⟨rfl, rfl, rfl⟩
    next hok =>
      obtain rfl := Option.some.inj hout
      have hfree : ∀ call, h.activeCall ≠ some call := by
        intro call hcall
        exact hclears call hcall (Bool.eq_false_iff.mpr hok)
      obtain ⟨hactive, hcancelled, htokens⟩ := fail_keeps hfree callId peerPubkey
      exact ⟨hactive, hcancelled, htokens⟩
  | streaming callId token =>
    obtain rfl := Option.some.inj hout
    dsimp only
    rw [clearIf_other hclears]
    exact Keeps.refl h

theorem runTask_clears {ok : Bool} {t : Task} {call : ActiveCall} (hcall : h.activeCall = some call)
    (hclears : t.Clears call ok) : ∃ out, h.runTask ok t = some out ∧ out.1.activeCall = none := by
  cases t with
  | ringTimer incoming callId peerPubkey token =>
    obtain ⟨rfl, rfl⟩ := hclears
    refine ⟨_, rfl, ?_⟩
    dsimp only
    rw [clearIf_named (h := h.emitCallEvent _ _ _) hcall]
    cases incoming with
    | false => rfl
    | true => rfl
  | openingBi callId peerPubkey token =>
    obtain rfl : ok = false := hclears
    exact ⟨_, rfl, rfl⟩
  | sessionReady callId peerPubkey token =>
    obtain rfl : ok = false := hclears
    exact ⟨_, rfl, rfl⟩
  | streaming callId token =>
    obtain rfl : call.callId = callId := hclears
    refine ⟨_, rfl, ?_⟩
    dsimp only
    rw [clearIf_named hcall]
    rfl
  | acceptingBi | acceptReady | session => exact absurd hclears not_false

theorem runTask_effect {ok : Bool} {t : Task} {out : CallHandler × Option Task}
    (hout : h.runTask ok t = some out) : Effect h out.1 := by
  by_cases hcleared : ∃ call, h.activeCall = some call ∧ t.Clears call ok
  · obtain ⟨call, hcall, hclears⟩ := hcleared
    obtain ⟨out', hout', hnone⟩ := runTask_clears hcall hclears
    obtain rfl : out = out' := Option.some.inj (hout.symm.trans hout')
    exact .cleared hnone
  · refine .kept (runTask_keeps hout ?_)
    intro call hcall hclears
    exact hcleared ⟨call, hcall, hclears⟩

theorem step_task {i : Nat} {ok : Bool} (hstep : h.step (.task i ok) = some h') :
    ∃ t out, h.tasks[i]? = some t ∧ h.runTask ok t = some out ∧ h' = out.1.advance i out.2 := by
  simp only [step] at hstep
  split at hstep
  next => exact absurd hstep.symm (Option.some_ne_none h')
  next t ht =>
    obtain ⟨out, hout, rfl⟩ := Option.map_eq_some_iff.mp hstep
    exact ⟨t, out, ht, hout, rfl⟩

theorem step_installOffer (hstep : h.step .installOffer = some h') :
    ∃ callId peerPubkey, h.dispatch = .offering callId peerPubkey ∧
      h' = h.installOffer callId peerPubkey := by
  simp only [step] at hstep
  split at hstep
  next callId peerPubkey hd => exact ⟨callId, peerPubkey, hd, (Option.some.inj hstep).symm⟩
  next => exact absurd hstep.symm (Option.some_ne_none h')

theorem step_resolveTransport {found : Bool} (hstep : h.step (.resolveTransport found) = some h') :
    ∃ callId peerPubkey, h.dispatch = .resolving callId peerPubkey ∧
      h' = h.resolveTransport callId peerPubkey found := by
  simp only [step] at hstep
  split at hstep
  next callId peerPubkey hd => exact ⟨callId, peerPubkey, hd, (Option.some.inj hstep).symm⟩
  next => exact absurd hstep.symm (Option.some_ne_none h')

theorem step_connect {ok : Bool} (hstep : h.step (.connect ok) = some h') :
    ∃ callId peerPubkey, h.dispatch = .connecting callId peerPubkey ∧
      h' = h.connect callId peerPubkey ok := by
  simp only [step] at hstep
  split at hstep
  next callId peerPubkey hd => exact ⟨callId, peerPubkey, hd, (Option.some.inj hstep).symm⟩
  next => exact absurd hstep.symm (Option.some_ne_none h')

theorem step_effect {a : Label} (hstep : h.step a = some h') : Effect h h' := by
  cases a with
  | startCall callId peerPubkey signal =>
    obtain rfl := Option.some.inj hstep
    exact startCall_effect callId peerPubkey signal
  | acceptCall callId signal =>
    obtain rfl := Option.some.inj hstep
    exact acceptCall_effect callId signal
  | rejectCall callId =>
    obtain rfl := Option.some.inj hstep
    exact rejectCall_effect callId
  | hangup =>
    obtain rfl := Option.some.inj hstep
    exact hangup_effect
  | onCallOffer callId peerPubkey =>
    obtain ⟨-, hstep⟩ := Option.ite_none_right_eq_some.mp hstep
    obtain rfl := Option.some.inj hstep
    exact .kept (onCallOffer_keeps callId peerPubkey)
  | installOffer =>
    obtain ⟨callId, peerPubkey, -, rfl⟩ := step_installOffer hstep
    exact .written _ rfl (Nat.lt_succ_self _)
  | onCallAnswered callId peerPubkey =>
    obtain ⟨-, hstep⟩ := Option.ite_none_right_eq_some.mp hstep
    obtain rfl := Option.some.inj hstep
    exact onCallAnswered_effect callId peerPubkey
  | resolveTransport found =>
    obtain ⟨callId, peerPubkey, -, rfl⟩ := step_resolveTransport hstep
    cases found with
    | false => exact .cleared rfl
    | true => exact .kept ⟨rfl, rfl, rfl⟩
  | connect ok =>
    obtain ⟨callId, peerPubkey, -, rfl⟩ := step_connect hstep
    cases ok with
    | false => exact .cleared rfl
    | true => exact .kept ⟨rfl, rfl, rfl⟩
  | onCallEnded callId =>
    obtain ⟨-, hstep⟩ := Option.ite_none_right_eq_some.mp hstep
    obtain rfl := Option.some.inj hstep
    exact clearIf_effect fun _ _ => rfl
  | accept remote masterPubkey =>
    obtain rfl := Option.some.inj hstep
    exact .kept (accept_keeps _)
  | task i ok =>
    obtain ⟨t, out, -, hout, rfl⟩ := step_task hstep
    have hkeeps := advance_keeps out.1 i out.2
    cases runTask_effect hout with
    | kept hkept => exact .kept (hkept.trans hkeeps)
    | cleared hnone => exact .cleared (hkeeps.activeCall.trans hnone)
    | written call hcall hfresh =>
      refine .written call (hkeeps.activeCall.trans hcall) ?_
      rw [hkeeps.tokens]
      exact hfresh

theorem clearIf_tasks (callId : String) {then_ : CallHandler → ActiveCall → CallHandler}
    (hthen : ∀ g call, (then_ g call).tasks = g.tasks) : (h.clearIf callId then_).tasks = h.tasks := by
  unfold clearIf
  split
  · split
    · exact hthen h.clear _
    · rfl
  · rfl

theorem runTask_tasks {ok : Bool} {t : Task} {out : CallHandler × Option Task}
    (hout : h.runTask ok t = some out) : out.1.tasks = h.tasks := by
  cases t with
  | ringTimer incoming callId peerPubkey token =>
    simp only [runTask] at hout
    split at hout
    · obtain rfl := Option.some.inj hout
      refine clearIf_tasks callId fun g call => ?_
      split
      · rfl
      · rfl
    · grind
  | streaming callId token =>
    obtain rfl := Option.some.inj hout
    exact clearIf_tasks callId fun _ _ => rfl
  | acceptingBi | acceptReady | session | openingBi | sessionReady =>
    simp only [runTask] at hout
    grind [fail, emitCallEvent, record, clear]

theorem step_tasks {a : Label} (hstep : h.step a = some h') (htask : ∀ i ok, a ≠ .task i ok) :
    h'.tasks = h.tasks ∨ ∃ t, h'.tasks = h.tasks ++ [t] := by
  cases a with
  | task i ok => exact absurd rfl (htask i ok)
  | onCallEnded callId =>
    obtain ⟨-, hstep⟩ := Option.ite_none_right_eq_some.mp hstep
    obtain rfl := Option.some.inj hstep
    exact .inl (clearIf_tasks callId fun _ _ => rfl)
  | installOffer =>
    obtain ⟨callId, peerPubkey, -, rfl⟩ := step_installOffer hstep
    exact .inr ⟨_, rfl⟩
  | startCall callId peerPubkey signal =>
    obtain rfl := Option.some.inj hstep
    unfold startCall
    split
    · exact .inl rfl
    · split
      · exact .inl rfl
      · exact .inr ⟨_, rfl⟩
  | _ =>
    simp only [step] at hstep
    grind [acceptCall, rejectCall, hangup, onCallOffer, onCallAnswered, resolveTransport,
      connect, accept, fail, install, renewToken, cancelToken, emitCallEvent, spawn, record, clear]

/-- What the loop of `setup.rs` does with a signal. -/
def receive (h : CallHandler) (s : CallSignal) : CallHandler :=
  match s.payload with
  | .offer callId => h.onCallOffer callId s.peerPubkey
  | .answer callId => h.onCallAnswered callId s.peerPubkey
  | .reject callId => h.onCallEnded callId
  | .hangup callId => h.onCallEnded callId

theorem step_signal (s : CallSignal) :
    h.step s.label = if h.dispatch = .idle then some (h.receive s) else none := by
  obtain ⟨peerPubkey, payload⟩ := s
  cases payload with
  | offer callId => rfl
  | answer callId => rfl
  | reject callId => rfl
  | hangup callId => rfl

theorem receive_other {s : CallSignal}
    (hother : ∀ call, h.activeCall = some call → s.payload.names ≠ some call.callId) :
    Keeps h (h.receive s) := by
  have hids : ∀ callId, s.payload.names = some callId →
      ∀ call, h.activeCall = some call → call.callId ≠ callId := by
    rintro _ hnames call hcall rfl
    exact hother call hcall hnames
  obtain ⟨peerPubkey, payload⟩ := s
  have hended : ∀ callId, payload.names = some callId → Keeps h (h.onCallEnded callId) := by
    intro callId hnames
    unfold onCallEnded
    rw [clearIf_other (hids callId hnames)]
    exact Keeps.refl h
  cases payload with
  | offer callId => exact onCallOffer_keeps callId peerPubkey
  | answer callId => exact onCallAnswered_other (hids callId rfl) peerPubkey
  | reject callId => exact hended callId rfl
  | hangup callId => exact hended callId rfl

theorem receive_named {s : CallSignal} {call : ActiveCall} (hcall : h.activeCall = some call)
    (hnamed : s.payload.names = some call.callId) :
    (h.receive s).activeCall = none ∨ (h.receive s).cancelled = call.cancel :: h.cancelled := by
  obtain ⟨peerPubkey, payload⟩ := s
  have hended : (h.onCallEnded call.callId).activeCall = none := by
    unfold onCallEnded
    rw [clearIf_named hcall]
    rfl
  cases payload with
  | offer callId => exact absurd hnamed.symm (Option.some_ne_none call.callId)
  | answer callId =>
    obtain rfl : callId = call.callId := Option.some.inj hnamed
    exact .inr (onCallAnswered_named hcall peerPubkey).2.1
  | reject callId =>
    obtain rfl : callId = call.callId := Option.some.inj hnamed
    exact .inl hended
  | hangup callId =>
    obtain rfl : callId = call.callId := Option.some.inj hnamed
    exact .inl hended

end CallHandler

namespace Tracked

variable {t t' : Tracked}

/-- Every task has an owner, and the active call its number. -/
structure Aligned (t : Tracked) : Prop where
  owners : t.owners.length = t.handler.tasks.length
  current : t.current = none ↔ t.handler.activeCall = none

/-- A free slot is only filled by what installs a call. -/
theorem installs_of_filled {a : Label} {h' : CallHandler} (hfree : t.handler.activeCall = none)
    (hstep : t.handler.step a = some h') (hfilled : h'.activeCall ≠ none) : t.installs a = true := by
  by_contra hinstalls
  refine hfilled ?_
  cases a with
  | startCall callId peerPubkey signal =>
    cases signal with
    | ok _ => simp [installs, hfree] at hinstalls
    | error text =>
      obtain rfl := Option.some.inj hstep
      unfold CallHandler.startCall
      rw [hfree]
      exact hfree
  | installOffer => exact absurd rfl hinstalls
  | task i ok =>
    obtain ⟨task, out, -, hout, rfl⟩ := CallHandler.step_task hstep
    have hkept : CallHandler.Keeps t.handler out.1 := by
      refine CallHandler.runTask_keeps hout ?_
      intro call hcall
      exact absurd (hfree.symm.trans hcall) (Option.some_ne_none call).symm
    rw [(CallHandler.advance_keeps out.1 i out.2).activeCall, hkept.activeCall, hfree]
  | onCallEnded callId =>
    obtain ⟨-, hstep⟩ := Option.ite_none_right_eq_some.mp hstep
    obtain rfl := Option.some.inj hstep
    unfold CallHandler.onCallEnded
    rw [CallHandler.clearIf_other, hfree]
    intro call hcall
    exact absurd (hfree.symm.trans hcall) (Option.some_ne_none call).symm
  | _ =>
    simp only [CallHandler.step] at hstep
    grind [CallHandler.acceptCall, CallHandler.rejectCall, CallHandler.hangup,
      CallHandler.onCallOffer, CallHandler.onCallAnswered, CallHandler.resolveTransport,
      CallHandler.connect, CallHandler.accept, CallHandler.fail, CallHandler.emitCallEvent,
      CallHandler.spawn, CallHandler.record, CallHandler.clear]

theorem aligned_step (h : t.Aligned) {e : Input} (hstep : t.step e = some t') : t'.Aligned := by
  obtain ⟨a, h', -, hh', rfl⟩ := step_eq_some.mp hstep
  refine ⟨?_, ?_⟩
  · have howners := h.owners
    by_cases htask : ∃ i ok, a = .task i ok
    · obtain ⟨i, ok, rfl⟩ := htask
      obtain ⟨task, out, htask, hout, rfl⟩ := CallHandler.step_task hh'
      have htasks := CallHandler.runTask_tasks hout
      obtain ⟨hlt, -⟩ := List.getElem?_eq_some_iff.mp htask
      cases hnext : out.2 with
      | none =>
        have hlength : (out.1.advance i none).tasks.length + 1 = t.handler.tasks.length := by
          rw [show (out.1.advance i none).tasks = out.1.tasks.eraseIdx i from rfl, htasks,
            List.length_eraseIdx_of_lt hlt]
          omega
        simp only [follow]
        rw [if_neg (by omega), if_pos (by omega), List.length_eraseIdx_of_lt (by omega)]
        omega
      | some next =>
        have hlength : (out.1.advance i (some next)).tasks.length = t.handler.tasks.length := by
          rw [show (out.1.advance i (some next)).tasks = out.1.tasks.set i next from rfl, htasks,
            List.length_set]
        simp only [follow]
        rw [if_neg (by omega), if_neg (by omega)]
        omega
    · rcases CallHandler.step_tasks hh' fun i ok ha => htask ⟨i, ok, ha⟩ with heq | ⟨task, happend⟩
      · simp only [follow, heq, lt_irrefl, if_false]
        exact howners
      · simp only [follow, happend, List.length_append, List.length_singleton, Nat.lt_succ_self, if_true]
        omega
  · simp only [follow]
    by_cases hnone : h'.activeCall = none
    · rw [if_pos hnone]
      exact iff_of_true rfl hnone
    · rw [if_neg hnone]
      refine iff_of_false ?_ hnone
      split
      · exact Option.some_ne_none _
      next hinstalls =>
        intro hcurrent
        exact hinstalls (installs_of_filled (h.current.mp hcurrent) hh' hnone)

theorem aligned_run {run : List Input} {t : Tracked} (hrun : exec step new run = some t) : t.Aligned :=
  exec_invariant (fun _ _ _ h _ hstep => aligned_step h hstep) ⟨rfl, iff_of_true rfl rfl⟩
    (Along.of_forall (p := fun _ => True) fun _ _ => trivial) hrun

theorem tokenKnown_step (hknown : t.handler.TokenKnown) {e : Input} (hstep : t.step e = some t') :
    t'.handler.TokenKnown := by
  obtain ⟨a, h', -, hh', rfl⟩ := step_eq_some.mp hstep
  exact hknown.of_effect (CallHandler.step_effect hh')

/-- When `p` says which active calls a step hits, the step spares the calls of others exactly
when it is performed for every call it hits. -/
theorem spares_iff {e : Input} {a : Label} (ha : e.label = some a) {p : ActiveCall → Prop}
    (hkeeps : ∀ call, t.handler.activeCall = some call → ¬ p call → ∀ h',
      t.handler.step a = some h' → CallHandler.Keeps t.handler h')
    (hhits : ∀ call, t.handler.activeCall = some call → p call → ∃ h',
      t.handler.step a = some h' ∧
        (h'.activeCall ≠ some call ∨ h'.cancelled ≠ t.handler.cancelled)) :
    t.Spares e ↔ ∀ call, t.handler.activeCall = some call → p call → t.ActsFor call e := by
  constructor
  · intro hspares call hcall hhit
    by_contra hother
    obtain ⟨h', hh', hchanged⟩ := hhits call hcall hhit
    obtain ⟨hactive, hcancelled⟩ := hspares call hcall hother _ (step_eq_some.mpr ⟨a, h', ha, hh', rfl⟩)
    exact hchanged.elim (fun hne => hne hactive) fun hne => hne hcancelled
  · intro hacts call hcall hother t' hstep
    obtain ⟨b, h', hb, hh', rfl⟩ := step_eq_some.mp hstep
    obtain rfl : a = b := Option.some.inj (ha.symm.trans hb)
    have hkept := hkeeps call hcall (fun hhit => hother (hacts call hcall hhit)) h' hh'
    exact ⟨hkept.activeCall.trans hcall, hkept.cancelled⟩

theorem spares_signal_iff (s : CallSignal) :
    t.Spares (.signal s) ↔ t.Undisturbed (.signal s) := by
  rw [spares_iff (p := fun call => t.handler.dispatch = .idle ∧ s.payload.names = some call.callId) rfl]
  · constructor
    · intro h hidle call hcall hnamed
      exact (h call hcall ⟨hidle, hnamed⟩).2
    · rintro h call hcall ⟨hidle, hnamed⟩
      exact ⟨hnamed, h hidle call hcall hnamed⟩
  · intro call hcall hmiss h' hh'
    rw [CallHandler.step_signal] at hh'
    obtain ⟨hidle, hh'⟩ := Option.ite_none_right_eq_some.mp hh'
    obtain rfl := Option.some.inj hh'
    exact CallHandler.receive_other (CallHandler.forall_active hcall fun hnamed => hmiss ⟨hidle, hnamed⟩)
  · rintro call hcall ⟨hidle, hnamed⟩
    refine ⟨t.handler.receive s, ?_, ?_⟩
    · rw [CallHandler.step_signal, if_pos hidle]
    · rcases CallHandler.receive_named hcall hnamed with hnone | hcons
      · exact .inl (hnone ▸ (Option.some_ne_none call).symm)
      · exact .inr (hcons ▸ List.cons_ne_self _ _)

theorem spares_installOffer_iff (hknown : t.handler.TokenKnown) :
    t.Spares (.own .installOffer) ↔ t.Undisturbed (.own .installOffer) := by
  rw [spares_iff (p := fun _ => ∃ callId peerPubkey, t.handler.dispatch = .offering callId peerPubkey) rfl]
  · constructor
    · intro h callId peerPubkey hd
      refine Option.eq_none_iff_forall_ne_some.mpr ?_
      intro call hcall
      exact h call hcall ⟨callId, peerPubkey, hd⟩
    · rintro h call hcall ⟨callId, peerPubkey, hd⟩
      exact absurd (hcall.symm.trans (h callId peerPubkey hd)) (Option.some_ne_none call)
  · intro call hcall hmiss h' hh'
    obtain ⟨callId, peerPubkey, hd, -⟩ := CallHandler.step_installOffer hh'
    exact absurd ⟨callId, peerPubkey, hd⟩ hmiss
  · rintro call hcall ⟨callId, peerPubkey, hd⟩
    refine ⟨t.handler.installOffer callId peerPubkey, ?_, .inl ?_⟩
    · simp only [CallHandler.step, hd]
    · -- the token of the installed call is a fresh one
      intro hsame
      have htoken : t.handler.tokens = call.cancel := congrArg ActiveCall.cancel (Option.some.inj hsame)
      exact absurd (hknown call hcall) (by omega)

theorem failure_iff {e : Input} {a : Label} (ha : e.label = some a) {p : Prop}
    (hkeeps : ¬ p → ∀ h', t.handler.step a = some h' → CallHandler.Keeps t.handler h')
    (hfails : p → ∃ h', t.handler.step a = some h' ∧ h'.activeCall = none)
    (hacts : ∀ call, t.ActsFor call e ↔ t.current = some t.serving) :
    t.Spares e ↔ (p → t.handler.activeCall = none ∨ t.current = some t.serving) := by
  rw [spares_iff (p := fun _ => p) ha]
  · simp only [hacts]
    constructor
    · intro h hf
      refine or_iff_not_imp_left.mpr fun hactive => ?_
      obtain ⟨call, hcall⟩ := Option.ne_none_iff_exists'.mp hactive
      exact h call hcall hf
    · intro h call hcall hf
      refine (h hf).resolve_left fun hnone => ?_
      exact Option.some_ne_none call (hcall.symm.trans hnone)
  · intro call _ hmiss
    exact hkeeps hmiss
  · intro call _ hf
    obtain ⟨h', hh', hnone⟩ := hfails hf
    exact ⟨h', hh', .inl (hnone ▸ (Option.some_ne_none call).symm)⟩

theorem spares_resolveTransport_iff (found : Bool) :
    t.Spares (.own (.resolveTransport found)) ↔ t.Undisturbed (.own (.resolveTransport found)) := by
  rw [failure_iff rfl (p := (∃ callId peerPubkey,
    t.handler.dispatch = .resolving callId peerPubkey) ∧ found = false)]
  · constructor
    · intro h callId peerPubkey hd hfound
      exact h ⟨⟨callId, peerPubkey, hd⟩, hfound⟩
    · rintro h ⟨⟨callId, peerPubkey, hd⟩, hfound⟩
      exact h callId peerPubkey hd hfound
  · intro hfound h' hh'
    obtain ⟨callId, peerPubkey, hd, rfl⟩ := CallHandler.step_resolveTransport hh'
    cases found with
    | true => exact ⟨rfl, rfl, rfl⟩
    | false => exact absurd ⟨⟨callId, peerPubkey, hd⟩, rfl⟩ hfound
  · rintro ⟨⟨callId, peerPubkey, hd⟩, rfl⟩
    refine ⟨t.handler.resolveTransport callId peerPubkey false, ?_, rfl⟩
    simp only [CallHandler.step, hd]
  · exact fun _ => Iff.rfl

theorem spares_connect_iff (ok : Bool) :
    t.Spares (.own (.connect ok)) ↔ t.Undisturbed (.own (.connect ok)) := by
  rw [failure_iff rfl (p := (∃ callId peerPubkey,
    t.handler.dispatch = .connecting callId peerPubkey) ∧ ok = false)]
  · constructor
    · intro h callId peerPubkey hd hok
      exact h ⟨⟨callId, peerPubkey, hd⟩, hok⟩
    · rintro h ⟨⟨callId, peerPubkey, hd⟩, hok⟩
      exact h callId peerPubkey hd hok
  · intro hok h' hh'
    obtain ⟨callId, peerPubkey, hd, rfl⟩ := CallHandler.step_connect hh'
    cases ok with
    | true => exact ⟨rfl, rfl, rfl⟩
    | false => exact absurd ⟨⟨callId, peerPubkey, hd⟩, rfl⟩ hok
  · rintro ⟨⟨callId, peerPubkey, hd⟩, rfl⟩
    refine ⟨t.handler.connect callId peerPubkey false, ?_, rfl⟩
    simp only [CallHandler.step, hd]
  · exact fun _ => Iff.rfl

theorem spares_task_iff (i : Nat) (ok : Bool) :
    t.Spares (.own (.task i ok)) ↔ ∀ task, t.handler.tasks[i]? = some task →
      ∀ call, t.handler.activeCall = some call → task.Clears call ok → t.current = t.owners[i]? := by
  rw [spares_iff (p := fun call => ∃ task, t.handler.tasks[i]? = some task ∧ task.Clears call ok) rfl]
  · constructor
    · intro h task htask call hcall hclears
      exact h call hcall ⟨task, htask, hclears⟩
    · rintro h call hcall ⟨task, htask, hclears⟩
      exact h task htask call hcall hclears
  · intro call hcall hmiss h' hh'
    obtain ⟨task, out, htask, hout, rfl⟩ := CallHandler.step_task hh'
    have hkept := CallHandler.runTask_keeps hout
      (CallHandler.forall_active hcall fun hclears => hmiss ⟨task, htask, hclears⟩)
    exact hkept.trans (CallHandler.advance_keeps out.1 i out.2)
  · rintro call hcall ⟨task, htask, hclears⟩
    obtain ⟨out, hout, hnone⟩ := CallHandler.runTask_clears hcall hclears
    refine ⟨out.1.advance i out.2, ?_, .inl ?_⟩
    · simp only [CallHandler.step, htask, hout, Option.map_some]
    · rw [(CallHandler.advance_keeps out.1 i out.2).activeCall, hnone]
      exact (Option.some_ne_none call).symm

theorem spares_command {a : Label} (hlabel : (Input.own a).label = some a)
    (hkeeps : ∀ call, t.handler.activeCall = some call → ¬ t.ActsFor call (.own a) → ∀ h',
      t.handler.step a = some h' → CallHandler.Keeps t.handler h') : t.Spares (.own a) := by
  intro call hcall hother t' hstep
  obtain ⟨b, h', hb, hh', rfl⟩ := step_eq_some.mp hstep
  obtain rfl : a = b := Option.some.inj (hlabel.symm.trans hb)
  have hkept := hkeeps call hcall hother h' hh'
  exact ⟨hkept.activeCall.trans hcall, hkept.cancelled⟩

theorem spares_foreign {a : Label} (hlabel : (Input.own a).label = none) : t.Spares (.own a) := by
  intro call _ _ t' hstep
  obtain ⟨b, _, hb, -⟩ := step_eq_some.mp hstep
  exact absurd (hb.symm.trans hlabel) (Option.some_ne_none b)

theorem isolated_of_spares {e : Input} (hspares : t.Spares e)
    (htask : ∀ i ok, e ≠ .own (.task i ok)) : t.Isolated e := by
  refine ⟨hspares, ?_⟩
  unfold NoPanic
  split
  next i ok => exact absurd rfl (htask i ok)
  next => trivial

theorem isolated_task_iff (i : Nat) (ok : Bool) :
    t.Isolated (.own (.task i ok)) ↔ t.Undisturbed (.own (.task i ok)) := by
  constructor
  · intro h task htask
    exact ⟨(spares_task_iff i ok).mp h.spares task htask, h.noPanic task htask⟩
  · intro h
    have hspares := (spares_task_iff i ok).mpr fun task htask => (h task htask).1
    exact ⟨hspares, fun task htask => (h task htask).2⟩

theorem spares_iff_undisturbed (hknown : t.handler.TokenKnown) {e : Input}
    (htask : ∀ i ok, e ≠ .own (.task i ok)) : t.Spares e ↔ t.Undisturbed e := by
  cases e with
  | signal s => exact spares_signal_iff s
  | own a =>
    cases a with
    | installOffer => exact spares_installOffer_iff hknown
    | resolveTransport found => exact spares_resolveTransport_iff found
    | connect ok => exact spares_connect_iff ok
    | task i ok => exact absurd rfl (htask i ok)
    | startCall callId peerPubkey signal =>
      refine iff_of_true (spares_command rfl ?_) trivial
      rintro call hcall - h' ⟨⟩
      exact CallHandler.startCall_occupied hcall callId peerPubkey signal
    | acceptCall callId signal =>
      refine iff_of_true (spares_command rfl ?_) trivial
      rintro call hcall hother h' ⟨⟩
      exact CallHandler.acceptCall_other (CallHandler.forall_active hcall hother) signal
    | rejectCall callId =>
      refine iff_of_true (spares_command rfl ?_) trivial
      rintro call hcall hother h' ⟨⟩
      exact CallHandler.rejectCall_other (CallHandler.forall_active hcall hother)
    | hangup =>
      refine iff_of_true (spares_command rfl ?_) trivial
      intro call hcall hother
      exact absurd trivial hother
    | accept remote masterPubkey =>
      refine iff_of_true (spares_command rfl ?_) trivial
      rintro call hcall - h' ⟨⟩
      exact CallHandler.accept_keeps _
    | onCallOffer | onCallAnswered | onCallEnded => exact iff_of_true (spares_foreign rfl) trivial

theorem isolated_iff (hknown : t.handler.TokenKnown) (e : Input) :
    t.Isolated e ↔ t.Undisturbed e := by
  by_cases htask : ∃ i ok, e = .own (.task i ok)
  · obtain ⟨i, ok, rfl⟩ := htask
    exact isolated_task_iff i ok
  · have hother : ∀ i ok, e ≠ .own (.task i ok) := fun i ok he => htask ⟨i, ok, he⟩
    constructor
    · intro h
      exact (spares_iff_undisturbed hknown hother).mp h.spares
    · intro h
      exact isolated_of_spares ((spares_iff_undisturbed hknown hother).mpr h) hother

end Tracked

/-- In a run, every step is isolated exactly when every step is undisturbed. -/
theorem isolated_iff_undisturbed (run : List Input) :
    Along Tracked.step Tracked.Isolated .new run ↔
      Along Tracked.step Tracked.Undisturbed .new run := by
  refine along_iff (I := fun t => t.handler.TokenKnown) (fun t e hknown => Tracked.isolated_iff hknown e) ?_ ?_
  · intro t e t' hknown _ hstep
    exact Tracked.tokenKnown_step hknown hstep
  · intro call hcall
    exact absurd hcall.symm (Option.some_ne_none call)

/-- The first call is hung up while its audio connection is tried, and a second one is started. -/
def lateFailure : List Input :=
  [.own (.startCall "first" "alice" (.ok ())), .signal ⟨"alice", .answer "first"⟩,
    .own (.resolveTransport true), .own .hangup, .own (.startCall "second" "bob" (.ok ())),
    .own (.connect false)]

theorem not_isolated_lateFailure : ¬ Along Tracked.step Tracked.Isolated .new lateFailure := by
  intro h
  have hbefore : exec Tracked.step .new (lateFailure.take 5) = some _ := rfl
  rw [← List.take_append_drop 5 lateFailure] at h
  have hspares := (h.of_append.2 _ hbefore).1.spares
  have hother : some 1 ≠ some 0 := by decide
  have hkept := (hspares _ rfl hother _ rfl).1
  exact absurd hkept.symm (Option.some_ne_none _)

end Proscenium.Call
