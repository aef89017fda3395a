import Proscenium.Call.CallConsent

/-! Calls between devices. The signals of a call are direct messages: an honest
user is only heard of with what his handler has sent, at any time and any number
of times, and everybody else sends what he likes. A microphone is then on only for
a call that one of its users started and the other accepted, as far as they are honest. -/

namespace Proscenium.Call

abbrev Devices := String → CallHandler

namespace Devices

section Network

variable (honest : String → Bool) (w : Devices)

/-- A signal in an honest user's name is one that he has sent. -/
def Genuine (user : String) : Label → Prop
  | .onCallOffer callId peer => honest peer = true → .sent user (.offer callId) ∈ (w peer).log
  | .onCallAnswered callId peer => honest peer = true → .sent user (.answer callId) ∈ (w peer).log
  | _ => True

instance : ∀ (user : String) (l : Label), Decidable (w.Genuine honest user l)
  | _, .onCallOffer _ _ | _, .onCallAnswered _ _ => by unfold Genuine; infer_instance
  | _, .startCall _ _ _ | _, .acceptCall _ _ | _, .rejectCall _ | _, .hangup | _, .installOffer
  | _, .resolveTransport _ | _, .connect _ | _, .onCallEnded _ | _, .accept _ _ | _, .task _ _ => isTrue trivial

def step (l : String × Label) : Option Devices :=
  if honest l.1 = true ∧ w.Genuine honest l.1 l.2 then ((w l.1).step l.2).map (Function.update w l.1) else none

/-- A user accepts only the call that rings at his device; nobody connects for a call that still rings,
and only who is not honest might answer a call that he was not called with. -/
def Prudent (l : String × Label) : Prop :=
  match l.2 with
  | .acceptCall callId _ => (w l.1).activeCall.map ActiveCall.callId = some callId ∧
      (w l.1).log.filterMap (Event.calledPeer callId) = []
  | .accept remote masterPubkey => (w l.1).PeersWait (.accept remote masterPubkey)
  | .onCallAnswered callId peer => honest peer = false → (w l.1).PeersWait (.onCallAnswered callId peer)
  | _ => True

instance : ∀ l : String × Label, Decidable (w.Prudent honest l)
  | (_, .acceptCall _ _) | (_, .accept _ _) | (_, .onCallAnswered _ _) => by unfold Prudent; infer_instance
  | (_, .startCall _ _ _) | (_, .rejectCall _) | (_, .hangup) | (_, .onCallOffer _ _) | (_, .installOffer)
  | (_, .resolveTransport _) | (_, .connect _) | (_, .onCallEnded _) | (_, .task _ _) => isTrue trivial

/-- The peer's call rang at the user's device, and the peer has started it. -/
def Rang (user callId peer : String) : Prop :=
  .emitted callId peer .incoming ∈ (w user).log ∧ (honest peer = true → .startCalled callId user ∈ (w peer).log)

/-- One of the two started the call and the other one accepted it. -/
def Agreed (user callId : String) : Prop :=
  ∃ peer, (.acceptCalled callId ∈ (w user).log ∧ w.Rang honest user callId peer) ∨
    (.startCalled callId peer ∈ (w user).log ∧ .answerArrived callId peer ∈ (w user).log ∧
      (honest peer = true → .acceptCalled callId ∈ (w peer).log ∧ w.Rang honest peer callId user))

end Network

end Devices

def Event.plain : Event → Bool
  | .sent _ (.offer _) | .sent _ (.answer _) | .acceptCalled _ | .answerArrived _ _ => false
  | _ => true

def ActiveCall.names (call : ActiveCall) : String × String := (call.callId, call.peerPubkey)

namespace CallHandler

structure Silent (h h' : CallHandler) : Prop where
  log : ∃ new, h'.log = new ++ h.log ∧ ∀ e ∈ new, e.plain = true
  activeCall : h'.activeCall = none ∨ h'.activeCall.map ActiveCall.names = h.activeCall.map ActiveCall.names
  dispatch : ∀ callId peer, h'.dispatch = .offering callId peer → h.dispatch = .offering callId peer

variable {h h' h'' : CallHandler}

theorem Silent.refl (h : CallHandler) : Silent h h :=
  ⟨⟨[], rfl, fun _ he => nomatch he⟩, .inr rfl, fun _ _ hd => hd⟩

theorem Silent.trans (h₁ : Silent h h') (h₂ : Silent h' h'') : Silent h h'' := by
  obtain ⟨new, hlog, hnew⟩ := h₁.log
  obtain ⟨new', hlog', hnew'⟩ := h₂.log
  refine ⟨⟨new' ++ new, ?_, ?_⟩, ?_, fun c p hd => h₁.dispatch c p (h₂.dispatch c p hd)⟩
  · rw [hlog', hlog, List.append_assoc]
  · intro e he
    exact (List.mem_append.mp he).elim (hnew' e) (hnew e)
  · rcases h₂.activeCall with hnone | heq
    · exact .inl hnone
    · rcases h₁.activeCall with hnone | heq'
      · rw [hnone] at heq
        exact .inl (Option.map_eq_none_iff.mp heq)
      · exact .inr (heq.trans heq')

theorem silent_record {e : Event} (he : e.plain = true) : Silent h (h.record e) :=
  ⟨⟨[e], rfl, fun _ hmem => List.mem_singleton.mp hmem ▸ he⟩, .inr rfl, fun _ _ hd => hd⟩

theorem silent_of_eq (hlog : h'.log = h.log)
    (hactive : h'.activeCall = none ∨ h'.activeCall.map ActiveCall.names = h.activeCall.map ActiveCall.names)
    (hdispatch : ∀ callId peer, h'.dispatch = .offering callId peer → h.dispatch = .offering callId peer) :
    Silent h h' :=
  ⟨⟨[], hlog, fun _ he => nomatch he⟩, hactive, hdispatch⟩

theorem silent_spawn (t : Task) : Silent h (h.spawn t) := silent_of_eq rfl (.inr rfl) fun _ _ hd => hd

theorem silent_clear : Silent h h.clear := silent_of_eq rfl (.inl rfl) fun _ _ hd => hd

theorem silent_cancelToken (token : Nat) : Silent h (h.cancelToken token) :=
  silent_of_eq rfl (.inr rfl) fun _ _ hd => hd

theorem silent_emit (callId peer : String) (state : CallState) : Silent h (h.emitCallEvent callId peer state) :=
  silent_record rfl

theorem silent_fail (callId peer : String) : Silent h (h.fail callId peer) :=
  (silent_emit callId peer .failed).trans silent_clear

theorem silent_leave {dispatch : Dispatch} (hnot : ∀ callId peer, dispatch ≠ .offering callId peer) :
    Silent h { h with dispatch } :=
  silent_of_eq rfl (.inr rfl) fun c p hd => absurd hd (hnot c p)

theorem silent_clearIf {callId : String} {then_ : CallHandler → ActiveCall → CallHandler}
    (hthen : ∀ g call, Silent g (then_ g call)) : Silent h (h.clearIf callId then_) := by
  unfold clearIf
  split
  · split
    · exact silent_clear.trans (hthen _ _)
    · exact Silent.refl h
  · exact Silent.refl h

theorem silent_hangUp (call : ActiveCall) {payload : CallPayload} (callId : String)
    (hpayload : (Event.sent call.peerPubkey payload).plain = true) :
    Silent h ((((h.clear.cancelToken call.cancel).record (.sent call.peerPubkey payload)).emitCallEvent
      callId call.peerPubkey .ended).record (.returned (.ok ""))) := by
  have hcleared : Silent h (h.clear.cancelToken call.cancel) := silent_clear.trans (silent_cancelToken call.cancel)
  exact (hcleared.trans (silent_record hpayload)).trans ((silent_emit _ _ _).trans (silent_record rfl))

theorem silent_rejectCall (callId : String) : Silent h (h.rejectCall callId) := by
  unfold rejectCall
  split
  · split
    · exact silent_hangUp _ _ rfl
    · exact silent_record rfl
  · exact silent_record rfl

theorem silent_hangup : Silent h h.hangup := by
  unfold hangup
  split
  · exact silent_hangUp _ _ rfl
  · exact silent_record rfl

theorem silent_onCallEnded (callId : String) : Silent h (h.onCallEnded callId) :=
  silent_clearIf fun _ _ => (silent_cancelToken _).trans (silent_emit _ _ _)

theorem silent_accept (peer : String) : Silent h (h.accept peer) := by
  unfold accept
  split
  · split
    · exact silent_spawn _
    · exact Silent.refl h
  · exact Silent.refl h

theorem silent_resolveTransport (callId peer : String) (found : Bool) :
    Silent h (h.resolveTransport callId peer found) := by
  unfold resolveTransport
  split
  · exact silent_leave nofun
  · exact (silent_fail callId peer).trans (silent_leave nofun)

theorem silent_connect (callId peer : String) (ok : Bool) : Silent h (h.connect callId peer ok) := by
  unfold connect
  split
  · exact (silent_spawn _).trans (silent_leave nofun)
  · exact (silent_fail callId peer).trans (silent_leave nofun)

theorem silent_advance (i : Nat) (next : Option Task) : Silent h (h.advance i next) := by
  cases next <;> exact silent_of_eq rfl (.inr rfl) fun _ _ hd => hd

theorem silent_runTask {ok : Bool} {t : Task} {out : CallHandler × Option Task} (hout : h.runTask ok t = some out) :
    Silent h out.1 := by
  cases t with
  | ringTimer incoming callId peer token =>
    simp only [runTask] at hout
    split at hout
    · obtain rfl := Option.some.inj hout
      dsimp only
      refine (silent_emit callId peer (if incoming then .ended else .failed)).trans (silent_clearIf fun g _ => ?_)
      split
      · exact silent_record rfl
      · exact Silent.refl g
    · split at hout
      · obtain rfl := Option.some.inj hout
        exact Silent.refl h
      · cases hout
  | acceptingBi callId =>
    simp only [runTask] at hout
    split at hout
    · split at hout <;> obtain rfl := Option.some.inj hout <;> exact Silent.refl h
    · obtain rfl := Option.some.inj hout
      exact Silent.refl h
  | acceptReady callId token =>
    obtain rfl := Option.some.inj hout
    exact silent_record rfl
  | session callId peer =>
    simp only [runTask] at hout
    split at hout <;> obtain rfl := Option.some.inj hout <;> exact Silent.refl h
  | openingBi callId peer token =>
    simp only [runTask] at hout
    split at hout <;> obtain rfl := Option.some.inj hout
    · exact Silent.refl h
    · exact silent_fail callId peer
  | sessionReady callId peer token =>
    have hcapture : Silent h (h.record (.captureStarted callId)) := silent_record rfl
    simp only [runTask] at hout
    split at hout <;> obtain rfl := Option.some.inj hout
    · exact hcapture
    · exact hcapture.trans (silent_fail callId peer)
  | streaming callId token =>
    obtain rfl := Option.some.inj hout
    dsimp only
    exact silent_clearIf fun _ _ => silent_emit _ _ _

/-- Why an event that others go by is in the log after a step. -/
def Explains (h : CallHandler) (l : Label) (h' : CallHandler) : Event → Prop
  | .sent peer (.offer callId) => .startCalled callId peer ∈ h'.log
  | .sent peer (.answer callId) => (∃ signal, l = .acceptCall callId signal) ∧
      h.activeCall.map ActiveCall.names = some (callId, peer) ∧ .acceptCalled callId ∈ h'.log
  | .acceptCalled callId => ∃ signal, l = .acceptCall callId signal
  | .answerArrived callId peer => l = .onCallAnswered callId peer
  | _ => True

/-- What a step has to do with others: each event they go by has its reason, and so has the call
that is active after it. -/
structure Accounted (h : CallHandler) (l : Label) (h' : CallHandler) : Prop where
  log : ∃ new, h'.log = new ++ h.log ∧ ∀ e ∈ new, h.Explains l h' e
  activeCall : ∀ call ∈ h'.activeCall, h.activeCall.map ActiveCall.names = some call.names ∨
    .startCalled call.callId call.peerPubkey ∈ h'.log ∨
      (h.dispatch = .offering call.callId call.peerPubkey ∧ .emitted call.callId call.peerPubkey .incoming ∈ h'.log)
  dispatch : ∀ callId peer, h'.dispatch = .offering callId peer →
    h.dispatch = .offering callId peer ∨ l = .onCallOffer callId peer

theorem Silent.accounted {l : Label} (hs : Silent h h') : Accounted h l h' := by
  obtain ⟨new, hlog, hnew⟩ := hs.log
  refine ⟨⟨new, hlog, fun e he => ?_⟩, fun call hcall => .inl ?_, fun c p hd => .inl (hs.dispatch c p hd)⟩
  · have hplain := hnew e he
    revert hplain
    unfold Explains
    split <;> intro hplain <;> trivial
  · rcases hs.activeCall with hnone | heq
    · exact nomatch hnone.symm.trans hcall
    · exact heq.symm.trans (congrArg (Option.map ActiveCall.names) hcall)

theorem accounted_startCall (callId peer : String) (signal : Except String Unit) :
    Accounted h (.startCall callId peer signal) (h.startCall callId peer signal) := by
  unfold startCall
  split
  · exact (silent_record rfl).accounted
  · split
    · exact (silent_record rfl).accounted
    next hnone _ _ =>
      refine ⟨⟨[_, _, _, _], rfl, ?_⟩, ?_, fun c p hd => .inl hd⟩
      · simp [Explains, record, emitCallEvent, spawn, install]
      · rintro call hcall
        obtain rfl := Option.some.inj hcall
        exact .inr (.inl (by simp [record, emitCallEvent, spawn, install]))

theorem accounted_acceptCall (callId : String) (signal : Except String Unit) :
    Accounted h (.acceptCall callId signal) (h.acceptCall callId signal) := by
  have hrefused : Accounted h (.acceptCall callId signal)
      ((h.record (.acceptCalled callId)).record (.returned (.error .noIncomingCall))) := by
    refine ⟨⟨[_, _], rfl, ?_⟩, fun call hcall => .inl (congrArg _ hcall), fun c p hd => .inl hd⟩
    simp [Explains]
  have hkept : ∀ {call old : ActiveCall}, h.activeCall = some old → some { old with cancel := h.tokens } = some call →
      h.activeCall.map ActiveCall.names = some call.names := by
    rintro call old hold ⟨⟩
    exact congrArg (Option.map ActiveCall.names) hold
  unfold acceptCall
  dsimp only
  split
  next call hcall =>
    replace hcall : h.activeCall = some call := hcall
    split
    next hid =>
      split
      · refine ⟨⟨[_, _], rfl, ?_⟩, fun new hnew => .inl (hkept hcall hnew), fun c p hd => .inl hd⟩
        simp [Explains]
      · refine ⟨⟨[_, _, _, _], rfl, ?_⟩, fun new hnew => .inl (hkept hcall hnew), fun c p hd => .inl hd⟩
        simp [Explains, hcall, ActiveCall.names, hid, record, emitCallEvent, renewToken, cancelToken]
    next => exact hrefused
  next => exact hrefused

theorem accounted_onCallOffer (callId peer : String) :
    Accounted h (.onCallOffer callId peer) (h.onCallOffer callId peer) := by
  unfold onCallOffer
  split
  · exact (silent_record rfl).accounted
  · refine ⟨⟨[], rfl, fun e he => nomatch he⟩, fun call hcall => .inl (congrArg _ hcall), ?_⟩
    rintro c p ⟨⟩
    exact .inr rfl

theorem accounted_installOffer {callId peer : String} (hd : h.dispatch = .offering callId peer) :
    Accounted h .installOffer (h.installOffer callId peer) := by
  refine ⟨⟨[_], rfl, ?_⟩, ?_, fun c p hd => nomatch hd⟩
  · simp [Explains]
  · rintro call hcall
    obtain rfl := Option.some.inj hcall
    exact .inr (.inr ⟨hd, List.mem_cons_self⟩)

theorem accounted_onCallAnswered (callId peer : String) :
    Accounted h (.onCallAnswered callId peer) (h.onCallAnswered callId peer) := by
  have hignored : Accounted h (.onCallAnswered callId peer) (h.record (.answerArrived callId peer)) := by
    refine ⟨⟨[_], rfl, ?_⟩, fun call hcall => .inl (congrArg _ hcall), fun c p hd => .inl hd⟩
    simp [Explains]
  unfold onCallAnswered
  dsimp only
  split
  next call hcall =>
    replace hcall : h.activeCall = some call := hcall
    split
    · refine ⟨⟨[_, _], rfl, ?_⟩, ?_, fun c p hd => nomatch hd⟩
      · simp [Explains]
      · rintro new hnew
        obtain rfl := Option.some.inj hnew
        exact .inl (congrArg (Option.map ActiveCall.names) hcall)
    · exact hignored
  next => exact hignored

theorem accounted_step {l : Label} (hstep : h.step l = some h') : Accounted h l h' := by
  cases l with
  | startCall callId peer signal =>
    obtain rfl := Option.some.inj hstep
    exact accounted_startCall callId peer signal
  | acceptCall callId signal =>
    obtain rfl := Option.some.inj hstep
    exact accounted_acceptCall callId signal
  | rejectCall callId =>
    obtain rfl := Option.some.inj hstep
    exact (silent_rejectCall callId).accounted
  | hangup =>
    obtain rfl := Option.some.inj hstep
    exact silent_hangup.accounted
  | onCallOffer callId peer =>
    obtain ⟨-, hstep⟩ := Option.ite_none_right_eq_some.mp hstep
    obtain rfl := Option.some.inj hstep
    exact accounted_onCallOffer callId peer
  | installOffer =>
    simp only [step] at hstep
    split at hstep
    next hd =>
      obtain rfl := Option.some.inj hstep
      exact accounted_installOffer hd
    next => cases hstep
  | onCallAnswered callId peer =>
    obtain ⟨-, hstep⟩ := Option.ite_none_right_eq_some.mp hstep
    obtain rfl := Option.some.inj hstep
    exact accounted_onCallAnswered callId peer
  | resolveTransport found =>
    simp only [step] at hstep
    split at hstep
    · obtain rfl := Option.some.inj hstep
      exact (silent_resolveTransport _ _ found).accounted
    · cases hstep
  | connect ok =>
    simp only [step] at hstep
    split at hstep
    · obtain rfl := Option.some.inj hstep
      exact (silent_connect _ _ ok).accounted
    · cases hstep
  | onCallEnded callId =>
    obtain ⟨-, hstep⟩ := Option.ite_none_right_eq_some.mp hstep
    obtain rfl := Option.some.inj hstep
    exact (silent_onCallEnded callId).accounted
  | accept remote masterPubkey =>
    obtain rfl := Option.some.inj hstep
    exact (silent_accept _).accounted
  | task i ok =>
    simp only [step] at hstep
    split at hstep
    next => cases hstep
    next t ht =>
      obtain ⟨out, hout, rfl⟩ := Option.map_eq_some_iff.mp hstep
      exact ((silent_runTask hout).trans (silent_advance i out.2)).accounted

end CallHandler

namespace Devices

variable {honest : String → Bool} {w w' : Devices} {user peer callId : String}

theorem Rang.mono (hlog : ∀ v, (w v).log ⊆ (w' v).log) (h : w.Rang honest user callId peer) :
    w'.Rang honest user callId peer :=
  ⟨hlog user h.1, fun hpeer => hlog peer (h.2 hpeer)⟩

variable (honest w) in
/-- Every event that others go by is borne out by what the other side has done. -/
structure Sound : Prop where
  guarded : ∀ user, (w user).Guarded
  offers : ∀ user peer callId, .sent peer (.offer callId) ∈ (w user).log → .startCalled callId peer ∈ (w user).log
  answers : ∀ user peer callId, .sent peer (.answer callId) ∈ (w user).log →
    .acceptCalled callId ∈ (w user).log ∧ w.Rang honest user callId peer
  accepted : ∀ user callId, .acceptCalled callId ∈ (w user).log → ∃ peer, w.Rang honest user callId peer
  answered : ∀ user callId peer, .answerArrived callId peer ∈ (w user).log → honest peer = true →
    .acceptCalled callId ∈ (w peer).log ∧ w.Rang honest peer callId user
  active : ∀ user, ∀ call ∈ (w user).activeCall, .startCalled call.callId call.peerPubkey ∈ (w user).log ∨
    w.Rang honest user call.callId call.peerPubkey
  offering : ∀ user callId peer, (w user).dispatch = .offering callId peer → honest peer = true →
    .startCalled callId user ∈ (w peer).log

theorem sound_new : Sound honest fun _ => .new where
  guarded _ := CallHandler.guarded_new
  offers _ _ _ h := nomatch h
  answers _ _ _ h := nomatch h
  accepted _ _ h := nomatch h
  answered _ _ _ h := nomatch h
  active _ _ h := nomatch h
  offering _ _ _ h := nomatch h

theorem Sound.peersWait (h : w.Sound honest) {l : Label} (huser : honest user = true)
    (hgenuine : w.Genuine honest user l) (hprudent : w.Prudent honest (user, l)) : (w user).PeersWait l := by
  cases l with
  | accept remote masterPubkey => exact hprudent
  | onCallAnswered callId peer =>
    by_cases hpeer : honest peer = true
    · intro call _ _
      -- an honest peer sends no answer but to a call that rang at his device
      have hrang := (h.answers peer user callId (hgenuine hpeer)).2
      exact .inr (hrang.2 huser)
    · exact hprudent (Bool.eq_false_iff.mpr hpeer)
  | _ => trivial

theorem Sound.rang (h : w.Sound honest) {signal : Except String Unit}
    (hprudent : w.Prudent honest (user, .acceptCall callId signal)) :
    ∃ call, (w user).activeCall = some call ∧ call.callId = callId ∧ w.Rang honest user callId call.peerPubkey := by
  obtain ⟨hactive, hnone⟩ := hprudent
  obtain ⟨call, hcall, rfl⟩ := Option.map_eq_some_iff.mp hactive
  refine ⟨call, hcall, rfl, (h.active user call hcall).resolve_left fun hstart => ?_⟩
  have hmem := mem_calledPeers.mpr hstart
  rw [hnone] at hmem
  exact nomatch hmem

section Steps

variable {next : CallHandler} {l : Label} {new : List Event}

theorem log_subset_update (hlog : next.log = new ++ (w user).log) (v : String) :
    (w v).log ⊆ (Function.update w user next v).log := by
  by_cases hv : v = user
  · subst hv
    rw [Function.update_self, hlog]
    exact List.subset_append_right new _
  · rw [Function.update_of_ne hv]
    exact List.Subset.refl _

theorem mem_log_update (hlog : next.log = new ++ (w user).log)
    (hnew : ∀ e ∈ new, (w user).Explains l next e) {v : String} {e : Event}
    (he : e ∈ (Function.update w user next v).log) : e ∈ (w v).log ∨ (v = user ∧ (w user).Explains l next e) := by
  by_cases hv : v = user
  · subst hv
    rw [Function.update_self, hlog] at he
    exact (List.mem_append.mp he).elim (fun he => .inr ⟨rfl, hnew e he⟩) .inl
  · rw [Function.update_of_ne hv] at he
    exact .inl he

theorem Sound.active_step (h : w.Sound honest) (haccount : (w user).Accounted l next)
    (hmono : ∀ v, (w v).log ⊆ (Function.update w user next v).log) {call : ActiveCall}
    (hcall : call ∈ next.activeCall) :
    .startCalled call.callId call.peerPubkey ∈ next.log ∨
      Rang honest (Function.update w user next) user call.callId call.peerPubkey := by
  have hself : Function.update w user next user = next := Function.update_self ..
  have hlog := hmono user
  rw [hself] at hlog
  rcases haccount.activeCall call hcall with hsame | hstart | ⟨hoffering, hemit⟩
  · obtain ⟨old, hold, hnames⟩ := Option.map_eq_some_iff.mp hsame
    obtain ⟨hid, hpeer⟩ := Prod.mk.inj hnames
    rw [← hid, ← hpeer]
    exact (h.active user old hold).imp (fun hstart => hlog hstart) fun hrang => hrang.mono hmono
  · exact .inl hstart
  · refine .inr ⟨?_, fun hpeer => hmono _ (h.offering user _ _ hoffering hpeer)⟩
    rw [hself]
    exact hemit

end Steps

theorem Sound.step (h : w.Sound honest) {l : String × Label} (hprudent : w.Prudent honest l)
    (hstep : w.step honest l = some w') : w'.Sound honest := by
  obtain ⟨user, l⟩ := l
  obtain ⟨⟨huser, hgenuine⟩, hstep⟩ := Option.ite_none_right_eq_some.mp hstep
  obtain ⟨next, hnext, rfl⟩ := Option.map_eq_some_iff.mp hstep
  have haccount := CallHandler.accounted_step hnext
  obtain ⟨new, hlog, hnew⟩ := haccount.log
  have hself : Function.update w user next user = next := Function.update_self ..
  have hother : ∀ {v}, v ≠ user → Function.update w user next v = w v := fun hv => Function.update_of_ne hv ..
  have hmono := log_subset_update hlog
  refine ⟨fun v => ?_, fun v peer callId he => ?_, fun v peer callId he => ?_, fun v callId he => ?_,
    fun v callId peer he hpeer => ?_, fun v call hcall => ?_, fun v callId peer hd hpeer => ?_⟩
  · by_cases hv : v = user
    · subst hv
      rw [hself]
      exact (h.guarded v).step (h.peersWait huser hgenuine hprudent) hnext
    · rw [hother hv]
      exact h.guarded v
  · rcases mem_log_update hlog hnew he with he | ⟨rfl, hstart⟩
    · exact hmono v (h.offers v peer callId he)
    · rw [hself]
      exact hstart
  · rcases mem_log_update hlog hnew he with he | ⟨rfl, ⟨signal, rfl⟩, hactive, haccept⟩
    · obtain ⟨haccept, hrang⟩ := h.answers v peer callId he
      exact ⟨hmono v haccept, hrang.mono hmono⟩
    · obtain ⟨call, hcall, -, hrang⟩ := h.rang hprudent
      rw [hcall] at hactive
      obtain ⟨-, rfl⟩ := Prod.mk.inj (Option.some.inj hactive)
      rw [hself]
      exact ⟨haccept, hrang.mono hmono⟩
  · rcases mem_log_update hlog hnew he with he | ⟨rfl, signal, rfl⟩
    · obtain ⟨peer, hrang⟩ := h.accepted v callId he
      exact ⟨peer, hrang.mono hmono⟩
    · obtain ⟨call, -, -, hrang⟩ := h.rang hprudent
      exact ⟨call.peerPubkey, hrang.mono hmono⟩
  · rcases mem_log_update hlog hnew he with he | ⟨rfl, rfl⟩
    · obtain ⟨haccept, hrang⟩ := h.answered v callId peer he hpeer
      exact ⟨hmono peer haccept, hrang.mono hmono⟩
    · obtain ⟨haccept, hrang⟩ := h.answers peer v callId (hgenuine hpeer)
      exact ⟨hmono peer haccept, hrang.mono hmono⟩
  · by_cases hv : v = user
    · subst hv
      rw [hself] at hcall
      rw [hself]
      exact h.active_step haccount hmono hcall
    · rw [hother hv] at hcall
      exact (h.active v call hcall).imp (fun hstart => hmono v hstart) fun hrang => hrang.mono hmono
  · by_cases hv : v = user
    · subst hv
      rw [hself] at hd
      rcases haccount.dispatch callId peer hd with hd | rfl
      · exact hmono peer (h.offering v callId peer hd hpeer)
      · exact hmono peer (h.offers peer v callId (hgenuine hpeer))
    · rw [hother hv] at hd
      exact hmono peer (h.offering v callId peer hd hpeer)

/-- Whatever interleaving of commands, signals, connections and timers, and whatever others send: a
capture is only started for a call whose two users agreed to it. -/
theorem capture_agreed {run : List (String × Label)}
    (hprudent : Machine.Along (step honest) (Prudent honest) (fun _ => .new) run)
    (hrun : Machine.exec (step honest) (fun _ => .new) run = some w) {user callId : String}
    (hcapture : .captureStarted callId ∈ (w user).log) : w.Agreed honest user callId := by
  have hsound : w.Sound honest :=
    Machine.exec_invariant (fun _ _ _ h hl hstep => h.step hl hstep) sound_new hprudent hrun
  obtain ⟨later, earlier, hlog⟩ := List.append_of_mem hcapture
  have hsuffix : .captureStarted callId :: earlier <:+ (w user).log := ⟨later, hlog.symm⟩
  have hsub : earlier ⊆ (w user).log := fun e he => hsuffix.subset (List.mem_cons_of_mem _ he)
  rcases (hsound.guarded user).log callId earlier hsuffix with haccept | ⟨peer, hstart, hanswer⟩
  · obtain ⟨peer, hrang⟩ := hsound.accepted user callId (hsub haccept)
    exact ⟨peer, .inl ⟨hsub haccept, hrang⟩⟩
  · exact ⟨peer, .inr ⟨hsub hstart, hsub hanswer, hsound.answered user callId peer (hsub hanswer)⟩⟩

end Devices

section Examples

/-- Alice calls Bob, who accepts; his answer arrives twice, and she connects. -/
def bobAnswers : List (String × Label) :=
  [("alice", .startCall "call" "bob" (.ok ())), ("bob", .onCallOffer "call" "alice"), ("bob", .installOffer),
    ("bob", .acceptCall "call" (.ok ())), ("alice", .onCallAnswered "call" "bob"), ("alice", .resolveTransport true),
    ("alice", .connect true), ("bob", .accept "node" (some "alice")), ("bob", .task 1 true), ("bob", .task 1 true),
    ("alice", .task 1 true), ("alice", .task 1 true), ("alice", .task 1 true), ("alice", .onCallAnswered "call" "bob")]

theorem capture_agreed_bob : ∃ w, Machine.exec (Devices.step fun _ => true) (fun _ => .new) bobAnswers = some w ∧
    w.Agreed (fun _ => true) "alice" "call" ∧ w.Agreed (fun _ => true) "bob" "call" := by
  have hprudent : Machine.Along (Devices.step fun _ => true) (Devices.Prudent fun _ => true) (fun _ => .new)
      bobAnswers := by
    decide
  obtain ⟨w, hrun, halice, hbob⟩ : ∃ w,
      Machine.exec (Devices.step fun _ => true) (fun _ => .new) bobAnswers = some w ∧
        .captureStarted "call" ∈ (w "alice").log ∧ .captureStarted "call" ∈ (w "bob").log :=
    ⟨_, rfl, by decide, by decide⟩
  exact ⟨w, hrun, Devices.capture_agreed hprudent hrun halice, Devices.capture_agreed hprudent hrun hbob⟩

end Examples

end Proscenium.Call
