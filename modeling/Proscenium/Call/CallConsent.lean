import Proscenium.Call.CallDefs

/-! When the microphone is opened. A capture is consented to when the user
accepted that call, or started it and the called peer answered. The handler
keeps to this in every run in which nobody connects for a call that is still
ringing and nobody answers a call it was not called with. -/

namespace Proscenium.Call

def Consented (log : List Event) (callId : String) : Prop :=
  .acceptCalled callId ∈ log ∨
    ∃ peer, .startCalled callId peer ∈ log ∧ .answerArrived callId peer ∈ log

/-- Every started capture has its consent earlier in the log. -/
def MicConsent (log : List Event) : Prop :=
  ∀ callId earlier, .captureStarted callId :: earlier <:+ log → Consented earlier callId

def Event.calledPeer (callId : String) : Event → Option String
  | .startCalled c peer => if c = callId then some peer else none
  | _ => none

theorem mem_calledPeers {log : List Event} {callId peer : String} :
    peer ∈ log.filterMap (Event.calledPeer callId) ↔ .startCalled callId peer ∈ log := by
  rw [List.mem_filterMap]
  constructor
  · rintro ⟨e, he, hpeer⟩
    unfold Event.calledPeer at hpeer
    grind
  · intro hmem
    exact ⟨_, hmem, if_pos rfl⟩

instance (log : List Event) (callId : String) : Decidable (Consented log callId) :=
  decidable_of_iff (.acceptCalled callId ∈ log ∨
      ∃ peer ∈ log.filterMap (Event.calledPeer callId), .answerArrived callId peer ∈ log)
    (or_congr Iff.rfl (exists_congr fun _ => and_congr mem_calledPeers Iff.rfl))

/-- A peer of the active call connects only once that call is consented to, and
an answer that names the active call comes from the peer that was called with
it, or the user has accepted that call. -/
def CallHandler.PeersWait (h : CallHandler) : Label → Prop
  | .accept remote masterPubkey => ∀ call ∈ h.activeCall,
      call.peerPubkey = masterPubkey.getD remote → Consented h.log call.callId
  | .onCallAnswered callId peerPubkey => ∀ call ∈ h.activeCall, call.callId = callId →
      .acceptCalled callId ∈ h.log ∨ .startCalled callId peerPubkey ∈ h.log
  | _ => True

instance : ∀ (h : CallHandler) (a : Label), Decidable (h.PeersWait a)
  | _, .accept _ _ | _, .onCallAnswered _ _ => by unfold CallHandler.PeersWait; infer_instance
  | _, .startCall _ _ _ | _, .acceptCall _ _ | _, .rejectCall _ | _, .hangup
  | _, .onCallOffer _ _ | _, .installOffer | _, .resolveTransport _ | _, .connect _
  | _, .onCallEnded _ | _, .task _ _ => isTrue trivial

def Task.captures : Task → Option String
  | .acceptingBi callId | .acceptReady callId _ | .session callId _ | .openingBi callId _ _
  | .sessionReady callId _ _ => some callId
  | .ringTimer _ _ _ _ | .streaming _ _ => none

def Dispatch.captures : Dispatch → Option String
  | .resolving callId _ | .connecting callId _ => some callId
  | .idle | .offering _ _ => none

def Event.isCapture : Event → Bool
  | .captureStarted _ => true
  | _ => false

/-- Whoever is on the way to a capture has the consent for it. -/
structure CallHandler.Guarded (h : CallHandler) : Prop where
  tasks : ∀ t ∈ h.tasks, ∀ callId ∈ t.captures, Consented h.log callId
  dispatch : ∀ callId ∈ h.dispatch.captures, Consented h.log callId
  log : MicConsent h.log

theorem Consented.mono {log log' : List Event} {callId : String} (hsub : log ⊆ log')
    (h : Consented log callId) : Consented log' callId := by
  rcases h with haccept | ⟨peer, hstart, hanswer⟩
  · exact .inl (hsub haccept)
  · exact .inr ⟨peer, hsub hstart, hsub hanswer⟩

theorem MicConsent.cons {log : List Event} {e : Event} (h : MicConsent log)
    (he : ∀ callId, e = .captureStarted callId → Consented log callId) : MicConsent (e :: log) := by
  intro callId earlier hsuffix
  rcases List.suffix_cons_iff.mp hsuffix with heq | hsuffix
  · obtain ⟨rfl, rfl⟩ := List.cons.inj heq
    exact he callId rfl
  · exact h callId earlier hsuffix

theorem MicConsent.append {new log : List Event} (h : MicConsent log)
    (hnew : ∀ e ∈ new, e.isCapture = false) : MicConsent (new ++ log) := by
  induction new with
  | nil => exact h
  | cons e new ih =>
    refine (ih fun e' he' => hnew e' (List.mem_cons_of_mem _ he')).cons ?_
    rintro callId rfl
    exact nomatch hnew _ List.mem_cons_self

namespace CallHandler

/-- A change that starts no capture and brings nobody closer to one. -/
structure Quiet (h h' : CallHandler) : Prop where
  log : ∃ new, h'.log = new ++ h.log ∧ ∀ e ∈ new, e.isCapture = false
  tasks : ∀ t ∈ h'.tasks, t ∈ h.tasks ∨ t.captures = none
  dispatch : h'.dispatch = h.dispatch ∨ h'.dispatch.captures = none

variable {h h' h'' : CallHandler}

theorem Quiet.refl (h : CallHandler) : Quiet h h :=
  ⟨⟨[], rfl, fun _ he => nomatch he⟩, fun _ ht => .inl ht, .inl rfl⟩

theorem Quiet.trans (h₁ : Quiet h h') (h₂ : Quiet h' h'') : Quiet h h'' := by
  obtain ⟨new, hlog, hnew⟩ := h₁.log
  obtain ⟨new', hlog', hnew'⟩ := h₂.log
  refine ⟨⟨new' ++ new, ?_, ?_⟩, ?_, ?_⟩
  · rw [hlog', hlog, List.append_assoc]
  · intro e he
    exact (List.mem_append.mp he).elim (hnew' e) (hnew e)
  · intro t ht
    rcases h₂.tasks t ht with ht | ht
    · exact h₁.tasks t ht
    · exact .inr ht
  · rcases h₂.dispatch with heq | hnone
    · rw [heq]
      exact h₁.dispatch
    · exact .inr hnone

theorem Guarded.of_quiet (hg : h.Guarded) (hq : Quiet h h') : h'.Guarded := by
  obtain ⟨new, hlog, hnew⟩ := hq.log
  have hsub : h.log ⊆ h'.log := by
    rw [hlog]
    exact List.subset_append_right new h.log
  refine ⟨?_, ?_, ?_⟩
  · intro t ht callId hcid
    rcases hq.tasks t ht with ht | hnone
    · exact (hg.tasks t ht callId hcid).mono hsub
    · rw [hnone] at hcid
      exact nomatch hcid
  · intro callId hcid
    rcases hq.dispatch with heq | hnone
    · rw [heq] at hcid
      exact (hg.dispatch callId hcid).mono hsub
    · rw [hnone] at hcid
      exact nomatch hcid
  · rw [hlog]
    exact hg.log.append hnew

theorem quiet_record {e : Event} (he : e.isCapture = false) : Quiet h (h.record e) :=
  ⟨⟨[e], rfl, fun _ hmem => List.mem_singleton.mp hmem ▸ he⟩, fun _ ht => .inl ht, .inl rfl⟩

theorem quiet_spawn {t : Task} (ht : t.captures = none) : Quiet h (h.spawn t) := by
  refine ⟨⟨[], rfl, fun _ he => nomatch he⟩, fun t' ht' => ?_, .inl rfl⟩
  rcases List.mem_append.mp ht' with ht' | ht'
  · exact .inl ht'
  · exact .inr (List.mem_singleton.mp ht' ▸ ht)

theorem quiet_of_eq (hlog : h'.log = h.log) (htasks : h'.tasks = h.tasks)
    (hdispatch : h'.dispatch = h.dispatch ∨ h'.dispatch.captures = none) : Quiet h h' :=
  ⟨⟨[], hlog, fun _ he => nomatch he⟩, fun _ ht => .inl (htasks ▸ ht), hdispatch⟩

theorem quiet_install (callId peer : String) : Quiet h (h.install callId peer) :=
  quiet_of_eq rfl rfl (.inl rfl)

theorem quiet_clear : Quiet h h.clear := quiet_of_eq rfl rfl (.inl rfl)

theorem quiet_cancelToken (token : Nat) : Quiet h (h.cancelToken token) :=
  quiet_of_eq rfl rfl (.inl rfl)

theorem quiet_renewToken (call : ActiveCall) : Quiet h (h.renewToken call) :=
  quiet_of_eq rfl rfl (.inl rfl)

theorem quiet_emit (callId peer : String) (state : CallState) :
    Quiet h (h.emitCallEvent callId peer state) := quiet_record rfl

theorem quiet_fail (callId peer : String) : Quiet h (h.fail callId peer) :=
  (quiet_emit callId peer .failed).trans quiet_clear

theorem quiet_clearIf {callId : String} {then_ : CallHandler → ActiveCall → CallHandler}
    (hthen : ∀ g call, Quiet g (then_ g call)) : Quiet h (h.clearIf callId then_) := by
  unfold clearIf
  split
  · split
    · exact quiet_clear.trans (hthen _ _)
    · exact Quiet.refl h
  · exact Quiet.refl h

theorem quiet_startCall (callId peer : String) (signal : Except String Unit) :
    Quiet h (h.startCall callId peer signal) := by
  unfold startCall
  split
  · exact quiet_record rfl
  · split
    · exact quiet_record rfl
    · have hring := (quiet_record (h := h) (e := .sent peer (.offer callId)) rfl).trans
        (quiet_record (e := .startCalled callId peer) rfl)
      have hspawn := (hring.trans (quiet_install callId peer)).trans
        ((quiet_emit callId peer .ringing).trans
          (quiet_spawn (t := .ringTimer false callId peer h.tokens) rfl))
      exact hspawn.trans (quiet_record rfl)

theorem quiet_acceptCall (callId : String) (signal : Except String Unit) :
    Quiet h (h.acceptCall callId signal) := by
  have hcalled : Quiet h (h.record (.acceptCalled callId)) := quiet_record rfl
  unfold acceptCall
  refine hcalled.trans ?_
  dsimp only
  split
  next call _ =>
    split
    · refine (quiet_renewToken call).trans ?_
      split
      · exact quiet_record rfl
      · exact (quiet_record rfl).trans ((quiet_emit _ _ _).trans (quiet_record rfl))
    · exact quiet_record rfl
  next => exact quiet_record rfl

theorem quiet_hangUp (call : ActiveCall) (payload : CallPayload) (callId : String) :
    Quiet h ((((h.clear.cancelToken call.cancel).record (.sent call.peerPubkey payload)).emitCallEvent
      callId call.peerPubkey .ended).record (.returned (.ok ""))) := by
  have hsent : Quiet h ((h.clear.cancelToken call.cancel).record (.sent call.peerPubkey payload)) :=
    (quiet_clear.trans (quiet_cancelToken call.cancel)).trans (quiet_record rfl)
  exact hsent.trans ((quiet_emit _ _ _).trans (quiet_record rfl))

theorem quiet_rejectCall (callId : String) : Quiet h (h.rejectCall callId) := by
  unfold rejectCall
  split
  · split
    · exact quiet_hangUp _ _ _
    · exact quiet_record rfl
  · exact quiet_record rfl

theorem quiet_hangup : Quiet h h.hangup := by
  unfold hangup
  split
  · exact quiet_hangUp _ _ _
  · exact quiet_record rfl

theorem quiet_onCallOffer (callId peer : String) : Quiet h (h.onCallOffer callId peer) := by
  unfold onCallOffer
  split
  · exact quiet_record rfl
  · exact quiet_of_eq rfl rfl (.inr rfl)

theorem quiet_installOffer (callId peer : String) : Quiet h (h.installOffer callId peer) := by
  have hidle : Quiet h { h with dispatch := .idle } := quiet_of_eq rfl rfl (.inr rfl)
  exact ((hidle.trans (quiet_install callId peer)).trans (quiet_emit callId peer .incoming)).trans
    (quiet_spawn rfl)

theorem quiet_onCallEnded (callId : String) : Quiet h (h.onCallEnded callId) :=
  quiet_clearIf fun _ _ => (quiet_cancelToken _).trans (quiet_emit _ _ _)

theorem quiet_failIdle (callId peer : String) :
    Quiet h { h.fail callId peer with dispatch := .idle } :=
  (quiet_fail callId peer).trans (quiet_of_eq rfl rfl (.inr rfl))

theorem Guarded.onCallAnswered (hg : h.Guarded) {callId peer : String}
    (hwait : h.PeersWait (.onCallAnswered callId peer)) : (h.onCallAnswered callId peer).Guarded := by
  have hrec : (h.record (.answerArrived callId peer)).Guarded := hg.of_quiet (quiet_record rfl)
  unfold CallHandler.onCallAnswered
  dsimp only
  split
  next call hcall =>
    split
    next hid =>
      have hconsent : Consented (Event.answerArrived callId peer :: h.log) callId := by
        rcases hwait call hcall hid with haccept | hstart
        · exact .inl (List.mem_cons_of_mem _ haccept)
        · exact .inr ⟨peer, List.mem_cons_of_mem _ hstart, List.mem_cons_self⟩
      have hactive := hrec.of_quiet ((quiet_renewToken call).trans (quiet_emit callId peer .active))
      refine ⟨hactive.tasks, ?_, hactive.log⟩
      rintro _ ⟨⟩
      exact hconsent.mono (List.subset_cons_self _ _)
    next => exact hrec
  next => exact hrec

theorem Guarded.spawn (hg : h.Guarded) {t : Task}
    (ht : ∀ callId ∈ t.captures, Consented h.log callId) : (h.spawn t).Guarded := by
  refine ⟨fun t' ht' => ?_, hg.dispatch, hg.log⟩
  rcases List.mem_append.mp ht' with ht' | ht'
  · exact hg.tasks t' ht'
  · obtain rfl := List.mem_singleton.mp ht'
    exact ht

theorem Guarded.accept (hg : h.Guarded) {remote : String} {masterPubkey : Option String}
    (hwait : h.PeersWait (.accept remote masterPubkey)) :
    (h.accept (masterPubkey.getD remote)).Guarded := by
  unfold CallHandler.accept
  split
  next call hcall =>
    split
    next hpeer =>
      refine hg.spawn ?_
      rintro _ ⟨⟩
      exact hwait call hcall hpeer
    next => exact hg
  next => exact hg

theorem Guarded.resolveTransport (hg : h.Guarded) {callId peer : String}
    (hd : h.dispatch = .resolving callId peer) (found : Bool) :
    (h.resolveTransport callId peer found).Guarded := by
  unfold CallHandler.resolveTransport
  split
  · refine ⟨hg.tasks, ?_, hg.log⟩
    rintro _ ⟨⟩
    exact hg.dispatch callId (by rw [hd]; rfl)
  · exact hg.of_quiet (quiet_failIdle callId peer)

theorem Guarded.connect (hg : h.Guarded) {callId peer : String}
    (hd : h.dispatch = .connecting callId peer) (ok : Bool) :
    (h.connect callId peer ok).Guarded := by
  unfold CallHandler.connect
  split
  · have hsession : (h.spawn (.session callId peer)).Guarded := by
      refine hg.spawn ?_
      rintro _ ⟨⟩
      exact hg.dispatch callId (by rw [hd]; rfl)
    exact hsession.of_quiet (quiet_of_eq rfl rfl (.inr rfl))
  · exact hg.of_quiet (quiet_failIdle callId peer)

theorem Guarded.advance (hg : h.Guarded) {next : Option Task} (i : Nat)
    (hnext : ∀ t ∈ next, ∀ callId ∈ t.captures, Consented h.log callId) :
    (h.advance i next).Guarded := by
  cases next with
  | none =>
    exact ⟨fun t ht => hg.tasks t (List.mem_of_mem_eraseIdx ht), hg.dispatch, hg.log⟩
  | some t =>
    refine ⟨fun t' ht' => ?_, hg.dispatch, hg.log⟩
    rcases List.mem_or_eq_of_mem_set ht' with ht' | rfl
    · exact hg.tasks t' ht'
    · exact hnext t' rfl

theorem Guarded.capture (hg : h.Guarded) {callId : String} (hconsent : Consented h.log callId) :
    (h.record (.captureStarted callId)).Guarded := by
  have hsub : h.log ⊆ Event.captureStarted callId :: h.log := List.subset_cons_self _ _
  refine ⟨fun t ht c hc => (hg.tasks t ht c hc).mono hsub, fun c hc => (hg.dispatch c hc).mono hsub,
    hg.log.cons ?_⟩
  rintro c ⟨⟩
  exact hconsent

/-- A task passes its consent on to its next position. -/
theorem Guarded.runTask (hg : h.Guarded) {ok : Bool} {t : Task} (ht : t ∈ h.tasks)
    {out : CallHandler × Option Task} (hout : h.runTask ok t = some out) :
    out.1.Guarded ∧ ∀ t' ∈ out.2, ∀ callId ∈ t'.captures, Consented out.1.log callId := by
  have hconsent := hg.tasks t ht
  have hnone : ∀ g : CallHandler, ∀ t' ∈ (none : Option Task), ∀ callId ∈ t'.captures,
      Consented g.log callId := fun _ _ h' => nomatch h'
  cases t with
  | ringTimer incoming callId peer token =>
    simp only [CallHandler.runTask] at hout
    split at hout
    · obtain rfl := Option.some.inj hout
      refine ⟨?_, hnone _⟩
      have hemit := hg.of_quiet (quiet_emit callId peer (if incoming then .ended else .failed))
      dsimp only
      refine hemit.of_quiet (quiet_clearIf fun g _ => ?_)
      split
      · exact quiet_record rfl
      · exact Quiet.refl g
    · split at hout
      · obtain rfl := Option.some.inj hout
        exact ⟨hg, hnone _⟩
      · exact nomatch hout
  | acceptingBi callId =>
    simp only [CallHandler.runTask] at hout
    split at hout
    · split at hout
      · obtain rfl := Option.some.inj hout
        refine ⟨hg, ?_⟩
        rintro _ ⟨⟩ _ ⟨⟩
        exact hconsent callId rfl
      · obtain rfl := Option.some.inj hout
        exact ⟨hg, hnone _⟩
    · obtain rfl := Option.some.inj hout
      exact ⟨hg, hnone _⟩
  | acceptReady callId token =>
    obtain rfl := Option.some.inj hout
    refine ⟨hg.capture (hconsent callId rfl), ?_⟩
    cases ok
    · exact hnone _
    · rintro _ ⟨⟩ _ ⟨⟩
  | session callId peer =>
    simp only [CallHandler.runTask] at hout
    split at hout
    · obtain rfl := Option.some.inj hout
      refine ⟨hg, ?_⟩
      dsimp only
      split
      · rintro _ ⟨⟩ _ ⟨⟩
        exact hconsent callId rfl
      · exact hnone _
    · obtain rfl := Option.some.inj hout
      exact ⟨hg, hnone _⟩
  | openingBi callId peer token =>
    simp only [CallHandler.runTask] at hout
    split at hout
    · obtain rfl := Option.some.inj hout
      refine ⟨hg, ?_⟩
      rintro _ ⟨⟩ _ ⟨⟩
      exact hconsent callId rfl
    · obtain rfl := Option.some.inj hout
      exact ⟨hg.of_quiet (quiet_fail callId peer), hnone _⟩
  | sessionReady callId peer token =>
    have hcap := hg.capture (hconsent callId rfl)
    simp only [CallHandler.runTask] at hout
    split at hout
    · obtain rfl := Option.some.inj hout
      refine ⟨hcap, ?_⟩
      rintro _ ⟨⟩ _ ⟨⟩
    · obtain rfl := Option.some.inj hout
      exact ⟨hcap.of_quiet (quiet_fail callId peer), hnone _⟩
  | streaming callId token =>
    obtain rfl := Option.some.inj hout
    refine ⟨?_, hnone _⟩
    dsimp only
    exact hg.of_quiet (quiet_clearIf fun _ _ => quiet_emit _ _ _)

theorem Guarded.step (hg : h.Guarded) {a : Label} (hwait : h.PeersWait a)
    (hstep : h.step a = some h') : h'.Guarded := by
  cases a with
  | startCall callId peer signal =>
    obtain rfl := Option.some.inj hstep
    exact hg.of_quiet (quiet_startCall callId peer signal)
  | acceptCall callId signal =>
    obtain rfl := Option.some.inj hstep
    exact hg.of_quiet (quiet_acceptCall callId signal)
  | rejectCall callId =>
    obtain rfl := Option.some.inj hstep
    exact hg.of_quiet (quiet_rejectCall callId)
  | hangup =>
    obtain rfl := Option.some.inj hstep
    exact hg.of_quiet quiet_hangup
  | onCallOffer callId peer =>
    obtain ⟨-, hstep⟩ := Option.ite_none_right_eq_some.mp hstep
    obtain rfl := Option.some.inj hstep
    exact hg.of_quiet (quiet_onCallOffer callId peer)
  | installOffer =>
    simp only [CallHandler.step] at hstep
    split at hstep
    · obtain rfl := Option.some.inj hstep
      exact hg.of_quiet (quiet_installOffer _ _)
    · exact nomatch hstep
  | onCallAnswered callId peer =>
    obtain ⟨-, hstep⟩ := Option.ite_none_right_eq_some.mp hstep
    obtain rfl := Option.some.inj hstep
    exact hg.onCallAnswered hwait
  | resolveTransport found =>
    simp only [CallHandler.step] at hstep
    split at hstep
    next hd =>
      obtain rfl := Option.some.inj hstep
      exact hg.resolveTransport hd found
    next => exact nomatch hstep
  | connect ok =>
    simp only [CallHandler.step] at hstep
    split at hstep
    next hd =>
      obtain rfl := Option.some.inj hstep
      exact hg.connect hd ok
    next => exact nomatch hstep
  | onCallEnded callId =>
    obtain ⟨-, hstep⟩ := Option.ite_none_right_eq_some.mp hstep
    obtain rfl := Option.some.inj hstep
    exact hg.of_quiet (quiet_onCallEnded callId)
  | accept remote masterPubkey =>
    obtain rfl := Option.some.inj hstep
    exact hg.accept hwait
  | task i ok =>
    simp only [CallHandler.step] at hstep
    split at hstep
    next => exact nomatch hstep
    next t ht =>
      obtain ⟨out, hout, rfl⟩ := Option.map_eq_some_iff.mp hstep
      obtain ⟨hg', hnext⟩ := hg.runTask (List.mem_of_getElem? ht) hout
      exact hg'.advance i hnext

theorem guarded_new : new.Guarded where
  tasks _ ht := nomatch ht
  dispatch _ hc := nomatch hc
  log _ _ hsuffix := nomatch List.suffix_nil.mp hsuffix

end CallHandler

/-- In every run in which the peers wait, each capture that is started has the
user's consent for that very call earlier in the run. -/
theorem capture_consented {run : List Label} {h : CallHandler}
    (hwait : Machine.Along CallHandler.step CallHandler.PeersWait CallHandler.new run)
    (hrun : Machine.exec CallHandler.step CallHandler.new run = some h) : MicConsent h.log :=
  (Machine.exec_invariant (fun _ _ _ hg hwait hstep => hg.step hwait hstep)
    CallHandler.guarded_new hwait hrun).log

/-- An incoming call that the user accepts before the caller connects. -/
def acceptedRun : List Label :=
  [.onCallOffer "call" "peer", .installOffer, .acceptCall "call" (.ok ()),
    .accept "node" (some "peer"), .task 1 true, .task 1 true]

theorem capture_consented_accepted :
    ∃ h, Machine.exec CallHandler.step CallHandler.new acceptedRun = some h ∧
      .captureStarted "call" ∈ h.log ∧ MicConsent h.log := by
  have hrun : ∃ h, Machine.exec CallHandler.step CallHandler.new acceptedRun = some h ∧
      .captureStarted "call" ∈ h.log := ⟨_, rfl, by decide⟩
  obtain ⟨h, hh, hcap⟩ := hrun
  exact ⟨h, hh, hcap, capture_consented (by decide) hh⟩

def ringingRun : List Label :=
  [.onCallOffer "call" "peer", .installOffer, .accept "node" (some "peer"), .task 1 true,
    .task 1 true]

theorem not_capture_consented_ringing :
    ¬ ∀ (run : List Label) (h : CallHandler),
      Machine.exec CallHandler.step CallHandler.new run = some h → MicConsent h.log := by
  intro hall
  have hconsent := hall ringingRun _ rfl "call" _ (List.suffix_refl _)
  exact absurd hconsent (by decide)

end Proscenium.Call
