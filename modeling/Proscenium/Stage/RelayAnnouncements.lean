import Proscenium.Lib.Machine
import Proscenium.Stage.Entries
import Proscenium.Stage.Network
import Proscenium.Stage.RelayTurns

/-! What a host tells its listeners of the relays, against what its books say. Every
listener is assigned anew when a relay volunteers, and only who lands on that relay
is told. -/

namespace Proscenium.Stage

open Proscenium.Types Machine TopologyManager

section Defs

def heardFrom (pubkey source : String) : StageControl → String
  | .relayAssignment _ _ relayNodeId listenerPubkeys => if pubkey ∈ listenerPubkeys then relayNodeId else source
  | _ => source

def lastTold (host pubkey : String) (said : List StageControl) : String := said.foldl (heardFrom pubkey) host

def StageActor.answer (C : StageCrates) (a : StageActor) : StageInput → StageActor × List StageControl
  | .command cmd now =>
    match a.handle C cmd now with
    | .ok answer => answer
    | .error _ => (a, [])
  | .gossip stageId signed now => a.receive C.toSignatureCrates stageId signed now

def ActiveStage.listeners (stage : ActiveStage) : List String :=
  (stage.participants.filter fun p => p.role = .listener).map (·.pubkey)

/-- A node, and what it has broadcast in the stage it is in. -/
structure Speaking where
  actor : StageActor
  said : List StageControl

variable (C : StageCrates)

namespace Speaking

def new (identity : StageIdentity) : Speaking := ⟨.new identity, []⟩

def step (s : Speaking) : StageEvent → Option Speaking
  | .input i =>
    let said := match s.actor.active with
      | none => []
      | some _ => s.said
    some ⟨(s.actor.answer C i).1, said ++ (s.actor.answer C i).2⟩
  | .rehash participants => (s.actor.rehash participants).map fun actor => { s with actor }

end Speaking

/-- Every listener has been told of the source that the books have for it. -/
def Announced (s : Speaking) : Prop :=
  ∀ stage, s.actor.active = some stage → ∀ t, stage.topology = some t →
    ∀ p ∈ stage.participants, p.role = .listener → ∀ id, t.sourceOf p.pubkey = some id →
      lastTold stage.hostNodeId p.pubkey s.said = id

def Takes (stage : ActiveStage) (t : TopologyManager) (relayNodeId : String) (capacity : UInt32) : StageInput → Prop
  | .gossip stageId signed _ =>
    accepts C.toSignatureCrates stageId signed = true ∧ stage.myRole = .host ∧ stage.topology = some t ∧
      ∃ sid relayPubkey, signed.control = .relayVolunteer sid relayPubkey relayNodeId capacity
  | .command .. => False

/-- When a relay is taken up, every listener is sent to it or left where it is. -/
def TurnsSettle (s : Speaking) : StageEvent → Prop
  | .input i =>
    ∀ stage, s.actor.active = some stage → ∀ t relayNodeId capacity, Takes C stage t relayNodeId capacity i →
      Turns relayNodeId stage.listeners (t.addRelay relayNodeId capacity)
  | .rehash _ => True

end Defs

section Listener

theorem listenerUpstreamId_onRelayAssignment {a : StageActor} {stage : ActiveStage} {source : String}
    (hactive : a.active = some stage) (hsource : stage.listenerUpstreamId = some source)
    (sid relayPubkey relayNodeId : String) (listenerPubkeys : List String) :
    ((a.onRelayAssignment stage.hostPubkey stage relayNodeId listenerPubkeys).active.bind (·.listenerUpstreamId)) =
      some (heardFrom stage.myPubkey source (.relayAssignment sid relayPubkey relayNodeId listenerPubkeys)) := by
  unfold StageActor.onRelayAssignment heardFrom
  rw [if_pos rfl]
  dsimp only
  split
  · rfl
  · rw [hactive]
    exact hsource

end Listener

section Steps

variable {C : StageCrates} {a a' : StageActor} {stage stage' : ActiveStage}

theorem answer_fst (C : StageCrates) (a : StageActor) (i : StageInput) : (a.answer C i).1 = a.step C i := by
  cases i with
  | gossip stageId signed now => rfl
  | command cmd now =>
    unfold StageActor.answer StageActor.step
    dsimp only
    split
    next answer h => rw [h]
    next e h => rw [h]

theorem heardFrom_of_handle {cmd : StageCommand} {now : UInt64} {out : List StageControl}
    (h : a.handle C cmd now = .ok (a', out)) (pubkey : String) :
    ∀ control ∈ out, ∀ source, heardFrom pubkey source control = source := by
  intro control hcontrol source
  cases handle_broadcasts h control hcontrol with
  | plain hflag hplain =>
    cases control with
    | relayAssignment => cases hplain
    | _ => rfl
  | _ => rfl

theorem lastTold_append (host pubkey : String) (said out : List StageControl) :
    lastTold host pubkey (said ++ out) = out.foldl (heardFrom pubkey) (lastTold host pubkey said) :=
  List.foldl_append

theorem foldl_heardFrom_of_silent {pubkey source : String} {out : List StageControl}
    (h : ∀ control ∈ out, ∀ source, heardFrom pubkey source control = source) :
    out.foldl (heardFrom pubkey) source = source := by
  induction out generalizing source with
  | nil => rfl
  | cons control out ih =>
    rw [List.foldl_cons, h control List.mem_cons_self]
    exact ih fun c hc => h c (List.mem_cons_of_mem control hc)

theorem Takes.topology {t : TopologyManager} {relayNodeId : String} {capacity : UInt32} {i : StageInput}
    (h : Takes C stage t relayNodeId capacity i) : stage.topology = some t := by
  cases i with
  | command cmd now => exact absurd h not_false
  | gossip stageId signed now => exact h.2.2.1

/-- A step that takes up no relay leaves the books alone, and says nothing of them. -/
theorem answer_of_not_takes (hactive : a.active = some stage) {i : StageInput}
    (hnot : ∀ t relayNodeId capacity, ¬ Takes C stage t relayNodeId capacity i) :
    KeepsBooks stage (a.answer C i).1 ∧
      ∀ pubkey, ∀ control ∈ (a.answer C i).2, ∀ source, heardFrom pubkey source control = source := by
  have hsilent : ∀ pubkey, ∀ control ∈ ([] : List StageControl), ∀ source, heardFrom pubkey source control = source :=
    fun _ _ hcontrol => absurd hcontrol List.not_mem_nil
  cases i with
  | command cmd now =>
    unfold StageActor.answer
    dsimp only
    split
    next answer hok => exact ⟨handle_keepsBooks hactive hok, heardFrom_of_handle hok⟩
    next => exact ⟨keepsBooks_of_same hactive, hsilent⟩
  | gossip stageId signed now =>
    unfold StageActor.answer StageActor.receive
    dsimp only
    by_cases haccepts : accepts C.toSignatureCrates stageId signed = true
    swap
    · rw [if_neg haccepts]
      exact ⟨keepsBooks_of_same hactive, hsilent⟩
    rw [if_pos haccepts]
    by_cases hvolunteer : ∃ sid relayPubkey relayNodeId capacity,
        signed.control = .relayVolunteer sid relayPubkey relayNodeId capacity
    · -- a node that is not the host, or keeps no books
      obtain ⟨sid, relayPubkey, relayNodeId, capacity, hcontrol⟩ := hvolunteer
      have htake : a.handleControl signed now = a.takeRelay relayPubkey relayNodeId capacity stage := by
        rw [StageActor.handleControl, hactive]
        dsimp only
        rw [hcontrol]
      rw [htake]
      unfold StageActor.takeRelay
      split
      next t hhost htopology =>
        exact absurd ⟨haccepts, hhost, htopology, sid, relayPubkey, hcontrol⟩ (hnot t relayNodeId capacity)
      next => exact ⟨keepsBooks_of_same hactive, hsilent⟩
    · push Not at hvolunteer
      obtain ⟨hkept, hout⟩ := handleControl_keepsBooks hactive now hvolunteer
      rw [hout]
      exact ⟨hkept, hsilent⟩

theorem answer_of_takes (hactive : a.active = some stage) {i : StageInput} {t : TopologyManager} {relayNodeId : String}
    {capacity : UInt32} (htakes : Takes C stage t relayNodeId capacity i) :
    (a.answer C i).1.active = some { stage with
      topology := some ((t.addRelay relayNodeId capacity).assignAll relayNodeId stage.listeners).2 } ∧
    ∀ pubkey source, (a.answer C i).2.foldl (heardFrom pubkey) source =
      if pubkey ∈ ((t.addRelay relayNodeId capacity).assignAll relayNodeId stage.listeners).1 then relayNodeId
      else source := by
  cases i with
  | command cmd now => exact absurd htakes not_false
  | gossip stageId signed now =>
    obtain ⟨haccepts, hhost, htopology, sid, relayPubkey, hcontrol⟩ := htakes
    have htake : a.answer C (.gossip stageId signed now) = a.takeRelay relayPubkey relayNodeId capacity stage := by
      rw [StageActor.answer, StageActor.receive, if_pos haccepts, StageActor.handleControl, hactive]
      dsimp only
      rw [hcontrol]
    rw [htake, StageActor.takeRelay, hhost, htopology]
    dsimp only
    constructor
    · rfl
    · intro pubkey source
      change List.foldl (heardFrom pubkey) source (if (TopologyManager.assignAll relayNodeId stage.listeners
        (t.addRelay relayNodeId capacity)).1 = [] then [] else _) = _
      split
      next hnobody =>
        -- nobody lands on the relay, and nothing is said
        rw [hnobody, if_neg List.not_mem_nil]
        rfl
      next => rfl

end Steps

section Runs

variable {C : StageCrates} {s s' : Speaking} {stage : ActiveStage} {t : TopologyManager}

/-- What holds of the books while every turn has settled. -/
structure ToldBooks (stage : ActiveStage) (t : TopologyManager) (said : List StageControl) : Prop where
  booked : t.Booked
  hostFirst : t.HostFirst stage.hostNodeId
  told : ∀ pubkey, lastTold stage.hostNodeId pubkey said = t.upstream stage.hostNodeId pubkey

structure SpeakingInv (s : Speaking) : Prop where
  keyed : ∀ stage, s.actor.active = some stage → Keyed stage
  books : ∀ stage, s.actor.active = some stage → ∀ t, stage.topology = some t → ToldBooks stage t s.said

theorem SpeakingInv.announced (h : SpeakingInv s) : Announced s := by
  intro stage hactive t ht p _ _ id hid
  rw [(h.books stage hactive t ht).told, upstream, hid, Option.getD_some]

theorem speakingInv_new (identity : StageIdentity) : SpeakingInv (.new identity) where
  keyed _ h := absurd h.symm (Option.some_ne_none _)
  books _ h := absurd h.symm (Option.some_ne_none _)

theorem toldBooks_opened {cmd : StageCommand} {now : UInt64} {a a' : StageActor} {out : List StageControl}
    (hnone : a.active = none) (h : a.handle C cmd now = .ok (a', out)) (hactive : a'.active = some stage)
    (ht : stage.topology = some t) : ToldBooks stage t out := by
  have hsilent : ∀ host pubkey, lastTold host pubkey out = host :=
    fun host pubkey => foldl_heardFrom_of_silent (heardFrom_of_handle h pubkey)
  have hopens := (handle_opens hnone h).2 stage hactive
  cases hopens with
  | created =>
    rw [StageActor.handle, StageActor.createStage, hnone] at h
    cases h
    obtain rfl := Option.some.inj hactive
    obtain rfl := Option.some.inj ht
    refine ⟨Booked.new _ 15, HostFirst.new _ 15, fun pubkey => ?_⟩
    rw [hsilent]
    rfl
  | joined =>
    rw [StageActor.handle, StageActor.joinStage, hnone] at h
    cases h
    obtain rfl := Option.some.inj hactive
    cases ht

theorem nodup_listeners (hkeyed : Keyed stage) : stage.listeners.Nodup :=
  hkeyed.sublist (List.filter_sublist.map _)

theorem SpeakingInv.opens (hnone : s.actor.active = none) (i : StageInput) :
    SpeakingInv ⟨(s.actor.answer C i).1, (s.actor.answer C i).2⟩ := by
  constructor
  · intro stage hactive
    rw [answer_fst] at hactive
    exact Keyed.opens hnone hactive
  · intro stage hactive t ht
    have hidle : s.actor.active ≠ some stage := fun h => Option.some_ne_none stage (h.symm.trans hnone)
    cases i with
    | gossip stageId signed now =>
      rw [answer_fst, step_gossip_of_none hnone] at hactive
      exact absurd hactive hidle
    | command cmd now =>
      unfold StageActor.answer at hactive ⊢
      dsimp only at hactive ⊢
      split at hactive
      next answer hok => exact toldBooks_opened hnone hok hactive ht
      next => exact absurd hactive hidle

theorem SpeakingInv.kept (h : SpeakingInv s) (hactive : s.actor.active = some stage) {i : StageInput}
    (hnot : ∀ t relayNodeId capacity, ¬ Takes C stage t relayNodeId capacity i) :
    SpeakingInv ⟨(s.actor.answer C i).1, s.said ++ (s.actor.answer C i).2⟩ := by
  obtain ⟨hkept, hsilent⟩ := answer_of_not_takes hactive hnot
  constructor
  · intro stage' hactive'
    rw [answer_fst] at hactive'
    exact (h.keyed stage hactive).step hactive hactive'
  · intro stage' hactive' t ht
    obtain ⟨htopology, hhost⟩ := hkept stage' hactive'
    have hbooks := h.books stage hactive t (htopology.symm.trans ht)
    refine ⟨hbooks.booked, hhost ▸ hbooks.hostFirst, fun pubkey => ?_⟩
    rw [hhost, lastTold_append, foldl_heardFrom_of_silent (hsilent pubkey)]
    exact hbooks.told pubkey

theorem lastTold_of_takes (h : SpeakingInv s) (hactive : s.actor.active = some stage) {i : StageInput}
    {relayNodeId : String} {capacity : UInt32} (htakes : Takes C stage t relayNodeId capacity i)
    (ht : stage.topology = some t) (pubkey : String) :
    lastTold stage.hostNodeId pubkey (s.said ++ (s.actor.answer C i).2) =
      (t.addRelay relayNodeId capacity).toldAfter stage.hostNodeId relayNodeId
        ((t.addRelay relayNodeId capacity).assignAll relayNodeId stage.listeners).1 pubkey := by
  have hsame : (t.addRelay relayNodeId capacity).upstream stage.hostNodeId pubkey =
      t.upstream stage.hostNodeId pubkey := by
    unfold upstream sourceOf
    rw [assignments_addRelay]
  rw [lastTold_append, (answer_of_takes hactive htakes).2, (h.books stage hactive t ht).told, toldAfter, hsame]

theorem announced_takes_iff (h : SpeakingInv s) (hactive : s.actor.active = some stage) {i : StageInput}
    {relayNodeId : String} {capacity : UInt32} (htakes : Takes C stage t relayNodeId capacity i)
    (ht : stage.topology = some t) :
    Announced ⟨(s.actor.answer C i).1, s.said ++ (s.actor.answer C i).2⟩ ↔
      Turns relayNodeId stage.listeners (t.addRelay relayNodeId capacity) := by
  have hbooks := h.books stage hactive t ht
  have htold := lastTold_of_takes h hactive htakes ht
  have hactive' := (answer_of_takes hactive htakes).1
  rw [← (hbooks.booked.addRelay relayNodeId capacity).turns_iff (hbooks.hostFirst.addRelay relayNodeId capacity)
    (nodup_listeners (h.keyed stage hactive))]
  constructor
  · -- every listener of the turns is a participant with this role, and the other way round
    intro hannounced pk hpk id hid
    obtain ⟨p, hp, rfl⟩ := List.mem_map.mp hpk
    obtain ⟨hmem, hrole⟩ := List.mem_filter.mp hp
    rw [← htold]
    exact hannounced _ hactive' _ rfl p hmem (of_decide_eq_true hrole) id hid
  · intro hall stage' hstage' t' ht' p hp hrole id hid
    obtain rfl := Option.some.inj (hactive'.symm.trans hstage')
    obtain rfl := Option.some.inj ht'
    have hpk : p.pubkey ∈ stage.listeners :=
      List.mem_map_of_mem (List.mem_filter.mpr ⟨hp, decide_eq_true hrole⟩)
    exact (htold p.pubkey).trans (hall p.pubkey hpk id hid)

theorem SpeakingInv.taken (h : SpeakingInv s) (hactive : s.actor.active = some stage) {i : StageInput}
    {relayNodeId : String} {capacity : UInt32} (htakes : Takes C stage t relayNodeId capacity i)
    (ht : stage.topology = some t) (hturns : Turns relayNodeId stage.listeners (t.addRelay relayNodeId capacity)) :
    SpeakingInv ⟨(s.actor.answer C i).1, s.said ++ (s.actor.answer C i).2⟩ := by
  have hbooks := h.books stage hactive t ht
  have hactive' := (answer_of_takes hactive htakes).1
  have hbooked := hbooks.booked.addRelay relayNodeId capacity
  have hfirst := hbooks.hostFirst.addRelay relayNodeId capacity
  constructor
  · intro stage' hstage'
    obtain rfl := Option.some.inj (hactive'.symm.trans hstage')
    exact h.keyed stage hactive
  · intro stage' hstage' t' ht'
    obtain rfl := Option.some.inj (hactive'.symm.trans hstage')
    obtain rfl := Option.some.inj ht'
    refine ⟨hbooked.assignAll relayNodeId _, hfirst.assignAll hbooked relayNodeId _, fun pubkey => ?_⟩
    exact (lastTold_of_takes h hactive htakes ht pubkey).trans (hbooked.toldAfter_eq hfirst hturns pubkey)

theorem SpeakingInv.rehash (h : SpeakingInv s) (hactive : s.actor.active = some stage) {participants : List Participant}
    (hperm : participants.Perm stage.participants) :
    SpeakingInv { s with actor := s.actor.withStage { stage with participants } } := by
  constructor
  · intro stage' hstage'
    obtain rfl := Option.some.inj hstage'
    exact (hperm.map Participant.pubkey).nodup_iff.mpr (h.keyed stage hactive)
  · intro stage' hstage' t ht
    obtain rfl := Option.some.inj hstage'
    obtain ⟨hbooked, hfirst, htold⟩ := h.books stage hactive t ht
    exact ⟨hbooked, hfirst, htold⟩

theorem SpeakingInv.step (h : SpeakingInv s) {i : StageEvent} (hsettle : TurnsSettle C s i)
    (hstep : s.step C i = some s') : SpeakingInv s' := by
  cases i with
  | rehash participants =>
    obtain ⟨actor, hactor, rfl⟩ := Option.map_eq_some_iff.mp hstep
    obtain ⟨stage, hactive, hperm, rfl⟩ := StageActor.rehash_eq_some hactor
    exact h.rehash hactive hperm
  | input i =>
    obtain rfl := Option.some.inj hstep
    cases hactive : s.actor.active with
    | none => exact .opens hactive i
    | some stage =>
      by_cases htakes : ∃ t relayNodeId capacity, Takes C stage t relayNodeId capacity i
      · obtain ⟨t, relayNodeId, capacity, htakes⟩ := htakes
        exact h.taken hactive htakes htakes.topology (hsettle stage hactive t relayNodeId capacity htakes)
      · push Not at htakes
        exact h.kept hactive htakes

theorem announced_step_iff (h : SpeakingInv s) (i : StageEvent) :
    (∀ s', s.step C i = some s' → Announced s') ↔ TurnsSettle C s i := by
  constructor
  · intro hannounced
    cases i with
    | rehash => trivial
    | input i =>
      intro stage hactive t relayNodeId capacity htakes
      have hstep := hannounced _ rfl
      rw [hactive] at hstep
      exact (announced_takes_iff h hactive htakes htakes.topology).mp hstep
  · intro hsettle s' hstep
    exact (h.step hsettle hstep).announced

/-- In a run the listeners are told wherever the books move them to, just if, whenever a relay is
taken up, the turns leave every listener where it is or send it to that relay. -/
theorem moves_announced_iff (C : StageCrates) (identity : StageIdentity) (inputs : List StageEvent) :
    (∀ before s, before <+: inputs → exec (Speaking.step C) (.new identity) before = some s → Announced s) ↔
      Along (Speaking.step C) (TurnsSettle C) (.new identity) inputs := by
  have hstart := speakingInv_new identity
  refine forall_prefix_iff_along (fun s i h => announced_step_iff h i) ?_ hstart hstart.announced
  intro s i s' h hsettle _ hstep
  exact h.step hsettle hstep

end Runs

section Examples

def comes (pubkey : String) : StageEvent := .input (guestSends (.presence "stage" pubkey .listener 0 none))

def volunteers (relayNodeId : String) (capacity : UInt32) : StageEvent :=
  .input (guestSends (.relayVolunteer "stage" "guest" relayNodeId capacity))

theorem step_guestSends {s : Speaking} {stage : ActiveStage} (hactive : s.actor.active = some stage)
    (control : StageControl) : s.step stageChecksum (.input (guestSends control)) =
      some ⟨(s.actor.handleControl (guest.sign stageChecksum control 0) 0).1,
        s.said ++ (s.actor.handleControl (guest.sign stageChecksum control 0) 0).2⟩ := by
  have hanswer : s.actor.answer stageChecksum (guestSends control) =
      s.actor.handleControl (guest.sign stageChecksum control 0) 0 :=
    if_pos (stageChecksum_signs.accepts guest control 0)
  rw [Speaking.step, hanswer, hactive]

def ActiveStage.join (stage : ActiveStage) (pubkey : String) : ActiveStage :=
  stage.presence pubkey .listener 0 none 0

theorem exec_comes {s : Speaking} {stage : ActiveStage} (hactive : s.actor.active = some stage)
    (pubkeys : List String) : exec (Speaking.step stageChecksum) s (pubkeys.map comes) =
      some { s with actor := s.actor.withStage (pubkeys.foldl ActiveStage.join stage) } := by
  induction pubkeys generalizing s stage with
  | nil =>
    have hsame : s.actor.withStage stage = s.actor := by
      unfold StageActor.withStage
      rw [← hactive]
    rw [List.foldl_nil, hsame]
    rfl
  | cons pubkey pubkeys ih =>
    have hstep : s.step stageChecksum (comes pubkey) =
        some { s with actor := s.actor.withStage (stage.join pubkey) } := by
      rw [comes, step_guestSends hactive, StageActor.handleControl, hactive]
      exact congrArg (fun said => some (Speaking.mk _ said)) (List.append_nil s.said)
    rw [List.map_cons, exec_cons, hstep, Option.bind_some, ih rfl]
    rfl

/-- The stage of the owner, with a relay that has five slots. -/
def relayedStage : ActiveStage where
  stageId := "stage"
  title := "title"
  hostPubkey := "owner"
  myPubkey := "owner"
  myRole := .host
  selfMuted := false
  startedAt := 0
  participants := [⟨"owner", .host, false, false, false, 0, some "owner node"⟩]
  heartbeat := ⟨"owner", .host, some "owner node"⟩
  cancel := [0]
  topology := some ⟨[⟨.host, "owner node", 15, 0⟩, ⟨.relay, "first", 5, 0⟩], []⟩
  ticket := some ⟨"stage", owner.signingPubkey stageChecksum, "owner node", "title"⟩
  listenerUpstreamId := none
  listenerPipelineCancel := none
  hostNodeId := "owner node"
  bannedNodeIds := []

def relayed : List StageEvent := [.input (.command (.createStage "title" "stage") 0), volunteers "first" 5]

theorem exec_relayed : exec (Speaking.step stageChecksum) (.new owner.identity) relayed =
    some ⟨{ owner with active := some relayedStage, fresh := 1 },
      [.presence "stage" "owner" .host 0 (some "owner node"), .announce "stage" "title" "owner" 0]⟩ := by
  have hcreate : Speaking.step stageChecksum (.new owner.identity)
      (.input (.command (.createStage "title" "stage") 0)) =
        some ⟨{ owner with
          active := some { relayedStage with topology := some (TopologyManager.new "owner node" 15) }, fresh := 1 },
          [.presence "stage" "owner" .host 0 (some "owner node"), .announce "stage" "title" "owner" 0]⟩ := rfl
  rw [relayed, exec_cons, hcreate, Option.bind_some, exec_cons, volunteers, step_guestSends rfl]
  rfl

def sixteen : List String := ["a", "b", "c", "d", "e", "f", "g", "h", "i", "j", "k", "l", "m", "n", "o", "p"]

/-- Fifteen of the listeners fill the host. When a second relay volunteers, the last is moved to the first. -/
theorem not_announced_sixteen :
    ¬ ∀ before s, before <+: relayed ++ (sixteen.map comes ++ [volunteers "second" 1]) →
      exec (Speaking.step stageChecksum) (.new owner.identity) before = some s → Announced s := by
  intro hall
  have hrun := hall (relayed ++ (sixteen.map comes ++ [volunteers "second" 1]))
  rw [exec_append, exec_relayed, Option.bind_some, exec_append, exec_comes rfl, Option.bind_some, exec_cons,
    volunteers, step_guestSends rfl] at hrun
  have hannounced := hrun _ (List.prefix_refl _) rfl
  have htold := hannounced _ rfl _ rfl ⟨"p", .listener, false, false, false, 0, none⟩ (by decide +kernel) rfl "first"
    (by decide +kernel)
  revert htold
  decide +kernel

end Examples

end Proscenium.Stage
