import Proscenium.Lib.Machine
import Proscenium.Stage.ActorSteps
import Proscenium.Stage.Entries
import Proscenium.Stage.Topology

/-! The slots of the relays against the participants of a stage. A slot is given
back only when its listener gets another one: nobody who is promoted, removed or
swept away gives one back, and no relay leaves the list of sources. -/

namespace Proscenium.Stage

open Proscenium.Types Machine

namespace TopologyManager

def Holds (pubkey : String) (t : TopologyManager) : Prop := ∃ x ∈ t.assignments, x.1 = pubkey

theorem mem_assignListener {pubkey : String} {t : TopologyManager} {x : String × String}
    (h : x ∈ (t.assignListener pubkey).2.assignments) : x ∈ t.assignments ∨ x.1 = pubkey := by
  unfold assignListener at h
  dsimp only at h
  generalize Option.or _ _ = source at h
  cases source with
  | none => exact Or.inl (List.mem_of_mem_filter h)
  | some source =>
    rcases List.mem_append.mp h with h | h
    · exact Or.inl (List.mem_of_mem_filter h)
    · rw [List.mem_singleton.mp h]
      exact Or.inr rfl

theorem places_assignAll (relayNodeId : String) (pubkeys : List String) (t : TopologyManager) :
    (assignAll relayNodeId pubkeys t).2.sources.map place = t.sources.map place := by
  induction pubkeys generalizing t with
  | nil => rfl
  | cons pubkey pubkeys ih => exact (ih _).trans (places_assignListener pubkey t)

theorem mem_assignAll {relayNodeId : String} {pubkeys : List String} {t : TopologyManager} {x : String × String}
    (h : x ∈ (assignAll relayNodeId pubkeys t).2.assignments) : x ∈ t.assignments ∨ x.1 ∈ pubkeys := by
  induction pubkeys generalizing t with
  | nil => exact Or.inl h
  | cons pubkey pubkeys ih =>
    rcases ih h with h | h
    · rcases mem_assignListener h with h | h
      · exact Or.inl h
      · exact Or.inr (h ▸ List.mem_cons_self)
    · exact Or.inr (List.mem_cons_of_mem pubkey h)

theorem assignments_addRelay (endpointId : String) (capacity : UInt32) (t : TopologyManager) :
    (t.addRelay endpointId capacity).assignments = t.assignments := by
  unfold addRelay
  split <;> rfl

end TopologyManager

open TopologyManager (place assignments_addRelay mem_places_addRelay)

/-- Who holds a slot is a listener, and every relay is somebody's, among the participants with `p`. -/
structure Backed (participants : List Participant) (t : TopologyManager) (p : Participant → Prop) : Prop where
  slots : ∀ x ∈ t.assignments, ∃ q ∈ participants, q.pubkey = x.1 ∧ q.role = .listener ∧ p q
  relays : ∀ s ∈ t.sources, s.kind = .relay → ∃ q ∈ participants, q.nodeId = some s.endpointId ∧ p q

abbrev AllBacked (participants : List Participant) (t : TopologyManager) : Prop := Backed participants t fun _ => True

/-- No slot is held and no relay is listed without a participant for it. -/
def NoLeaks (a : StageActor) : Prop :=
  ∀ stage, a.active = some stage → ∀ t, stage.topology = some t → AllBacked stage.participants t

section Conditions

variable (stage : ActiveStage) (t : TopologyManager)

/-- Every relay of the list is of a participant other than `pubkey`. -/
def OthersRelay (pubkey : String) : Prop :=
  ∀ s ∈ t.sources, s.kind = .relay → ∃ q ∈ stage.participants, q.pubkey ≠ pubkey ∧ q.nodeId = some s.endpointId

/-- The key can go: it holds no slot, and no relay is only its own. -/
def CanGo (pubkey : String) : Prop := ¬ t.Holds pubkey ∧ OthersRelay stage t pubkey

def swept (now : UInt64) (p : Participant) : Bool := p.lastSeenMs < sweepCutoff now && p.pubkey ≠ stage.myPubkey

/-- The message takes from no slot its listener, and leaves no relay without a participant. -/
def ControlKeeps (signed : SignedStageControl) : Prop :=
  match signed.control with
  | .presence _ pubkey role _ nodeId =>
    (t.Holds pubkey → role = .listener) ∧
      ∀ id, nodeId = some id → ∀ s ∈ t.sources, s.kind = .relay → s.endpointId = id ∨
        ∃ q ∈ stage.participants, q.pubkey ≠ pubkey ∧ q.nodeId = some s.endpointId
  | .promoteSpeaker _ pubkey => isModerator stage signed.senderPubkey = true → ¬ t.Holds pubkey
  -- a host that is told to go itself closes its stage
  | .kick _ pubkey =>
    isModerator stage signed.senderPubkey = true → pubkey = stage.myPubkey ∨ CanGo stage t pubkey
  | .ban _ pubkey => signed.senderPubkey = stage.hostPubkey → pubkey = stage.myPubkey ∨ CanGo stage t pubkey
  | .relayVolunteer _ _ relayNodeId _ =>
    stage.myRole = .host →
      (∃ s ∈ t.sources, s.endpointId = relayNodeId) ∨ ∃ q ∈ stage.participants, q.nodeId = some relayNodeId
  | _ => True

def CommandKeeps (now : UInt64) : StageCommand → Prop
  | .promoteSpeaker pubkey => stage.myRole = .host ∨ stage.myRole = .coHost → ¬ t.Holds pubkey
  | .sweepPresence => Backed stage.participants t fun q => ¬ swept stage now q
  | _ => True

end Conditions

/-- Nobody is promoted, sent away or swept away who holds a slot or is the only one behind a relay,
and who volunteers is there. -/
def SlotsKept (C : StageCrates) (a : StageActor) (i : StageInput) : Prop :=
  ∀ stage, a.active = some stage → ∀ t, stage.topology = some t →
    match i with
    | .command cmd now => CommandKeeps stage t now cmd
    | .gossip stageId signed _ => accepts C.toSignatureCrates stageId signed = true → ControlKeeps stage t signed

def SlotsKeptBy (C : StageCrates) (a : StageActor) : StageEvent → Prop
  | .input i => SlotsKept C a i
  | .rehash _ => True

section Books

variable {C : StageCrates} {a a' : StageActor} {stage : ActiveStage}

/-- The books stay as they are, and the name of the host. -/
def KeepsBooks (stage : ActiveStage) (a' : StageActor) : Prop :=
  ∀ stage', a'.active = some stage' → stage'.topology = stage.topology ∧ stage'.hostNodeId = stage.hostNodeId

theorem keepsBooks_of_eq (stage' : ActiveStage) (h : a'.active = some stage')
    (htopology : stage'.topology = stage.topology) (hhost : stage'.hostNodeId = stage.hostNodeId) :
    KeepsBooks stage a' := by
  intro s hs
  obtain rfl := Option.some.inj (h.symm.trans hs)
  exact ⟨htopology, hhost⟩

theorem keepsBooks_of_none (h : a'.active = none) : KeepsBooks stage a' :=
  fun s hs => absurd (h.symm.trans hs) (Option.some_ne_none s).symm

theorem keepsBooks_of_same (hactive : a.active = some stage) : KeepsBooks stage a :=
  keepsBooks_of_eq stage hactive rfl rfl

theorem handle_keepsBooks {cmd : StageCommand} {now : UInt64} {out : List StageControl}
    (hactive : a.active = some stage) (h : a.handle C cmd now = .ok (a', out)) : KeepsBooks stage a' := by
  cases cmd with
  | createStage title stageId =>
    rw [StageActor.handle, StageActor.createStage, hactive] at h
    cases h
  | joinStage ticket =>
    rw [StageActor.handle, StageActor.joinStage, hactive] at h
    cases h
  | leaveStage =>
    obtain ⟨_, _, h⟩ := Checks.bind_eq_ok.mp h
    cases h
    exact keepsBooks_of_none rfl
  | endStage =>
    obtain ⟨_, _, h⟩ := Checks.bind_eq_ok.mp h
    split at h
    · cases h
      exact keepsBooks_of_none rfl
    · cases h
  | promoteSpeaker pubkey | demoteSpeaker pubkey =>
    obtain ⟨s, hs, h⟩ := Checks.bind_eq_ok.mp h
    obtain rfl := Option.some.inj ((StageActor.requireHostActive_eq_ok.mp hs).1.symm.trans hactive)
    cases h
    exact keepsBooks_of_eq _ rfl rfl rfl
  | volunteerAsRelay capacity =>
    obtain ⟨_, _, h⟩ := Checks.bind_eq_ok.mp h
    split at h
    · cases h
    · cases h
      exact keepsBooks_of_same hactive
  | toggleSelfMute =>
    obtain ⟨s, hs, h⟩ := Checks.bind_eq_ok.mp h
    obtain rfl := Option.some.inj ((StageActor.inStage_eq_ok.mp hs).symm.trans hactive)
    cases h
    exact keepsBooks_of_eq _ rfl rfl rfl
  | raiseHand | lowerHand | sendReaction emoji | sendChat text =>
    obtain ⟨_, _, h⟩ := Checks.bind_eq_ok.mp h
    cases h
    exact keepsBooks_of_same hactive
  | sweepPresence =>
    rw [StageActor.handle, StageActor.sweepPresence, hactive] at h
    cases h
    exact keepsBooks_of_eq _ rfl rfl rfl
  | heartbeat =>
    rw [StageActor.handle, StageActor.sendHeartbeat, hactive] at h
    cases h
    exact keepsBooks_of_same hactive

/-- Of the messages, only the word of a relay changes the books, or is answered. -/
theorem handleControl_keepsBooks (hactive : a.active = some stage) {signed : SignedStageControl} (now : UInt64)
    (hother : ∀ sid relayPubkey relayNodeId capacity,
      signed.control ≠ .relayVolunteer sid relayPubkey relayNodeId capacity) :
    KeepsBooks stage (a.handleControl signed now).1 ∧ (a.handleControl signed now).2 = [] := by
  rw [StageActor.handleControl, hactive]
  dsimp only
  cases hcontrol : signed.control with
  | relayVolunteer => exact absurd hcontrol (hother _ _ _ _)
  | presence | raiseHand | lowerHand | selfMuteToggle =>
    refine ⟨?_, rfl⟩
    exact keepsBooks_of_eq _ rfl rfl rfl
  | announce | reaction | chat => exact ⟨keepsBooks_of_same hactive, rfl⟩
  | ended =>
    refine ⟨?_, rfl⟩
    dsimp only
    unfold StageActor.onEnd
    split
    · exact keepsBooks_of_none rfl
    · exact keepsBooks_of_same hactive
  | promoteSpeaker sid pubkey =>
    refine ⟨?_, rfl⟩
    dsimp only
    unfold StageActor.onPromoteSpeaker
    split
    · dsimp only
      split
      · exact keepsBooks_of_eq _ rfl rfl rfl
      · exact keepsBooks_of_eq _ rfl rfl rfl
    · exact keepsBooks_of_same hactive
  | demoteSpeaker sid pubkey =>
    refine ⟨?_, rfl⟩
    dsimp only
    unfold StageActor.onDemoteSpeaker
    split
    · dsimp only
      split
      · exact keepsBooks_of_eq _ rfl rfl rfl
      · exact keepsBooks_of_eq _ rfl rfl rfl
    · exact keepsBooks_of_same hactive
  | muteSpeaker sid pubkey =>
    refine ⟨?_, rfl⟩
    dsimp only
    unfold StageActor.onMuteSpeaker
    split
    · exact keepsBooks_of_eq _ rfl rfl rfl
    · exact keepsBooks_of_same hactive
  | kick sid pubkey =>
    refine ⟨?_, rfl⟩
    dsimp only
    unfold StageActor.onKick
    split
    · split
      · exact keepsBooks_of_none rfl
      · exact keepsBooks_of_eq _ rfl rfl rfl
    · exact keepsBooks_of_same hactive
  | ban sid pubkey =>
    have hban : (stage.banNode pubkey).topology = stage.topology ∧
        (stage.banNode pubkey).hostNodeId = stage.hostNodeId := by
      unfold ActiveStage.banNode
      split
      · exact ⟨rfl, rfl⟩
      · exact ⟨rfl, rfl⟩
    refine ⟨?_, rfl⟩
    dsimp only
    unfold StageActor.onBan
    split
    · dsimp only
      split
      · exact keepsBooks_of_none rfl
      · exact keepsBooks_of_eq ((stage.banNode pubkey).remove pubkey) rfl hban.1 hban.2
    · exact keepsBooks_of_same hactive
  | relayAssignment sid relayPubkey relayNodeId listenerPubkeys =>
    refine ⟨?_, rfl⟩
    dsimp only
    unfold StageActor.onRelayAssignment
    split
    · split
      · exact keepsBooks_of_eq _ rfl rfl rfl
      · exact keepsBooks_of_same hactive
    · exact keepsBooks_of_same hactive

end Books

section Entries

variable {stage : ActiveStage} {t : TopologyManager} {pubkey : String}

theorem backed_deleteWhere_iff (gone : Participant → Bool) (participants : List Participant) (t : TopologyManager) :
    AllBacked (Table.deleteWhere gone participants) t ↔ Backed participants t fun q => ¬ gone q := by
  have hmem : ∀ q, q ∈ Table.deleteWhere gone participants ↔ q ∈ participants ∧ ¬ gone q := by
    intro q
    simp [Table.deleteWhere]
  constructor
  · intro h
    refine ⟨fun x hx => ?_, fun s hs hrelay => ?_⟩
    · obtain ⟨q, hq, hkey, hrole, -⟩ := h.slots x hx
      exact ⟨q, ((hmem q).mp hq).1, hkey, hrole, ((hmem q).mp hq).2⟩
    · obtain ⟨q, hq, hnode, -⟩ := h.relays s hs hrelay
      exact ⟨q, ((hmem q).mp hq).1, hnode, ((hmem q).mp hq).2⟩
  · intro h
    refine ⟨fun x hx => ?_, fun s hs hrelay => ?_⟩
    · obtain ⟨q, hq, hkey, hrole, hstays⟩ := h.slots x hx
      exact ⟨q, (hmem q).mpr ⟨hq, hstays⟩, hkey, hrole, trivial⟩
    · obtain ⟨q, hq, hnode, hstays⟩ := h.relays s hs hrelay
      exact ⟨q, (hmem q).mpr ⟨hq, hstays⟩, hnode, trivial⟩

theorem backed_remove_iff (h : AllBacked stage.participants t) :
    AllBacked (stage.remove pubkey).participants t ↔ CanGo stage t pubkey := by
  have hiff := backed_deleteWhere_iff (fun q => decide (q.pubkey = pubkey)) stage.participants t
  simp only [decide_eq_true_eq] at hiff
  rw [show (stage.remove pubkey).participants = Table.deleteWhere _ stage.participants from rfl, hiff]
  constructor
  · intro hbacked
    constructor
    · rintro ⟨x, hx, rfl⟩
      obtain ⟨q, -, hkey, -, hne⟩ := hbacked.slots x hx
      exact hne hkey
    · intro s hs hrelay
      obtain ⟨q, hq, hnode, hne⟩ := hbacked.relays s hs hrelay
      exact ⟨q, hq, hne, hnode⟩
  · rintro ⟨hfree, hothers⟩
    refine ⟨fun x hx => ?_, fun s hs hrelay => ?_⟩
    · obtain ⟨q, hq, hkey, hrole, -⟩ := h.slots x hx
      exact ⟨q, hq, hkey, hrole, fun hpk => hfree ⟨x, hx, hkey.symm.trans hpk⟩⟩
    · obtain ⟨q, hq, hne, hnode⟩ := hothers s hs hrelay
      exact ⟨q, hq, hnode, hne⟩

theorem mem_modify {f : Participant → Participant} {q : Participant} (h : q ∈ stage.participants) :
    (if q.pubkey = pubkey then f q else q) ∈ (stage.modify pubkey f).participants := by
  refine List.mem_map.mpr ⟨q, h, ?_⟩
  simp only [decide_eq_true_eq]

theorem AllBacked.modify {f : Participant → Participant} (h : AllBacked stage.participants t)
    (hkey : ∀ q, (f q).pubkey = q.pubkey) (hnode : ∀ q, (f q).nodeId = q.nodeId)
    (hrole : ∀ q, q.pubkey = pubkey → q.role = .listener → t.Holds pubkey → (f q).role = .listener) :
    AllBacked (stage.modify pubkey f).participants t := by
  refine ⟨fun x hx => ?_, fun s hs hrelay => ?_⟩
  · obtain ⟨q, hq, hqx, hlistener, -⟩ := h.slots x hx
    refine ⟨_, mem_modify hq, ?_, ?_, trivial⟩
    · split
      · rw [hkey, hqx]
      · exact hqx
    · split
      next hpk => exact hrole q hpk hlistener ⟨x, hx, hqx.symm.trans hpk⟩
      next => exact hlistener
  · obtain ⟨q, hq, hqs, -⟩ := h.relays s hs hrelay
    refine ⟨_, mem_modify hq, ?_, trivial⟩
    split
    · rw [hnode, hqs]
    · exact hqs

theorem backed_promote_iff (h : AllBacked stage.participants t) :
    AllBacked (stage.setRole pubkey .speaker).participants t ↔ ¬ t.Holds pubkey := by
  constructor
  · rintro hbacked ⟨x, hx, rfl⟩
    obtain ⟨q, hq, hkey, hrole, -⟩ := hbacked.slots x hx
    obtain ⟨p, hp, rfl⟩ := List.mem_map.mp hq
    by_cases hpk : p.pubkey = x.1
    · rw [if_pos (decide_eq_true hpk)] at hrole
      cases hrole
    · rw [if_neg (by simpa using hpk)] at hkey
      exact hpk hkey
  · intro hfree
    exact h.modify (fun _ => rfl) (fun _ => rfl) fun _ _ _ hholds => absurd hholds hfree

theorem mem_presence {role : StageRole} {timestamp now : UInt64} {nodeId : Option String} {q : Participant} :
    q ∈ (stage.presence pubkey role timestamp nodeId now).participants ↔
      (q ∈ stage.participants ∧ q.pubkey ≠ pubkey) ∨
        (∃ p ∈ stage.participants, p.pubkey = pubkey ∧ q = p.refresh role nodeId now) ∨
          (∀ p ∈ stage.participants, p.pubkey ≠ pubkey) ∧
            q = Participant.refresh role nodeId now ⟨pubkey, role, false, false, false, timestamp, nodeId⟩ := by
  unfold ActiveStage.presence
  exact Table.mem_upsert_iff

theorem exists_mem_presence (stage : ActiveStage) (pubkey : String) (role : StageRole) (timestamp now : UInt64)
    (id : String) :
    ∃ q ∈ (stage.presence pubkey role timestamp (some id) now).participants, q.nodeId = some id := by
  by_cases hany : ∃ p ∈ stage.participants, p.pubkey = pubkey
  · obtain ⟨p, hp, hpk⟩ := hany
    exact ⟨p.refresh role (some id) now, mem_presence.mpr (Or.inr (Or.inl ⟨p, hp, hpk, rfl⟩)), rfl⟩
  · push Not at hany
    exact ⟨_, mem_presence.mpr (Or.inr (Or.inr ⟨hany, rfl⟩)), rfl⟩

/-- A `Presence` gives back what a slot and a relay need of the entry, or takes it. -/
theorem backed_presence_iff {role : StageRole} {timestamp now : UInt64} {nodeId : Option String}
    (h : AllBacked stage.participants t) :
    AllBacked (stage.presence pubkey role timestamp nodeId now).participants t ↔
      (t.Holds pubkey → role = .listener) ∧
        ∀ id, nodeId = some id → ∀ s ∈ t.sources, s.kind = .relay → s.endpointId = id ∨
          ∃ q ∈ stage.participants, q.pubkey ≠ pubkey ∧ q.nodeId = some s.endpointId := by
  constructor
  · intro hbacked
    refine ⟨?_, ?_⟩
    · rintro ⟨x, hx, rfl⟩
      obtain ⟨q, hq, hkey, hrole, -⟩ := hbacked.slots x hx
      rcases mem_presence.mp hq with ⟨-, hne⟩ | ⟨p, -, -, rfl⟩ | ⟨-, rfl⟩
      · exact absurd hkey hne
      · exact hrole
      · exact hrole
    · rintro id rfl s hs hrelay
      obtain ⟨q, hq, hnode, -⟩ := hbacked.relays s hs hrelay
      rcases mem_presence.mp hq with ⟨hmem, hne⟩ | ⟨p, -, -, rfl⟩ | ⟨-, rfl⟩
      · exact Or.inr ⟨q, hmem, hne, hnode⟩
      · exact Or.inl (Option.some.inj hnode).symm
      · exact Or.inl (Option.some.inj hnode).symm
  · rintro ⟨hrole, hnode⟩
    refine ⟨fun x hx => ?_, fun s hs hrelay => ?_⟩
    · obtain ⟨q, hq, hkey, hlistener, -⟩ := h.slots x hx
      by_cases hpk : q.pubkey = pubkey
      · refine ⟨q.refresh role nodeId now, mem_presence.mpr (Or.inr (Or.inl ⟨q, hq, hpk, rfl⟩)), hkey, ?_, trivial⟩
        exact hrole ⟨x, hx, hkey.symm.trans hpk⟩
      · exact ⟨q, mem_presence.mpr (Or.inl ⟨hq, hpk⟩), hkey, hlistener, trivial⟩
    · cases nodeId with
      | some id =>
        rcases hnode id rfl s hs hrelay with rfl | ⟨q, hq, hne, hqs⟩
        · obtain ⟨q, hq, hqs⟩ := exists_mem_presence stage pubkey role timestamp now s.endpointId
          exact ⟨q, hq, hqs, trivial⟩
        · exact ⟨q, mem_presence.mpr (Or.inl ⟨hq, hne⟩), hqs, trivial⟩
      | none =>
        -- without a transport id in the message the entry keeps its own
        obtain ⟨q, hq, hqs, -⟩ := h.relays s hs hrelay
        by_cases hpk : q.pubkey = pubkey
        · exact ⟨q.refresh role none now, mem_presence.mpr (Or.inr (Or.inl ⟨q, hq, hpk, rfl⟩)), hqs, trivial⟩
        · exact ⟨q, mem_presence.mpr (Or.inl ⟨hq, hpk⟩), hqs, trivial⟩

theorem backed_takeRelay_iff (relayNodeId : String) (capacity : UInt32) {listeners : List String}
    (h : AllBacked stage.participants t)
    (hlisteners : ∀ pk ∈ listeners, ∃ q ∈ stage.participants, q.pubkey = pk ∧ q.role = .listener) :
    AllBacked stage.participants ((t.addRelay relayNodeId capacity).assignAll relayNodeId listeners).2 ↔
      (∃ s ∈ t.sources, s.endpointId = relayNodeId) ∨ ∃ q ∈ stage.participants, q.nodeId = some relayNodeId := by
  have hplaces := TopologyManager.places_assignAll relayNodeId listeners (t.addRelay relayNodeId capacity)
  have hsource : ∀ k, k ∈ ((t.addRelay relayNodeId capacity).assignAll relayNodeId listeners).2.sources.map place ↔
      k ∈ (t.addRelay relayNodeId capacity).sources.map place := fun k => by rw [hplaces]
  have hslots : ∀ x ∈ ((t.addRelay relayNodeId capacity).assignAll relayNodeId listeners).2.assignments,
      ∃ q ∈ stage.participants, q.pubkey = x.1 ∧ q.role = .listener ∧ True := by
    intro x hx
    rcases TopologyManager.mem_assignAll hx with hx | hx
    · rw [assignments_addRelay] at hx
      exact h.slots x hx
    · obtain ⟨q, hq, hkey, hrole⟩ := hlisteners x.1 hx
      exact ⟨q, hq, hkey, hrole, trivial⟩
  constructor
  · intro hbacked
    by_cases hknown : ∃ s ∈ t.sources, s.endpointId = relayNodeId
    · exact Or.inl hknown
    · -- the relay is a new source, and it needs its participant
      right
      have hnew : place ⟨.relay, relayNodeId, capacity, 0⟩ ∈ (t.addRelay relayNodeId capacity).sources.map place :=
        mem_places_addRelay.mpr (Or.inr ⟨hknown, rfl⟩)
      obtain ⟨s, hs, hplace⟩ := List.mem_map.mp ((hsource _).mpr hnew)
      obtain ⟨hkind, hid, -⟩ := TopologyManager.place_eq_iff.mp hplace
      obtain ⟨q, hq, hnode, -⟩ := hbacked.relays s hs hkind
      exact ⟨q, hq, hnode.trans (congrArg some hid)⟩
  · intro hvolunteer
    refine ⟨hslots, fun s hs hrelay => ?_⟩
    have hplace : place s ∈ (t.addRelay relayNodeId capacity).sources.map place :=
      (hsource _).mp (List.mem_map_of_mem hs)
    rcases mem_places_addRelay.mp hplace with hold | ⟨hnew, hplace⟩
    · obtain ⟨r, hr, heq⟩ := List.mem_map.mp hold
      obtain ⟨hkind, hid, -⟩ := TopologyManager.place_eq_iff.mp heq
      rw [← hid]
      exact h.relays r hr (hkind.trans hrelay)
    · obtain ⟨-, hid, -⟩ := TopologyManager.place_eq_iff.mp hplace
      obtain ⟨q, hq, hnode⟩ := hvolunteer.resolve_left hnew
      exact ⟨q, hq, hnode.trans (congrArg some hid.symm), trivial⟩

end Entries

section Steps

variable {C : StageCrates} {a a' : StageActor} {stage : ActiveStage}

theorem noLeaks_of_none (hnone : a.active = none) : NoLeaks a :=
  fun stage hactive => absurd (hnone.symm.trans hactive) (Option.some_ne_none stage).symm

theorem noLeaks_iff_of_topology (stage' : ActiveStage) {keeps : TopologyManager → Prop} (h : NoLeaks a)
    (hactive : a.active = some stage) (hactive' : a'.active = some stage')
    (htopology : stage'.topology = stage.topology)
    (hkeeps : ∀ t, AllBacked stage.participants t → (AllBacked stage'.participants t ↔ keeps t)) :
    NoLeaks a' ↔ ∀ t, stage.topology = some t → keeps t := by
  constructor
  · intro hnoLeaks t ht
    have hbacked : AllBacked stage'.participants t := hnoLeaks stage' hactive' t (htopology.trans ht)
    exact (hkeeps t (h stage hactive t ht)).mp hbacked
  · intro hall s hs t ht
    obtain rfl := Option.some.inj (hactive'.symm.trans hs)
    have ht : stage.topology = some t := htopology.symm.trans ht
    exact (hkeeps t (h stage hactive t ht)).mpr (hall t ht)

/-- The entry still stands for its key, its transport id, and a listener if it did. -/
structure StaysIn (q q' : Participant) : Prop where
  pubkey : q'.pubkey = q.pubkey
  nodeId : q'.nodeId = q.nodeId
  listener : q.role = .listener → q'.role = .listener

theorem staysIn_ite {p : Prop} [Decidable p] {q q' : Participant} (h : StaysIn q q') :
    StaysIn q (if p then q' else q) := by
  split
  · exact h
  · exact ⟨rfl, rfl, id⟩

theorem noLeaks_of_staysIn {g : Participant → Option Participant} (h : NoLeaks a) (hactive : a.active = some stage)
    (hbooks : KeepsBooks stage a') (hstays : ∀ q, ∃ q', g q = some q' ∧ StaysIn q q')
    (hmem : ∀ stage', a'.active = some stage' → ∀ q ∈ stage.participants.filterMap g, q ∈ stage'.participants) :
    NoLeaks a' := by
  intro stage' hactive' t ht
  have hbacked : AllBacked stage.participants t := h stage hactive t ((hbooks stage' hactive').1.symm.trans ht)
  have hentry : ∀ q ∈ stage.participants, ∃ q' ∈ stage'.participants, StaysIn q q' := by
    intro q hq
    obtain ⟨q', hq', hin⟩ := hstays q
    exact ⟨q', hmem stage' hactive' q' (List.mem_filterMap.mpr ⟨q, hq, hq'⟩), hin⟩
  constructor
  · intro x hx
    obtain ⟨q, hq, hkey, hrole, -⟩ := hbacked.slots x hx
    obtain ⟨q', hq', hin⟩ := hentry q hq
    exact ⟨q', hq', hin.pubkey.trans hkey, hin.listener hrole, trivial⟩
  · intro s hs hrelay
    obtain ⟨q, hq, hnode, -⟩ := hbacked.relays s hs hrelay
    obtain ⟨q', hq', hin⟩ := hentry q hq
    exact ⟨q', hq', hin.nodeId.trans hnode, trivial⟩

section Messages

variable (h : NoLeaks a) (hactive : a.active = some stage) (sender pubkey : String)
include h hactive

theorem noLeaks_onPromoteSpeaker_iff :
    NoLeaks (a.onPromoteSpeaker sender pubkey stage) ↔
      ∀ t, stage.topology = some t → isModerator stage sender = true → ¬ t.Holds pubkey := by
  unfold StageActor.onPromoteSpeaker
  by_cases hmod : isModerator stage sender = true
  · simp only [hmod, if_true, forall_const]
    have hpromoted : ∀ t, AllBacked stage.participants t →
        (AllBacked (stage.setRole pubkey .speaker).participants t ↔ ¬ t.Holds pubkey) :=
      fun t => backed_promote_iff
    split
    · exact noLeaks_iff_of_topology
        { stage.setRole pubkey .speaker with listenerPipelineCancel := none, myRole := .speaker }
        h hactive rfl rfl hpromoted
    · exact noLeaks_iff_of_topology (stage.setRole pubkey .speaker) h hactive rfl rfl hpromoted
  · rw [if_neg hmod]
    exact iff_of_true h fun _ _ hmod' => absurd hmod' hmod

theorem noLeaks_onKick_iff :
    NoLeaks (a.onKick sender pubkey stage) ↔ ∀ t, stage.topology = some t →
      isModerator stage sender = true → pubkey = stage.myPubkey ∨ CanGo stage t pubkey := by
  unfold StageActor.onKick
  by_cases hmod : isModerator stage sender = true
  swap
  · rw [if_neg hmod]
    exact iff_of_true h fun _ _ hmod' => absurd hmod' hmod
  simp only [hmod, if_true, forall_const]
  by_cases hme : pubkey = stage.myPubkey
  · rw [if_pos hme]
    exact iff_of_true (noLeaks_of_none rfl) fun _ _ => Or.inl hme
  · rw [if_neg hme]
    simp only [hme, false_or]
    exact noLeaks_iff_of_topology (stage.remove pubkey) h hactive rfl rfl fun t => backed_remove_iff

theorem noLeaks_onBan_iff :
    NoLeaks (a.onBan sender pubkey stage) ↔ ∀ t, stage.topology = some t →
      sender = stage.hostPubkey → pubkey = stage.myPubkey ∨ CanGo stage t pubkey := by
  unfold StageActor.onBan
  by_cases hhost : sender = stage.hostPubkey
  swap
  · rw [if_neg hhost]
    exact iff_of_true h fun _ _ hhost' => absurd hhost' hhost
  simp only [hhost, if_true, forall_const]
  by_cases hme : pubkey = stage.myPubkey
  · rw [if_pos hme]
    exact iff_of_true (noLeaks_of_none rfl) fun _ _ => Or.inl hme
  · rw [if_neg hme]
    simp only [hme, false_or]
    have htopology : ((stage.banNode pubkey).remove pubkey).topology = stage.topology := by
      unfold ActiveStage.banNode
      split <;> rfl
    have hparticipants : ((stage.banNode pubkey).remove pubkey).participants = (stage.remove pubkey).participants :=
      congrArg (Table.deleteWhere _) (participants_banNode stage pubkey)
    apply noLeaks_iff_of_topology ((stage.banNode pubkey).remove pubkey) h hactive rfl htopology
    intro t hbacked
    rw [hparticipants]
    exact backed_remove_iff hbacked

theorem noLeaks_takeRelay_iff (relayPubkey relayNodeId : String) (capacity : UInt32) :
    NoLeaks (a.takeRelay relayPubkey relayNodeId capacity stage).1 ↔ ∀ t, stage.topology = some t →
      stage.myRole = .host → (∃ s ∈ t.sources, s.endpointId = relayNodeId) ∨
        ∃ q ∈ stage.participants, q.nodeId = some relayNodeId := by
  unfold StageActor.takeRelay
  split
  next t hhost htopology =>
    dsimp only
    generalize hlisteners : (stage.participants.filter fun p => p.role = .listener).map (·.pubkey) = listeners
    have hlistener : ∀ pk ∈ listeners, ∃ q ∈ stage.participants, q.pubkey = pk ∧ q.role = .listener := by
      intro pk hpk
      rw [← hlisteners] at hpk
      obtain ⟨q, hq, rfl⟩ := List.mem_map.mp hpk
      obtain ⟨hmem, hrole⟩ := List.mem_filter.mp hq
      exact ⟨q, hmem, rfl, of_decide_eq_true hrole⟩
    have hbacked : AllBacked stage.participants t := h stage hactive t htopology
    have hiff := backed_takeRelay_iff relayNodeId capacity hbacked hlistener
    constructor
    · intro hnoLeaks s hs _
      obtain rfl := Option.some.inj (htopology.symm.trans hs)
      exact hiff.mp (hnoLeaks _ rfl _ rfl)
    · intro hvolunteer s hs u hu
      obtain rfl := Option.some.inj hs
      obtain rfl := Option.some.inj hu
      exact hiff.mpr (hvolunteer t htopology hhost)
  next hother =>
    refine iff_of_true h fun t ht hhost => absurd ht ?_
    exact hother t hhost

theorem noLeaks_handleControl_of_staysIn {signed : SignedStageControl} {now : UInt64}
    (hother : ∀ sid relayPubkey relayNodeId capacity,
      signed.control ≠ .relayVolunteer sid relayPubkey relayNodeId capacity)
    (hstays : ∀ q, ∃ q', revise stage signed now q = some q' ∧ StaysIn q q') :
    NoLeaks (a.handleControl signed now).1 := by
  apply noLeaks_of_staysIn h hactive (handleControl_keepsBooks hactive now hother).1 hstays
  intro stage' hactive' q hq
  rw [handleControl_participants hactive hactive']
  exact List.mem_append_left _ hq

theorem noLeaks_handleControl_iff (signed : SignedStageControl) (now : UInt64) :
    NoLeaks (a.handleControl signed now).1 ↔ ∀ t, stage.topology = some t → ControlKeeps stage t signed := by
  obtain ⟨sender, control, sentAt, signature⟩ := signed
  cases control with
  | presence sid pubkey role timestamp nodeId =>
    rw [StageActor.handleControl, hactive]
    exact noLeaks_iff_of_topology (stage.presence pubkey role timestamp nodeId now) h hactive rfl rfl
      fun t => backed_presence_iff
  | promoteSpeaker sid pubkey =>
    rw [StageActor.handleControl, hactive]
    exact noLeaks_onPromoteSpeaker_iff h hactive sender pubkey
  | kick sid pubkey =>
    rw [StageActor.handleControl, hactive]
    exact noLeaks_onKick_iff h hactive sender pubkey
  | ban sid pubkey =>
    rw [StageActor.handleControl, hactive]
    exact noLeaks_onBan_iff h hactive sender pubkey
  | relayVolunteer sid relayPubkey relayNodeId capacity =>
    rw [StageActor.handleControl, hactive]
    exact noLeaks_takeRelay_iff h hactive relayPubkey relayNodeId capacity
  | raiseHand | lowerHand | selfMuteToggle | muteSpeaker =>
    -- a flag is no matter of the topology
    refine iff_of_true (noLeaks_handleControl_of_staysIn h hactive (by simp) fun q => ?_) fun _ _ => trivial
    exact ⟨_, rfl, staysIn_ite ⟨rfl, rfl, id⟩⟩
  | demoteSpeaker =>
    refine iff_of_true (noLeaks_handleControl_of_staysIn h hactive (by simp) fun q => ?_) fun _ _ => trivial
    exact ⟨_, rfl, staysIn_ite ⟨rfl, rfl, fun _ => rfl⟩⟩
  | announce | ended | relayAssignment | reaction | chat =>
    refine iff_of_true (noLeaks_handleControl_of_staysIn h hactive (by simp) fun q => ?_) fun _ _ => trivial
    exact ⟨q, rfl, rfl, rfl, id⟩

end Messages

theorem noLeaks_sweepPresence_iff (h : NoLeaks a) (hactive : a.active = some stage) (now : UInt64) :
    NoLeaks (a.step C (.command .sweepPresence now)) ↔ ∀ t, stage.topology = some t →
      Backed stage.participants t fun q => ¬ swept stage now q := by
  rw [StageActor.step, StageActor.handle, StageActor.sweepPresence, hactive]
  exact noLeaks_iff_of_topology { stage with participants := Table.deleteWhere (swept stage now) stage.participants }
    h hactive rfl rfl fun t _ => backed_deleteWhere_iff _ stage.participants t

theorem noLeaks_promoteSpeaker_iff (h : NoLeaks a) (hactive : a.active = some stage) (pubkey : String) (now : UInt64) :
    NoLeaks (a.step C (.command (.promoteSpeaker pubkey) now)) ↔ ∀ t, stage.topology = some t →
      stage.myRole = .host ∨ stage.myRole = .coHost → ¬ t.Holds pubkey := by
  rw [StageActor.step, StageActor.handle, StageActor.promoteSpeaker]
  cases hrequire : a.requireHostActive "promote" with
  | error e =>
    refine iff_of_true h fun t _ hrole => ?_
    have hok : a.requireHostActive "promote" = .ok stage :=
      StageActor.requireHostActive_eq_ok.mpr ⟨hactive, hrole⟩
    rw [hrequire] at hok
    cases hok
  | ok s =>
    obtain ⟨hs, hrole⟩ := StageActor.requireHostActive_eq_ok.mp hrequire
    obtain rfl := Option.some.inj (hs.symm.trans hactive)
    simp only [hrole, forall_const]
    exact noLeaks_iff_of_topology (s.setRole pubkey .speaker) h hactive rfl rfl fun t => backed_promote_iff

theorem noLeaks_handle {cmd : StageCommand} {now : UInt64} {out : List StageControl} (h : NoLeaks a)
    (hactive : a.active = some stage) (hpromote : ∀ pubkey, cmd ≠ .promoteSpeaker pubkey)
    (hsweep : cmd ≠ .sweepPresence) (hok : a.handle C cmd now = .ok (a', out)) : NoLeaks a' := by
  have hstays : ∀ q, ∃ q', reviseOwn stage now q cmd = some q' ∧ StaysIn q q' := by
    intro q
    cases cmd with
    | promoteSpeaker pubkey => exact absurd rfl (hpromote pubkey)
    | sweepPresence => exact absurd rfl hsweep
    | demoteSpeaker pubkey => exact ⟨_, rfl, staysIn_ite ⟨rfl, rfl, fun _ => rfl⟩⟩
    | _ => exact ⟨q, rfl, rfl, rfl, id⟩
  apply noLeaks_of_staysIn h hactive (handle_keepsBooks hactive hok) hstays
  intro stage' hactive' q hq
  rwa [handle_participants hactive hok hactive']

theorem noLeaks_handle_of_none {cmd : StageCommand} {now : UInt64} {out : List StageControl} (hnone : a.active = none)
    (hok : a.handle C cmd now = .ok (a', out)) : NoLeaks a' := by
  intro stage hstage t ht
  cases cmd with
  | createStage title stageId =>
    rw [StageActor.handle, StageActor.createStage, hnone] at hok
    cases hok
    obtain rfl := Option.some.inj hstage
    obtain rfl := Option.some.inj ht
    refine ⟨fun x hx => absurd hx List.not_mem_nil, fun s hs hrelay => ?_⟩
    rw [List.mem_singleton.mp hs] at hrelay
    cases hrelay
  | joinStage ticket =>
    rw [StageActor.handle, StageActor.joinStage, hnone] at hok
    cases hok
    obtain rfl := Option.some.inj hstage
    cases ht
  | leaveStage | endStage | volunteerAsRelay | toggleSelfMute =>
    obtain ⟨s, hs, -⟩ := Checks.bind_eq_ok.mp hok
    exact absurd (hnone.symm.trans (StageActor.inStage_eq_ok.mp hs)) (Option.some_ne_none s).symm
  | promoteSpeaker | demoteSpeaker =>
    obtain ⟨s, hs, -⟩ := Checks.bind_eq_ok.mp hok
    exact absurd (hnone.symm.trans (StageActor.requireHostActive_eq_ok.mp hs).1) (Option.some_ne_none s).symm
  | raiseHand | lowerHand | sendReaction | sendChat =>
    obtain ⟨s, hs, -⟩ := Checks.bind_eq_ok.mp hok
    exact absurd (hnone.symm.trans (StageActor.requireActive_eq_ok.mp hs)) (Option.some_ne_none s).symm
  | sweepPresence =>
    rw [StageActor.handle, StageActor.sweepPresence, hnone] at hok
    cases hok
    exact absurd (hnone.symm.trans hstage) (Option.some_ne_none stage).symm
  | heartbeat =>
    rw [StageActor.handle, StageActor.sendHeartbeat, hnone] at hok
    cases hok
    exact absurd (hnone.symm.trans hstage) (Option.some_ne_none stage).symm

theorem noLeaks_command_iff (h : NoLeaks a) (cmd : StageCommand) (now : UInt64) :
    NoLeaks (a.step C (.command cmd now)) ↔ SlotsKept C a (.command cmd now) := by
  cases hactive : a.active with
  | none =>
    refine iff_of_true ?_ fun stage hstage => absurd (hactive.symm.trans hstage) (Option.some_ne_none stage).symm
    rw [StageActor.step]
    split
    next hok => exact noLeaks_handle_of_none hactive hok
    next => exact h
  | some stage =>
    have hkept : SlotsKept C a (.command cmd now) ↔ ∀ t, stage.topology = some t → CommandKeeps stage t now cmd := by
      unfold SlotsKept
      simp only [hactive, Option.some.injEq, forall_eq']
    rw [hkept]
    by_cases hpromote : ∃ pubkey, cmd = .promoteSpeaker pubkey
    · obtain ⟨pubkey, rfl⟩ := hpromote
      exact noLeaks_promoteSpeaker_iff h hactive pubkey now
    by_cases hsweep : cmd = .sweepPresence
    · rw [hsweep]
      exact noLeaks_sweepPresence_iff h hactive now
    -- no other command touches a slot, a role that holds one, or an entry
    have hpromote : ∀ pubkey, cmd ≠ .promoteSpeaker pubkey := fun pubkey hcmd => hpromote ⟨pubkey, hcmd⟩
    apply iff_of_true
    · rw [StageActor.step]
      split
      next hok => exact noLeaks_handle h hactive hpromote hsweep hok
      next => exact h
    · intro t _
      cases cmd with
      | promoteSpeaker pubkey => exact absurd rfl (hpromote pubkey)
      | sweepPresence => exact absurd rfl hsweep
      | _ => trivial

theorem noLeaks_gossip_iff (h : NoLeaks a) (stageId : String) (signed : SignedStageControl) (now : UInt64) :
    NoLeaks (a.step C (.gossip stageId signed now)) ↔ SlotsKept C a (.gossip stageId signed now) := by
  unfold SlotsKept
  by_cases haccepts : accepts C.toSignatureCrates stageId signed = true
  swap
  · rw [step_gossip_of_not_accepts haccepts]
    exact iff_of_true h fun _ _ _ _ haccepts' => absurd haccepts' haccepts
  cases hactive : a.active with
  | none =>
    rw [step_gossip_of_none hactive]
    exact iff_of_true h fun _ hstage => absurd hstage (Option.some_ne_none _).symm
  | some stage =>
    rw [step_gossip_of_accepts haccepts, noLeaks_handleControl_iff h hactive]
    simp only [Option.some.injEq, forall_eq', haccepts, forall_const]

theorem noLeaks_step_iff (h : NoLeaks a) (i : StageInput) : NoLeaks (a.step C i) ↔ SlotsKept C a i := by
  cases i with
  | command cmd now => exact noLeaks_command_iff h cmd now
  | gossip stageId signed now => exact noLeaks_gossip_iff h stageId signed now

theorem StageActor.rehash_eq_some {participants : List Participant} (h : a.rehash participants = some a') :
    ∃ stage, a.active = some stage ∧ participants.Perm stage.participants ∧
      a' = a.withStage { stage with participants } := by
  unfold StageActor.rehash at h
  split at h
  · cases h
  next stage hactive =>
    split at h
    next hperm => exact ⟨stage, hactive, hperm, (Option.some.inj h).symm⟩
    · cases h

theorem Backed.perm {participants participants' : List Participant} {t : TopologyManager} {p : Participant → Prop}
    (h : Backed participants t p) (hperm : participants'.Perm participants) : Backed participants' t p := by
  refine ⟨fun x hx => ?_, fun s hs hrelay => ?_⟩
  · obtain ⟨q, hq, hslot⟩ := h.slots x hx
    exact ⟨q, hperm.mem_iff.mpr hq, hslot⟩
  · obtain ⟨q, hq, hnode⟩ := h.relays s hs hrelay
    exact ⟨q, hperm.mem_iff.mpr hq, hnode⟩

theorem NoLeaks.rehash (h : NoLeaks a) {participants : List Participant} (hstep : a.rehash participants = some a') :
    NoLeaks a' := by
  obtain ⟨stage, hactive, hperm, rfl⟩ := StageActor.rehash_eq_some hstep
  rintro _ ⟨⟩ t ht
  exact (h stage hactive t ht).perm hperm

theorem noLeaks_stepEvent_iff (h : NoLeaks a) (e : StageEvent) :
    (∀ a', a.stepEvent C e = some a' → NoLeaks a') ↔ SlotsKeptBy C a e := by
  cases e with
  | input i =>
    refine Iff.trans ?_ (noLeaks_step_iff h i)
    constructor
    · intro hall
      exact hall _ rfl
    · rintro hstep a' ⟨⟩
      exact hstep
  | rehash participants => exact iff_of_true (fun a' hstep => h.rehash hstep) trivial

/-- In a run, with the participants put in any order between two inputs, no slot and no relay is
leaked just if no step takes away who holds the one or is behind the other. -/
theorem noLeaks_iff (C : StageCrates) (identity : StageIdentity) (events : List StageEvent) :
    (∀ before a, before <+: events → exec (StageActor.stepEvent C) (.new identity) before = some a → NoLeaks a) ↔
      Along (StageActor.stepEvent C) (SlotsKeptBy C) (.new identity) events := by
  have hstart : NoLeaks (.new identity) := noLeaks_of_none rfl
  refine forall_prefix_iff_along (fun a e h => noLeaks_stepEvent_iff h e) ?_ hstart hstart
  intro a e a' _ _ hnext _
  exact hnext

end Steps

section Examples

def owner : StageActor := .new ⟨"owner", Vector.replicate 32 1, "owner node"⟩

def guest : StageActor := .new ⟨"guest", Vector.replicate 32 2, "guest node"⟩

def guestSends (control : StageControl) : StageInput :=
  .gossip (stageIdOf control) (guest.sign stageChecksum control 0) 0

/-- The owner of a stage, and the guest it has given a slot. -/
def slotGiven : List StageInput :=
  [.command (.createStage "title" "stage") 0, guestSends (.presence "stage" "guest" .listener 0 (some "guest node")),
    guestSends (.relayVolunteer "stage" "guest" "guest node" 5)]

/-- The guest keeps its slot as a speaker. -/
theorem not_noLeaks_promoted : ¬ ∀ before a,
    before <+: (slotGiven ++ [StageInput.command (.promoteSpeaker "guest") 0]).map .input →
    exec (StageActor.stepEvent stageChecksum) owner before = some a → NoLeaks a := by
  intro hall
  have hnoLeaks := hall _ _ (List.prefix_refl _) rfl
  simp only [guestSends, stageChecksum_signs.step] at hnoLeaks
  have hbacked := hnoLeaks _ rfl _ rfl
  obtain ⟨q, hq, hkey, hrole, -⟩ := hbacked.slots ("guest", "owner node") (by decide)
  revert q
  decide

end Examples

end Proscenium.Stage
