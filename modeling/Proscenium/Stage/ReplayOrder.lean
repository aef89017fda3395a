import Proscenium.Lib.Dated
import Proscenium.Lib.Machine
import Proscenium.Lib.Refresh
import Proscenium.Stage.ActorSteps
import Proscenium.Stage.Entries
import Proscenium.Stage.MicrophoneRole

/-! Whether a node shows of each participant what the newest messages say of them. The
messages are dated, and the date is signed; a node handles them in the order in which they
come in, and a second time if they come in a second time. -/

namespace Proscenium.Stage

open Proscenium.Types Machine

section Defs

variable (C : StageCrates)

inductive Aspect where
  | membership
  | role
  | hand
  | selfMute
  | hostMute
  deriving DecidableEq, Repr

inductive Fact where
  | member (present : Bool)
  | role (role : StageRole)
  | hand (raised : Bool)
  | selfMuted (muted : Bool)
  | hostMuted (muted : Bool)
  deriving DecidableEq, Repr

def Fact.aspect : Fact → Aspect
  | .member _ => .membership
  | .role _ => .role
  | .hand _ => .hand
  | .selfMuted _ => .selfMute
  | .hostMuted _ => .hostMute

inductive Tidings where
  | here (role : StageRole)
  | gone
  | sets (f : Fact)
  deriving DecidableEq, Repr

def lowered : List Fact := [.hand false, .selfMuted false, .hostMuted false]

def Tidings.facts : Tidings → List Fact
  | .here role => [.member true, .role role]
  | .gone => .member false :: lowered
  | .sets f => [f]

structure Word where
  sender : String
  pubkey : String
  sentAt : UInt64
  tidings : Tidings
  deriving DecidableEq, Repr

def dated : Dated Word Fact Aspect ℕ := ⟨fun w => w.sentAt.toNat, fun w => w.tidings.facts, Fact.aspect⟩

def tidings : StageControl → Option (String × Tidings)
  | .presence _ pubkey role _ _ => some (pubkey, .here role)
  | .raiseHand _ pubkey => some (pubkey, .sets (.hand true))
  | .lowerHand _ pubkey => some (pubkey, .sets (.hand false))
  | .promoteSpeaker _ pubkey => some (pubkey, .sets (.role .speaker))
  | .demoteSpeaker _ pubkey => some (pubkey, .sets (.role .listener))
  | .muteSpeaker _ pubkey => some (pubkey, .sets (.hostMuted true))
  | .selfMuteToggle _ pubkey muted => some (pubkey, .sets (.selfMuted muted))
  | .kick _ pubkey | .ban _ pubkey => some (pubkey, .gone)
  | _ => none

def moderates : StageControl → Bool
  | .promoteSpeaker .. | .demoteSpeaker .. | .muteSpeaker .. | .kick .. => true
  | _ => false

def binds (stage : ActiveStage) (signed : SignedStageControl) : Bool :=
  match signed.control with
  | .ban .. => signed.senderPubkey = stage.hostPubkey
  | control => !moderates control || isModerator stage signed.senderPubkey

def word (signed : SignedStageControl) : Option Word :=
  (tidings signed.control).map fun t => ⟨signed.senderPubkey, t.1, signed.timestamp, t.2⟩

def ownWord (a : StageActor) (now : UInt64) : StageCommand → Option Word
  | .promoteSpeaker pubkey => some ⟨a.signingPubkey C, pubkey, now, .sets (.role .speaker)⟩
  | .demoteSpeaker pubkey => some ⟨a.signingPubkey C, pubkey, now, .sets (.role .listener)⟩
  | _ => none

def told (a : StageActor) : StageInput → Option Word
  | .command cmd now =>
    match a.handle C cmd now with
    | .ok _ => ownWord C a now cmd
    | .error _ => none
  | .gossip stageId signed _ =>
    match a.active with
    | none => none
    | some stage =>
      if accepts C.toSignatureCrates stageId signed ∧ binds stage signed then word signed else none

/-- Said as a moderator by who is none here. -/
def refuses (a : StageActor) : StageInput → Option Word
  | .command .. => none
  | .gossip stageId signed _ =>
    match a.active with
    | none => none
    | some stage =>
      if accepts C.toSignatureCrates stageId signed ∧ moderates signed.control ∧
        ¬ isModerator stage signed.senderPubkey then word signed else none

/-- A node in a stage, and what it has been told there. A word of who turns out to be a moderator
counts; `expired` are the keys that the last sweeps have dropped, `since` is the date of the node's
own newest `Presence`, and `out` the word that has put it out of the stage. -/
structure Recorded where
  actor : StageActor
  words : List Word
  refused : List Word
  expired : String → Bool
  since : UInt64
  out : Option Word

namespace Recorded

def new (identity : StageIdentity) : Recorded := ⟨.new identity, [], [], fun _ => false, 0, none⟩

def present (s : Recorded) : StageInput → UInt64
  | .command (.createStage ..) now | .command (.joinStage ..) now =>
    if s.actor.active = none then now else s.since
  | .command .heartbeat now => if s.since < now then now else s.since
  | _ => s.since

def ousted (s : Recorded) (i : StageInput) : Option Word :=
  match s.actor.active with
  | none => s.out
  | some stage => (told C s.actor i).filter fun w => w.tidings = .gone ∧ w.pubkey = stage.myPubkey

def step (s : Recorded) (i : StageInput) : Recorded :=
  let actor := s.actor.step C i
  match actor.active with
  | none => ⟨actor, [], [], fun _ => false, s.since, s.ousted C i⟩
  | some stage =>
    let waiting := (refuses C s.actor i).toList ++ s.refused
    { actor
      words := (told C s.actor i).toList ++ s.words ++ waiting.filter (isModerator stage ·.sender)
      refused := waiting.filter (!isModerator stage ·.sender)
      expired := fun k => (stage.participant k).isNone && (s.expired k || expires s.actor i k)
      since := s.present i
      out := none }

def about (s : Recorded) (k : String) : Set Word := {w | w ∈ s.words ∧ w.pubkey = k}

end Recorded

/-- An entry that a sweep has dropped may be there or not. -/
def ShowsFact (entry : Option Participant) (expired : Bool) : Fact → Prop
  | .member true => entry.isSome = true ∨ expired = true
  | .member false => entry = none
  | .role role => ∀ p, entry = some p → p.role = role
  | .hand raised => ∀ p, entry = some p → p.handRaised = raised
  | .selfMuted muted => ∀ p, entry = some p → p.selfMuted = muted
  | .hostMuted muted => ∀ p, entry = some p → p.hostMuted = muted

/-- What the node shows of a participant is what the newest of the words on it say, and no old word
has put the node itself out. -/
structure Recorded.Settled (s : Recorded) : Prop where
  entries : ∀ stage, s.actor.active = some stage → ∀ k,
    dated.Follows (ShowsFact (stage.participant k) (s.expired k)) (s.about k)
  stays : ∀ w, s.out = some w → s.since ≤ w.sentAt

/-- Two nodes show the same of a participant of whom they have been told the same. -/
def Recorded.Agree (s s' : Recorded) : Prop :=
  ∀ stage stage', s.actor.active = some stage → s'.actor.active = some stage' → ∀ k,
    s.about k = s'.about k → dated.Unambiguous (s.about k) → ∀ a, dated.On (s.about k) a →
      ∃ f, f.aspect = a ∧ ShowsFact (stage.participant k) (s.expired k) f ∧
        ShowsFact (stage'.participant k) (s'.expired k) f

/-- It is no older than all that was said on it, or says what the newest said. -/
def Current (W : Set Word) (sentAt : UInt64) (f : Fact) : Prop :=
  dated.NoNewer W sentAt.toNat f.aspect ∨ dated.Newest W f

/-- What a word changes of an entry, it is in time to change. -/
def InTime (W : Set Word) (entry : Option Participant) (w : Word) : Prop :=
  match w.tidings with
  | .here role => Current W w.sentAt (.role role) ∧
      (entry = none → Current W w.sentAt (.member true) ∧
        ∀ f ∈ lowered, dated.On W f.aspect → dated.Newest W f)
  | .gone => entry ≠ none → Current W w.sentAt (.member false)
  | .sets f => entry ≠ none → Current W w.sentAt f

def inRole (role : StageRole) (entry : Option Participant) : Participant :=
  { entry.getD ⟨"", role, false, false, false, 0, none⟩ with role }

/-- What a new co-host has said before as a moderator is overruled by now, or shown anyway. -/
def Overruled (s : Recorded) (stage : ActiveStage) (w : Word) : Prop :=
  w.tidings = .here .coHost → ∀ v ∈ s.refused, v.sender = w.pubkey → ∀ f ∈ dated.facts v,
    (∃ u, (u = w ∨ u ∈ s.words) ∧ u.pubkey = v.pubkey ∧
      (∃ g ∈ dated.facts u, g.aspect = f.aspect) ∧ dated.date v ≤ dated.date u) ∨
    ShowsFact (if v.pubkey = w.pubkey then some (inRole .coHost (stage.participant v.pubkey))
      else stage.participant v.pubkey) (s.expired v.pubkey) f

/-- A word is in time for the entry of its key and, if that is the node's own, for the node. -/
structure HeardInOrder (s : Recorded) (i : StageInput) : Prop where
  entry : ∀ stage w, s.actor.active = some stage → told C s.actor i = some w →
    InTime (s.about w.pubkey) (stage.participant w.pubkey) w ∧ Overruled s stage w
  own : ∀ stage w, s.actor.active = some stage → told C s.actor i = some w → w.tidings = .gone →
    w.pubkey = stage.myPubkey → s.since ≤ w.sentAt

end Defs

section Entries

inductive Turned (pubkey : String) : Tidings → Option Participant → Option Participant → Prop
  | here (role : StageRole) (nodeId : Option String) (now timestamp : UInt64) (entry : Option Participant) :
    Turned pubkey (.here role) entry (some (Participant.refresh role nodeId now
      (entry.getD ⟨pubkey, role, false, false, false, timestamp, nodeId⟩)))
  | gone (entry : Option Participant) : Turned pubkey .gone entry none
  | role (role : StageRole) (hrole : role ≠ .coHost) (entry : Option Participant) :
    Turned pubkey (.sets (.role role)) entry (entry.map fun p => { p with role })
  | hand (raised : Bool) (entry : Option Participant) :
    Turned pubkey (.sets (.hand raised)) entry (entry.map fun p => { p with handRaised := raised })
  | selfMuted (muted : Bool) (entry : Option Participant) :
    Turned pubkey (.sets (.selfMuted muted)) entry (entry.map fun p => { p with selfMuted := muted })
  | hostMuted (muted : Bool) (entry : Option Participant) :
    Turned pubkey (.sets (.hostMuted muted)) entry (entry.map fun p => { p with hostMuted := muted })

variable {C : StageCrates} {a a' : StageActor} {stage stage' : ActiveStage} {signed : SignedStageControl}
  {now : UInt64} {k : String} {w : Word}

theorem entry_handleControl (hkeyed : Keyed stage) (hactive : a.active = some stage)
    (hactive' : (a.handleControl signed now).1.active = some stage') :
    stage'.participant k = ((stage.participant k).bind (revise stage signed now)).or
      (Table.find Participant.pubkey k (arrival stage signed now)) := by
  unfold ActiveStage.participant
  rw [handleControl_participants hactive hactive']
  unfold Table.find
  rw [List.find?_append]
  exact congrArg (Option.or · _) (Table.find_filterMap (fun _ _ => revise_key) hkeyed)

theorem entry_handle {cmd : StageCommand} {out : List StageControl} (hkeyed : Keyed stage)
    (hactive : a.active = some stage) (h : a.handle C cmd now = .ok (a', out))
    (hactive' : a'.active = some stage') :
    stage'.participant k = (stage.participant k).bind fun p => reviseOwn stage now p cmd := by
  unfold ActiveStage.participant
  rw [handle_participants hactive h hactive']
  exact Table.find_filterMap (fun _ _ hp => (reviseOwn_eq_some hp).1) hkeyed

theorem participant_bind {f : Participant → Option Participant}
    (hf : ∀ p, p.pubkey = k → f p = some p) : (stage.participant k).bind f = stage.participant k := by
  cases hentry : stage.participant k with
  | none => rfl
  | some p => exact hf p (Table.key_of_find hentry)

theorem participant_map {g : Participant → Option Participant} {f : Participant → Participant}
    (hg : ∀ p, p.pubkey = k → g p = some (f p)) : (stage.participant k).bind g = (stage.participant k).map f := by
  cases hentry : stage.participant k with
  | none => rfl
  | some p => exact hg p (Table.key_of_find hentry)

/-- A message does to the entry of its key what it says. -/
theorem turned_handleControl (hkeyed : Keyed stage) (hactive : a.active = some stage)
    (hactive' : (a.handleControl signed now).1.active = some stage') (hword : word signed = some w)
    (hbinds : binds stage signed = true) :
    Turned w.pubkey w.tidings (stage.participant w.pubkey) (stage'.participant w.pubkey) := by
  rw [entry_handleControl hkeyed hactive hactive']
  obtain ⟨sender, control, sentAt, signature⟩ := signed
  have hflag : ∀ {pubkey f} {g : Participant → Option Participant}, (∀ p, p.pubkey = pubkey → g p = some (f p)) →
      ((stage.participant pubkey).bind g).or none = (stage.participant pubkey).map f := by
    intro pubkey f g hg
    rw [Option.or_none, participant_map hg]
  have hgone : ∀ {pubkey} {g : Participant → Option Participant}, (∀ p, p.pubkey = pubkey → g p = none) →
      ((stage.participant pubkey).bind g).or none = none := by
    intro pubkey g hg
    rw [Option.or_none, Option.bind_eq_none_iff]
    exact fun p hentry => hg p (Table.key_of_find hentry)
  cases control with
  | presence sid pubkey role timestamp nodeId =>
    obtain rfl := Option.some.inj hword
    rw [← entry_handleControl hkeyed hactive hactive']
    rw [StageActor.handleControl, hactive] at hactive'
    obtain rfl := Option.some.inj hactive'
    rw [stage.participant_presence_self role timestamp nodeId now]
    have hturned : Turned pubkey (.here role) (stage.participant pubkey) _ := .here role nodeId now timestamp _
    cases hentry : stage.participant pubkey with
    | none => rwa [hentry] at hturned
    | some p => rwa [hentry] at hturned
  | raiseHand sid pubkey | lowerHand sid pubkey =>
    obtain rfl := Option.some.inj hword
    exact hflag (fun p hp => congrArg some (if_pos hp)) ▸ .hand _ _
  | selfMuteToggle sid pubkey muted =>
    obtain rfl := Option.some.inj hword
    exact hflag (fun p hp => congrArg some (if_pos hp)) ▸ .selfMuted muted _
  | promoteSpeaker sid pubkey =>
    obtain rfl := Option.some.inj hword
    have hmoderator : isModerator stage sender = true := hbinds
    exact hflag (fun p hp => congrArg some (if_pos (And.intro hmoderator hp))) ▸ .role .speaker (by decide) _
  | demoteSpeaker sid pubkey =>
    obtain rfl := Option.some.inj hword
    have hmoderator : isModerator stage sender = true := hbinds
    exact hflag (fun p hp => congrArg some (if_pos (And.intro hmoderator hp))) ▸ .role .listener (by decide) _
  | muteSpeaker sid pubkey =>
    obtain rfl := Option.some.inj hword
    have hmoderator : isModerator stage sender = true := hbinds
    exact hflag (fun p hp => congrArg some (if_pos (And.intro hmoderator hp))) ▸ .hostMuted true _
  | kick sid pubkey =>
    obtain rfl := Option.some.inj hword
    have hmoderator : isModerator stage sender = true := hbinds
    exact hgone (fun p hp => if_pos (And.intro hmoderator hp)) ▸ .gone _
  | ban sid pubkey =>
    obtain rfl := Option.some.inj hword
    have hhost : sender = stage.hostPubkey := of_decide_eq_true hbinds
    exact hgone (fun p hp => if_pos (And.intro hhost hp)) ▸ .gone _
  | _ => exact absurd hword.symm (Option.some_ne_none _)

theorem same_handleControl (hkeyed : Keyed stage) (hactive : a.active = some stage)
    (hactive' : (a.handleControl signed now).1.active = some stage')
    (hother : ∀ w, word signed = some w → binds stage signed = true → w.pubkey ≠ k) :
    stage'.participant k = stage.participant k := by
  obtain ⟨sender, control, sentAt, signature⟩ := signed
  by_cases hpresence : ∃ sid pubkey role timestamp nodeId, control = .presence sid pubkey role timestamp nodeId
  · obtain ⟨sid, pubkey, role, timestamp, nodeId, rfl⟩ := hpresence
    have hne : k ≠ pubkey := (hother _ rfl rfl).symm
    rw [StageActor.handleControl, hactive] at hactive'
    obtain rfl := Option.some.inj hactive'
    exact stage.participant_presence_of_ne role timestamp nodeId now hne
  rw [entry_handleControl hkeyed hactive hactive']
  have harrival : arrival stage ⟨sender, control, sentAt, signature⟩ now = [] := by
    cases control with
    | presence sid pubkey role timestamp nodeId => exact absurd ⟨_, _, _, _, _, rfl⟩ hpresence
    | _ => rfl
  rw [harrival]
  refine (Option.or_none).trans (participant_bind fun p hp => ?_)
  cases control with
  | presence sid pubkey role timestamp nodeId => exact absurd ⟨_, _, _, _, _, rfl⟩ hpresence
  | raiseHand sid pubkey | lowerHand sid pubkey | selfMuteToggle sid pubkey muted =>
    exact congrArg some (if_neg fun hkey => hother _ rfl rfl (hkey.symm.trans hp))
  | promoteSpeaker sid pubkey | demoteSpeaker sid pubkey | muteSpeaker sid pubkey =>
    exact congrArg some (if_neg fun h => hother _ rfl h.1 (h.2.symm.trans hp))
  | kick sid pubkey => exact if_neg fun h => hother _ rfl h.1 (h.2.symm.trans hp)
  | ban sid pubkey => exact if_neg fun h => hother _ rfl (decide_eq_true h.1) (h.2.symm.trans hp)
  | _ => rfl

theorem turned_handle {cmd : StageCommand} {out : List StageControl} (hkeyed : Keyed stage)
    (hactive : a.active = some stage) (h : a.handle C cmd now = .ok (a', out))
    (hactive' : a'.active = some stage') (hword : ownWord C a now cmd = some w) :
    Turned w.pubkey w.tidings (stage.participant w.pubkey) (stage'.participant w.pubkey) := by
  rw [entry_handle hkeyed hactive h hactive']
  cases cmd with
  | promoteSpeaker pubkey =>
    obtain rfl := Option.some.inj hword
    exact participant_map (fun p hp => congrArg some (if_pos hp)) ▸ .role .speaker (by decide) _
  | demoteSpeaker pubkey =>
    obtain rfl := Option.some.inj hword
    exact participant_map (fun p hp => congrArg some (if_pos hp)) ▸ .role .listener (by decide) _
  | _ => exact absurd hword.symm (Option.some_ne_none _)

theorem same_handle {cmd : StageCommand} {out : List StageControl} (hkeyed : Keyed stage)
    (hactive : a.active = some stage) (h : a.handle C cmd now = .ok (a', out))
    (hactive' : a'.active = some stage') (hother : ∀ w, ownWord C a now cmd = some w → w.pubkey ≠ k) :
    stage'.participant k = stage.participant k ∨
      stage'.participant k = none ∧ expires a (.command cmd now) k = true := by
  rw [entry_handle hkeyed hactive h hactive']
  cases cmd with
  | promoteSpeaker pubkey | demoteSpeaker pubkey =>
    exact .inl (participant_bind fun p hp => congrArg some (if_neg fun hkey => hother _ rfl (hkey.symm.trans hp)))
  | sweepPresence =>
    cases hentry : stage.participant k with
    | none => exact .inl rfl
    | some p =>
      rw [Option.bind_some]
      by_cases hgone : reviseOwn stage now p .sweepPresence = none
      · right
        refine ⟨hgone, ?_⟩
        unfold expires
        rw [hactive]
        exact List.any_eq_true.mpr ⟨p, List.mem_of_find?_eq_some hentry,
          decide_eq_true ⟨Table.key_of_find hentry, hgone⟩⟩
      · left
        rw [reviseOwn] at hgone ⊢
        exact if_neg fun hexpired => hgone (if_pos hexpired)
  | _ => exact .inl (participant_bind fun _ _ => rfl)

/-- What becomes of an entry in a step of the node. -/
theorem step_entry {i : StageInput} (hkeyed : Keyed stage) (hactive : a.active = some stage)
    (hactive' : (a.step C i).active = some stage') (k : String) :
    (∃ w, told C a i = some w ∧ w.pubkey = k ∧
      Turned k w.tidings (stage.participant k) (stage'.participant k)) ∨
    (∀ w, told C a i = some w → w.pubkey ≠ k) ∧ (stage'.participant k = stage.participant k ∨
      stage'.participant k = none ∧ expires a i k = true) := by
  have hsame : a.step C i = a → stage'.participant k = stage.participant k := by
    intro hstep
    rw [hstep] at hactive'
    rw [Option.some.inj (hactive.symm.trans hactive')]
  by_cases htold : ∃ w, told C a i = some w ∧ w.pubkey = k
  · left
    obtain ⟨w, hw, rfl⟩ := htold
    refine ⟨w, hw, rfl, ?_⟩
    cases i with
    | command cmd now =>
      rw [told] at hw
      split at hw
      next a' out hrun =>
        rw [StageActor.step, hrun] at hactive'
        exact turned_handle hkeyed hactive hrun hactive' hw
      next => exact absurd hw.symm (Option.some_ne_none _)
    | gossip stageId signed now =>
      rw [told, hactive] at hw
      dsimp only at hw
      split at hw
      next hbound =>
        rw [step_gossip_of_accepts hbound.1 now] at hactive'
        exact turned_handleControl hkeyed hactive hactive' hw hbound.2
      next => exact absurd hw.symm (Option.some_ne_none _)
  · right
    have hother : ∀ w, told C a i = some w → w.pubkey ≠ k := fun w hw hkey => htold ⟨w, hw, hkey⟩
    refine ⟨hother, ?_⟩
    cases i with
    | command cmd now =>
      cases hrun : a.handle C cmd now with
      | error e => exact .inl (hsame (by rw [StageActor.step, hrun]))
      | ok result =>
        rw [told, hrun] at hother
        rw [StageActor.step, hrun] at hactive'
        exact same_handle hkeyed hactive hrun hactive' hother
    | gossip stageId signed now =>
      left
      by_cases haccepts : accepts C.toSignatureCrates stageId signed = true
      · rw [told, hactive] at hother
        rw [step_gossip_of_accepts haccepts now] at hactive'
        exact same_handleControl hkeyed hactive hactive' fun w hw hbinds =>
          hother w ((if_pos ⟨haccepts, hbinds⟩).trans hw)
      · exact hsame (step_gossip_of_not_accepts haccepts now)

end Entries

section Shown

/-- What an entry says on an aspect. -/
def Participant.look (p : Participant) : Aspect → Fact
  | .membership => .member true
  | .role => .role p.role
  | .hand => .hand p.handRaised
  | .selfMute => .selfMuted p.selfMuted
  | .hostMute => .hostMuted p.hostMuted

variable {W : Set Word} {w : Word} {entry entry' : Option Participant} {p p' : Participant} {x x' : Bool}
  {f : Fact} {k : String} {role : StageRole}

theorem shows_some : ShowsFact (some p) x f ↔ p.look f.aspect = f := by
  have hfield : ∀ {α : Type} (field : Participant → α) (v : α),
      (∀ q, some p = some q → field q = v) ↔ field p = v := by
    intro α field v
    constructor
    · intro h
      exact h p rfl
    · rintro h q ⟨⟩
      exact h
  cases f with
  | member present =>
    cases present with
    | true => exact iff_of_true (.inl rfl) rfl
    | false => exact iff_of_false (Option.some_ne_none p) nofun
  | role role => exact (hfield Participant.role role).trans ⟨congrArg Fact.role, Fact.role.inj⟩
  | hand raised => exact (hfield Participant.handRaised raised).trans ⟨congrArg Fact.hand, Fact.hand.inj⟩
  | selfMuted muted => exact (hfield Participant.selfMuted muted).trans ⟨congrArg Fact.selfMuted, Fact.selfMuted.inj⟩
  | hostMuted muted => exact (hfield Participant.hostMuted muted).trans ⟨congrArg Fact.hostMuted, Fact.hostMuted.inj⟩

theorem shows_none (hf : f.aspect ≠ .membership) : ShowsFact none x f := by
  cases f with
  | member => exact absurd rfl hf
  | _ => exact fun _ h => absurd h.symm (Option.some_ne_none _)

theorem Current.newest (h : Current W w.sentAt f) (hf : f ∈ dated.facts w) : dated.Newest (insert w W) f :=
  h.elim (Dated.newest_insert_of_noNewer hf) (·.insert hf)

theorem newest_none (hfinite : W.Finite) {a : Aspect} (hon : dated.On W a) (ha : a ≠ .membership) :
    ∃ f, dated.aspect f = a ∧ dated.Newest W f ∧ ShowsFact none x f := by
  obtain ⟨f, hfa, hnewest⟩ := Dated.exists_newest hfinite hon
  exact ⟨f, hfa, hnewest, shows_none (ne_of_eq_of_ne hfa ha)⟩

theorem follows_some (hfollows : dated.Follows (ShowsFact (some p) x) W)
    (hsaid : ∀ f ∈ dated.facts w, p'.look f.aspect = f ∧ (p.look f.aspect = f ∨ Current W w.sentAt f))
    (hkept : ∀ a, (∀ f ∈ dated.facts w, f.aspect ≠ a) → p'.look a = p.look a) :
    dated.Follows (ShowsFact (some p') x') (insert w W) := by
  refine Dated.follows_insert (fun f hf => ?_) fun a hon hsilent => ?_
  · obtain ⟨hshown, hsame | hcurrent⟩ := hsaid f hf
    · refine ⟨f, rfl, ?_, shows_some.mpr hshown⟩
      by_cases hon : dated.On W f.aspect
      · obtain ⟨g, hga, hnewest, hg⟩ := hfollows _ hon
        have hga : g.aspect = f.aspect := hga
        rw [shows_some, hga, hsame] at hg
        subst hg
        exact hnewest.insert hf
      · exact Dated.newest_insert_of_noNewer hf fun v hv g hg hga => absurd ⟨v, hv, g, hg, hga⟩ hon
    · exact ⟨f, rfl, hcurrent.newest hf, shows_some.mpr hshown⟩
  · obtain ⟨g, rfl, hnewest, hg⟩ := hfollows a hon
    refine ⟨g, rfl, hnewest, shows_some.mpr ?_⟩
    exact (hkept g.aspect hsilent).trans (shows_some.mp hg)

theorem facts_here (htidings : w.tidings = .here role) : dated.facts w = [.member true, .role role] :=
  congrArg Tidings.facts htidings

theorem follows_here {nodeId : Option String} {now timestamp : UInt64}
    (hfollows : dated.Follows (ShowsFact entry x) W) (htidings : w.tidings = .here role)
    (htime : InTime W entry w) :
    dated.Follows (ShowsFact (some (Participant.refresh role nodeId now
      (entry.getD ⟨k, role, false, false, false, timestamp, nodeId⟩))) x') (insert w W) := by
  rw [InTime, htidings] at htime
  obtain ⟨hrole, hnew⟩ := htime
  have hfacts := facts_here htidings
  cases entry with
  | some p =>
    refine follows_some hfollows (fun f hf => ?_) fun a hsilent => ?_
    · rw [hfacts] at hf
      rcases List.mem_pair.mp hf with rfl | rfl
      · exact ⟨rfl, .inl rfl⟩
      · exact ⟨rfl, .inr hrole⟩
    · rw [hfacts] at hsilent
      cases a with
      | membership => rfl
      | role => exact absurd rfl (hsilent (.role role) (List.mem_pair.mpr (.inr rfl)))
      | _ => rfl
  | none =>
    obtain ⟨hmember, hlowered⟩ := hnew rfl
    refine Dated.follows_insert (fun f hf => ?_) fun a hon hsilent => ?_
    · have hf' := hf
      rw [hfacts] at hf'
      rcases List.mem_pair.mp hf' with rfl | rfl
      · exact ⟨_, rfl, hmember.newest hf, shows_some.mpr rfl⟩
      · exact ⟨_, rfl, hrole.newest hf, shows_some.mpr rfl⟩
    · rw [hfacts] at hsilent
      cases a with
      | membership => exact absurd rfl (hsilent (.member true) (List.mem_pair.mpr (.inl rfl)))
      | role => exact absurd rfl (hsilent (.role role) (List.mem_pair.mpr (.inr rfl)))
      | hand => exact ⟨.hand false, rfl, hlowered _ (by decide) hon, shows_some.mpr rfl⟩
      | selfMute => exact ⟨.selfMuted false, rfl, hlowered _ (by decide) hon, shows_some.mpr rfl⟩
      | hostMute => exact ⟨.hostMuted false, rfl, hlowered _ (by decide) hon, shows_some.mpr rfl⟩

theorem follows_gone (hfinite : W.Finite) (hx : entry = none → x = true → x' = true)
    (hfollows : dated.Follows (ShowsFact entry x) W) (htidings : w.tidings = .gone) (htime : InTime W entry w) :
    dated.Follows (ShowsFact none x') (insert w W) := by
  rw [InTime, htidings] at htime
  have hfacts : dated.facts w = .member false :: lowered := congrArg Tidings.facts htidings
  have hmember : Fact.member false ∈ dated.facts w := hfacts ▸ List.mem_cons_self
  intro a hon
  by_cases ha : a = .membership
  swap
  · exact newest_none (hfinite.insert w) hon ha
  subst ha
  cases entry with
  | some p => exact ⟨.member false, rfl, (htime (Option.some_ne_none p)).newest hmember, rfl⟩
  | none =>
    by_cases hold : dated.On W .membership
    swap
    · refine ⟨.member false, rfl, Dated.newest_insert_of_noNewer hmember ?_, rfl⟩
      exact fun v hv g hg hga => absurd ⟨v, hv, g, hg, hga⟩ hold
    obtain ⟨g, hga, hnewest, hshown⟩ := hfollows _ hold
    cases g with
    | member present =>
      cases present with
      | false => exact ⟨.member false, rfl, hnewest.insert hmember, rfl⟩
      | true =>
        -- the key had expired: either answer is shown
        have hexpired : x' = true := hx rfl (hshown.resolve_left Bool.false_ne_true)
        obtain ⟨g, hga, hnewest⟩ := Dated.exists_newest (hfinite.insert w) hon
        refine ⟨g, hga, hnewest, ?_⟩
        cases g with
        | member present =>
          cases present with
          | true => exact .inr hexpired
          | false => exact rfl
        | _ => exact absurd hga nofun
    | _ => exact absurd hga nofun

theorem follows_sets {f : Fact} {g : Participant → Participant} (hfinite : W.Finite)
    (hx : entry = none → x = true → x' = true) (hfollows : dated.Follows (ShowsFact entry x) W)
    (htidings : w.tidings = .sets f) (hf : f.aspect ≠ .membership) (hg : ∀ p, (g p).look f.aspect = f)
    (hrest : ∀ p a, f.aspect ≠ a → (g p).look a = p.look a) (htime : InTime W entry w) :
    dated.Follows (ShowsFact (entry.map g) x') (insert w W) := by
  rw [InTime, htidings] at htime
  have hfacts : dated.facts w = [f] := congrArg Tidings.facts htidings
  cases entry with
  | some p =>
    refine follows_some hfollows (fun f' hf' => ?_) fun a hsilent => ?_
    · rw [hfacts] at hf'
      obtain rfl := List.mem_singleton.mp hf'
      exact ⟨hg p, .inr (htime (Option.some_ne_none p))⟩
    · rw [hfacts] at hsilent
      exact hrest p a (hsilent f (List.mem_singleton.mpr rfl))
  | none =>
    refine Dated.follows_insert (fun f' hf' => ?_) fun a hon hsilent => ?_
    · rw [hfacts] at hf'
      obtain rfl := List.mem_singleton.mp hf'
      have hon : dated.On (insert w W) f'.aspect :=
        ⟨w, Set.mem_insert w W, f', hfacts ▸ List.mem_singleton.mpr rfl, rfl⟩
      obtain ⟨g, hga, hnewest, hshown⟩ := newest_none (x := x') (hfinite.insert w) hon hf
      exact ⟨g, hga, hnewest, hshown⟩
    · obtain ⟨g, hga, hnewest, hshown⟩ := hfollows a hon
      refine ⟨g, hga, hnewest, ?_⟩
      cases g with
      | member present =>
        cases present with
        | true => exact .inr (hx rfl (hshown.resolve_left Bool.false_ne_true))
        | false => exact rfl
      | _ => exact shows_none nofun

theorem follows_turned (hfinite : W.Finite) (hx : entry' = none → x = true → x' = true)
    (hfollows : dated.Follows (ShowsFact entry x) W) (hturned : Turned k w.tidings entry entry')
    (htime : InTime W entry w) : dated.Follows (ShowsFact entry' x') (insert w W) := by
  have hsets : ∀ {f : Fact} {g : Participant → Participant}, w.tidings = .sets f → entry' = entry.map g →
      f.aspect ≠ .membership → (∀ p, (g p).look f.aspect = f) →
      (∀ p a, f.aspect ≠ a → (g p).look a = p.look a) → dated.Follows (ShowsFact entry' x') (insert w W) := by
    rintro f g htidings rfl hf hg hrest
    refine follows_sets hfinite (fun hnone => hx ?_) hfollows htidings hf hg hrest htime
    rw [hnone]
    rfl
  generalize htidings : w.tidings = t at hturned
  cases hturned with
  | here role nodeId now timestamp => exact follows_here hfollows htidings htime
  | gone => exact follows_gone hfinite (fun _ => hx rfl) hfollows htidings htime
  | role role =>
    refine hsets htidings rfl nofun (fun _ => rfl) fun p a ha => ?_
    cases a with
    | role => exact absurd rfl ha
    | _ => rfl
  | hand raised =>
    refine hsets htidings rfl nofun (fun _ => rfl) fun p a ha => ?_
    cases a with
    | hand => exact absurd rfl ha
    | _ => rfl
  | selfMuted muted =>
    refine hsets htidings rfl nofun (fun _ => rfl) fun p a ha => ?_
    cases a with
    | selfMute => exact absurd rfl ha
    | _ => rfl
  | hostMuted muted =>
    refine hsets htidings rfl nofun (fun _ => rfl) fun p a ha => ?_
    cases a with
    | hostMute => exact absurd rfl ha
    | _ => rfl

theorem ShowsFact.kept (h : ShowsFact entry x f) (hx : entry = none → x = true → x' = true) : ShowsFact entry x' f := by
  cases entry with
  | some p => exact shows_some.mpr (shows_some.mp h)
  | none =>
    cases f with
    | member present =>
      cases present with
      | true => exact .inr (hx rfl (h.resolve_left Bool.false_ne_true))
      | false => exact h
    | _ => exact h

theorem shows_expired : ShowsFact none true f := by
  cases f with
  | member present =>
    cases present with
    | true => exact .inr rfl
    | false => exact rfl
  | _ => exact shows_none nofun

end Shown

section Steps

variable {C : StageCrates} {s : Recorded} {i : StageInput} {stage stage' : ActiveStage} {w : Word} {k : String}

theorem Recorded.step_of_none (h : (s.actor.step C i).active = none) :
    s.step C i = ⟨s.actor.step C i, [], [], fun _ => false, s.since, s.ousted C i⟩ := by
  rw [step]
  dsimp only
  rw [h]

theorem Recorded.step_actor : (s.step C i).actor = s.actor.step C i := by
  rw [step]
  dsimp only
  split <;> rfl

def heardOf (C : StageCrates) (s : Recorded) (i : StageInput) (k : String) : Set Word :=
  {w | (told C s.actor i = some w ∨ w ∈ s.words) ∧ w.pubkey = k}

def lateOf (C : StageCrates) (s : Recorded) (i : StageInput) (stage' : ActiveStage) (k : String) : Set Word :=
  {v | v ∈ ((refuses C s.actor i).toList ++ s.refused).filter (isModerator stage' ·.sender) ∧ v.pubkey = k}

theorem Recorded.words_step (h : (s.actor.step C i).active = some stage') :
    (s.step C i).words = (told C s.actor i).toList ++ s.words ++
      ((refuses C s.actor i).toList ++ s.refused).filter (isModerator stage' ·.sender) := by
  rw [step]
  dsimp only
  rw [h]

theorem Recorded.about_step (h : (s.actor.step C i).active = some stage') :
    (s.step C i).about k = heardOf C s i k ∪ lateOf C s i stage' k := by
  ext w
  unfold about heardOf lateOf
  rw [Set.mem_ofPred_eq, words_step h, List.mem_append, List.mem_append, Option.mem_toList, or_and_right]
  rfl

theorem Recorded.expired_step (h : (s.actor.step C i).active = some stage') :
    (s.step C i).expired k =
      ((stage'.participant k).isNone && (s.expired k || expires s.actor i k)) := by
  rw [step]
  dsimp only
  rw [h]

theorem Recorded.refused_step (h : (s.actor.step C i).active = some stage') :
    (s.step C i).refused =
      ((refuses C s.actor i).toList ++ s.refused).filter (!isModerator stage' ·.sender) := by
  rw [step]
  dsimp only
  rw [h]

theorem Recorded.finite_about (s : Recorded) (k : String) : (s.about k).Finite :=
  s.words.finite_toSet.subset fun _ hw => hw.1

theorem step_keyed (hkeyed : Keyed stage) (hactive : s.actor.active = some stage)
    (hactive' : (s.actor.step C i).active = some stage') :
    Keyed stage' ∧ stage'.hostPubkey = stage.hostPubkey := by
  refine ⟨hkeyed.step hactive hactive', ?_⟩
  cases i with
  | command cmd now =>
    rw [StageActor.step] at hactive'
    cases hrun : s.actor.handle C cmd now with
    | error e =>
      rw [hrun] at hactive'
      exact congrArg _ (Option.some.inj (hactive'.symm.trans hactive))
    | ok result =>
      rw [hrun] at hactive'
      exact ((handle_keepsStep hactive hrun).stage stage' hactive').hostPubkey
  | gossip stageId signed now =>
    by_cases haccepts : accepts C.toSignatureCrates stageId signed = true
    · rw [step_gossip_of_accepts haccepts now] at hactive'
      exact ((handleControl_keepsSeat hactive signed now).2 stage' hactive').hostPubkey
    · rw [step_gossip_of_not_accepts haccepts now] at hactive'
      exact congrArg _ (Option.some.inj (hactive'.symm.trans hactive))

/-- Who comes to be a moderator has been declared a co-host. -/
theorem new_moderator (hkeyed : Keyed stage) (hactive : s.actor.active = some stage)
    (hactive' : (s.actor.step C i).active = some stage') (hold : isModerator stage k = false)
    (hnew : isModerator stage' k = true) :
    ∃ w, told C s.actor i = some w ∧ w.pubkey = k ∧ w.tidings = .here .coHost := by
  have hhost := (step_keyed hkeyed hactive hactive').2
  rw [isModerator, Bool.or_eq_false_iff] at hold
  rw [isModerator, hhost, hold.1, Bool.false_or] at hnew
  obtain ⟨p', hentry', hrole'⟩ := (Option.any_eq_true _ _).mp hnew
  have hrole' : p'.role = .coHost := of_decide_eq_true hrole'
  have hnone : ∀ p, stage.participant k = some p → p.role ≠ .coHost := by
    intro p hentry hrole
    rw [hentry] at hold
    exact absurd hold.2 (by simp [hrole])
  rcases step_entry hkeyed hactive hactive' k with ⟨w, hw, hkey, hturned⟩ | ⟨-, hsame | ⟨hgone, -⟩⟩
  · refine ⟨w, hw, hkey, ?_⟩
    have hkept : ∀ {g : Participant → Participant}, (stage.participant k).map g = some p' →
        (∀ p, (g p).role = p.role) → False := by
      intro g hmap hg
      obtain ⟨p, hentry, rfl⟩ := Option.map_eq_some_iff.mp hmap
      exact hnone p hentry ((hg p).symm.trans hrole')
    generalize w.tidings = t at hturned
    generalize hentry : stage'.participant k = entry' at hturned
    have hentry := hentry.symm.trans hentry'
    cases hturned with
    | here role =>
      obtain rfl := Option.some.inj hentry
      exact congrArg Tidings.here hrole'
    | gone => exact absurd hentry.symm (Option.some_ne_none _)
    | role role hrole =>
      obtain ⟨p, -, rfl⟩ := Option.map_eq_some_iff.mp hentry
      exact absurd hrole' hrole
    | hand => exact (hkept hentry fun _ => rfl).elim
    | selfMuted => exact (hkept hentry fun _ => rfl).elim
    | hostMuted => exact (hkept hentry fun _ => rfl).elim
  · exact absurd hrole' (hnone p' (hsame ▸ hentry'))
  · exact absurd (hgone.symm.trans hentry').symm (Option.some_ne_none _)

theorem not_moderator_of_refuses {v : Word} (hactive : s.actor.active = some stage)
    (hv : refuses C s.actor i = some v) :
    isModerator stage v.sender = false ∧ told C s.actor i = none := by
  cases i with
  | command => exact absurd hv.symm (Option.some_ne_none _)
  | gossip stageId signed now =>
    rw [refuses, hactive] at hv
    dsimp only at hv
    split at hv
    swap
    · exact absurd hv.symm (Option.some_ne_none _)
    next hrefused =>
      obtain ⟨haccepts, hmoderates, hno⟩ := hrefused
      have hno : isModerator stage signed.senderPubkey = false := Bool.eq_false_of_not_eq_true hno
      obtain ⟨t, ht, rfl⟩ := Option.map_eq_some_iff.mp hv
      refine ⟨hno, ?_⟩
      rw [told, hactive]
      refine if_neg fun hbound => ?_
      have hbinds := hbound.2
      obtain ⟨sender, control, sentAt, signature⟩ := signed
      cases control with
      | promoteSpeaker | demoteSpeaker | muteSpeaker | kick => exact absurd (hno.symm.trans hbinds) Bool.false_ne_true
      | _ => exact absurd hmoderates Bool.false_ne_true

/-- The node has one entry for a key, refuses nobody who is a moderator, and is up to date. -/
structure RecordInv (s : Recorded) : Prop where
  idle : s.actor.active = none → s.words = [] ∧ s.refused = []
  keyed : ∀ stage, s.actor.active = some stage → Keyed stage
  refused : ∀ stage, s.actor.active = some stage → ∀ v ∈ s.refused, isModerator stage v.sender = false
  settled : s.Settled

theorem recordInv_new (identity : StageIdentity) : RecordInv (.new identity) where
  idle _ := ⟨rfl, rfl⟩
  keyed _ h := absurd h.symm (Option.some_ne_none _)
  refused _ h := absurd h.symm (Option.some_ne_none _)
  settled := ⟨fun _ h => absurd h.symm (Option.some_ne_none _), fun _ h => absurd h.symm (Option.some_ne_none _)⟩

theorem RecordInv.follows_heard (h : RecordInv s) (horder : HeardInOrder C s i) (hactive : s.actor.active = some stage)
    (hactive' : (s.actor.step C i).active = some stage') :
    dated.Follows (ShowsFact (stage'.participant k) ((s.step C i).expired k)) (heardOf C s i k) := by
  have hfollows := h.settled.entries stage hactive k
  have hx : stage'.participant k = none → s.expired k = true → (s.step C i).expired k = true := by
    intro hnone hexpired
    rw [Recorded.expired_step hactive', hnone, hexpired]
    rfl
  rcases step_entry (h.keyed stage hactive) hactive hactive' k with ⟨w, hw, rfl, hturned⟩ | ⟨hother, hentry⟩
  · have hheard : heardOf C s i w.pubkey = insert w (s.about w.pubkey) := by
      ext v
      constructor
      · rintro ⟨hv | hv, hkey⟩
        · exact .inl (Option.some.inj (hv.symm.trans hw))
        · exact .inr ⟨hv, hkey⟩
      · rintro (rfl | ⟨hv, hkey⟩)
        · exact ⟨.inl hw, rfl⟩
        · exact ⟨.inr hv, hkey⟩
    rw [hheard]
    exact follows_turned (s.finite_about _) hx hfollows hturned (horder.entry stage w hactive hw).1
  · have hheard : heardOf C s i k = s.about k := by
      ext v
      constructor
      · rintro ⟨hv | hv, hkey⟩
        · exact absurd hkey (hother v hv)
        · exact ⟨hv, hkey⟩
      · rintro ⟨hv, hkey⟩
        exact ⟨.inr hv, hkey⟩
    rw [hheard]
    refine hfollows.mono fun f hf => ?_
    rcases hentry with hsame | ⟨hgone, hexpires⟩
    · rw [hsame] at hx ⊢
      exact hf.kept hx
    · rw [Recorded.expired_step hactive', hgone, hexpires, Bool.or_true]
      exact shows_expired

theorem RecordInv.late (h : RecordInv s) (hactive : s.actor.active = some stage)
    (hactive' : (s.actor.step C i).active = some stage') {v : Word} (hv : v ∈ lateOf C s i stage' k) :
    v ∈ s.refused ∧ ∃ w, told C s.actor i = some w ∧ w.pubkey = v.sender ∧ w.tidings = .here .coHost := by
  obtain ⟨hmem, -⟩ := hv
  obtain ⟨hwaits, hmoderator⟩ := List.mem_filter.mp hmem
  rcases List.mem_append.mp hwaits with hv | hv
  · -- who is refused is no moderator, and what is refused makes nobody one
    have hv : refuses C s.actor i = some v := Option.mem_toList.mp hv
    obtain ⟨hold, hnone⟩ := not_moderator_of_refuses hactive hv
    obtain ⟨w, hw, -⟩ := new_moderator (h.keyed stage hactive) hactive hactive' hold hmoderator
    exact absurd (hnone.symm.trans hw).symm (Option.some_ne_none _)
  · exact ⟨hv, new_moderator (h.keyed stage hactive) hactive hactive' (h.refused stage hactive v hv) hmoderator⟩

theorem inRole_look (role : StageRole) (nodeId : Option String) (now timestamp : UInt64) (entry : Option Participant)
    (a : Aspect) : (Participant.refresh role nodeId now
      (entry.getD ⟨k, role, false, false, false, timestamp, nodeId⟩)).look a = (inRole role entry).look a := by
  cases entry <;> cases a <;> rfl

theorem RecordInv.settled_step (h : RecordInv s) (horder : HeardInOrder C s i) (hactive : s.actor.active = some stage)
    (hactive' : (s.actor.step C i).active = some stage') :
    dated.Follows (ShowsFact (stage'.participant k) ((s.step C i).expired k)) ((s.step C i).about k) := by
  rw [Recorded.about_step hactive']
  have hfinite : (lateOf C s i stage' k).Finite :=
    (List.finite_toSet _).subset fun _ hv => hv.1
  refine (h.follows_heard horder hactive hactive').union hfinite fun v hv f hf => ?_
  obtain ⟨hrefused, w, hw, hsender, htidings⟩ := h.late hactive hactive' hv
  obtain ⟨-, rfl⟩ := hv
  rcases (horder.entry stage w hactive hw).2 htidings v hrefused hsender.symm f hf with
    ⟨u, hu, hkey, hsays, hdate⟩ | hshown
  · left
    refine ⟨u, ⟨?_, hkey⟩, hsays, hdate⟩
    rcases hu with rfl | hu
    · exact .inl hw
    · exact .inr hu
  · right
    rcases step_entry (h.keyed stage hactive) hactive hactive' v.pubkey with
      ⟨w', hw', hkey, hturned⟩ | ⟨hother, hentry⟩
    · obtain rfl := Option.some.inj (hw.symm.trans hw')
      rw [if_pos hkey.symm, shows_some] at hshown
      rw [htidings] at hturned
      generalize stage'.participant v.pubkey = entry' at hturned
      cases hturned
      rw [shows_some, inRole_look]
      exact hshown
    · rw [if_neg (hother w hw).symm] at hshown
      rcases hentry with hsame | ⟨hgone, hexpires⟩
      · rw [hsame]
        refine hshown.kept fun hnone hexpired => ?_
        rw [Recorded.expired_step hactive', hsame, hnone, hexpired]
        rfl
      · rw [Recorded.expired_step hactive', hgone, hexpires, Bool.or_true]
        exact shows_expired

theorem opens_keyed (hactive : s.actor.active = none)
    (hactive' : (s.actor.step C i).active = some stage') :
    Keyed stage' ∧ told C s.actor i = none ∧ refuses C s.actor i = none := by
  refine ⟨.opens hactive hactive', ?_⟩
  cases i with
  | gossip stageId signed now =>
    rw [step_gossip_of_none hactive now] at hactive'
    exact absurd (hactive.symm.trans hactive').symm (Option.some_ne_none _)
  | command cmd now =>
    cases hrun : s.actor.handle C cmd now with
    | error e =>
      rw [StageActor.step, hrun] at hactive'
      exact absurd (hactive.symm.trans hactive').symm (Option.some_ne_none _)
    | ok result =>
      rw [StageActor.step, hrun] at hactive'
      have htold : told C s.actor (.command cmd now) = ownWord C s.actor now cmd := by rw [told, hrun]
      have hopens := (handle_opens hactive hrun).2 stage' hactive'
      cases hopens with
      | created => exact ⟨htold, rfl⟩
      | joined => exact ⟨htold, rfl⟩

theorem RecordInv.stays (h : RecordInv s) (horder : HeardInOrder C s i) :
    ∀ w, s.ousted C i = some w → s.since ≤ w.sentAt := by
  intro w hw
  unfold Recorded.ousted at hw
  split at hw
  next => exact h.settled.stays w hw
  next stage hactive =>
    obtain ⟨htold, hown⟩ := Option.filter_eq_some_iff.mp hw
    obtain ⟨hgone, hkey⟩ := of_decide_eq_true hown
    exact horder.own stage w hactive htold hgone hkey

theorem RecordInv.step (h : RecordInv s) (horder : HeardInOrder C s i) : RecordInv (s.step C i) := by
  cases hactive' : (s.actor.step C i).active with
  | none =>
    have hidle : (s.step C i).actor.active = none := Recorded.step_actor ▸ hactive'
    have hnone : ∀ {p : ActiveStage → Prop} stage, (s.step C i).actor.active = some stage → p stage :=
      fun _ hstage => absurd (hidle.symm.trans hstage).symm (Option.some_ne_none _)
    refine ⟨fun _ => ?_, hnone, hnone, hnone, ?_⟩
    · rw [Recorded.step_of_none hactive']
      exact ⟨rfl, rfl⟩
    · rw [Recorded.step_of_none hactive']
      exact h.stays horder
  | some stage' =>
    have hstage : ∀ {p : ActiveStage → Prop}, p stage' → ∀ t, (s.step C i).actor.active = some t → p t := by
      intro p hp t ht
      rw [Recorded.step_actor, hactive'] at ht
      exact Option.some.inj ht ▸ hp
    have hrefused : ∀ v ∈ (s.step C i).refused, isModerator stage' v.sender = false := by
      intro v hv
      rw [Recorded.refused_step hactive'] at hv
      have hno := (List.mem_filter.mp hv).2
      exact Bool.not_inj hno
    have hidle : (s.step C i).actor.active = none → (s.step C i).words = [] ∧ (s.step C i).refused = [] := by
      intro hnone
      rw [Recorded.step_actor, hactive'] at hnone
      exact absurd hnone (Option.some_ne_none _)
    have hstays : ∀ w, (s.step C i).out = some w → (s.step C i).since ≤ w.sentAt := by
      intro w hw
      rw [Recorded.step] at hw
      dsimp only at hw
      rw [hactive'] at hw
      exact absurd hw.symm (Option.some_ne_none _)
    cases hactive : s.actor.active with
    | some stage =>
      exact ⟨hidle, hstage (step_keyed (h.keyed stage hactive) hactive hactive').1, hstage hrefused,
        hstage fun k => h.settled_step horder hactive hactive', hstays⟩
    | none =>
      obtain ⟨hkeyed, htold, hrefuses⟩ := opens_keyed hactive hactive'
      obtain ⟨hwords, hwaiting⟩ := h.idle hactive
      refine ⟨hidle, hstage hkeyed, hstage hrefused, hstage fun k => ?_, hstays⟩
      rintro a ⟨w, hw, -⟩
      rw [Recorded.about_step hactive'] at hw
      unfold heardOf lateOf at hw
      rw [htold, hrefuses, hwords, hwaiting] at hw
      rcases hw with ⟨hw | hw, -⟩ | ⟨hw, -⟩
      · exact absurd hw.symm (Option.some_ne_none _)
      · exact absurd hw List.not_mem_nil
      · exact absurd hw List.not_mem_nil

theorem RecordInv.exec (h : RecordInv s) {inputs : List StageInput} {s' : Recorded}
    (horder : Along (fun s i => some (s.step C i)) (HeardInOrder C) s inputs)
    (hrun : Machine.exec (fun s i => some (s.step C i)) s inputs = some s') : RecordInv s' := by
  refine exec_invariant ?_ h horder hrun
  rintro s i t h horder ⟨⟩
  exact h.step horder

end Steps

/-- Where all is heard in the order of its dates, a node shows what the newest words say, and
nodes that have been told the same show the same. -/
theorem settled_of_inOrder (C : StageCrates) (identity : StageIdentity) (inputs : List StageInput) (s : Recorded)
    (horder : Along (fun s i => some (s.step C i)) (HeardInOrder C) (.new identity) inputs)
    (hrun : exec (fun s i => some (s.step C i)) (.new identity) inputs = some s) :
    s.Settled ∧ ∀ (identity' : StageIdentity) (inputs' : List StageInput) (s' : Recorded),
      Along (fun s i => some (s.step C i)) (HeardInOrder C) (.new identity') inputs' →
      exec (fun s i => some (s.step C i)) (.new identity') inputs' = some s' → s.Agree s' := by
  have hsettled := ((recordInv_new identity).exec horder hrun).settled
  refine ⟨hsettled, fun identity' inputs' s' horder' hrun' => ?_⟩
  have hsettled' := ((recordInv_new identity').exec horder' hrun').settled
  intro stage stage' hactive hactive' k hsame hone a hon
  exact (hsettled.entries stage hactive k).agree (hsame ▸ hsettled'.entries stage' hactive' k) hone hon

section Examples

def guestArrives : StageInput :=
  .gossip "stage" ((StageActor.new ⟨"guest", Vector.replicate 32 3, "guest node"⟩).sign stageChecksum
    (.presence "stage" "guest" .listener 0 (some "guest node")) 0) 0

def joinedRecord : Recorded := (Recorded.new listener).step stageChecksum (.command (.joinStage invitation) 0)

def guestRecord : Recorded := joinedRecord.step stageChecksum guestArrives

def fromHost (control : StageControl) (sentAt now : UInt64) : StageInput :=
  .gossip (stageIdOf control) (hostNode.sign stageChecksum control sentAt) now

def guestStage : ActiveStage := joinedStage.presence "guest" .listener 0 (some "guest node") 0

theorem guest_told : told stageChecksum joinedRecord.actor guestArrives =
    some ⟨stageChecksum.publicText (Vector.replicate 32 3), "guest", 0, .here .listener⟩ := by
  have haccepts := stageChecksum_signs.accepts (StageActor.new ⟨"guest", Vector.replicate 32 3, "guest node"⟩)
    (.presence "stage" "guest" .listener 0 (some "guest node")) 0
  have hactive : joinedRecord.actor.active = some joinedStage := rfl
  unfold guestArrives
  rw [told, hactive]
  exact if_pos ⟨haccepts, rfl⟩

theorem heard_guestArrives : HeardInOrder stageChecksum joinedRecord guestArrives := by
  refine ⟨fun stage w hactive hw => ?_, fun stage w hactive hw hgone => ?_⟩ <;>
    obtain rfl := Option.some.inj (guest_told.symm.trans hw)
  swap
  · cases hgone
  have hnothing : ∀ k, joinedRecord.about k = ∅ := fun k => Set.eq_empty_of_forall_notMem fun v hv =>
    absurd hv.1 List.not_mem_nil
  have hsilent : ∀ a, ¬ dated.On (joinedRecord.about "guest") a := by
    rintro a ⟨v, hv, -⟩
    rw [hnothing] at hv
    exact absurd hv (Set.notMem_empty v)
  have hcurrent : ∀ f, Current (joinedRecord.about "guest") 0 f := fun f =>
    .inl fun v hv g hg hga => absurd ⟨v, hv, g, hg, hga⟩ (hsilent f.aspect)
  refine ⟨⟨hcurrent _, fun _ => ⟨hcurrent _, fun f _ hon => absurd hon (hsilent _)⟩⟩, fun hcoHost => ?_⟩
  cases hcoHost

theorem told_fromHost {s : Recorded} {stage : ActiveStage} {control : StageControl} {role : StageRole}
    (hcontrol : control = .promoteSpeaker "stage" "guest" ∧ role = .speaker ∨
      control = .demoteSpeaker "stage" "guest" ∧ role = .listener) (sentAt now : UInt64)
    (hactive : s.actor.active = some stage) (hhost : stage.hostPubkey = invitation.hostPubkey) :
    told stageChecksum s.actor (fromHost control sentAt now) =
      some ⟨invitation.hostPubkey, "guest", sentAt, .sets (.role role)⟩ := by
  have haccepts := stageChecksum_signs.accepts hostNode control sentAt
  have hmoderator : isModerator stage invitation.hostPubkey = true := isModerator_hostPubkey hhost.symm
  unfold fromHost
  rw [told, hactive]
  dsimp only
  rcases hcontrol with ⟨rfl, rfl⟩ | ⟨rfl, rfl⟩ <;> exact if_pos ⟨haccepts, hmoderator⟩

theorem heard_fromHost {s : Recorded} {stage : ActiveStage} {control : StageControl} {role : StageRole}
    (hcontrol : control = .promoteSpeaker "stage" "guest" ∧ role = .speaker ∨
      control = .demoteSpeaker "stage" "guest" ∧ role = .listener) (sentAt now : UInt64)
    (hactive : s.actor.active = some stage) (hhost : stage.hostPubkey = invitation.hostPubkey)
    (hwords : ∀ v ∈ s.words, v.sentAt ≤ sentAt) : HeardInOrder stageChecksum s (fromHost control sentAt now) := by
  have htold := told_fromHost hcontrol sentAt now hactive hhost
  refine ⟨fun stage' w _ hw => ?_, fun stage' w _ hw hgone => ?_⟩ <;>
    obtain rfl := Option.some.inj (htold.symm.trans hw)
  · refine ⟨fun _ => .inl fun v hv g hg hga => ?_, fun hcoHost => ?_⟩
    · exact UInt64.le_iff_toNat_le.mp (hwords v hv.1)
    · cases hcoHost
  · cases hgone

/-- The host makes a guest a speaker, or not. -/
theorem step_fromHost {s : Recorded} {stage : ActiveStage} {control : StageControl} {role : StageRole}
    (hcontrol : control = .promoteSpeaker "stage" "guest" ∧ role = .speaker ∨
      control = .demoteSpeaker "stage" "guest" ∧ role = .listener) (sentAt now : UInt64)
    (hactive : s.actor.active = some stage) (hhost : stage.hostPubkey = invitation.hostPubkey)
    (hme : stage.myPubkey = "listener") (hrefused : s.refused = []) :
    (s.step stageChecksum (fromHost control sentAt now)).actor.active = some (stage.setRole "guest" role) ∧
      (s.step stageChecksum (fromHost control sentAt now)).words =
        ⟨invitation.hostPubkey, "guest", sentAt, .sets (.role role)⟩ :: s.words ∧
      (s.step stageChecksum (fromHost control sentAt now)).refused = [] := by
  have haccepts := stageChecksum_signs.accepts hostNode control sentAt
  have hmoderator : isModerator stage invitation.hostPubkey = true := isModerator_hostPubkey hhost.symm
  have hne : "guest" ≠ stage.myPubkey := by
    rw [hme]
    decide
  have hstep : (s.actor.step stageChecksum (fromHost control sentAt now)).active =
      some (stage.setRole "guest" role) := by
    refine (congrArg StageActor.active (step_gossip_of_accepts haccepts now)).trans ?_
    rw [StageActor.handleControl, hactive]
    rcases hcontrol with ⟨rfl, rfl⟩ | ⟨rfl, rfl⟩
    · change (s.actor.onPromoteSpeaker invitation.hostPubkey "guest" stage).active = _
      rw [StageActor.onPromoteSpeaker, if_pos hmoderator]
      exact congrArg StageActor.active (if_neg hne)
    · change (s.actor.onDemoteSpeaker invitation.hostPubkey "guest" stage).active = _
      rw [StageActor.onDemoteSpeaker, if_pos hmoderator]
      exact congrArg some (if_neg hne)
  have htold := told_fromHost hcontrol sentAt now hactive hhost
  have hrefuses : refuses stageChecksum s.actor (fromHost control sentAt now) = none := by
    unfold fromHost
    rw [refuses, hactive]
    exact if_neg fun h => h.2.2 hmoderator
  refine ⟨Recorded.step_actor ▸ hstep, ?_, ?_⟩
  · rw [Recorded.words_step hstep, htold, hrefuses, hrefused]
    exact List.append_nil _
  · rw [Recorded.refused_step hstep, hrefuses, hrefused]
    rfl

theorem guest_heard : guestRecord.actor.active = some guestStage ∧ guestRecord.refused = [] ∧
    guestRecord.words = [⟨stageChecksum.publicText (Vector.replicate 32 3), "guest", 0, .here .listener⟩] := by
  have haccepts := stageChecksum_signs.accepts (StageActor.new ⟨"guest", Vector.replicate 32 3, "guest node"⟩)
    (.presence "stage" "guest" .listener 0 (some "guest node")) 0
  have hactive : joinedRecord.actor.active = some joinedStage := rfl
  have hstep : (joinedRecord.actor.step stageChecksum guestArrives).active = some guestStage :=
    congrArg StageActor.active (step_presence haccepts hactive rfl)
  have hrefuses : refuses stageChecksum joinedRecord.actor guestArrives = none := by
    unfold guestArrives
    rw [refuses, hactive]
    exact if_neg fun h => absurd h.2.1 Bool.false_ne_true
  unfold guestRecord
  refine ⟨Recorded.step_actor ▸ hstep, ?_, ?_⟩
  · rw [Recorded.refused_step hstep, hrefuses]
    rfl
  · rw [Recorded.words_step hstep, guest_told, hrefuses]
    rfl

def promotedAndBack : Recorded :=
  ((guestRecord.step stageChecksum (fromHost (.promoteSpeaker "stage" "guest") 1 1)).step stageChecksum
    (fromHost (.demoteSpeaker "stage" "guest") 2 2)).step stageChecksum
    (fromHost (.demoteSpeaker "stage" "guest") 2 3)

theorem settled_promotedAndBack : promotedAndBack.Settled ∧
    promotedAndBack.actor.active = some (((guestStage.setRole "guest" .speaker).setRole "guest" .listener).setRole
      "guest" .listener) := by
  obtain ⟨hactive, hrefused, hwords⟩ := guest_heard
  obtain ⟨hactive₁, hwords₁, hrefused₁⟩ := step_fromHost (.inl ⟨rfl, rfl⟩) 1 1 hactive rfl rfl hrefused
  obtain ⟨hactive₂, hwords₂, hrefused₂⟩ := step_fromHost (.inr ⟨rfl, rfl⟩) 2 2 hactive₁ rfl rfl hrefused₁
  obtain ⟨hactive₃, -, -⟩ := step_fromHost (.inr ⟨rfl, rfl⟩) 2 3 hactive₂ rfl rfl hrefused₂
  have hstart : HeardInOrder stageChecksum (.new listener) (.command (.joinStage invitation) 0) :=
    ⟨fun _ _ h => absurd h.symm (Option.some_ne_none _), fun _ _ h => absurd h.symm (Option.some_ne_none _)⟩
  have hpromoted := heard_fromHost (.inl ⟨rfl, rfl⟩) 1 1 hactive rfl (by simp [hwords])
  have hdemoted := heard_fromHost (.inr ⟨rfl, rfl⟩) 2 2 hactive₁ rfl (by simp [hwords₁, hwords])
  have hagain := heard_fromHost (.inr ⟨rfl, rfl⟩) 2 3 hactive₂ rfl (by simp [hwords₂, hwords₁, hwords])
  refine ⟨(settled_of_inOrder stageChecksum listener [.command (.joinStage invitation) 0, guestArrives,
    fromHost (.promoteSpeaker "stage" "guest") 1 1, fromHost (.demoteSpeaker "stage" "guest") 2 2,
    fromHost (.demoteSpeaker "stage" "guest") 2 3] promotedAndBack ?_ rfl).1, hactive₃⟩
  exact (along_cons rfl).mpr ⟨hstart, (along_cons rfl).mpr ⟨heard_guestArrives, (along_cons rfl).mpr ⟨hpromoted,
    (along_cons rfl).mpr ⟨hdemoted, (along_cons rfl).mpr ⟨hagain, trivial⟩⟩⟩⟩⟩

def promotedTwice : Recorded :=
  ((guestRecord.step stageChecksum (fromHost (.promoteSpeaker "stage" "guest") 1 1)).step stageChecksum
    (fromHost (.demoteSpeaker "stage" "guest") 2 2)).step stageChecksum
    (fromHost (.promoteSpeaker "stage" "guest") 1 3)

/-- The host promotes a guest and takes it back, and the first message comes in a second time. -/
theorem not_settled_replay : exec (fun s i => some (s.step stageChecksum i)) (.new listener)
    [.command (.joinStage invitation) 0, guestArrives, fromHost (.promoteSpeaker "stage" "guest") 1 1,
      fromHost (.demoteSpeaker "stage" "guest") 2 2, fromHost (.promoteSpeaker "stage" "guest") 1 3] =
        some promotedTwice ∧ ¬ promotedTwice.Settled := by
  refine ⟨rfl, fun hsettled => ?_⟩
  obtain ⟨hactive, hrefused, hwords⟩ := guest_heard
  obtain ⟨hactive₁, hwords₁, hrefused₁⟩ := step_fromHost (.inl ⟨rfl, rfl⟩) 1 1 hactive rfl rfl hrefused
  obtain ⟨hactive₂, hwords₂, hrefused₂⟩ := step_fromHost (.inr ⟨rfl, rfl⟩) 2 2 hactive₁ rfl rfl hrefused₁
  obtain ⟨hactive₃, hwords₃, -⟩ := step_fromHost (.inl ⟨rfl, rfl⟩) 1 3 hactive₂ rfl rfl hrefused₂
  rw [hwords₂, hwords₁, hwords] at hwords₃
  have hdemoted : ⟨invitation.hostPubkey, "guest", 2, .sets (.role .listener)⟩ ∈ promotedTwice.about "guest" :=
    ⟨hwords₃ ▸ List.mem_cons_of_mem _ List.mem_cons_self, rfl⟩
  obtain ⟨f, hfa, ⟨w, ⟨hw, -⟩, hf, hmax⟩, hshown⟩ := hsettled.entries _ hactive₃ "guest" .role
    ⟨_, hdemoted, .role .listener, List.mem_singleton.mpr rfl, rfl⟩
  have hentry : ((((guestStage.setRole "guest" .speaker).setRole "guest" .listener).setRole "guest"
    .speaker).participant "guest") = some ⟨"guest", .speaker, false, false, false, 0, some "guest node"⟩ := rfl
  have hfa : f.aspect = .role := hfa
  rw [hentry, shows_some, hfa] at hshown
  subst hshown
  -- who said so last said it before the demotion
  have hlate := hmax _ hdemoted (.role .listener) (List.mem_singleton.mpr rfl) rfl
  have hw : w ∈ promotedTwice.words := hw
  unfold promotedTwice at hw
  rw [hwords₃] at hw
  rcases List.mem_cons.mp hw with rfl | hw
  · exact absurd hlate (by decide)
  rcases List.mem_cons.mp hw with rfl | hw
  · exact absurd (List.mem_singleton.mp hf) (by decide)
  rcases List.mem_cons.mp hw with rfl | hw
  · exact absurd hlate (by decide)
  obtain rfl := List.mem_singleton.mp hw
  exact absurd (List.mem_pair.mp hf) (by decide)

end Examples

end Proscenium.Stage
