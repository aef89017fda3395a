import Proscenium.Lib.LastWrite
import Proscenium.Stage.ReplayOrder

/-! Who a node lists as being in its stage. An entry comes with a `Presence` that
names its key, whoever has signed it, and goes with a kick, a ban or a sweep that
finds it silent for longer than the expiry; nothing else adds or drops one. -/

namespace Proscenium.Stage

open Proscenium.Types Machine

section Defs

variable (C : StageCrates) (k : String)

/-- When the entry of `k` was last refreshed, if it has one. -/
def lastSeen (a : StageActor) : Option UInt64 :=
  (a.active.bind fun stage => stage.participant k).map Participant.lastSeenMs

def heardAt : StageInput → Option UInt64
  | .gossip stageId signed now =>
    match signed.control with
    | .presence _ pubkey _ _ _ =>
      if accepts C.toSignatureCrates stageId signed = true ∧ pubkey = k then some now else none
    | _ => none
  | .command _ _ => none

/-- Does the input drop an entry of `k` that was last refreshed at `seen`? -/
def drops (seen : UInt64) (a : StageActor) (i : StageInput) : Bool :=
  match a.active, i with
  | some stage, .gossip stageId signed _ =>
    match signed.control with
    | .kick _ pubkey =>
      accepts C.toSignatureCrates stageId signed && isModerator stage signed.senderPubkey && pubkey = k
    | .ban _ pubkey =>
      accepts C.toSignatureCrates stageId signed && signed.senderPubkey = stage.hostPubkey && pubkey = k
    | _ => false
  | some stage, .command .sweepPresence now => seen < sweepCutoff now && k ≠ stage.myPubkey
  | _, _ => false

def entryCell : Cell StageActor StageInput UInt64 := ⟨lastSeen k, heardAt C k, drops C k⟩

def Stays (a : StageActor) (i : StageInput) : Prop := (a.step C i).active.isSome = true

def run (a : StageActor) (i : StageInput) : Option StageActor := some (a.step C i)

end Defs

variable {C : StageCrates} {k : String} {a a' : StageActor} {stage stage' : ActiveStage} {i : StageInput}

theorem lastSeen_of_active (h : a.active = some stage) :
    lastSeen k a = (stage.participant k).map Participant.lastSeenMs := by
  rw [lastSeen, h]
  rfl

section Messages

variable {signed : SignedStageControl} {now : UInt64} {stageId : String}

theorem revise_lastSeen (hactive : a.active = some stage) (haccepts : accepts C.toSignatureCrates stageId signed = true)
    (hsilent : heardAt C k (.gossip stageId signed now) = none) {p : Participant} (hkey : p.pubkey = k) :
    (revise stage signed now p).map Participant.lastSeenMs =
      if drops C k p.lastSeenMs a (.gossip stageId signed now) then none else some p.lastSeenMs := by
  subst hkey
  obtain ⟨sender, control, timestamp, signature⟩ := signed
  cases control with
  | presence sid pubkey role timestamp nodeId =>
    have hne : p.pubkey ≠ pubkey := by
      rintro rfl
      simp [heardAt, haccepts] at hsilent
    simp [revise, drops, hactive, hne]
  | kick sid pubkey =>
    by_cases hp : p.pubkey = pubkey
    · subst hp
      cases hmod : isModerator stage sender <;> simp [revise, drops, hactive, haccepts, hmod]
    · simp [revise, drops, hactive, hp, Ne.symm hp]
  | ban sid pubkey =>
    by_cases hp : p.pubkey = pubkey
    · subst hp
      by_cases hhost : sender = stage.hostPubkey
      · subst hhost
        simp [revise, drops, hactive, haccepts]
      · simp [revise, drops, hactive, hhost]
    · simp [revise, drops, hactive, hp, Ne.symm hp]
  | raiseHand | lowerHand | selfMuteToggle | promoteSpeaker | demoteSpeaker | muteSpeaker =>
    simp only [revise, drops, hactive]
    split <;> rfl
  | _ =>
    simp only [revise, drops, hactive]
    rfl

theorem arrival_eq_nil (hsilent : heardAt C k (.gossip stageId signed now) = none)
    (haccepts : accepts C.toSignatureCrates stageId signed = true) :
    Table.find Participant.pubkey k (arrival stage signed now) = none := by
  refine List.find?_eq_none.mpr fun p hp hkey => ?_
  obtain ⟨sid, role, timestamp, hcontrol⟩ := mem_arrival hp
  obtain rfl := of_decide_eq_true hkey
  simp [heardAt, hcontrol, haccepts] at hsilent

theorem heardAt_eq_some {seen : UInt64} (h : heardAt C k (.gossip stageId signed now) = some seen) :
    accepts C.toSignatureCrates stageId signed = true ∧ seen = now ∧
      ∃ sid role timestamp nodeId, signed.control = .presence sid k role timestamp nodeId := by
  rw [heardAt] at h
  split at h
  next sid pubkey role timestamp nodeId hcontrol =>
    split at h
    next hboth =>
      obtain ⟨haccepts, rfl⟩ := hboth
      exact ⟨haccepts, (Option.some.inj h).symm, sid, role, timestamp, nodeId, hcontrol⟩
    next => exact nomatch h
  next => exact nomatch h

theorem lastSeen_presence {seen : UInt64} (hactive : a.active = some stage)
    (hheard : heardAt C k (.gossip stageId signed now) = some seen)
    (hactive' : (a.handleControl signed now).1.active = some stage') :
    (stage'.participant k).map Participant.lastSeenMs = some seen := by
  obtain ⟨-, rfl, sid, role, timestamp, nodeId, hcontrol⟩ := heardAt_eq_some hheard
  rw [StageActor.handleControl, hactive] at hactive'
  dsimp only at hactive'
  rw [hcontrol] at hactive'
  obtain rfl := Option.some.inj hactive'
  rw [stage.participant_presence_self]
  cases stage.participant k <;> rfl

theorem lastSeen_gossip (hkeyed : Keyed stage) (hactive : a.active = some stage)
    (haccepts : accepts C.toSignatureCrates stageId signed = true)
    (hactive' : (a.handleControl signed now).1.active = some stage') :
    (stage'.participant k).map Participant.lastSeenMs =
      (heardAt C k (.gossip stageId signed now)).or
        (((stage.participant k).map Participant.lastSeenMs).filter fun seen =>
          !drops C k seen a (.gossip stageId signed now)) := by
  cases hheard : heardAt C k (.gossip stageId signed now) with
  | some seen => exact lastSeen_presence hactive hheard hactive'
  | none =>
    rw [entry_handleControl hkeyed hactive hactive', arrival_eq_nil hheard haccepts, Option.or_none, Option.none_or]
    cases hentry : stage.participant k with
    | none => rfl
    | some p =>
      have hkept := revise_lastSeen hactive haccepts hheard (Table.key_of_find hentry)
      rw [Option.bind_some, hkept, Option.map_some, Option.filter_some]
      cases drops C k p.lastSeenMs a (.gossip stageId signed now) <;> rfl

end Messages

theorem lastSeen_command {cmd : StageCommand} {now : UInt64} {out : List StageControl} (hkeyed : Keyed stage)
    (hactive : a.active = some stage) (h : a.handle C cmd now = .ok (a', out)) (hactive' : a'.active = some stage') :
    (stage'.participant k).map Participant.lastSeenMs =
      ((stage.participant k).map Participant.lastSeenMs).filter fun seen => !drops C k seen a (.command cmd now) := by
  rw [entry_handle hkeyed hactive h hactive']
  cases hentry : stage.participant k with
  | none => rfl
  | some p =>
    obtain rfl : p.pubkey = k := Table.key_of_find hentry
    rw [Option.bind_some, Option.map_some, Option.filter_some]
    cases cmd with
    | sweepPresence =>
      by_cases hsilent : p.lastSeenMs < sweepCutoff now <;> by_cases hme : p.pubkey = stage.myPubkey <;>
        simp [reviseOwn, drops, hactive, hsilent, hme]
    | promoteSpeaker | demoteSpeaker =>
      simp only [reviseOwn, drops, hactive]
      split <;> rfl
    | _ =>
      simp only [reviseOwn, drops, hactive]
      rfl

theorem filter_refused (h : ∀ seen, drops C k seen a i = false) (seen : Option UInt64) :
    seen.filter (fun seen => !drops C k seen a i) = seen := by
  cases seen with
  | none => rfl
  | some seen => rw [Option.filter_some, h seen, Bool.not_false, if_pos rfl]

theorem drops_of_error {cmd : StageCommand} {now : UInt64} {e : String} (h : a.handle C cmd now = .error e)
    (seen : UInt64) : drops C k seen a (.command cmd now) = false := by
  unfold drops
  split
  · contradiction
  next heq =>
    obtain ⟨rfl, rfl⟩ := StageInput.command.inj heq
    rw [StageActor.handle, StageActor.sweepPresence] at h
    split at h <;> cases h
  · rfl

theorem drops_of_not_accepts {stageId : String} {signed : SignedStageControl} {now : UInt64}
    (h : ¬ accepts C.toSignatureCrates stageId signed = true) (seen : UInt64) :
    drops C k seen a (.gossip stageId signed now) = false := by
  unfold drops
  cases a.active with
  | none => rfl
  | some stage =>
    dsimp only
    split <;> simp [h]

theorem heardAt_of_not_accepts {stageId : String} {signed : SignedStageControl} {now : UInt64}
    (h : ¬ accepts C.toSignatureCrates stageId signed = true) : heardAt C k (.gossip stageId signed now) = none := by
  rw [heardAt]
  split
  · exact if_neg fun hboth => h hboth.1
  · rfl

theorem acts_entryCell (hactive : a.active = some stage) (hkeyed : Keyed stage) (hstays : Stays C a i) :
    (entryCell C k).Acts (run C) a i := by
  intro a' hrun
  cases hrun
  obtain ⟨stage', hactive'⟩ := Option.isSome_iff_exists.mp hstays
  show lastSeen k (a.step C i) = (heardAt C k i).or ((lastSeen k a).filter fun seen => !drops C k seen a i)
  cases i with
  | command cmd now =>
    cases hresult : a.handle C cmd now with
    | error e =>
      rw [filter_refused (drops_of_error hresult), StageActor.step, hresult]
      rfl
    | ok result =>
      rw [StageActor.step, hresult] at hactive' ⊢
      rw [lastSeen_of_active hactive, lastSeen_of_active hactive']
      exact lastSeen_command hkeyed hactive hresult hactive'
  | gossip stageId signed now =>
    by_cases haccepts : accepts C.toSignatureCrates stageId signed = true
    · rw [step_gossip_of_accepts haccepts now] at hactive' ⊢
      rw [lastSeen_of_active hactive, lastSeen_of_active hactive']
      exact lastSeen_gossip hkeyed hactive haccepts hactive'
    · rw [filter_refused (drops_of_not_accepts haccepts), heardAt_of_not_accepts haccepts,
        step_gossip_of_not_accepts haccepts now]
      rfl

theorem drops_sweep_iff {seen now : UInt64} (hactive : a.active = some stage) :
    drops C k seen a (.command .sweepPresence now) = true ↔ seen.toNat + 45000 < now.toNat ∧ k ≠ stage.myPubkey := by
  have hcutoff : seen < sweepCutoff now ↔ seen.toNat + 45000 < now.toNat := by
    have hexpiry : presenceExpiry.toNat = 45000 := rfl
    unfold sweepCutoff
    split
    next hearly =>
      rw [UInt64.lt_iff_toNat_lt] at hearly ⊢
      rw [hexpiry] at hearly
      refine iff_of_false (Nat.not_lt_zero _) ?_
      omega
    next hlate =>
      have hle : presenceExpiry ≤ now := UInt64.not_lt.mp hlate
      rw [UInt64.lt_iff_toNat_lt, UInt64.toNat_sub_of_le _ _ hle, hexpiry]
      omega
  simp only [drops, hactive, Bool.and_eq_true, decide_eq_true_eq]
  exact and_congr hcutoff Iff.rfl

def InStage (a : StageActor) : Prop := ∃ stage, a.active = some stage ∧ Keyed stage

theorem InStage.step (h : InStage a) (hstays : Stays C a i) : InStage (a.step C i) := by
  obtain ⟨stage, hactive, hkeyed⟩ := h
  obtain ⟨stage', hactive'⟩ := Option.isSome_iff_exists.mp hstays
  exact ⟨stage', hactive', hkeyed.step hactive hactive'⟩

/-- Listed is who has been heard of since no kick or ban, and no sweep that came more than 45 seconds
after the last `Presence`, has dropped him. -/
theorem listed_iff {inputs : List StageInput} (hstart : InStage a) (hnew : lastSeen k a = none)
    (hstays : Along (run C) (Stays C) a inputs) (hrun : exec (run C) a inputs = some a') :
    (∃ stage, a'.active = some stage ∧ (stage.participant k).isSome = true) ↔
      ∃ before i after seen b, inputs = before ++ i :: after ∧ heardAt C k i = some seen ∧
        exec (run C) a (before ++ [i]) = some b ∧
          Along (run C) (fun s j => heardAt C k j = none ∧ drops C k seen s j = false) b after := by
  have hacts : ∀ s j, InStage s → Stays C s j → (entryCell C k).Acts (run C) s j := by
    rintro s j ⟨stage, hactive, hkeyed⟩ hj
    exact acts_entryCell hactive hkeyed hj
  have hkeep : ∀ s j t, InStage s → Stays C s j → run C s j = some t → InStage t := by
    rintro s j _ hs hj ⟨⟩
    exact hs.step hj
  have hlisted : (∃ stage, a'.active = some stage ∧ (stage.participant k).isSome = true) ↔
      ∃ seen, lastSeen k a' = some seen := by
    obtain ⟨stage, hactive, -⟩ := exec_invariant hkeep hstart hstays hrun
    rw [lastSeen_of_active hactive, hactive]
    simp [Option.isSome_iff_exists]
  have hcontent := fun seen => Cell.content_exec_iff (b := seen) hacts hkeep hstart hstays hrun
  rw [hlisted]
  constructor
  · rintro ⟨seen, hseen⟩
    rcases (hcontent seen).mp hseen with ⟨hold, -⟩ | ⟨before, i, after, b, hsplit, hheard, hb, hafter⟩
    · exact nomatch hnew.symm.trans hold
    · exact ⟨before, i, after, seen, b, hsplit, hheard, hb, hafter⟩
  · rintro ⟨before, i, after, seen, b, hsplit, hheard, hb, hafter⟩
    exact ⟨seen, (hcontent seen).mpr (.inr ⟨before, i, after, b, hsplit, hheard, hb, hafter⟩)⟩

section Examples

theorem joinedNode_hears : joinedNode.step stageChecksum guestArrives = joinedNode.withStage guestStage := by
  have haccepts := stageChecksum_signs.accepts (StageActor.new ⟨"guest", Vector.replicate 32 3, "guest node"⟩)
    (.presence "stage" "guest" .listener 0 (some "guest node")) 0
  exact step_presence haccepts rfl rfl

/-- A guest who was heard of 45 seconds ago is still there after a sweep. -/
theorem listed_iff_guest : ∃ a stage,
    exec (run stageChecksum) joinedNode [guestArrives, .command .sweepPresence 45000] = some a ∧
    a.active = some stage ∧ (stage.participant "guest").isSome = true := by
  have hheard : heardAt stageChecksum "guest" guestArrives = some 0 := by
    have haccepts := stageChecksum_signs.accepts (StageActor.new ⟨"guest", Vector.replicate 32 3, "guest node"⟩)
      (.presence "stage" "guest" .listener 0 (some "guest node")) 0
    exact if_pos ⟨haccepts, rfl⟩
  have hfirst : exec (run stageChecksum) joinedNode ([] ++ [guestArrives]) = some (joinedNode.withStage guestStage) :=
    congrArg some joinedNode_hears
  have hkept : drops stageChecksum "guest" 0 (joinedNode.withStage guestStage)
      (.command .sweepPresence 45000) = false := by
    refine Bool.eq_false_iff.mpr fun h => ?_
    exact absurd ((drops_sweep_iff rfl).mp h).1 (by decide)
  have hstays : Along (run stageChecksum) (Stays stageChecksum) joinedNode
      [guestArrives, .command .sweepPresence 45000] := by
    refine ⟨?_, fun b hb => ?_⟩
    · unfold Stays
      rw [joinedNode_hears]
      rfl
    · obtain rfl : joinedNode.withStage guestStage = b :=
        Option.some.inj ((congrArg some joinedNode_hears).symm.trans hb)
      exact ⟨rfl, fun _ _ => trivial⟩
  obtain ⟨a, hrun⟩ : ∃ a, exec (run stageChecksum) joinedNode [guestArrives, .command .sweepPresence 45000] = some a :=
    ⟨_, rfl⟩
  obtain ⟨stage, hactive, hlisted⟩ := (listed_iff ⟨joinedStage, rfl, List.nodup_nil⟩ rfl hstays hrun).mpr
    ⟨[], guestArrives, [.command .sweepPresence 45000], 0, _, rfl, hheard, hfirst, ⟨rfl, hkept⟩, fun _ _ => trivial⟩
  exact ⟨a, stage, hrun, hactive, hlisted⟩

end Examples

end Proscenium.Stage
