import Proscenium.Lib.KeyedMixer
import Proscenium.Lib.Machine
import Proscenium.Stage.SpeakerSessions

/-! The streams that a speaker gets from the host (`run_speaker_once`, `speaker_stream_recv`,
`run_speaker_mixer`). The mixer lives on from session to session, and each session numbers its
streams from 0; here a stream is told from the others by the number of its channel. -/

namespace Proscenium.Stage

open Machine KeyedMixer

section Defs

variable {α : Type*}

def maxStreamBuffer : ℕ := frameSize * 5

/-- `RemoveStream` carries the id alone; which stream's task has sent it is noted here. -/
inductive SpeakerMixerCmd where
  | addStream (id : UInt32) (c : ℕ)
  | removeStream (id : UInt32) (c : ℕ)
  deriving DecidableEq, Repr

inductive StreamPhase where
  | receiving
  | left
  /-- `RemoveStream` is sent, the sender not yet dropped. -/
  | deregistered
  | done
  deriving DecidableEq, Repr

structure StreamTask where
  id : UInt32
  phase : StreamPhase
  deriving DecidableEq, Repr

structure SpeakerSide (α : Type*) where
  nextStreamId : UInt32
  task : ℕ → Option StreamTask
  fresh : ℕ
  channels : ℕ → Channel α
  commands : List SpeakerMixerCmd
  mixer : Mixer UInt32 α

inductive StreamEvent (α : Type*) where
  /-- `run_speaker_once` is called again. -/
  | reconnect
  | acceptUni
  | frame (c : ℕ) (samples : List α)
  /-- The stream is over, or cancelled, or its decoder cannot be made. -/
  | leaves (c : ℕ)
  | deregister (c : ℕ)
  | drop (c : ℕ)
  | mixerCommand
  | mixerTick

namespace SpeakerSide

def new : SpeakerSide α := ⟨0, fun _ => none, 0, fun _ => ⟨[], false⟩, [], .empty⟩

def setPhase (c : ℕ) (id : UInt32) (phase : StreamPhase) (s : SpeakerSide α) : SpeakerSide α :=
  { s with task := Function.update s.task c (some ⟨id, phase⟩) }

def hasReceiver (c : ℕ) (s : SpeakerSide α) : Bool :=
  s.commands.any (fun cmd => match cmd with
    | .addStream _ c' => c' = c
    | .removeStream .. => false) || s.mixer.streams.any (·.2 = c)

def step (s : SpeakerSide α) : StreamEvent α → Option (SpeakerSide α)
  | .reconnect => some { s with nextStreamId := 0 }
  | .acceptUni => some
    { nextStreamId := s.nextStreamId + 1
      task := Function.update s.task s.fresh (some ⟨s.nextStreamId, .receiving⟩)
      fresh := s.fresh + 1
      channels := Function.update s.channels s.fresh ⟨[], true⟩
      commands := s.commands ++ [.addStream s.nextStreamId s.fresh]
      mixer := s.mixer }
  | .frame c samples =>
    match s.task c with
    | some ⟨id, .receiving⟩ => some (
      if s.hasReceiver c then
        { s with
          channels := Function.update s.channels c ⟨(s.channels c).queue ++ [samples], (s.channels c).hasSender⟩ }
      else s.setPhase c id .left)
    | _ => none
  | .leaves c =>
    match s.task c with
    | some ⟨id, .receiving⟩ => some (s.setPhase c id .left)
    | _ => none
  | .deregister c =>
    match s.task c with
    | some ⟨id, .left⟩ =>
      some { s.setPhase c id .deregistered with commands := s.commands ++ [.removeStream id c] }
    | _ => none
  | .drop c =>
    match s.task c with
    | some ⟨id, .deregistered⟩ => some { s.setPhase c id .done with
        channels := Function.update s.channels c ⟨(s.channels c).queue, false⟩ }
    | _ => none
  | .mixerCommand =>
    match s.commands with
    | .addStream id c :: rest => some { s with commands := rest, mixer := s.mixer.add id c }
    | .removeStream id _ :: rest => some { s with commands := rest, mixer := s.mixer.remove id }
    | [] => none
  | .mixerTick => some
    { s with
      mixer := (s.mixer.tick maxStreamBuffer frameSize s.channels).2
      channels := fun c =>
        if c ∈ s.mixer.streams.map Prod.snd then { s.channels c with queue := [] } else s.channels c }

end SpeakerSide

/-- The task has not sent its `RemoveStream`. -/
def StreamPhase.active : StreamPhase → Bool
  | .receiving | .left => true
  | _ => false

/-- A stream whose sender is there stays in the mixer, with the buffer of its id, until its own
`RemoveStream`; and no buffer is filled from two streams. -/
structure KeepsStreams (s : SpeakerSide α) (e : StreamEvent α) : Prop where
  kept : ∀ t, s.step e = some t → ∀ id c, (id, c) ∈ s.mixer.streams → (s.channels c).hasSender = true →
    (e = .mixerCommand → s.commands.head? ≠ some (.removeStream id c)) →
    (id, c) ∈ t.mixer.streams ∧ (id ∈ s.mixer.keys → id ∈ t.mixer.keys)
  apart : e = .mixerTick → ∀ b ∈ (s.mixer.drain maxStreamBuffer s.channels).buffers,
    ∀ c ∈ b.2.sources, ∀ c' ∈ b.2.sources, c = c'

/-- A stream is accepted under an id that no task has yet to deregister. -/
def Cleared (s : SpeakerSide α) : StreamEvent α → Prop
  | .acceptUni => ∀ c p, s.task c = some ⟨s.nextStreamId, p⟩ → p.active = false
  | _ => True

end Defs

section Queue

variable {owner last : UInt32 → Option ℕ} {commands : List SpeakerMixerCmd} {id : UInt32} {c : ℕ}

/-- The commands in the queue are taken in turn: one stream at a time owns an id. -/
inductive InTurn : (UInt32 → Option ℕ) → List SpeakerMixerCmd → (UInt32 → Option ℕ) → Prop
  | nil (owner : UInt32 → Option ℕ) : InTurn owner [] owner
  | add {owner last : UInt32 → Option ℕ} {id : UInt32} {c : ℕ} {rest : List SpeakerMixerCmd}
    (hfree : owner id = none) (hrest : InTurn (Function.update owner id (some c)) rest last) :
    InTurn owner (.addStream id c :: rest) last
  | remove {owner last : UInt32 → Option ℕ} {id : UInt32} {c : ℕ} {rest : List SpeakerMixerCmd}
    (howner : owner id = some c) (hrest : InTurn (Function.update owner id none) rest last) :
    InTurn owner (.removeStream id c :: rest) last

theorem InTurn.append_add (h : InTurn owner commands last) (hfree : last id = none) (c : ℕ) :
    InTurn owner (commands ++ [.addStream id c]) (Function.update last id (some c)) := by
  induction h with
  | nil => exact .add hfree (.nil _)
  | add howner _ ih => exact .add howner (ih hfree)
  | remove howner _ ih => exact .remove howner (ih hfree)

theorem InTurn.append_remove (h : InTurn owner commands last) (hlast : last id = some c) :
    InTurn owner (commands ++ [.removeStream id c]) (Function.update last id none) := by
  induction h with
  | nil => exact .remove hlast (.nil _)
  | add howner _ ih => exact .add howner (ih hlast)
  | remove howner _ ih => exact .remove howner (ih hlast)

end Queue

section Runs

variable {α : Type*} {s t : SpeakerSide α} {e : StreamEvent α} {owner last : UInt32 → Option ℕ}

/-- Whose turn each id is in the mixer, and whose it will be when the queue is empty. -/
structure TakesTurns (s : SpeakerSide α) (owner last : UInt32 → Option ℕ) : Prop where
  fresh : ∀ c, s.fresh ≤ c → s.task c = none
  active : ∀ c id p, s.task c = some ⟨id, p⟩ → p.active = true → last id = some c
  task : ∀ id c, last id = some c → ∃ p, s.task c = some ⟨id, p⟩ ∧ p.active = true
  commands : InTurn owner s.commands last
  owned : s.mixer.Owned owner

theorem takesTurns_new : TakesTurns (.new : SpeakerSide α) (fun _ => none) (fun _ => none) where
  fresh _ _ := rfl
  active _ _ _ h := absurd h.symm (Option.some_ne_none _)
  task _ _ h := absurd h.symm (Option.some_ne_none _)
  commands := .nil _
  owned := Mixer.owned_empty _

theorem TakesTurns.setPhase {c : ℕ} {id : UInt32} {p q : StreamPhase} (h : TakesTurns s owner last)
    (hc : s.task c = some ⟨id, p⟩) (hactive : q.active = p.active) : TakesTurns (s.setPhase c id q) owner last := by
  refine ⟨fun c' hc' => ?_, fun c' id' p' htask hp' => ?_, fun id' c' hlast => ?_, h.commands, h.owned⟩
  · have hne : c' ≠ c := by
      rintro rfl
      exact absurd ((h.fresh c' hc').symm.trans hc).symm (Option.some_ne_none _)
    exact (Function.update_of_ne hne ..).trans (h.fresh c' hc')
  · by_cases hne : c' = c
    · subst hne
      have hsame : some (StreamTask.mk id q) = some (StreamTask.mk id' p') :=
        (Function.update_self c' _ s.task).symm.trans htask
      obtain ⟨rfl, rfl⟩ := StreamTask.mk.inj (Option.some.inj hsame)
      exact h.active c' id p hc (hactive.symm.trans hp')
    · exact h.active c' id' p' ((Function.update_of_ne hne ..).symm.trans htask) hp'
  · obtain ⟨p', htask, hp'⟩ := h.task id' c' hlast
    by_cases hne : c' = c
    · subst hne
      obtain ⟨rfl, rfl⟩ := StreamTask.mk.inj (Option.some.inj (hc.symm.trans htask))
      exact ⟨q, Function.update_self .., hactive.trans hp'⟩
    · exact ⟨p', (Function.update_of_ne hne ..).trans htask, hp'⟩

theorem TakesTurns.acceptUni (h : TakesTurns s owner last) (hcleared : Cleared s .acceptUni) :
    TakesTurns
      { nextStreamId := s.nextStreamId + 1
        task := Function.update s.task s.fresh (some ⟨s.nextStreamId, .receiving⟩)
        fresh := s.fresh + 1
        channels := Function.update s.channels s.fresh ⟨[], true⟩
        commands := s.commands ++ [.addStream s.nextStreamId s.fresh]
        mixer := s.mixer } owner (Function.update last s.nextStreamId (some s.fresh)) := by
  have hfree : last s.nextStreamId = none := by
    refine Option.eq_none_iff_forall_ne_some.mpr fun c hlast => ?_
    obtain ⟨p, htask, hp⟩ := h.task _ c hlast
    exact absurd ((hcleared c p htask).symm.trans hp) Bool.false_ne_true
  have hnone : s.task s.fresh = none := h.fresh s.fresh le_rfl
  refine ⟨fun c hc => ?_, fun c id p htask hp => ?_, fun id c hlast => ?_, h.commands.append_add hfree _, h.owned⟩
  · have hne : c ≠ s.fresh := by
      rintro rfl
      exact absurd hc (Nat.not_succ_le_self _)
    exact (Function.update_of_ne hne ..).trans (h.fresh c (Nat.le_of_succ_le hc))
  · by_cases hne : c = s.fresh
    · subst hne
      have hsame : some (StreamTask.mk s.nextStreamId .receiving) = some (StreamTask.mk id p) :=
        (Function.update_self s.fresh _ s.task).symm.trans htask
      obtain ⟨rfl, rfl⟩ := StreamTask.mk.inj (Option.some.inj hsame)
      exact Function.update_self ..
    · have hlast := h.active c id p ((Function.update_of_ne hne ..).symm.trans htask) hp
      have hid : id ≠ s.nextStreamId := by
        rintro rfl
        exact absurd (hfree.symm.trans hlast).symm (Option.some_ne_none _)
      exact (Function.update_of_ne hid ..).trans hlast
  · by_cases hid : id = s.nextStreamId
    · subst hid
      rw [Function.update_self] at hlast
      obtain rfl := Option.some.inj hlast
      exact ⟨.receiving, Function.update_self .., rfl⟩
    · rw [Function.update_of_ne hid] at hlast
      obtain ⟨p, htask, hp⟩ := h.task id c hlast
      have hne : c ≠ s.fresh := by
        rintro rfl
        exact absurd (hnone.symm.trans htask).symm (Option.some_ne_none _)
      exact ⟨p, (Function.update_of_ne hne ..).trans htask, hp⟩

theorem TakesTurns.deregister {c : ℕ} {id : UInt32} (h : TakesTurns s owner last)
    (hc : s.task c = some ⟨id, .left⟩) :
    TakesTurns { s.setPhase c id .deregistered with commands := s.commands ++ [.removeStream id c] } owner
      (Function.update last id none) := by
  have hlast : last id = some c := h.active c id .left hc rfl
  refine ⟨fun c' hc' => ?_, fun c' id' p' htask hp' => ?_, fun id' c' hlast' => ?_,
    h.commands.append_remove hlast, h.owned⟩
  · have hne : c' ≠ c := by
      rintro rfl
      exact absurd ((h.fresh c' hc').symm.trans hc).symm (Option.some_ne_none _)
    exact (Function.update_of_ne hne ..).trans (h.fresh c' hc')
  · have hne : c' ≠ c := by
      rintro rfl
      have hsame : some (StreamTask.mk id .deregistered) = some (StreamTask.mk id' p') :=
        (Function.update_self c' _ s.task).symm.trans htask
      obtain ⟨-, rfl⟩ := StreamTask.mk.inj (Option.some.inj hsame)
      exact Bool.false_ne_true hp'
    have hold := h.active c' id' p' ((Function.update_of_ne hne ..).symm.trans htask) hp'
    have hid : id' ≠ id := by
      rintro rfl
      exact hne (Option.some.inj (hold.symm.trans hlast))
    exact (Function.update_of_ne hid ..).trans hold
  · have hid : id' ≠ id := by
      rintro rfl
      rw [Function.update_self] at hlast'
      exact absurd hlast'.symm (Option.some_ne_none _)
    rw [Function.update_of_ne hid] at hlast'
    obtain ⟨p', htask, hp'⟩ := h.task id' c' hlast'
    have hne : c' ≠ c := by
      rintro rfl
      exact hid (StreamTask.mk.inj (Option.some.inj (htask.symm.trans hc))).1
    exact ⟨p', (Function.update_of_ne hne ..).trans htask, hp'⟩

/-- As long as each id is cleared before it is taken, the turns go on. -/
theorem TakesTurns.step (h : TakesTurns s owner last) (hcleared : Cleared s e) (hstep : s.step e = some t) :
    ∃ owner' last', TakesTurns t owner' last' := by
  cases e with
  | reconnect =>
    obtain rfl := Option.some.inj hstep
    exact ⟨owner, last, h.fresh, h.active, h.task, h.commands, h.owned⟩
  | acceptUni =>
    obtain rfl := Option.some.inj hstep
    exact ⟨owner, _, h.acceptUni hcleared⟩
  | frame c samples =>
    rw [SpeakerSide.step] at hstep
    split at hstep
    next hc =>
      obtain rfl := Option.some.inj hstep
      split
      · exact ⟨owner, last, h.fresh, h.active, h.task, h.commands, h.owned⟩
      · exact ⟨owner, last, h.setPhase hc rfl⟩
    next => exact absurd hstep.symm (Option.some_ne_none _)
  | leaves c =>
    rw [SpeakerSide.step] at hstep
    split at hstep
    next hc =>
      obtain rfl := Option.some.inj hstep
      exact ⟨owner, last, h.setPhase hc rfl⟩
    next => exact absurd hstep.symm (Option.some_ne_none _)
  | deregister c =>
    rw [SpeakerSide.step] at hstep
    split at hstep
    next hc =>
      obtain rfl := Option.some.inj hstep
      exact ⟨owner, _, h.deregister hc⟩
    next => exact absurd hstep.symm (Option.some_ne_none _)
  | drop c =>
    rw [SpeakerSide.step] at hstep
    split at hstep
    next hc =>
      obtain rfl := Option.some.inj hstep
      obtain ⟨hfresh, hactive, htask, hcommands, howned⟩ :=
        h.setPhase hc (show StreamPhase.done.active = StreamPhase.deregistered.active from rfl)
      exact ⟨owner, last, hfresh, hactive, htask, hcommands, howned⟩
    next => exact absurd hstep.symm (Option.some_ne_none _)
  | mixerCommand =>
    rw [SpeakerSide.step] at hstep
    have hcommands := h.commands
    split at hstep
    next id c rest hqueue =>
      obtain rfl := Option.some.inj hstep
      rw [hqueue] at hcommands
      obtain _ | ⟨hfree, hrest⟩ := hcommands
      exact ⟨_, last, h.fresh, h.active, h.task, hrest, h.owned.add hfree c⟩
    next id c rest hqueue =>
      obtain rfl := Option.some.inj hstep
      rw [hqueue] at hcommands
      obtain _ | _ | ⟨howner, hrest⟩ := hcommands
      exact ⟨_, last, h.fresh, h.active, h.task, hrest, h.owned.remove id⟩
    next => exact absurd hstep.symm (Option.some_ne_none _)
  | mixerTick =>
    obtain rfl := Option.some.inj hstep
    exact ⟨owner, last, h.fresh, h.active, h.task, h.commands, h.owned.tick⟩

theorem SpeakerSide.step_mixer (hstep : s.step e = some t) (hcommand : e ≠ .mixerCommand)
    (htick : e ≠ .mixerTick) : t.mixer = s.mixer := by
  cases e with
  | reconnect | acceptUni =>
    obtain rfl := Option.some.inj hstep
    rfl
  | frame c samples =>
    rw [step] at hstep
    split at hstep
    next =>
      obtain rfl := Option.some.inj hstep
      split <;> rfl
    next => exact absurd hstep.symm (Option.some_ne_none _)
  | leaves c | deregister c | drop c =>
    rw [step] at hstep
    split at hstep
    next =>
      obtain rfl := Option.some.inj hstep
      rfl
    next => exact absurd hstep.symm (Option.some_ne_none _)
  | mixerCommand => exact absurd rfl hcommand
  | mixerTick => exact absurd rfl htick

theorem TakesTurns.kept_tick {id : UInt32} {c : ℕ} (h : TakesTurns s owner last)
    (hstream : (id, c) ∈ s.mixer.streams) (hsender : (s.channels c).hasSender = true) :
    id ∉ s.mixer.gone s.channels := by
  intro hgone
  obtain ⟨c', hstream', hlost⟩ := Mixer.mem_gone.mp hgone
  have howner := h.owned.streams id c hstream
  obtain rfl := Option.some.inj (howner.symm.trans (h.owned.streams id c' hstream'))
  exact Bool.false_ne_true (hlost.symm.trans hsender)

theorem TakesTurns.keeps (h : TakesTurns s owner last) (e : StreamEvent α) : KeepsStreams s e := by
  refine ⟨fun t hstep id c hstream hsender hown => ?_, fun _ b hb c hc c' hc' => ?_⟩
  · by_cases htick : e = .mixerTick
    · subst htick
      obtain rfl := Option.some.inj hstep
      have hstays := h.kept_tick hstream hsender
      exact ⟨Mixer.mem_streams_tick.mpr ⟨hstream, hstays⟩, fun hkey => Mixer.mem_keys_tick.mpr ⟨hkey, hstays⟩⟩
    by_cases hcommand : e = .mixerCommand
    · subst hcommand
      have hown := hown rfl
      have hcommands := h.commands
      rw [SpeakerSide.step] at hstep
      split at hstep
      next id' c' rest hqueue =>
        obtain rfl := Option.some.inj hstep
        exact ⟨Mixer.mem_streams_add.mpr (.inl hstream), fun hkey => Mixer.mem_keys_add.mpr (.inl hkey)⟩
      next id' c' rest hqueue =>
        obtain rfl := Option.some.inj hstep
        rw [hqueue] at hcommands hown
        obtain _ | _ | ⟨howner, -⟩ := hcommands
        -- the id in the command is that of the stream whose turn it is
        have hother : id ∉ [id'] := by
          intro hmem
          obtain rfl := List.mem_singleton.mp hmem
          obtain rfl := Option.some.inj (howner.symm.trans (h.owned.streams id c hstream))
          exact hown rfl
        exact ⟨Mixer.mem_streams_removeAll.mpr ⟨hstream, hother⟩,
          fun hkey => Mixer.mem_keys_removeAll.mpr ⟨hkey, hother⟩⟩
      next => exact absurd hstep.symm (Option.some_ne_none _)
    · rw [SpeakerSide.step_mixer hstep hcommand htick]
      exact ⟨hstream, fun hkey => hkey⟩
  · have howned : (s.mixer.drain maxStreamBuffer s.channels).Owned owner := h.owned.drain
    exact Option.some.inj ((howned.sources b hb c hc).symm.trans (howned.sources b hb c' hc'))

def take (m : Mixer UInt32 α) : SpeakerMixerCmd → Mixer UInt32 α
  | .addStream id c => m.add id c
  | .removeStream id _ => m.remove id

theorem exec_commands (s : SpeakerSide α) :
    exec SpeakerSide.step s (List.replicate s.commands.length .mixerCommand) =
      some { s with commands := [], mixer := s.commands.foldl take s.mixer } := by
  obtain ⟨next, task, fresh, channels, commands, mixer⟩ := s
  dsimp only
  induction commands generalizing mixer with
  | nil => rfl
  | cons cmd rest ih =>
    rw [List.length_cons, List.replicate_succ, exec_cons]
    cases cmd with
    | addStream id c => exact ih (mixer.add id c)
    | removeStream id c => exact ih (mixer.remove id)

theorem exec_deregister {c : ℕ} {id : UInt32} {p : StreamPhase} (hc : s.task c = some ⟨id, p⟩)
    (hp : p.active = true) : ∃ events t, exec SpeakerSide.step s events = some t ∧
      t.commands = s.commands ++ [.removeStream id c] ∧ t.mixer = s.mixer ∧ t.channels = s.channels := by
  have hleft : ∀ s : SpeakerSide α, s.task c = some ⟨id, .left⟩ → s.step (.deregister c) =
      some { s.setPhase c id .deregistered with commands := s.commands ++ [.removeStream id c] } := by
    intro s hc
    rw [SpeakerSide.step]
    simp only [hc]
  cases p with
  | receiving =>
    have hleaves : s.step (.leaves c) = some (s.setPhase c id .left) := by
      rw [SpeakerSide.step]
      simp only [hc]
    refine ⟨[.leaves c, .deregister c], { (s.setPhase c id .left).setPhase c id .deregistered with
      commands := s.commands ++ [.removeStream id c] }, ?_, rfl, rfl, rfl⟩
    rw [exec_cons, hleaves, Option.bind_some, exec_cons, hleft _ (Function.update_self ..)]
    rfl
  | left =>
    refine ⟨[.deregister c], { s.setPhase c id .deregistered with
      commands := s.commands ++ [.removeStream id c] }, ?_, rfl, rfl, rfl⟩
    rw [exec_cons, hleft s hc]
    rfl
  | _ => exact absurd hp Bool.false_ne_true

/-- A stream that is accepted too early can be removed with the one before it. -/
theorem TakesTurns.loses (h : TakesTurns s owner last) (hcleared : ¬ Cleared s .acceptUni) :
    ∃ more, ¬ Along SpeakerSide.step KeepsStreams s (.acceptUni :: more) := by
  obtain ⟨c, p, hc, hp⟩ : ∃ c p, s.task c = some ⟨s.nextStreamId, p⟩ ∧ p.active = true := by
    by_contra hnone
    exact hcleared fun c p hc => Bool.eq_false_of_not_eq_true fun hp => hnone ⟨c, p, hc, hp⟩
  have hne : c ≠ s.fresh := by
    rintro rfl
    exact absurd ((h.fresh s.fresh le_rfl).symm.trans hc).symm (Option.some_ne_none _)
  obtain ⟨s₁, hs₁⟩ : ∃ s₁, s.step .acceptUni = some s₁ := ⟨_, rfl⟩
  have hcommands : s₁.commands = s.commands ++ [.addStream s.nextStreamId s.fresh] := by
    obtain rfl := Option.some.inj hs₁
    rfl
  have htask : s₁.task c = some ⟨s.nextStreamId, p⟩ := by
    obtain rfl := Option.some.inj hs₁
    exact (Function.update_of_ne hne ..).trans hc
  have hsender : (s₁.channels s.fresh).hasSender = true := by
    obtain rfl := Option.some.inj hs₁
    exact congrArg Channel.hasSender (Function.update_self s.fresh _ s.channels)
  have hqueue := exec_commands s₁
  obtain ⟨events, s₃, hs₃, hcommands₃, hmixer₃, hchannels₃⟩ :=
    exec_deregister (s := { s₁ with commands := [], mixer := s₁.commands.foldl take s₁.mixer }) htask hp
  refine ⟨List.replicate s₁.commands.length .mixerCommand ++ events ++ [.mixerCommand], fun halong => ?_⟩
  have hrun : exec SpeakerSide.step s₁ (List.replicate s₁.commands.length .mixerCommand ++ events) = some s₃ := by
    rw [exec_append, hqueue]
    exact hs₃
  have hlast := ((halong.2 s₁ hs₁).of_append.2 s₃ hrun).1
  have hstream : (s.nextStreamId, s.fresh) ∈ s₃.mixer.streams := by
    rw [hmixer₃, hcommands, List.foldl_append]
    exact Mixer.mem_streams_add.mpr (.inr rfl)
  have hstep : s₃.step .mixerCommand = some { s₃ with commands := [], mixer := s₃.mixer.remove s.nextStreamId } := by
    rw [SpeakerSide.step]
    simp only [hcommands₃]
    rfl
  have hremoved : (s.nextStreamId, s.fresh) ∈ (s₃.mixer.removeAll [s.nextStreamId]).streams := by
    refine (hlast.kept _ hstep _ _ hstream (hchannels₃ ▸ hsender) fun _ hown => ?_).1
    rw [hcommands₃] at hown
    exact hne (SpeakerMixerCmd.removeStream.inj (Option.some.inj hown)).2
  exact (Mixer.mem_streams_removeAll.mp hremoved).2 (List.mem_singleton.mpr rfl)

/-- Where no id is taken again before its stream is deregistered, streams are kept; and where one
is, a stream can be lost. -/
theorem keepsStreams_of_cleared (events : List (StreamEvent α))
    (h : Along SpeakerSide.step Cleared (.new : SpeakerSide α) events) :
    Along SpeakerSide.step KeepsStreams (.new : SpeakerSide α) events ∧
      ∀ s, exec SpeakerSide.step .new events = some s → ¬ Cleared s .acceptUni →
        ∃ more, ¬ Along SpeakerSide.step KeepsStreams s (.acceptUni :: more) := by
  have hstep : ∀ (s : SpeakerSide α) e t, (∃ owner last, TakesTurns s owner last) → Cleared s e →
      s.step e = some t → ∃ owner last, TakesTurns t owner last := by
    rintro s e t ⟨owner, last, hturns⟩ hcleared hst
    exact hturns.step hcleared hst
  have hnew : ∃ owner last, TakesTurns (.new : SpeakerSide α) owner last := ⟨_, _, takesTurns_new⟩
  constructor
  · refine Along.mono_of_invariant ?_ hstep hnew h
    rintro s e ⟨owner, last, hturns⟩ -
    exact hturns.keeps e
  · intro s hrun hearly
    obtain ⟨owner, last, hturns⟩ := exec_invariant hstep hnew h hrun
    exact hturns.loses hearly

end Runs

section Examples

/-- The first stream is deregistered before the next session begins. -/
def inTurn : List (StreamEvent ℤ) :=
  [.acceptUni, .mixerCommand, .leaves 0, .deregister 0, .reconnect, .acceptUni, .mixerCommand, .drop 0, .mixerTick]

theorem keepsStreams_inTurn : Along SpeakerSide.step KeepsStreams (.new : SpeakerSide ℤ) inTurn := by
  refine (keepsStreams_of_cleared inTurn ?_).1
  have hfirst : Cleared (.new : SpeakerSide ℤ) .acceptUni := fun _ _ h => absurd h.symm (Option.some_ne_none _)
  obtain ⟨s, hs, htask⟩ : ∃ s, exec SpeakerSide.step (.new : SpeakerSide ℤ) (inTurn.take 5) = some s ∧
      ∀ c task, s.task c = some task → task = ⟨0, .deregistered⟩ := by
    refine ⟨_, rfl, fun c task hc => ?_⟩
    by_cases hzero : c = 0
    · subst hzero
      exact (Option.some.inj hc).symm
    · have hnone : some task = none := by
        rw [← hc]
        simp [SpeakerSide.setPhase, SpeakerSide.new, hzero]
      exact absurd hnone (Option.some_ne_none task)
  have hrest : ∀ (events : List (StreamEvent ℤ)) s, .acceptUni ∉ events →
      Along SpeakerSide.step Cleared s events := by
    intro events s hnone
    have hother : ∀ e ∈ events, e ≠ .acceptUni := by
      rintro e he rfl
      exact hnone he
    refine (Along.of_forall hother).mono fun s e he => ?_
    cases e with
    | acceptUni => exact absurd rfl he
    | _ => trivial
  rw [← List.take_append_drop 5 inTurn]
  refine Along.append ⟨hfirst, fun t _ => ?_⟩ hs ⟨fun c p hc => ?_, fun t _ => ?_⟩
  · exact hrest _ t (by simp)
  · rw [(StreamTask.mk.inj (htask c _ hc)).2]
    rfl
  · exact hrest _ t (by simp)

/-- The first stream is deregistered when the second one, with the same id, is in its place. -/
def outOfTurn : List (StreamEvent ℤ) :=
  [.acceptUni, .mixerCommand, .reconnect, .acceptUni, .mixerCommand, .leaves 0, .deregister 0, .mixerCommand]

theorem not_keepsStreams_outOfTurn : ¬ Along SpeakerSide.step KeepsStreams (.new : SpeakerSide ℤ) outOfTurn := by
  intro h
  have hbefore : exec SpeakerSide.step (.new : SpeakerSide ℤ) (outOfTurn.take 7) = some _ := rfl
  rw [← List.take_append_drop 7 outOfTurn] at h
  have hlast := (h.of_append.2 _ hbefore).1
  have hlost := (hlast.kept _ rfl 0 1 (by decide) rfl fun _ => by decide).1
  exact absurd hlost List.not_mem_nil

end Examples

end Proscenium.Stage
