import Proscenium.Lib.KeyedMixer
import Proscenium.Lib.Machine

/-! The sessions of speakers at a host (`handle_incoming_connection`, `speaker_recv_sfu_loop`,
`run_mixer`). A session has a number, which is that of its fanout, its connection and its
channel; the hub and the mixer know it by the NodeId of the speaker. -/

namespace Proscenium.Stage

open Machine KeyedMixer

section Defs

variable {α : Type*}

/-- In samples: 20 ms. -/
def frameSize : ℕ := 960

def maxSpeakerBuffer : ℕ := frameSize * 5

inductive Phase where
  | accepted
  /-- `AddSpeaker` is sent, the hub not yet locked. -/
  | added
  /-- In the hub, on the way to the loop. -/
  | registered
  | receiving
  /-- The loop has ended. -/
  | ended
  | cleaned
  /-- All that the session owned is dropped. -/
  | closed
  deriving DecidableEq, Repr

def Phase.live : Phase → Bool
  | .registered | .receiving => true
  | _ => false

def Phase.speaking : Phase → Bool
  | .added | .registered | .receiving => true
  | _ => false

structure Session where
  nodeId : String
  phase : Phase
  deriving DecidableEq, Repr

/-- `commands` are the `AddSpeaker`s that the mixer has not taken yet. -/
structure HostAudio (α : Type*) where
  session : ℕ → Option Session
  fresh : ℕ
  channels : ℕ → Channel α
  commands : List (String × ℕ)
  mixer : Mixer String α
  fanouts : String → Option ℕ
  connections : String → Option ℕ

inductive AudioEvent (α : Type*) where
  | connect (nodeId : String)
  | addSpeaker (n : ℕ)
  | register (n : ℕ)
  | start (n : ℕ) (decoder : Bool)
  /-- The samples of a frame that decodes. -/
  | frame (n : ℕ) (samples : Option (List α))
  | streamEnds (n : ℕ)
  | cleanUp (n : ℕ)
  | close (n : ℕ)
  | mixerCommand
  | mixerTick

namespace HostAudio

def new : HostAudio α := ⟨fun _ => none, 0, fun _ => ⟨[], false⟩, [], .empty, fun _ => none, fun _ => none⟩

def setPhase (n : ℕ) (k : String) (phase : Phase) (s : HostAudio α) : HostAudio α :=
  { s with session := Function.update s.session n (some ⟨k, phase⟩) }

def dropSender (n : ℕ) (s : HostAudio α) : HostAudio α :=
  { s with channels := Function.update s.channels n ⟨(s.channels n).queue, false⟩ }

def push (n : ℕ) (samples : List α) (s : HostAudio α) : HostAudio α :=
  { s with
    channels := Function.update s.channels n ⟨(s.channels n).queue ++ [samples], (s.channels n).hasSender⟩ }

def hasReceiver (n : ℕ) (s : HostAudio α) : Bool :=
  s.commands.any (·.2 = n) || s.mixer.streams.any (·.2 = n)

/-- `hub.fanouts.remove`, `hub.connections.remove`. -/
def unregister (k : String) (s : HostAudio α) : HostAudio α :=
  { s with
    fanouts := Function.update s.fanouts k none
    connections := Function.update s.connections k none }

def step (s : HostAudio α) : AudioEvent α → Option (HostAudio α)
  | .connect nodeId => some
    { s with
      session := Function.update s.session s.fresh (some ⟨nodeId, .accepted⟩)
      channels := Function.update s.channels s.fresh ⟨[], true⟩
      fresh := s.fresh + 1 }
  | .addSpeaker n =>
    match s.session n with
    | some ⟨k, .accepted⟩ => some { s.setPhase n k .added with commands := s.commands ++ [(k, n)] }
    | _ => none
  | .register n =>
    match s.session n with
    | some ⟨k, .added⟩ => some { s.setPhase n k .registered with
        fanouts := Function.update s.fanouts k (some n)
        connections := Function.update s.connections k (some n) }
    | _ => none
  | .start n decoder =>
    match s.session n with
    | some ⟨k, .registered⟩ =>
      -- without a decoder, the hub is not cleaned up
      some (if decoder then s.setPhase n k .receiving else (s.setPhase n k .closed).dropSender n)
    | _ => none
  | .frame n samples =>
    match s.session n, samples with
    | some ⟨_, .receiving⟩, none => some s
    | some ⟨k, .receiving⟩, some samples =>
      some (if s.hasReceiver n then s.push n samples else s.setPhase n k .ended)
    | _, _ => none
  | .streamEnds n =>
    match s.session n with
    | some ⟨k, .receiving⟩ => some (s.setPhase n k .ended)
    | _ => none
  | .cleanUp n =>
    match s.session n with
    | some ⟨k, .ended⟩ => some ((s.setPhase n k .cleaned).unregister k)
    | _ => none
  | .close n =>
    match s.session n with
    | some ⟨k, .cleaned⟩ => some ((s.setPhase n k .closed).dropSender n)
    | _ => none
  | .mixerCommand =>
    match s.commands with
    | (k, n) :: rest => some { s with commands := rest, mixer := s.mixer.add k n }
    | [] => none
  | .mixerTick => some
    { s with
      mixer := (s.mixer.tick maxSpeakerBuffer frameSize s.channels).2
      channels := fun c =>
        if c ∈ s.mixer.streams.map Prod.snd then { s.channels c with queue := [] } else s.channels c }

def nodeWhere (f : Phase → Bool) (s : HostAudio α) (n : ℕ) : Option String :=
  (s.session n).bind fun session => if f session.phase then some session.nodeId else none

def live (s : HostAudio α) : ℕ → Option String := s.nodeWhere Phase.live

def speaking (s : HostAudio α) : ℕ → Option String := s.nodeWhere Phase.speaking

end HostAudio

/-- A NodeId with a live session has the fanout and the connection of a live session in the hub. -/
def HubServes (live : ℕ → Option String) (fanouts connections : String → Option ℕ) : Prop :=
  ∀ n k, live n = some k → ∃ m, live m = some k ∧ fanouts k = some m ∧ connections k = some m

/-- A session that the mixer has taken on has its channel there, and a buffer. -/
def MixerServes (speaking : ℕ → Option String) (commands : List (String × ℕ)) (mixer : Mixer String α) : Prop :=
  ∀ n k, speaking n = some k → (k, n) ∉ commands → (k, n) ∈ mixer.streams ∧ k ∈ mixer.keys

structure Present (s : HostAudio α) : Prop where
  hub : HubServes s.live s.fanouts s.connections
  mixer : MixerServes s.speaking s.commands s.mixer

/-- No session ends, is cleaned up or found disconnected while another one of its NodeId needs what
is there under the NodeId. -/
def Undisturbed (s : HostAudio α) : AudioEvent α → Prop
  | .start n false => ∀ k, s.session n = some ⟨k, .registered⟩ → s.fanouts k = some n →
      ∀ m, m ≠ n → s.live m ≠ some k
  | .streamEnds n => ∀ k, s.session n = some ⟨k, .receiving⟩ → s.fanouts k = some n →
      ∀ m, m ≠ n → s.live m ≠ some k
  | .cleanUp n => ∀ k, s.session n = some ⟨k, .ended⟩ → ∀ m, s.live m ≠ some k
  | .mixerTick => ∀ k m, (k, m) ∈ s.mixer.streams → (s.channels m).hasSender = false →
      ∀ n, s.speaking n = some k → (k, n) ∉ s.mixer.streams
  | _ => True

end Defs

section Hub

variable {lives : ℕ → Option String} {fanouts connections : String → Option ℕ} {n : ℕ} {k : String}

theorem HubServes.register (h : HubServes lives fanouts connections) (hn : lives n = none) :
    HubServes (Function.update lives n (some k)) (Function.update fanouts k (some n))
      (Function.update connections k (some n)) := by
  intro n' k' hlive
  by_cases hk : k' = k
  · subst hk
    exact ⟨n, Function.update_self .., Function.update_self .., Function.update_self ..⟩
  · have hne : n' ≠ n := by
      rintro rfl
      rw [Function.update_self] at hlive
      exact hk (Option.some.inj hlive).symm
    rw [Function.update_of_ne hne] at hlive
    obtain ⟨m, hm, hfanout, hconnection⟩ := h n' k' hlive
    have hmn : m ≠ n := by
      rintro rfl
      exact absurd (hn.symm.trans hm).symm (Option.some_ne_none _)
    refine ⟨m, ?_, ?_, ?_⟩
    · rwa [Function.update_of_ne hmn]
    · rwa [Function.update_of_ne hk]
    · rwa [Function.update_of_ne hk]

theorem HubServes.end_iff (h : HubServes lives fanouts connections) (hn : lives n = some k) :
    HubServes (Function.update lives n none) fanouts connections ↔
      (fanouts k = some n → ∀ m, m ≠ n → lives m ≠ some k) := by
  constructor
  · intro hserves hfanout m hne hm
    obtain ⟨m', hm', hfanout', -⟩ := hserves m k (by rwa [Function.update_of_ne hne])
    obtain rfl := Option.some.inj (hfanout.symm.trans hfanout')
    rw [Function.update_self] at hm'
    exact absurd hm'.symm (Option.some_ne_none _)
  · intro hothers n' k' hlive
    have hne : n' ≠ n := by
      rintro rfl
      rw [Function.update_self] at hlive
      exact absurd hlive.symm (Option.some_ne_none _)
    rw [Function.update_of_ne hne] at hlive
    obtain ⟨m, hm, hfanout, hconnection⟩ := h n' k' hlive
    refine ⟨m, ?_, hfanout, hconnection⟩
    by_cases hmn : m = n
    · subst hmn
      obtain rfl := Option.some.inj (hn.symm.trans hm)
      exact absurd hlive (hothers hfanout n' hne)
    · rwa [Function.update_of_ne hmn]

theorem HubServes.cleanUp_iff (h : HubServes lives fanouts connections) :
    HubServes lives (Function.update fanouts k none) (Function.update connections k none) ↔
      ∀ m, lives m ≠ some k := by
  constructor
  · intro hserves m hm
    obtain ⟨m', -, hfanout, -⟩ := hserves m k hm
    rw [Function.update_self] at hfanout
    exact absurd hfanout.symm (Option.some_ne_none _)
  · intro hnone n' k' hlive
    have hk : k' ≠ k := by
      rintro rfl
      exact hnone n' hlive
    rw [Function.update_of_ne hk, Function.update_of_ne hk]
    exact h n' k' hlive

end Hub

section Steps

variable {α : Type*} {s t : HostAudio α} {e : AudioEvent α} {n : ℕ} {k : String} {p q : Phase}

inductive Moves (s : HostAudio α) : AudioEvent α → HostAudio α → Prop
  | connect (nodeId : String) : Moves s (.connect nodeId)
    { s with
      session := Function.update s.session s.fresh (some ⟨nodeId, .accepted⟩)
      channels := Function.update s.channels s.fresh ⟨[], true⟩
      fresh := s.fresh + 1 }
  | addSpeaker {n : ℕ} {k : String} (h : s.session n = some ⟨k, .accepted⟩) :
    Moves s (.addSpeaker n) { s.setPhase n k .added with commands := s.commands ++ [(k, n)] }
  | register {n : ℕ} {k : String} (h : s.session n = some ⟨k, .added⟩) : Moves s (.register n)
    { s.setPhase n k .registered with
      fanouts := Function.update s.fanouts k (some n)
      connections := Function.update s.connections k (some n) }
  | start {n : ℕ} {k : String} (h : s.session n = some ⟨k, .registered⟩) :
    Moves s (.start n true) (s.setPhase n k .receiving)
  | noDecoder {n : ℕ} {k : String} (h : s.session n = some ⟨k, .registered⟩) :
    Moves s (.start n false) ((s.setPhase n k .closed).dropSender n)
  | forward {n : ℕ} {k : String} (h : s.session n = some ⟨k, .receiving⟩) : Moves s (.frame n none) s
  | push {n : ℕ} {k : String} {samples : List α} (h : s.session n = some ⟨k, .receiving⟩)
    (hreceiver : s.hasReceiver n = true) : Moves s (.frame n (some samples)) (s.push n samples)
  | noReceiver {n : ℕ} {k : String} {samples : List α} (h : s.session n = some ⟨k, .receiving⟩)
    (hlost : s.hasReceiver n = false) : Moves s (.frame n (some samples)) (s.setPhase n k .ended)
  | streamEnds {n : ℕ} {k : String} (h : s.session n = some ⟨k, .receiving⟩) :
    Moves s (.streamEnds n) (s.setPhase n k .ended)
  | cleanUp {n : ℕ} {k : String} (h : s.session n = some ⟨k, .ended⟩) :
    Moves s (.cleanUp n) ((s.setPhase n k .cleaned).unregister k)
  | close {n : ℕ} {k : String} (h : s.session n = some ⟨k, .cleaned⟩) :
    Moves s (.close n) ((s.setPhase n k .closed).dropSender n)
  | mixerCommand {n : ℕ} {k : String} {rest : List (String × ℕ)} (h : s.commands = (k, n) :: rest) :
    Moves s .mixerCommand { s with commands := rest, mixer := s.mixer.add k n }
  | mixerTick : Moves s .mixerTick
    { s with
      mixer := (s.mixer.tick maxSpeakerBuffer frameSize s.channels).2
      channels := fun c =>
        if c ∈ s.mixer.streams.map Prod.snd then { s.channels c with queue := [] } else s.channels c }

theorem Moves.step (h : Moves s e t) : s.step e = some t := by
  cases h with
  | connect => rfl
  | mixerTick => rfl
  | mixerCommand hcommands =>
    rw [HostAudio.step]
    split
    next heq =>
      obtain ⟨hhead, rfl⟩ := List.cons.inj (heq.symm.trans hcommands)
      obtain ⟨rfl, rfl⟩ := Prod.mk.inj hhead
      rfl
    next heq => exact absurd (heq.symm.trans hcommands).symm (List.cons_ne_nil _ _)
  | addSpeaker hn | register hn | start hn | noDecoder hn | forward hn | streamEnds hn | cleanUp hn
  | close hn =>
    unfold HostAudio.step
    simp only [hn, Bool.false_eq_true, if_true, if_false]
  | push hn hreceiver =>
    unfold HostAudio.step
    simp only [hn, hreceiver, if_true]
  | noReceiver hn hlost =>
    unfold HostAudio.step
    simp only [hn, hlost, Bool.false_eq_true, if_false]

theorem HostAudio.moves_of_step (h : s.step e = some t) : Moves s e t := by
  cases e with
  | connect nodeId =>
    obtain rfl := Option.some.inj h
    exact .connect nodeId
  | addSpeaker n | register n | streamEnds n | cleanUp n | close n =>
    rw [step] at h
    split at h
    next hsession =>
      obtain rfl := Option.some.inj h
      constructor
      exact hsession
    next => exact absurd h.symm (Option.some_ne_none _)
  | start n decoder =>
    rw [step] at h
    split at h
    next hsession =>
      obtain rfl := Option.some.inj h
      cases decoder with
      | true => exact .start hsession
      | false => exact .noDecoder hsession
    next => exact absurd h.symm (Option.some_ne_none _)
  | frame n samples =>
    unfold step at h
    dsimp only at h
    split at h
    next hsession =>
      obtain rfl := Option.some.inj h
      exact .forward hsession
    next hsession =>
      obtain rfl := Option.some.inj h
      split
      next hreceiver => exact .push hsession hreceiver
      next hlost => exact .noReceiver hsession (Bool.eq_false_of_not_eq_true hlost)
    next => exact absurd h.symm (Option.some_ne_none _)
  | mixerCommand =>
    rw [step] at h
    split at h
    next hcommands =>
      obtain rfl := Option.some.inj h
      exact .mixerCommand hcommands
    next => exact absurd h.symm (Option.some_ne_none _)
  | mixerTick =>
    obtain rfl := Option.some.inj h
    exact .mixerTick

variable {f : Phase → Bool}

theorem HostAudio.nodeWhere_setPhase : (s.setPhase n k q).nodeWhere f =
    Function.update (s.nodeWhere f) n (if f q then some k else none) := by
  funext m
  unfold nodeWhere setPhase
  dsimp only
  by_cases hm : m = n
  · subst hm
    rw [Function.update_self, Function.update_self]
    rfl
  · rw [Function.update_of_ne hm, Function.update_of_ne hm]

theorem HostAudio.nodeWhere_of_session (h : s.session n = some ⟨k, p⟩) :
    s.nodeWhere f n = if f p then some k else none := by
  unfold nodeWhere
  rw [h]
  rfl

theorem HostAudio.nodeWhere_kept (h : s.session n = some ⟨k, p⟩) (hf : f q = f p) :
    (s.setPhase n k q).nodeWhere f = s.nodeWhere f := by
  rw [nodeWhere_setPhase, hf, ← nodeWhere_of_session h, Function.update_eq_self]

end Steps

section Mix

variable {α : Type*} {speaks : ℕ → Option String} {commands : List (String × ℕ)} {mixer : Mixer String α}
  {n : ℕ} {k : String}

theorem MixerServes.silence (h : MixerServes speaks commands mixer) (n : ℕ) :
    MixerServes (Function.update speaks n none) commands mixer := by
  intro n' k' hspeaks hcommands
  have hne : n' ≠ n := by
    rintro rfl
    rw [Function.update_self] at hspeaks
    exact absurd hspeaks.symm (Option.some_ne_none _)
  rw [Function.update_of_ne hne] at hspeaks
  exact h n' k' hspeaks hcommands

theorem MixerServes.addSpeaker (h : MixerServes speaks commands mixer) :
    MixerServes (Function.update speaks n (some k)) (commands ++ [(k, n)]) mixer := by
  intro n' k' hspeaks hcommands
  rw [List.mem_append, not_or, List.mem_singleton] at hcommands
  have hne : n' ≠ n := by
    rintro rfl
    rw [Function.update_self] at hspeaks
    obtain rfl := Option.some.inj hspeaks
    exact hcommands.2 rfl
  rw [Function.update_of_ne hne] at hspeaks
  exact h n' k' hspeaks hcommands.1

theorem MixerServes.command (h : MixerServes speaks ((k, n) :: commands) mixer) :
    MixerServes speaks commands (mixer.add k n) := by
  intro n' k' hspeaks hcommands
  rw [Mixer.mem_streams_add, Mixer.mem_keys_add]
  by_cases hsame : (k', n') = (k, n)
  · exact ⟨.inr hsame, .inr (Prod.mk.inj hsame).1⟩
  · obtain ⟨hstream, hkey⟩ := h n' k' hspeaks fun hmem => (List.mem_cons.mp hmem).elim hsame hcommands
    exact ⟨.inl hstream, .inl hkey⟩

theorem MixerServes.tick_iff {cap frame : ℕ} {channels : ℕ → Channel α} (h : MixerServes speaks commands mixer)
    (hdisjoint : ∀ k n, (k, n) ∈ mixer.streams → (k, n) ∉ commands) :
    MixerServes speaks commands (mixer.tick cap frame channels).2 ↔
      ∀ k m, (k, m) ∈ mixer.streams → (channels m).hasSender = false →
        ∀ n, speaks n = some k → (k, n) ∉ mixer.streams := by
  constructor
  · intro hserves k m hm hlost n hspeaks hn
    obtain ⟨hstream, -⟩ := hserves n k hspeaks (hdisjoint k n hn)
    exact (Mixer.mem_streams_tick.mp hstream).2 (Mixer.mem_gone.mpr ⟨m, hm, hlost⟩)
  · intro hothers n k hspeaks hcommands
    obtain ⟨hstream, hkey⟩ := h n k hspeaks hcommands
    have hstays : k ∉ mixer.gone channels := by
      intro hgone
      obtain ⟨m, hm, hlost⟩ := Mixer.mem_gone.mp hgone
      exact hothers k m hm hlost n hspeaks hstream
    exact ⟨Mixer.mem_streams_tick.mpr ⟨hstream, hstays⟩, Mixer.mem_keys_tick.mpr ⟨hkey, hstays⟩⟩

end Mix

section Runs

variable {α : Type*} {s t : HostAudio α} {e : AudioEvent α} {n : ℕ} {k : String} {p q : Phase}

/-- The mixer takes on each session once, under its NodeId. -/
structure TakenOnce (s : HostAudio α) : Prop where
  fresh : ∀ n, s.fresh ≤ n → s.session n = none
  taken : ∀ k n, (k, n) ∈ s.commands ++ s.mixer.streams → ∃ p, s.session n = some ⟨k, p⟩ ∧ p ≠ .accepted
  once : (s.commands ++ s.mixer.streams).Nodup

theorem takenOnce_new : TakenOnce (.new : HostAudio α) :=
  ⟨fun _ _ => rfl, fun _ _ h => absurd h List.not_mem_nil, List.nodup_nil⟩

theorem TakenOnce.setPhase (h : TakenOnce s) (hn : s.session n = some ⟨k, p⟩) (hq : q ≠ .accepted) :
    TakenOnce (s.setPhase n k q) := by
  have hne : ∀ m, s.session m = none → m ≠ n := by
    rintro m hm rfl
    exact absurd (hm.symm.trans hn).symm (Option.some_ne_none _)
  refine ⟨fun m hm => ?_, fun k' m hm => ?_, h.once⟩
  · exact (Function.update_of_ne (hne m (h.fresh m hm)) ..).trans (h.fresh m hm)
  · obtain ⟨p', hsession, hp'⟩ := h.taken k' m hm
    by_cases hmn : m = n
    · subst hmn
      obtain rfl := (Session.mk.inj (Option.some.inj (hn.symm.trans hsession))).1
      exact ⟨q, Function.update_self .., hq⟩
    · exact ⟨p', (Function.update_of_ne hmn ..).trans hsession, hp'⟩

theorem TakenOnce.step (h : TakenOnce s) (hmoves : Moves s e t) : TakenOnce t := by
  cases hmoves with
  | connect nodeId =>
    have hfresh : s.session s.fresh = none := h.fresh s.fresh le_rfl
    refine ⟨fun n hn => ?_, fun k n hn => ?_, h.once⟩
    · have hne : n ≠ s.fresh := by
        rintro rfl
        exact absurd hn (Nat.not_succ_le_self _)
      exact (Function.update_of_ne hne ..).trans (h.fresh n (Nat.le_of_succ_le hn))
    · obtain ⟨p, hsession, hp⟩ := h.taken k n hn
      have hne : n ≠ s.fresh := by
        rintro rfl
        exact absurd (hfresh.symm.trans hsession).symm (Option.some_ne_none _)
      exact ⟨p, (Function.update_of_ne hne ..).trans hsession, hp⟩
  | @addSpeaker n k hn =>
    have hset := h.setPhase hn (show Phase.added ≠ .accepted by decide)
    have hnew : (k, n) ∉ s.commands ++ s.mixer.streams := by
      intro hmem
      obtain ⟨p, hsession, hp⟩ := h.taken k n hmem
      exact hp (Session.mk.inj (Option.some.inj (hn.symm.trans hsession))).2.symm
    have hperm : ((s.commands ++ [(k, n)]) ++ s.mixer.streams).Perm ((k, n) :: (s.commands ++ s.mixer.streams)) := by
      rw [List.append_assoc]
      exact List.perm_middle
    refine ⟨hset.fresh, fun k' m hm => ?_, hperm.nodup_iff.mpr (List.nodup_cons.mpr ⟨hnew, h.once⟩)⟩
    rcases List.mem_cons.mp (hperm.mem_iff.mp hm) with heq | hm
    · obtain ⟨rfl, rfl⟩ := Prod.mk.inj heq
      exact ⟨.added, Function.update_self .., by decide⟩
    · exact hset.taken k' m hm
  | start hn => exact h.setPhase hn (by decide)
  | noReceiver hn => exact h.setPhase hn (by decide)
  | streamEnds hn => exact h.setPhase hn (by decide)
  | forward => exact h
  | push => exact ⟨h.fresh, h.taken, h.once⟩
  | register hn =>
    obtain ⟨hfresh, htaken, honce⟩ := h.setPhase hn (show Phase.registered ≠ .accepted by decide)
    exact ⟨hfresh, htaken, honce⟩
  | cleanUp hn =>
    obtain ⟨hfresh, htaken, honce⟩ := h.setPhase hn (show Phase.cleaned ≠ .accepted by decide)
    exact ⟨hfresh, htaken, honce⟩
  | noDecoder hn | close hn =>
    obtain ⟨hfresh, htaken, honce⟩ := h.setPhase hn (show Phase.closed ≠ .accepted by decide)
    exact ⟨hfresh, htaken, honce⟩
  | @mixerCommand n k rest hcommands =>
    have hperm : (rest ++ (s.mixer.streams ++ [(k, n)])).Perm (s.commands ++ s.mixer.streams) := by
      rw [hcommands, ← List.append_assoc]
      exact (List.perm_append_singleton _ _).trans (List.Perm.refl _)
    exact ⟨h.fresh, fun k' m hm => h.taken k' m (hperm.mem_iff.mp hm), hperm.nodup_iff.mpr h.once⟩
  | mixerTick =>
    have hsublist : (s.commands ++ (s.mixer.tick maxSpeakerBuffer frameSize s.channels).2.streams).Sublist
        (s.commands ++ s.mixer.streams) := (List.Sublist.refl _).append Mixer.streams_tick_sublist
    exact ⟨h.fresh, fun k m hm => h.taken k m (hsublist.subset hm), h.once.sublist hsublist⟩

theorem TakenOnce.disjoint (h : TakenOnce s) : ∀ k n, (k, n) ∈ s.mixer.streams → (k, n) ∉ s.commands :=
  fun _ _ hstream hcommand => (List.nodup_append.mp h.once).2.2 _ hcommand _ hstream rfl

theorem Present.hasReceiver (h : Present s) (hn : s.session n = some ⟨k, .receiving⟩) : s.hasReceiver n = true := by
  unfold HostAudio.hasReceiver
  rw [Bool.or_eq_true, List.any_eq_true, List.any_eq_true]
  by_cases hcommand : (k, n) ∈ s.commands
  · exact .inl ⟨(k, n), hcommand, decide_eq_true rfl⟩
  · exact .inr ⟨(k, n), (h.mixer n k (HostAudio.nodeWhere_of_session hn) hcommand).1, decide_eq_true rfl⟩

theorem Present.of_kept (h : Present s) (hn : s.session n = some ⟨k, p⟩) (hlive : q.live = p.live)
    (hspeaking : q.speaking = p.speaking) : Present (s.setPhase n k q) := by
  have hlives : (s.setPhase n k q).live = s.live := HostAudio.nodeWhere_kept hn hlive
  have hspeaks : (s.setPhase n k q).speaking = s.speaking := HostAudio.nodeWhere_kept hn hspeaking
  exact ⟨hlives ▸ h.hub, hspeaks ▸ h.mixer⟩

theorem Present.end_iff (h : Present s) (hn : s.session n = some ⟨k, p⟩) (hlive : p.live = true)
    (hended : q.live = false) (hsilent : q.speaking = false) :
    Present (s.setPhase n k q) ↔ (s.fanouts k = some n → ∀ m, m ≠ n → s.live m ≠ some k) := by
  have hlives : (s.setPhase n k q).live = Function.update s.live n none := by
    refine HostAudio.nodeWhere_setPhase.trans ?_
    rw [hended]
    rfl
  have hspeaks : (s.setPhase n k q).speaking = Function.update s.speaking n none := by
    refine HostAudio.nodeWhere_setPhase.trans ?_
    rw [hsilent]
    rfl
  have hnode : s.live n = some k := (HostAudio.nodeWhere_of_session hn).trans (if_pos hlive)
  refine Iff.trans ⟨fun hp => hlives ▸ hp.hub, fun hub => ⟨hlives ▸ hub, ?_⟩⟩ (h.hub.end_iff hnode)
  rw [hspeaks]
  exact h.mixer.silence n

theorem present_step_iff (hs : TakenOnce s) (h : Present s) :
    (∀ t, s.step e = some t → Present t) ↔ Undisturbed s e := by
  constructor
  · intro hpresent
    cases e with
    | start n decoder =>
      cases decoder with
      | true => trivial
      | false =>
        intro k hn
        have hnext := hpresent _ (Moves.noDecoder hn).step
        exact (h.end_iff hn rfl rfl rfl).mp ⟨hnext.hub, hnext.mixer⟩
    | streamEnds n =>
      intro k hn
      exact (h.end_iff hn rfl rfl rfl).mp (hpresent _ (Moves.streamEnds hn).step)
    | cleanUp n =>
      intro k hn
      have hnext := (hpresent _ (Moves.cleanUp hn).step).hub
      have hlives : ((s.setPhase n k .cleaned).unregister k).live = s.live :=
        HostAudio.nodeWhere_kept hn rfl
      rw [hlives] at hnext
      exact h.hub.cleanUp_iff.mp hnext
    | mixerTick => exact (h.mixer.tick_iff hs.disjoint).mp (hpresent _ rfl).mixer
    | _ => trivial
  · intro hundisturbed t hstep
    have hmoves := HostAudio.moves_of_step hstep
    cases hmoves with
    | connect nodeId =>
      have hnodes : ∀ f : Phase → Bool, f .accepted = false →
          (s.setPhase s.fresh nodeId .accepted).nodeWhere f = s.nodeWhere f := by
        intro f hf
        have hnone : s.nodeWhere f s.fresh = none := by
          unfold HostAudio.nodeWhere
          rw [hs.fresh s.fresh le_rfl]
          rfl
        refine HostAudio.nodeWhere_setPhase.trans ?_
        rw [hf, ← hnone]
        exact Function.update_eq_self ..
      have hlives : (s.setPhase s.fresh nodeId .accepted).live = s.live := hnodes _ rfl
      have hspeaks : (s.setPhase s.fresh nodeId .accepted).speaking = s.speaking := hnodes _ rfl
      have hnext : Present (s.setPhase s.fresh nodeId .accepted) := ⟨hlives ▸ h.hub, hspeaks ▸ h.mixer⟩
      exact ⟨hnext.hub, hnext.mixer⟩
    | @addSpeaker n k hn =>
      have hlives : (s.setPhase n k .added).live = s.live := HostAudio.nodeWhere_kept hn rfl
      have hspeaks : (s.setPhase n k .added).speaking = Function.update s.speaking n (some k) :=
        HostAudio.nodeWhere_setPhase
      have hmixer := h.mixer.addSpeaker (n := n) (k := k)
      rw [← hspeaks] at hmixer
      exact ⟨hlives ▸ h.hub, hmixer⟩
    | @register n k hn =>
      have hlives : (s.setPhase n k .registered).live = Function.update s.live n (some k) :=
        HostAudio.nodeWhere_setPhase
      have hspeaks : (s.setPhase n k .registered).speaking = s.speaking := HostAudio.nodeWhere_kept hn rfl
      have hhub := h.hub.register (k := k) (HostAudio.nodeWhere_of_session hn)
      rw [← hlives] at hhub
      exact ⟨hhub, hspeaks ▸ h.mixer⟩
    | start hn => exact h.of_kept hn rfl rfl
    | noDecoder hn =>
      have hends := h.end_iff hn rfl (show Phase.closed.live = false from rfl) rfl
      have hnext := hends.mpr (hundisturbed _ hn)
      exact ⟨hnext.hub, hnext.mixer⟩
    | forward => exact h
    | push => exact ⟨h.hub, h.mixer⟩
    | noReceiver hn hlost => exact absurd (hlost.symm.trans (h.hasReceiver hn)) Bool.false_ne_true
    | streamEnds hn => exact (h.end_iff hn rfl rfl rfl).mpr (hundisturbed _ hn)
    | @cleanUp n k hn =>
      have hlives : ((s.setPhase n k .cleaned).unregister k).live = s.live := HostAudio.nodeWhere_kept hn rfl
      have hspeaks : ((s.setPhase n k .cleaned).unregister k).speaking = s.speaking :=
        HostAudio.nodeWhere_kept hn rfl
      exact ⟨hlives ▸ h.hub.cleanUp_iff.mpr (hundisturbed k hn), hspeaks ▸ h.mixer⟩
    | close hn =>
      have hnext := h.of_kept hn (show Phase.closed.live = Phase.cleaned.live from rfl) rfl
      exact ⟨hnext.hub, hnext.mixer⟩
    | mixerCommand hcommands => exact ⟨h.hub, MixerServes.command (hcommands ▸ h.mixer)⟩
    | mixerTick => exact ⟨h.hub, (h.mixer.tick_iff hs.disjoint).mpr hundisturbed⟩

theorem present_new : Present (.new : HostAudio α) :=
  ⟨fun _ _ h => absurd h.symm (Option.some_ne_none _), fun _ _ h => absurd h.symm (Option.some_ne_none _)⟩

/-- In a run, speakers with a live session are present just if no other session of theirs comes to
its end where it takes the live one with it. -/
theorem present_iff_undisturbed (events : List (AudioEvent α)) :
    (∀ before s, before <+: events → exec HostAudio.step .new before = some s → Present s) ↔
      Along HostAudio.step Undisturbed .new events := by
  refine forall_prefix_iff_along (I := fun s => TakenOnce s ∧ Present s) (fun s e h => present_step_iff h.1 h.2) ?_
    ⟨takenOnce_new, present_new⟩ present_new
  intro s e t h _ hpresent hstep
  exact ⟨h.1.step (HostAudio.moves_of_step hstep), hpresent⟩

end Runs

section Examples

def reconnects : List (AudioEvent ℤ) :=
  [.connect "guest node", .addSpeaker 0, .mixerCommand, .register 0, .start 0 true,
    .connect "guest node", .addSpeaker 1, .mixerCommand, .register 1, .start 1 true,
    .streamEnds 0, .cleanUp 0, .close 0, .mixerTick]

/-- The first session takes the second one's entries with it. -/
theorem not_present_reconnects : ∃ s, exec HostAudio.step .new reconnects = some s ∧
    s.session 1 = some ⟨"guest node", .receiving⟩ ∧ s.fanouts "guest node" = none ∧
    s.connections "guest node" = none ∧ s.mixer.streams = [] ∧ s.mixer.keys = [] ∧ ¬ Present s := by
  refine ⟨_, rfl, rfl, rfl, rfl, rfl, rfl, fun h => ?_⟩
  obtain ⟨m, -, hfanout, -⟩ := h.hub 1 "guest node" rfl
  exact absurd hfanout.symm (Option.some_ne_none m)

end Examples

end Proscenium.Stage
