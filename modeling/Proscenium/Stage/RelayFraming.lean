import Proscenium.Audio.Transport
import Proscenium.Lib.Machine

/-! The relay of a stage between its upstream and its listeners (`run_relay` in
`stage/relay.rs`). The read of the next frame is one branch of a `select!`; when
a command is taken up instead, the read is dropped with all that it has taken. -/

namespace Proscenium.Stage

open Proscenium.Types Proscenium.Audio Machine

/-- The loop, with what QUIC has for it; `downstreams` is what subscribers that do not lag get. -/
structure RelayActor where
  unread : Bytes
  reading : ReadAudioFrame
  sent : List AudioFrame
  downstreams : List (List AudioFrame)
  running : Bool
  deriving DecidableEq, Repr

inductive RelayEvent where
  | arrive (bytes : Bytes)
  /-- `read_audio_frame` is polled. -/
  | poll
  | addDownstream
  /-- The task is cancelled, the last handle is dropped, or the upstream ends. -/
  | stop
  deriving DecidableEq, Repr

namespace RelayActor

def start : RelayActor := ⟨[], .start, [], [], true⟩

/-- `frame_tx.send`; the next turn of the loop reads anew. -/
def broadcast (s : RelayActor) (f : AudioFrame) (unread : Bytes) : RelayActor :=
  { s with
    unread, reading := .start, sent := s.sent ++ [f]
    downstreams := s.downstreams.map fun d => d ++ [f] }

def read (s : RelayActor) : RelayActor :=
  match s.reading.poll s.unread with
  | (.pending reading, unread) => { s with reading, unread }
  | (.ready f, unread) => s.broadcast f unread
  | (.failed _, unread) => { s with reading := .start, unread, running := false }

/-- `frame_tx.subscribe`; the branch that lost is dropped. -/
def subscribe (s : RelayActor) : RelayActor :=
  { s with reading := .start, downstreams := s.downstreams ++ [[]] }

def step (s : RelayActor) : RelayEvent → Option RelayActor
  | .arrive bytes => some { s with unread := s.unread ++ bytes }
  | .poll => if s.running then some s.read else none
  | .addDownstream => if s.running then some s.subscribe else none
  | .stop => if s.running then some { s with running := false } else none

theorem step_cases {s u : RelayActor} {e : RelayEvent} (h : s.step e = some u) :
    (∃ bytes, e = .arrive bytes ∧ u = { s with unread := s.unread ++ bytes }) ∨
    (e = .poll ∧ u = s.read) ∨ (e = .addDownstream ∧ u = s.subscribe) ∨
    (e = .stop ∧ u = { s with running := false }) := by
  cases e with
  | arrive bytes => exact .inl ⟨bytes, rfl, (Option.some.inj h).symm⟩
  | poll =>
    obtain ⟨-, h⟩ := Option.ite_none_right_eq_some.mp h
    exact .inr (.inl ⟨rfl, (Option.some.inj h).symm⟩)
  | addDownstream =>
    obtain ⟨-, h⟩ := Option.ite_none_right_eq_some.mp h
    exact .inr (.inr (.inl ⟨rfl, (Option.some.inj h).symm⟩))
  | stop =>
    obtain ⟨-, h⟩ := Option.ite_none_right_eq_some.mp h
    exact .inr (.inr (.inr ⟨rfl, (Option.some.inj h).symm⟩))

end RelayActor

def RelayEvent.bytes : RelayEvent → Bytes
  | .arrive bytes => bytes
  | _ => []

def arrivals (events : List RelayEvent) : Bytes := events.flatMap RelayEvent.bytes

/-- Every frame has been broadcast as it was, and each downstream has the last of them. -/
def Relays (frames : List AudioFrame) (s : RelayActor) : Prop :=
  s.sent = frames ∧ ∀ d ∈ s.downstreams, d <:+ frames

/-- A command is taken up only when the read in progress has taken nothing. -/
def BetweenFrames (s : RelayActor) (e : RelayEvent) : Prop :=
  e = .addDownstream → s.reading.held = []

/-- What is so of a relay with `later` still to come stays so with every step that cuts no read
short. -/
structure KeptByRelay (P : Bytes → RelayActor → Prop) : Prop where
  arrive : ∀ bytes later s, P (bytes ++ later) s → P later { s with unread := s.unread ++ bytes }
  read : ∀ later s, s.running = true → P later s → P later s.read
  subscribe : ∀ later s, s.reading.held = [] → P later s → P later s.subscribe

theorem KeptByRelay.exec {P : Bytes → RelayActor → Prop} (hP : KeptByRelay P) {events : List RelayEvent}
    {s t : RelayActor} (h : P (arrivals events) s) (hopen : .stop ∉ events)
    (hbetween : Along RelayActor.step BetweenFrames s events) (hrun : exec RelayActor.step s events = some t) :
    P [] t := by
  induction events generalizing s with
  | nil =>
    cases hrun
    exact h
  | cons e events ih =>
    obtain ⟨u, hu, hrun⟩ := exec_cons_eq_some.mp hrun
    have hrest : .stop ∉ events := fun hstop => hopen (List.mem_cons_of_mem _ hstop)
    refine ih ?_ hrest (hbetween.2 u hu) hrun
    rcases RelayActor.step_cases hu with ⟨bytes, rfl, rfl⟩ | ⟨rfl, rfl⟩ | ⟨rfl, rfl⟩ | ⟨rfl, -⟩
    · exact hP.arrive bytes (arrivals events) s h
    · have hrunning := (Option.ite_none_right_eq_some.mp hu).1
      exact hP.read (arrivals events) s hrunning h
    · exact hP.subscribe (arrivals events) s (hbetween.1 rfl) h
    · exact absurd List.mem_cons_self hopen

section Intact

/-- No byte is lost: what is not yet broadcast is held, unread or still to come. -/
structure Intact (frames : List AudioFrame) (later : Bytes) (s : RelayActor) : Prop where
  rest : ∃ rest, frames = s.sent ++ rest ∧
    (s.reading.held ++ s.unread) ++ later = rest.flatMap writeAudioFrame
  suffix : ∀ d ∈ s.downstreams, d <:+ s.sent
  running : s.running = true

variable {frames : List AudioFrame} {later : Bytes} {s t : RelayActor}

theorem Intact.arrive {bytes : Bytes} (h : Intact frames (bytes ++ later) s) :
    Intact frames later { s with unread := s.unread ++ bytes } := by
  obtain ⟨rest, hframes, hbytes⟩ := h.rest
  refine ⟨⟨rest, hframes, ?_⟩, h.suffix, h.running⟩
  rw [← hbytes]
  simp only [List.append_assoc]

theorem Intact.subscribe (h : Intact frames later s) (hheld : s.reading.held = []) :
    Intact frames later s.subscribe := by
  obtain ⟨rest, hframes, hbytes⟩ := h.rest
  rw [hheld] at hbytes
  refine ⟨⟨rest, hframes, hbytes⟩, fun d hd => ?_, h.running⟩
  rcases List.mem_append.mp hd with hd | hd
  · exact h.suffix d hd
  · rw [List.mem_singleton.mp hd]
    exact List.nil_suffix

theorem Intact.read (hfits : ∀ f ∈ frames, f.Fits) (h : Intact frames later s) :
    Intact frames later s.read := by
  obtain ⟨rest, hframes, hbytes⟩ := h.rest
  have hrest : ∀ f ∈ rest, f.Fits := fun f hf => hfits f (hframes ▸ List.mem_append_right _ hf)
  rcases audioReader_reads.poll_cases hrest hbytes with
    ⟨r, hpoll, hheld⟩ | ⟨f, rest', unread, rfl, hpoll, hunread⟩
  · have hread : s.read = { s with reading := r, unread := [] } := by
      rw [RelayActor.read, show s.reading.poll s.unread = _ from hpoll]
    rw [hread]
    refine ⟨⟨rest, hframes, ?_⟩, h.suffix, h.running⟩
    rw [List.append_nil]
    exact hheld
  · have hread : s.read = s.broadcast f unread := by
      rw [RelayActor.read, show s.reading.poll s.unread = _ from hpoll]
    rw [hread]
    refine ⟨⟨rest', ?_, hunread⟩, fun d hd => ?_, h.running⟩
    · rw [hframes]
      exact List.append_cons _ _ _
    · obtain ⟨d', hd', rfl⟩ := List.mem_map.mp hd
      obtain ⟨before, hbefore⟩ := h.suffix d' hd'
      refine ⟨before, ?_⟩
      rw [← List.append_assoc, hbefore]
      rfl

theorem Intact.exec {events : List RelayEvent} (hfits : ∀ f ∈ frames, f.Fits)
    (h : Intact frames (arrivals events) s) (hopen : .stop ∉ events)
    (hbetween : Along RelayActor.step BetweenFrames s events)
    (hrun : exec RelayActor.step s events = some t) : Intact frames [] t := by
  have hkept : KeptByRelay (Intact frames) := {
    arrive := fun _ _ _ h => h.arrive
    read := fun _ _ _ h => h.read hfits
    subscribe := fun _ _ hheld h => h.subscribe hheld }
  exact hkept.exec h hopen hbetween hrun

end Intact

section Lost

def RelayActor.weight (s : RelayActor) : ℕ :=
  (s.sent.flatMap writeAudioFrame).length + s.reading.held.length + s.unread.length

theorem RelayActor.weight_read (s : RelayActor) : s.read.weight ≤ s.weight := by
  have hlength := audioReader_reads.length_poll s.reading s.unread
  rcases hpoll : s.reading.poll s.unread with ⟨outcome, rest⟩
  rw [show audioReader.poll s.reading s.unread = (outcome, rest) from hpoll] at hlength
  rw [RelayActor.read, hpoll]
  cases outcome with
  | pending r =>
    have hheld : r.held.length + rest.length = s.reading.held.length + s.unread.length := hlength
    change (s.sent.flatMap writeAudioFrame).length + r.held.length + rest.length ≤ s.weight
    unfold weight
    omega
  | ready f =>
    have hframe : (writeAudioFrame f).length + rest.length =
      s.reading.held.length + s.unread.length := hlength
    change ((s.sent ++ [f]).flatMap writeAudioFrame).length + 0 + rest.length ≤ s.weight
    rw [List.flatMap_append, List.length_append, List.flatMap_singleton]
    unfold weight
    omega
  | failed e =>
    have hle : rest.length ≤ s.reading.held.length + s.unread.length := hlength
    change (s.sent.flatMap writeAudioFrame).length + 0 + rest.length ≤ s.weight
    unfold weight
    omega

theorem RelayActor.weight_subscribe (s : RelayActor) :
    s.subscribe.weight + s.reading.held.length = s.weight := by
  change (s.sent.flatMap writeAudioFrame).length + 0 + s.unread.length + s.reading.held.length = s.weight
  unfold weight
  omega

variable {s t : RelayActor}

theorem RelayActor.weight_step {e : RelayEvent} (h : s.step e = some t) :
    t.weight ≤ s.weight + e.bytes.length ∧
      (t.weight = s.weight + e.bytes.length → BetweenFrames s e) := by
  rcases step_cases h with ⟨bytes, rfl, rfl⟩ | ⟨rfl, rfl⟩ | ⟨rfl, rfl⟩ | ⟨rfl, rfl⟩
  · refine ⟨?_, fun _ => nofun⟩
    change (s.sent.flatMap writeAudioFrame).length + s.reading.held.length +
      (s.unread ++ bytes).length ≤ s.weight + bytes.length
    rw [List.length_append, weight]
    omega
  · exact ⟨s.weight_read, fun _ => nofun⟩
  · have hweight := s.weight_subscribe
    refine ⟨by omega, fun heq _ => List.length_eq_zero_iff.mp ?_⟩
    have hbytes : (RelayEvent.bytes .addDownstream).length = 0 := rfl
    omega
  · exact ⟨le_rfl, fun _ => nofun⟩

theorem RelayActor.weight_exec {events : List RelayEvent} (hrun : exec step s events = some t) :
    t.weight ≤ s.weight + (arrivals events).length ∧
      (t.weight = s.weight + (arrivals events).length → Along step BetweenFrames s events) := by
  induction events generalizing s with
  | nil =>
    cases hrun
    exact ⟨le_rfl, fun _ => trivial⟩
  | cons e events ih =>
    obtain ⟨u, hu, hrun⟩ := exec_cons_eq_some.mp hrun
    obtain ⟨hhead, hlossless⟩ := weight_step hu
    obtain ⟨htail, halong⟩ := ih hrun
    have hlength : (arrivals (e :: events)).length = e.bytes.length + (arrivals events).length :=
      List.length_append
    rw [hlength]
    refine ⟨by omega, fun heq => (along_cons hu).mpr ⟨hlossless (by omega), halong (by omega)⟩⟩

theorem RelayActor.fits_step {e : RelayEvent} (hsent : ∀ f ∈ s.sent, f.Fits) (h : s.step e = some t) :
    ∀ f ∈ t.sent, f.Fits := by
  rcases step_cases h with ⟨bytes, -, rfl⟩ | ⟨-, rfl⟩ | ⟨-, rfl⟩ | ⟨-, rfl⟩
  · exact hsent
  · rcases hpoll : s.reading.poll s.unread with ⟨outcome, rest⟩
    rw [read, hpoll]
    cases outcome with
    | ready f =>
      intro g hg
      rcases List.mem_append.mp hg with hg | hg
      · exact hsent g hg
      · rw [List.mem_singleton.mp hg]
        exact (audioReader_reads.ready s.reading f s.unread rest hpoll).1
    | _ => exact hsent
  · exact hsent
  · exact hsent

theorem RelayActor.fits_exec {events : List RelayEvent} (hsent : ∀ f ∈ s.sent, f.Fits)
    (hrun : exec step s events = some t) : ∀ f ∈ t.sent, f.Fits := by
  have hstep : ∀ (s : RelayActor) (e : RelayEvent) (t : RelayActor), (∀ f ∈ s.sent, f.Fits) →
      True → s.step e = some t → ∀ f ∈ t.sent, f.Fits := fun _ _ _ hs _ => fits_step hs
  exact exec_invariant hstep hsent (Along.of_forall fun _ _ => trivial) hrun

end Lost

/-- The frames come out as they went in just if their lengths fit and no read is cut short. -/
theorem relays_iff_betweenFrames {frames : List AudioFrame} {events : List RelayEvent}
    {t : RelayActor} (hrun : exec RelayActor.step .start events = some t) (hopen : .stop ∉ events)
    (harrived : arrivals events = frames.flatMap writeAudioFrame)
    (hread : t.running = true → t.unread = []) :
    Relays frames t ↔
      (∀ f ∈ frames, f.Fits) ∧ Along RelayActor.step BetweenFrames .start events := by
  constructor
  · rintro ⟨hsent, -⟩
    refine ⟨hsent ▸ RelayActor.fits_exec (fun _ hf => absurd hf List.not_mem_nil) hrun, ?_⟩
    obtain ⟨hle, hlossless⟩ := RelayActor.weight_exec hrun
    apply hlossless
    have hstart : RelayActor.start.weight = 0 := rfl
    have hweight : (t.sent.flatMap writeAudioFrame).length ≤ t.weight := by
      unfold RelayActor.weight
      omega
    rw [hsent, ← harrived] at hweight
    omega
  · rintro ⟨hfits, hbetween⟩
    have hstart : Intact frames (arrivals events) .start :=
      ⟨⟨frames, rfl, harrived⟩, fun _ hd => absurd hd List.not_mem_nil, rfl⟩
    have hfinal := hstart.exec hfits hopen hbetween hrun
    obtain ⟨rest, hframes, hbytes⟩ := hfinal.rest
    rw [hread hfinal.running, List.append_nil, List.append_nil] at hbytes
    have hrest : rest = [] := audioReader_reads.eq_nil_of_held
      (fun f hf => hfits f (hframes ▸ List.mem_append_right _ hf)) hbytes
    rw [hrest, List.append_nil] at hframes
    refine ⟨hframes.symm, fun d hd => ?_⟩
    rw [hframes]
    exact hfinal.suffix d hd

section Examples

def silence : AudioFrame := ⟨1, 0, 0, []⟩

def smooth : List RelayEvent :=
  [.addDownstream, .arrive [0, 9, 0, 0], .poll, .arrive [0, 1, 0, 0, 0, 0, 0], .poll, .addDownstream]

theorem relays_iff_betweenFrames_smooth :
    Relays [silence] ⟨[], .start, [silence], [[silence], []], true⟩ ↔
      (∀ f ∈ [silence], f.Fits) ∧ Along RelayActor.step BetweenFrames .start smooth :=
  have hrun : exec RelayActor.step .start smooth = some ⟨[], .start, [silence], [[silence], []], true⟩ := rfl
  relays_iff_betweenFrames hrun (by decide) rfl fun _ => rfl

/-- The listener comes when one byte of the length has been read. -/
def interrupted : List RelayEvent :=
  [.arrive [0], .poll, .addDownstream, .arrive [9, 0, 0, 0, 1, 0, 0, 0, 0, 0], .poll]

/-- All bytes are read, no frame comes out: the bytes that are left seem to announce a long one. -/
theorem not_relays_interrupted :
    arrivals interrupted = [silence].flatMap writeAudioFrame ∧
      ∃ t, exec RelayActor.step .start interrupted = some t ∧ t.unread = [] ∧ t.running = true ∧
        ¬ Relays [silence] t := by
  refine ⟨rfl, _, rfl, rfl, rfl, ?_⟩
  rintro ⟨hsent, -⟩
  cases hsent

end Examples

end Proscenium.Stage
