import Proscenium.Audio.AudioStream
import Proscenium.Audio.Codec
import Proscenium.Stage.AuthDefs
import Proscenium.Stage.RelayFraming

/-! The bytes of a stage's audio from the host over any number of relays. The
mixer (`run_mixer` in `stage/mixer.rs`) numbers and authenticates the packets of
its encoders; a relay broadcasts the frames that it reads, and the task of each
downstream writes what it gets of them (`run_downstream_subscriber`). -/

namespace Proscenium.Stage

open Proscenium.Types Proscenium.Audio Machine FrameStream

section Mixer

variable {σ α : Type} (C : AuthCrates) (opus : Opus σ α)

/-- The actor, as far as it is about the frames that it sends. -/
structure HostMixer (σ α : Type) where
  listenerEncoder : OpusEncoder σ α
  hostSfuEncoder : OpusEncoder σ α
  auth : HostAuthState
  listenerSeq : UInt32
  listenerTs : UInt32
  hostSfuSeq : UInt32
  hostSfuTs : UInt32

namespace HostMixer

/-- The packets of the full mix go to `listener_fanout`. -/
def sendListener (m : HostMixer σ α) : List Bytes → List AudioFrame × HostMixer σ α
  | [] => ([], m)
  | packet :: packets =>
    let ((tag, wirePayload), auth) := m.auth.process C packet
    let (frames, last) := sendListener
      { m with
        auth, listenerSeq := m.listenerSeq + 1
        listenerTs := m.listenerTs + UInt32.ofNat samplesPerFrame } packets
    (⟨m.listenerSeq, m.listenerTs, tag, wirePayload⟩ :: frames, last)

/-- The packets of the host's own voice go to `host_sfu_fanout`, without authentication. -/
def sendHostSfu (m : HostMixer σ α) : List Bytes → List AudioFrame × HostMixer σ α
  | [] => ([], m)
  | packet :: packets =>
    let (frames, last) := sendHostSfu
      { m with
        hostSfuSeq := m.hostSfuSeq + 1
        hostSfuTs := m.hostSfuTs + UInt32.ofNat samplesPerFrame } packets
    (⟨m.hostSfuSeq, m.hostSfuTs, tagNormal, packet⟩ :: frames, last)

/-- A tick of the mixer, with the mix and the host's contribution to it. -/
def tick (m : HostMixer σ α) (fullMix hostOnly : List α) : List AudioFrame × HostMixer σ α :=
  let (packets, listenerEncoder) := m.listenerEncoder.pushSamples opus fullMix
  let (toListeners, m) := sendListener C { m with listenerEncoder } packets
  let (packets, hostSfuEncoder) := m.hostSfuEncoder.pushSamples opus hostOnly
  let (toSpeakers, m) := sendHostSfu { m with hostSfuEncoder } packets
  (toListeners ++ toSpeakers, m)

def emitted (m : HostMixer σ α) : List (List α × List α) → List AudioFrame
  | [] => []
  | (fullMix, hostOnly) :: ticks =>
    (m.tick C opus fullMix hostOnly).1 ++ emitted (m.tick C opus fullMix hostOnly).2 ticks

end HostMixer

def FromPacket (f : AudioFrame) : Prop := f.payload.length ≤ maxPacketSize + checkpointExtra

theorem HostAuthState.length_process (opus : Bytes) (s : HostAuthState) :
    (s.process C opus).1.2.length ≤ opus.length + checkpointExtra := by
  have hcheckpoint : checkpointExtra = 96 := rfl
  rw [HostAuthState.process]
  dsimp only
  split
  · rw [List.length_append, List.length_append, Vector.length_toList, Vector.length_toList]
    omega
  · exact Nat.le_add_right _ _

theorem HostMixer.sendListener_fromPacket (m : HostMixer σ α) {packets : List Bytes}
    (hpackets : ∀ packet ∈ packets, packet.length ≤ maxPacketSize) :
    ∀ f ∈ (m.sendListener C packets).1, FromPacket f := by
  induction packets generalizing m with
  | nil => exact fun _ h => absurd h List.not_mem_nil
  | cons packet packets ih =>
    obtain ⟨hpacket, hrest⟩ := List.forall_mem_cons.mp hpackets
    have hprocess := m.auth.length_process C packet
    rw [sendListener]
    refine List.forall_mem_cons.mpr ⟨?_, ih _ hrest⟩
    exact hprocess.trans (Nat.add_le_add_right hpacket _)

theorem HostMixer.sendHostSfu_fromPacket (m : HostMixer σ α) {packets : List Bytes}
    (hpackets : ∀ packet ∈ packets, packet.length ≤ maxPacketSize) :
    ∀ f ∈ (m.sendHostSfu packets).1, FromPacket f := by
  induction packets generalizing m with
  | nil => exact fun _ h => absurd h List.not_mem_nil
  | cons packet packets ih =>
    obtain ⟨hpacket, hrest⟩ := List.forall_mem_cons.mp hpackets
    rw [sendHostSfu]
    refine List.forall_mem_cons.mpr ⟨?_, ih _ hrest⟩
    exact hpacket.trans (Nat.le_add_right _ _)

theorem HostMixer.tick_fromPacket (m : HostMixer σ α) (fullMix hostOnly : List α) :
    ∀ f ∈ (m.tick C opus fullMix hostOnly).1, FromPacket f := by
  intro f hf
  rcases List.mem_append.mp hf with hf | hf
  · exact sendListener_fromPacket C _ (OpusEncoder.length_pushSamples opus _ _) f hf
  · exact sendHostSfu_fromPacket _ (OpusEncoder.length_pushSamples opus _ _) f hf

theorem HostMixer.emitted_fromPacket (m : HostMixer σ α) (ticks : List (List α × List α)) :
    ∀ f ∈ m.emitted C opus ticks, FromPacket f := by
  induction ticks generalizing m with
  | nil => exact fun _ h => absurd h List.not_mem_nil
  | cons tick ticks ih =>
    intro f hf
    rcases List.mem_append.mp hf with hf | hf
    · exact m.tick_fromPacket C opus _ _ f hf
    · exact ih _ f hf

end Mixer

section Hop

def RelayActor.channel (s : RelayActor) : List AudioFrame := s.downstreams.headD []

def RelayActor.inHand (s : RelayActor) : Bytes := s.reading.held ++ s.unread

/-- A relay with a subscriber that is there from the start. -/
structure RelayHop where
  relay : RelayActor
  /-- What the upstream has still to bring. -/
  coming : Bytes
  /-- How many frames the subscriber has received or skipped. -/
  received : ℕ
  written : List AudioFrame
  listening : Bool
  deriving DecidableEq, Repr

inductive HopEvent where
  | relay (e : RelayEvent)
  | recv
  /-- The subscriber lags and skips so many frames. -/
  | lagged (n : ℕ)
  /-- It is cancelled, or a write fails. -/
  | quit
  deriving DecidableEq, Repr

/-- Of `broadcast::channel`, which may keep more than it is asked for. -/
def relayBuffer : ℕ := 50

namespace RelayHop

def start (upstream : Bytes) : RelayHop := ⟨RelayActor.start.subscribe, upstream, 0, [], true⟩

/-- `run_downstream_subscriber` writes the next frame; it ends with the relay, once it has them all. -/
def recv (s : RelayHop) : Option RelayHop :=
  match s.relay.channel[s.received]? with
  | some f => some { s with received := s.received + 1, written := s.written ++ [f] }
  | none => if s.relay.running then none else some { s with listening := false }

def step (s : RelayHop) : HopEvent → Option RelayHop
  | .relay e =>
    if e.bytes <+: s.coming then
      (s.relay.step e).map fun relay => { s with relay, coming := s.coming.drop e.bytes.length }
    else none
  | .recv => if s.listening then s.recv else none
  | .lagged n =>
    if s.listening ∧ 0 < n ∧ relayBuffer < s.relay.channel.length - s.received ∧
        n ≤ s.relay.channel.length - s.received then
      some { s with received := s.received + n }
    else none
  | .quit => if s.listening then some { s with listening := false } else none

/-- The relay has read all, or has ended, and the subscriber has received all, or has ended. -/
def Done (s : RelayHop) : Prop :=
  (s.relay.running = true → s.relay.unread = [] ∧ s.coming = []) ∧
    (s.listening = true → s.relay.channel.length ≤ s.received)

end RelayHop

/-- What the subscriber writes of `upstream`, in a run to its end. -/
def Hop (events : List HopEvent) (upstream downstream : Bytes) : Prop :=
  ∃ t, exec RelayHop.step (.start upstream) events = some t ∧ t.Done ∧ downstream = writeAudioFrames t.written

/-- Any number of relays, each of them a subscriber of the one before. -/
inductive Hops : Bytes → List (List HopEvent) → Bytes → Prop where
  | nil (bs : Bytes) : Hops bs [] bs
  | cons {bs next downstream : Bytes} {events : List HopEvent} {runs : List (List HopEvent)} :
    Hop events bs next → Hops next runs downstream → Hops bs (events :: runs) downstream

/-- No other downstream comes in the middle of a frame, the subscriber does not lag, and neither it
nor the relay ends before the stream does. -/
def Uninterrupted (s : RelayHop) : HopEvent → Prop
  | .relay .addDownstream => s.listening = true → s.relay.reading.held = []
  | .relay .stop => s.listening = true → s.relay.inHand ++ s.coming = []
  | .relay (.arrive _) | .relay .poll | .recv => True
  | .lagged _ => False
  | .quit => s.relay.channel.length ≤ s.received ∧ (s.relay.running = true → s.relay.inHand ++ s.coming = [])

variable {stop : StreamEnd} {bs : Bytes} {s t : RelayHop}

theorem RelayActor.read_cases (s : RelayActor) :
    (∃ r : ReadAudioFrame, s.read = { s with reading := r, unread := [] } ∧ r.held = s.reading.held ++ s.unread) ∨
    (∃ f unread, s.read = s.broadcast f unread ∧ f.Fits ∧
      s.reading.held ++ s.unread = writeAudioFrame f ++ unread) ∨
    ∃ unread, s.read = { s with reading := .start, unread, running := false } ∧
      ∀ f xs ys, f.Fits → (s.reading.held ++ s.unread) ++ xs ≠ writeAudioFrame f ++ ys := by
  rcases hpoll : s.reading.poll s.unread with ⟨outcome, rest⟩
  rw [RelayActor.read, hpoll]
  cases outcome with
  | pending r =>
    obtain ⟨rfl, hheld⟩ := audioReader_reads.pending _ _ _ _ hpoll
    exact .inl ⟨r, rfl, hheld⟩
  | ready f =>
    obtain ⟨hfits, hbytes⟩ := audioReader_reads.ready _ _ _ _ hpoll
    exact .inr (.inl ⟨f, rest, rfl, hfits, hbytes⟩)
  | failed e =>
    obtain ⟨-, -, hbad⟩ := audioReader_reads.failed _ _ _ _ hpoll
    exact .inr (.inr ⟨rest, rfl, hbad⟩)

namespace RelayHop

/-- The subscriber has its channel, and has not received more than was in it. -/
def Seated (s : RelayHop) : Prop := s.relay.downstreams ≠ [] ∧ s.received ≤ s.relay.channel.length

theorem channel_broadcast {r : RelayActor} (h : r.downstreams ≠ []) (f : AudioFrame) (unread : Bytes) :
    (r.broadcast f unread).channel = r.channel ++ [f] := by
  obtain ⟨d, ds, hd⟩ := List.exists_cons_of_ne_nil h
  simp only [RelayActor.channel, RelayActor.broadcast, hd, List.map_cons, List.headD_cons]

theorem channel_subscribe {r : RelayActor} (h : r.downstreams ≠ []) : r.subscribe.channel = r.channel := by
  obtain ⟨d, ds, hd⟩ := List.exists_cons_of_ne_nil h
  simp only [RelayActor.channel, RelayActor.subscribe, hd, List.cons_append, List.headD_cons]

/-- What a step is, by what it does to the bytes and to the frames in the channel. -/
inductive Moves (s : RelayHop) : HopEvent → RelayHop → Prop where
  | arrive (bytes later : Bytes) (hcoming : s.coming = bytes ++ later) : Moves s (.relay (.arrive bytes))
      { s with relay := { s.relay with unread := s.relay.unread ++ bytes }, coming := later }
  | poll (hrunning : s.relay.running = true) : Moves s (.relay .poll) { s with relay := s.relay.read }
  | addDownstream (hrunning : s.relay.running = true) :
      Moves s (.relay .addDownstream) { s with relay := s.relay.subscribe }
  | stop (hrunning : s.relay.running = true) :
      Moves s (.relay .stop) { s with relay := { s.relay with running := false } }
  | recv (f : AudioFrame) (hlistening : s.listening = true) (hnext : s.relay.channel[s.received]? = some f) :
      Moves s .recv { s with received := s.received + 1, written := s.written ++ [f] }
  | closed (hlistening : s.listening = true) (hnext : s.relay.channel[s.received]? = none)
      (hrunning : s.relay.running = false) : Moves s .recv { s with listening := false }
  | lagged (n : ℕ) (hlistening : s.listening = true) (hpos : 0 < n) (hle : n ≤ s.relay.channel.length - s.received) :
      Moves s (.lagged n) { s with received := s.received + n }
  | quit (hlistening : s.listening = true) : Moves s .quit { s with listening := false }

theorem moves_of_step {e : HopEvent} (h : s.step e = some t) : Moves s e t := by
  cases e with
  | relay e =>
    obtain ⟨⟨later, hcoming⟩, h⟩ := Option.ite_none_right_eq_some.mp h
    obtain ⟨relay, hrelay, rfl⟩ := Option.map_eq_some_iff.mp h
    have hdrop : s.coming.drop e.bytes.length = later := by rw [← hcoming, List.drop_left]
    rw [hdrop]
    cases e with
    | arrive bytes =>
      obtain rfl := Option.some.inj hrelay
      exact .arrive bytes later hcoming.symm
    | poll =>
      obtain ⟨hrunning, hrelay⟩ := Option.ite_none_right_eq_some.mp hrelay
      obtain rfl := Option.some.inj hrelay
      obtain rfl : later = s.coming := hcoming
      exact .poll hrunning
    | addDownstream =>
      obtain ⟨hrunning, hrelay⟩ := Option.ite_none_right_eq_some.mp hrelay
      obtain rfl := Option.some.inj hrelay
      obtain rfl : later = s.coming := hcoming
      exact .addDownstream hrunning
    | stop =>
      obtain ⟨hrunning, hrelay⟩ := Option.ite_none_right_eq_some.mp hrelay
      obtain rfl := Option.some.inj hrelay
      obtain rfl : later = s.coming := hcoming
      exact .stop hrunning
  | recv =>
    obtain ⟨hlistening, h⟩ := Option.ite_none_right_eq_some.mp h
    unfold RelayHop.recv at h
    split at h
    next f hnext =>
      obtain rfl := Option.some.inj h
      exact .recv f hlistening hnext
    next hnext =>
      split at h
      next => cases h
      next hrunning =>
        obtain rfl := Option.some.inj h
        exact .closed hlistening hnext (Bool.not_eq_true _ ▸ hrunning)
  | lagged n =>
    obtain ⟨⟨hlistening, hpos, -, hle⟩, h⟩ := Option.ite_none_right_eq_some.mp h
    obtain rfl := Option.some.inj h
    exact .lagged n hlistening hpos hle
  | quit =>
    obtain ⟨hlistening, h⟩ := Option.ite_none_right_eq_some.mp h
    obtain rfl := Option.some.inj h
    exact .quit hlistening

theorem Seated.step (h : s.Seated) {e : HopEvent} (hstep : s.step e = some t) : t.Seated := by
  obtain ⟨hne, hle⟩ := h
  cases moves_of_step hstep with
  | arrive | stop | closed | quit => exact ⟨hne, hle⟩
  | poll hrunning =>
    rcases s.relay.read_cases with ⟨r, hread, -⟩ | ⟨f, unread, hread, -⟩ | ⟨unread, hread, -⟩
    · rw [hread]
      exact ⟨hne, hle⟩
    · rw [hread]
      refine ⟨by simpa [RelayActor.broadcast] using hne, ?_⟩
      rw [channel_broadcast hne, List.length_append]
      exact Nat.le_add_right_of_le hle
    · rw [hread]
      exact ⟨hne, hle⟩
  | addDownstream =>
    refine ⟨by simp [RelayActor.subscribe], ?_⟩
    rw [channel_subscribe hne]
    exact hle
  | recv f hlistening hnext =>
    obtain ⟨hlt, -⟩ := List.getElem?_eq_some_iff.mp hnext
    exact ⟨hne, hlt⟩
  | lagged n hlistening hpos hn =>
    have hsum : s.received + n ≤ s.relay.channel.length := by omega
    exact ⟨hne, hsum⟩

theorem seated_start (upstream : Bytes) : (start upstream).Seated := ⟨List.cons_ne_nil _ _, le_rfl⟩

/-- The frames of the stream are those written, those in the channel, and those in the bytes. -/
def Carries (stop : StreamEnd) (bs : Bytes) (s : RelayHop) : Prop :=
  (readAudioFrames stop bs).1 = s.written ++
    if s.listening then
      s.relay.channel.drop s.received ++
        if s.relay.running then (readAudioFrames stop (s.relay.inHand ++ s.coming)).1 else []
    else []

theorem drop_of_length_le (h : s.relay.channel.length ≤ s.received) : s.relay.channel.drop s.received = [] :=
  List.drop_eq_nil_of_le h

theorem frames_nil (stop : StreamEnd) : (readAudioFrames stop []).1 = [] := by
  obtain ⟨outcome, hnil⟩ := readAudioFrames_nil stop
  rw [hnil]

theorem Carries.read (hseated : s.Seated) (hrunning : s.relay.running = true) (h : Carries stop bs s) :
    Carries stop bs { s with relay := s.relay.read } := by
  unfold Carries at h ⊢
  rw [h, hrunning]
  dsimp only
  refine congrArg (s.written ++ ·) (if_congr Iff.rfl ?_ rfl)
  rw [if_pos rfl]
  rcases s.relay.read_cases with ⟨r, hread, hheld⟩ | ⟨f, unread, hread, hfits, hbytes⟩ | ⟨unread, hread, hbad⟩
  · have hhand : s.relay.read.inHand = s.relay.inHand := by
      rw [hread]
      exact (List.append_nil _).trans hheld
    rw [hhand, hread, if_pos hrunning]
    rfl
  · -- the frame goes from the bytes to the channel
    have hhand : s.relay.inHand = writeAudioFrame f ++ unread := hbytes
    have hunread : (s.relay.broadcast f unread).inHand = unread := rfl
    rw [hread, channel_broadcast hseated.1, List.drop_append_of_le_length hseated.2, hunread, hhand,
      List.append_assoc, frames_writeAudioFrame stop hfits, List.append_assoc,
      if_pos (show (s.relay.broadcast f unread).running = true from hrunning), List.singleton_append]
  · have hnone : (readAudioFrames stop (s.relay.inHand ++ s.coming)).1 = [] :=
      frames_eq_nil stop fun f ys hf => hbad f s.coming ys hf
    rw [hnone, hread]
    rfl

theorem Carries.step (hseated : s.Seated) (h : Carries stop bs s) {e : HopEvent} (hok : Uninterrupted s e)
    (hstep : s.step e = some t) : Carries stop bs t := by
  cases moves_of_step hstep with
  | arrive bytes later hcoming =>
    have hbytes : s.relay.inHand ++ s.coming = ((s.relay.reading.held ++ (s.relay.unread ++ bytes)) ++ later) := by
      rw [hcoming, RelayActor.inHand]
      simp only [List.append_assoc]
    unfold Carries at h ⊢
    rw [h, hbytes]
    rfl
  | poll hrunning => exact h.read hseated hrunning
  | addDownstream =>
    unfold Carries at h ⊢
    rw [h]
    cases hlistening : s.listening with
    | false => rfl
    | true =>
      have hhand : s.relay.subscribe.inHand = s.relay.inHand := by
        change ReadAudioFrame.start.held ++ s.relay.unread = s.relay.reading.held ++ s.relay.unread
        rw [hok hlistening]
        rfl
      dsimp only
      rw [channel_subscribe hseated.1, hhand]
      rfl
  | stop hrunning =>
    unfold Carries at h ⊢
    rw [h]
    cases hlistening : s.listening with
    | false => rfl
    | true =>
      rw [hok hlistening, frames_nil, ite_self]
      rfl
  | recv f hlistening hnext =>
    obtain ⟨hlt, hget⟩ := List.getElem?_eq_some_iff.mp hnext
    unfold Carries at h ⊢
    rw [h, List.drop_eq_getElem_cons hlt, hget]
    simp only [hlistening, if_true, List.append_assoc, List.cons_append, List.nil_append]
  | closed hlistening hnext hrunning =>
    unfold Carries at h ⊢
    rw [h, hlistening, hrunning, drop_of_length_le (List.getElem?_eq_none_iff.mp hnext)]
    rfl
  | lagged => exact absurd hok id
  | quit hlistening =>
    obtain ⟨hall, hrest⟩ := hok
    unfold Carries at h ⊢
    rw [h, hlistening, drop_of_length_le hall]
    cases hrunning : s.relay.running with
    | false => rfl
    | true =>
      rw [hrest hrunning, frames_nil]
      rfl

theorem Carries.exec {events : List HopEvent} (hseated : s.Seated) (h : Carries stop bs s)
    (hok : Along RelayHop.step Uninterrupted s events) (hrun : Machine.exec RelayHop.step s events = some t) :
    Carries stop bs t := by
  have hinv := Machine.exec_invariant (I := fun s => s.Seated ∧ Carries stop bs s) ?_ ⟨hseated, h⟩ hok hrun
  · exact hinv.2
  · rintro s e t ⟨hseated, h⟩ hok hstep
    exact ⟨hseated.step hstep, h.step hseated hok hstep⟩

theorem frames_held (r : ReadAudioFrame) : (readAudioFrames stop r.held).1 = [] :=
  frames_eq_nil stop fun _ xs hf => r.held_ne hf xs

theorem Carries.written (h : Carries stop bs s) (hdone : s.Done) : s.written = (readAudioFrames stop bs).1 := by
  obtain ⟨hread, hreceived⟩ := hdone
  unfold Carries at h
  rw [h]
  cases hlistening : s.listening with
  | false => exact (List.append_nil _).symm
  | true =>
    rw [drop_of_length_le (hreceived hlistening)]
    cases hrunning : s.relay.running with
    | false => exact (List.append_nil _).symm
    | true =>
      obtain ⟨hunread, hcoming⟩ := hread hrunning
      rw [RelayActor.inHand, hunread, hcoming, List.append_nil, List.append_nil, frames_held]
      exact (List.append_nil _).symm

/-- The bytes of what the subscriber has written and can still come to write. -/
def weight (s : RelayHop) : ℕ :=
  (writeAudioFrames s.written).length +
    if s.listening then
      (writeAudioFrames (s.relay.channel.drop s.received)).length +
        if s.relay.running then (s.relay.inHand ++ s.coming).length else 0
    else 0

theorem writeAudioFrames_cons (f : AudioFrame) (frames : List AudioFrame) :
    writeAudioFrames (f :: frames) = writeAudioFrame f ++ writeAudioFrames frames := rfl

theorem writeAudioFrames_append (frames frames' : List AudioFrame) :
    writeAudioFrames (frames ++ frames') = writeAudioFrames frames ++ writeAudioFrames frames' :=
  List.flatMap_append

theorem length_writeAudioFrames_pos {frames : List AudioFrame} (h : frames ≠ []) :
    0 < (writeAudioFrames frames).length := by
  obtain ⟨f, frames, rfl⟩ := List.exists_cons_of_ne_nil h
  rw [writeAudioFrames_cons, List.length_append, length_writeAudioFrame]
  omega

theorem weight_read (hseated : s.Seated) (hrunning : s.relay.running = true) :
    { s with relay := s.relay.read }.weight ≤ s.weight := by
  unfold weight
  dsimp only
  rw [hrunning, if_pos rfl]
  refine Nat.add_le_add_left ?_ _
  cases s.listening with
  | false => exact le_rfl
  | true =>
    rw [if_pos rfl, if_pos rfl]
    rcases s.relay.read_cases with ⟨r, hread, hheld⟩ | ⟨f, unread, hread, -, hbytes⟩ | ⟨unread, hread, -⟩
    · have hhand : s.relay.read.inHand = s.relay.inHand := by
        rw [hread]
        exact (List.append_nil _).trans hheld
      rw [hhand, hread, if_pos hrunning]
      exact le_rfl
    · have hhand : s.relay.inHand = writeAudioFrame f ++ unread := hbytes
      have hunread : (s.relay.broadcast f unread).inHand = unread := rfl
      have hone : writeAudioFrames [f] = writeAudioFrame f := List.append_nil _
      rw [hread, channel_broadcast hseated.1, List.drop_append_of_le_length hseated.2, hunread, hhand,
        writeAudioFrames_append, hone, if_pos (show (s.relay.broadcast f unread).running = true from hrunning)]
      simp only [List.length_append]
      omega
    · rw [hread]
      exact Nat.add_le_add_left (Nat.zero_le _) _

/-- No step makes bytes, and one that loses none is not one of those that break the stream. -/
theorem weight_step (hseated : s.Seated) {e : HopEvent} (hstep : s.step e = some t) :
    t.weight ≤ s.weight ∧ (t.weight = s.weight → Uninterrupted s e) := by
  cases moves_of_step hstep with
  | arrive bytes later hcoming =>
    refine ⟨le_of_eq ?_, fun _ => trivial⟩
    have hbytes : (s.relay.reading.held ++ (s.relay.unread ++ bytes)) ++ later = s.relay.inHand ++ s.coming := by
      rw [hcoming, RelayActor.inHand]
      simp only [List.append_assoc]
    unfold weight
    rw [← hbytes]
    rfl
  | poll hrunning => exact ⟨weight_read hseated hrunning, fun _ => trivial⟩
  | addDownstream hrunning =>
    have hhand : (s.relay.inHand ++ s.coming).length =
        s.relay.reading.held.length + (s.relay.subscribe.inHand ++ s.coming).length := by
      change ((s.relay.reading.held ++ s.relay.unread) ++ s.coming).length =
        s.relay.reading.held.length + (([] ++ s.relay.unread) ++ s.coming).length
      simp only [List.length_append, List.length_nil]
      omega
    unfold weight
    dsimp only
    rw [channel_subscribe hseated.1, hhand, hrunning, if_pos rfl,
      if_pos (show s.relay.subscribe.running = true from hrunning)]
    cases hlistening : s.listening with
    | false => exact ⟨le_rfl, fun _ hlistens => absurd (hlistening.symm.trans hlistens) Bool.false_ne_true⟩
    | true =>
      rw [if_pos rfl, if_pos rfl]
      refine ⟨by omega, fun heq _ => List.length_eq_zero_iff.mp ?_⟩
      omega
  | stop hrunning =>
    unfold weight
    dsimp only
    rw [hrunning, if_pos rfl, if_neg Bool.false_ne_true]
    cases hlistening : s.listening with
    | false => exact ⟨le_rfl, fun _ hlistens => absurd (hlistening.symm.trans hlistens) Bool.false_ne_true⟩
    | true =>
      rw [if_pos rfl, if_pos rfl]
      have hchannel : ({ s.relay with running := false } : RelayActor).channel = s.relay.channel := rfl
      rw [hchannel]
      refine ⟨by omega, fun heq _ => List.length_eq_zero_iff.mp ?_⟩
      omega
  | recv f hlistening hnext =>
    refine ⟨le_of_eq ?_, fun _ => trivial⟩
    obtain ⟨hlt, hget⟩ := List.getElem?_eq_some_iff.mp hnext
    have hone : writeAudioFrames [f] = writeAudioFrame f := List.append_nil _
    unfold weight
    rw [List.drop_eq_getElem_cons hlt, hget, writeAudioFrames_cons, writeAudioFrames_append, hone]
    simp only [hlistening, if_true, List.length_append]
    omega
  | closed hlistening hnext hrunning =>
    refine ⟨?_, fun _ => trivial⟩
    unfold weight
    rw [hlistening, if_pos rfl]
    exact Nat.add_le_add_left (Nat.zero_le _) _
  | lagged n hlistening hpos hle =>
    -- the frames that are skipped have bytes
    have hsplit : s.relay.channel.drop s.received =
        (s.relay.channel.drop s.received).take n ++ s.relay.channel.drop (s.received + n) := by
      rw [← List.drop_drop]
      exact (List.take_append_drop n _).symm
    have hskipped : 0 < (writeAudioFrames ((s.relay.channel.drop s.received).take n)).length := by
      apply length_writeAudioFrames_pos
      rw [← List.length_pos_iff, List.length_take, List.length_drop]
      omega
    unfold weight
    dsimp only
    rw [hlistening, if_pos rfl, if_pos rfl, hsplit, writeAudioFrames_append]
    simp only [List.length_append]
    refine ⟨by omega, fun heq => ?_⟩
    omega
  | quit hlistening =>
    unfold weight
    dsimp only
    rw [hlistening, if_pos rfl, if_neg Bool.false_ne_true]
    refine ⟨by omega, fun heq => ⟨?_, fun hrunning => List.length_eq_zero_iff.mp ?_⟩⟩
    · by_contra hlt
      have hne : s.relay.channel.drop s.received ≠ [] := by
        rw [ne_eq, List.drop_eq_nil_iff]
        exact hlt
      have hpos := length_writeAudioFrames_pos hne
      omega
    · rw [if_pos hrunning] at heq
      omega

theorem weight_exec {events : List HopEvent} (hseated : s.Seated) (hrun : exec step s events = some t) :
    t.weight ≤ s.weight ∧ (t.weight = s.weight → Along step Uninterrupted s events) := by
  induction events generalizing s with
  | nil =>
    cases hrun
    exact ⟨le_rfl, fun _ => trivial⟩
  | cons e events ih =>
    obtain ⟨u, hu, hrun⟩ := exec_cons_eq_some.mp hrun
    obtain ⟨hhead, hlossless⟩ := weight_step hseated hu
    obtain ⟨htail, halong⟩ := ih (hseated.step hu) hrun
    exact ⟨htail.trans hhead, fun heq => (along_cons hu).mpr ⟨hlossless (by omega), halong (by omega)⟩⟩

end RelayHop

theorem Hop.eq_writeAudioFrames {events : List HopEvent} {upstream downstream : Bytes}
    (h : Hop events upstream downstream) (huninterrupted : Along RelayHop.step Uninterrupted (.start upstream) events)
    (stop : StreamEnd) : downstream = writeAudioFrames (readAudioFrames stop upstream).1 := by
  obtain ⟨t, hrun, hdone, rfl⟩ := h
  have hstart : RelayHop.Carries stop upstream (.start upstream) := rfl
  rw [(hstart.exec (RelayHop.seated_start upstream) huninterrupted hrun).written hdone]

theorem Hop.length_le {events : List HopEvent} {upstream downstream : Bytes} (h : Hop events upstream downstream) :
    downstream.length ≤ upstream.length ∧
      (downstream.length = upstream.length → Along RelayHop.step Uninterrupted (.start upstream) events) := by
  obtain ⟨t, hrun, -, rfl⟩ := h
  obtain ⟨hle, huninterrupted⟩ := RelayHop.weight_exec (RelayHop.seated_start upstream) hrun
  have hstart : (RelayHop.start upstream).weight = upstream.length := by
    change 0 + (0 + ([] ++ upstream).length) = upstream.length
    simp
  have hwritten : (writeAudioFrames t.written).length ≤ t.weight := Nat.le_add_right _ _
  exact ⟨by omega, fun heq => huninterrupted (by omega)⟩

theorem Hops.length_le {runs : List (List HopEvent)} {upstream downstream : Bytes}
    (h : Hops upstream runs downstream) : downstream.length ≤ upstream.length := by
  induction h with
  | nil => exact le_rfl
  | cons hhop _ ih => exact ih.trans hhop.length_le.1

theorem frames_writeAudioFrames {frames : List AudioFrame} (hfits : ∀ f ∈ frames, f.Fits) (stop : StreamEnd) :
    (readAudioFrames stop (writeAudioFrames frames)).1 = frames := by
  have hframes := readAudioFrames_append stop hfits []
  obtain ⟨outcome, hnil⟩ := readAudioFrames_nil stop
  rw [List.append_nil, hnil, List.append_nil] at hframes
  rw [hframes]

/-- Over any number of relays the bytes of whole frames come out as they went in just if no hop
breaks its stream. -/
theorem hops_writeAudioFrames_iff {frames : List AudioFrame} (hfits : ∀ f ∈ frames, f.Fits)
    {runs : List (List HopEvent)} {downstream : Bytes} (h : Hops (writeAudioFrames frames) runs downstream) :
    downstream = writeAudioFrames frames ↔
      ∀ events ∈ runs, Along RelayHop.step Uninterrupted (.start (writeAudioFrames frames)) events := by
  generalize hupstream : writeAudioFrames frames = upstream at h
  induction h with
  | nil => exact iff_of_true rfl fun _ hevents => absurd hevents List.not_mem_nil
  | @cons _ next downstream events runs hhop hhops ih =>
    subst hupstream
    have hsame : Along RelayHop.step Uninterrupted (.start (writeAudioFrames frames)) events →
        writeAudioFrames frames = next := by
      intro huninterrupted
      rw [hhop.eq_writeAudioFrames huninterrupted .finished, frames_writeAudioFrames hfits]
    rw [List.forall_mem_cons]
    constructor
    · intro heq
      obtain ⟨hle, huninterrupted⟩ := hhop.length_le
      have hlater := hhops.length_le
      rw [heq] at hlater
      have hfirst := huninterrupted (le_antisymm hle hlater)
      have hnext := hsame hfirst
      exact ⟨hfirst, hnext ▸ (ih hnext).mp (heq.trans hnext)⟩
    · rintro ⟨hfirst, hrest⟩
      have hnext := hsame hfirst
      exact ((ih hnext).mpr (hnext ▸ hrest)).trans hnext.symm

theorem Hops.eq_writeAudioFrames {bs downstream : Bytes} {events : List HopEvent} {runs : List (List HopEvent)}
    (h : Hops bs (events :: runs) downstream) (stop : StreamEnd)
    (hfits : ∀ f ∈ (readAudioFrames stop bs).1, f.Fits)
    (hfirst : Along RelayHop.step Uninterrupted (.start bs) events)
    (hrest : ∀ later ∈ runs,
      Along RelayHop.step Uninterrupted (.start (writeAudioFrames (readAudioFrames stop bs).1)) later) :
    downstream = writeAudioFrames (readAudioFrames stop bs).1 := by
  cases h with
  | cons hhop hhops =>
    have hnext := hhop.eq_writeAudioFrames hfirst stop
    subst hnext
    exact (hops_writeAudioFrames_iff hfits hhops).mpr hrest

end Hop

theorem fits_iff (f : AudioFrame) : f.Fits ↔ f.payload.length ≤ 65535 - headerSize := by
  have hheader : headerSize = 9 := rfl
  rw [AudioFrame.Fits, length_encodeAudioFrame]
  omega

theorem FromPacket.length_le {f : AudioFrame} (h : FromPacket f) :
    f.payload.length ≤ 65535 - headerSize := by
  have hpacket : maxPacketSize + checkpointExtra ≤ 65535 - headerSize := by decide
  exact le_trans h hpacket

/-- Frames come back as they were written, a stream that is read is written again to the byte, and
what the mixer sends can be read. Over any number of relays the bytes stay as they are just if no hop
breaks its stream. -/
theorem audioStream_transparent {σ α : Type} (C : AuthCrates) (opus : Opus σ α) (m : HostMixer σ α)
    (ticks : List (List α × List α)) {frames : List AudioFrame}
    (hframes : ∀ f ∈ frames, f.payload.length ≤ 65535 - headerSize) (stop : StreamEnd) :
    (∃ outcome, readAudioFrames stop (writeAudioFrames frames) = (frames, outcome, [])) ∧
    (∀ bs read outcome rest, readAudioFrames stop bs = (read, outcome, rest) →
      (∃ tail, bs = writeAudioFrames read ++ tail ∧ readAudioFrames stop tail = ([], outcome, rest)) ∧
      ∀ events runs downstream, Hops bs (events :: runs) downstream →
        Along RelayHop.step Uninterrupted (.start bs) events →
        (∀ later ∈ runs, Along RelayHop.step Uninterrupted (.start (writeAudioFrames read)) later) →
        downstream = writeAudioFrames read) ∧
    (∀ f ∈ m.emitted C opus ticks, f.payload.length ≤ 65535 - headerSize) ∧
    ∀ runs downstream, Hops (writeAudioFrames frames) runs downstream →
      (downstream = writeAudioFrames frames ↔
        ∀ events ∈ runs, Along RelayHop.step Uninterrupted (.start (writeAudioFrames frames)) events) := by
  have hfits : ∀ f ∈ frames, f.Fits := fun f hf => (fits_iff f).mpr (hframes f hf)
  refine ⟨?_, ?_, ?_, fun _ _ => hops_writeAudioFrames_iff hfits⟩
  · obtain ⟨outcome, hnil⟩ := readAudioFrames_nil stop
    have happend := readAudioFrames_append stop hfits []
    rw [hnil, List.append_nil, List.append_nil] at happend
    exact ⟨outcome, happend⟩
  · intro bs read outcome rest hread
    obtain ⟨hreadFits, tail, hbytes, htail⟩ := (Audio.frameReader_reads stop).flatMap_of_drain hread
    refine ⟨⟨tail, hbytes, htail⟩, fun events runs downstream hhops hfirst hrest => ?_⟩
    obtain rfl : (readAudioFrames stop bs).1 = read := congrArg Prod.fst hread
    exact hhops.eq_writeAudioFrames stop hreadFits hfirst hrest
  · intro f hf
    exact (m.emitted_fromPacket C opus ticks f hf).length_le

section Examples

def unsignedCrates : AuthCrates := ⟨fun _ => zeroHash, id, fun _ _ => Vector.replicate 64 0, fun _ _ _ => true⟩

def quietOpus : Opus Unit ℤ := ⟨fun _ _ => ((Vector.replicate maxPacketSize 0, .ok 2), ())⟩

def quietMixer : HostMixer Unit ℤ :=
  ⟨⟨(), []⟩, ⟨(), []⟩, .new (Vector.replicate 32 0), 0, 0, 0, 0⟩

def smoothHop : List HopEvent :=
  [.relay (.arrive [0, 9, 0, 0]), .relay .poll, .relay (.arrive [0, 1, 0, 0, 0, 0, 0]), .relay .poll,
    .relay .addDownstream, .recv]

theorem audioStream_transparent_silence : ∃ downstream,
    Hops (writeAudioFrames [silence]) [smoothHop, smoothHop] downstream ∧
      downstream = writeAudioFrames [silence] := by
  have hframes : ∀ f ∈ [silence], f.payload.length ≤ 65535 - headerSize := by
    intro f hf
    rw [List.mem_singleton.mp hf]
    exact Nat.zero_le _
  have hhop : Hop smoothHop (writeAudioFrames [silence]) (writeAudioFrames [silence]) :=
    ⟨_, rfl, ⟨fun _ => ⟨rfl, rfl⟩, fun _ => le_rfl⟩, rfl⟩
  have hhops : Hops (writeAudioFrames [silence]) [smoothHop, smoothHop] (writeAudioFrames [silence]) :=
    .cons hhop (.cons hhop (.nil _))
  refine ⟨_, hhops, ?_⟩
  have hiff := (audioStream_transparent unsignedCrates quietOpus quietMixer [] hframes .finished).2.2.2 _ _ hhops
  refine hiff.mpr fun events hevents => ?_
  obtain rfl : events = smoothHop := by simpa using hevents
  refine (along_cons rfl).mpr ⟨trivial, (along_cons rfl).mpr ⟨trivial, (along_cons rfl).mpr ⟨trivial, ?_⟩⟩⟩
  have hheld : ReadAudioFrame.start.held = [] := rfl
  exact (along_cons rfl).mpr ⟨trivial, (along_cons rfl).mpr ⟨fun _ => hheld, (along_cons rfl).mpr ⟨trivial, trivial⟩⟩⟩

def interruptedHop : List HopEvent :=
  [.relay (.arrive [0]), .relay .poll, .relay .addDownstream, .relay (.arrive [9, 0, 0, 0, 1, 0, 0, 0, 0, 0]),
    .relay .poll]

theorem not_audioStream_transparent_interrupted : ¬ ∀ runs downstream,
    Hops (writeAudioFrames [silence]) runs downstream → downstream = writeAudioFrames [silence] := by
  intro hall
  have hhop : Hop interruptedHop (writeAudioFrames [silence]) [] :=
    ⟨_, rfl, ⟨fun _ => ⟨rfl, rfl⟩, fun _ => le_rfl⟩, rfl⟩
  exact absurd (hall [interruptedHop] [] (.cons hhop (.nil _))) (by decide)

end Examples

end Proscenium.Stage
