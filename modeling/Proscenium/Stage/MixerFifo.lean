import Proscenium.Lib.BoundedFifo
import Proscenium.Stage.SpeakerSessions

/-! `run_mixer` with the channels of its speakers: what each speaker contributes
to the mix over a run. The sums, the encoders and the playback of the host take
the contributions as they are. -/

namespace Proscenium.Stage

open KeyedMixer BoundedFifo

variable {α : Type}

/-- A command, samples in a channel, a channel without its sender, or a tick. -/
inductive MixerInput (α : Type) where
  | addSpeaker (pubkey : String) (pcmRx : ℕ)
  | pcm (pcmRx : ℕ) (samples : List α)
  | senderDropped (pcmRx : ℕ)
  | tick

structure MixerActor (α : Type) where
  mixer : Mixer String α
  channels : ℕ → Channel α

def contribution [Zero α] (samples : List α) : List α := samples ++ List.replicate (frameSize - samples.length) 0

namespace MixerActor

def new : MixerActor α := ⟨.empty, fun _ => ⟨[], true⟩⟩

variable [Zero α]

/-- `contributions`, if it is a tick, and the actor after it. -/
def step (s : MixerActor α) : MixerInput α → Option (List (String × List α)) × MixerActor α
  | .addSpeaker pubkey pcmRx => (none, { s with mixer := s.mixer.add pubkey pcmRx })
  | .pcm rx samples =>
    (none, { s with
      channels := Function.update s.channels rx
        ⟨(s.channels rx).queue ++ [samples], (s.channels rx).hasSender⟩ })
  | .senderDropped rx =>
    (none, { s with channels := Function.update s.channels rx ⟨(s.channels rx).queue, false⟩ })
  | .tick =>
    let out := s.mixer.tick maxSpeakerBuffer frameSize s.channels
    (some (out.1.map fun e => (e.1, contribution e.2)), {
      mixer := out.2
      channels := fun c =>
        if c ∈ s.mixer.streams.map Prod.snd then { s.channels c with queue := [] } else s.channels c })

def run (s : MixerActor α) (inputs : List (MixerInput α)) : MixerActor α :=
  inputs.foldl (fun s i => (s.step i).2) s

/-- What the key contributes at the ticks of a run, one frame after the other. -/
def contributionsOf (k : String) (s : MixerActor α) : List (MixerInput α) → List (List α)
  | [] => []
  | i :: inputs =>
    (((s.step i).1.bind fun contributions => Table.find Prod.fst k contributions).map Prod.snd).toList ++
      contributionsOf k (s.step i).2 inputs

end MixerActor

def MixerInput.heardBy (c : ℕ) : MixerInput α → Option (Input α)
  | .pcm rx samples => if rx = c then some (.push samples) else none
  | .tick => some .tick
  | .addSpeaker _ _ | .senderDropped _ => none

def MixerInput.pcmFor (c : ℕ) : MixerInput α → List α
  | .pcm rx samples => if rx = c then samples else []
  | .addSpeaker _ _ | .senderDropped _ | .tick => []

def pcmOf (c : ℕ) (inputs : List (MixerInput α)) : List α := inputs.flatMap (MixerInput.pcmFor c)

def MixerInput.concerns (k : String) (c : ℕ) : MixerInput α → Bool
  | .addSpeaker pubkey _ => pubkey = k
  | .pcm rx _ => rx = c
  | .senderDropped rx => rx = c
  | .tick => true

/-- The key and the channel are not registered by the input, and the channel keeps its sender. -/
def MixerInput.spares (k : String) (c : ℕ) : MixerInput α → Prop
  | .addSpeaker pubkey rx => pubkey ≠ k ∧ rx ≠ c
  | .senderDropped rx => rx ≠ c
  | _ => True

namespace MixerActor

variable [Zero α] {s : MixerActor α} {k : String} {c : ℕ} {waiting : List α} {i : MixerInput α}
  {inputs : List (MixerInput α)}

/-- The speaker is registered, and this is what was received and not yet taken. -/
structure Serving (s : MixerActor α) (k : String) (c : ℕ) (waiting : List α) : Prop where
  feeds : ∃ samples, s.mixer.Feeds k c samples ∧ samples.length ≤ maxSpeakerBuffer ∧
    samples ++ (s.channels c).queue.flatten = waiting
  sender : (s.channels c).hasSender = true

/-- The speaker is not registered yet, and its channel belongs to no other. -/
structure Awaiting (s : MixerActor α) (k : String) (c : ℕ) (waiting : List α) : Prop where
  absent : s.mixer.Absent k
  free : ∀ e ∈ s.mixer.streams, e.2 ≠ c
  queue : (s.channels c).queue.flatten = waiting
  sender : (s.channels c).hasSender = true

omit [Zero α] in
theorem awaiting_new (k : String) (c : ℕ) : (new : MixerActor α).Awaiting k c [] where
  absent := Mixer.absent_empty k
  free _ he := absurd he List.not_mem_nil
  queue := rfl
  sender := rfl

theorem Awaiting.register (h : s.Awaiting k c waiting) : (s.step (.addSpeaker k c)).2.Serving k c waiting := by
  have hfeeds := h.absent.add c
  exact ⟨⟨[], hfeeds, Nat.zero_le _, h.queue⟩, h.sender⟩

def taken (k : String) (s : MixerActor α) (i : MixerInput α) : List (List α) :=
  (((s.step i).1.bind fun contributions => Table.find Prod.fst k contributions).map Prod.snd).toList

theorem contributionsOf_cons (k : String) (s : MixerActor α) (i : MixerInput α) (inputs : List (MixerInput α)) :
    contributionsOf k s (i :: inputs) = s.taken k i ++ contributionsOf k (s.step i).2 inputs := rfl

theorem contributionsOf_append (k : String) (s : MixerActor α) (inputs later : List (MixerInput α)) :
    contributionsOf k s (inputs ++ later) = contributionsOf k s inputs ++ contributionsOf k (s.run inputs) later := by
  induction inputs generalizing s with
  | nil => rfl
  | cons i inputs ih =>
    rw [List.cons_append, contributionsOf_cons, contributionsOf_cons, ih, List.append_assoc]
    rfl

theorem find_contributions (out : List (String × List α)) :
    Table.find Prod.fst k (out.map fun e => (e.1, contribution e.2)) =
      (Table.find Prod.fst k out).map fun e => (e.1, contribution e.2) := by
  rw [Table.find_map]
  intro e
  rfl

theorem Serving.tick (h : s.Serving k c waiting) :
    s.taken k .tick = [contribution ((trim maxSpeakerBuffer waiting).take frameSize)] ∧
      (s.step .tick).2.Serving k c ((trim maxSpeakerBuffer waiting).drop frameSize) := by
  obtain ⟨samples, hfeeds, hbound, rfl⟩ := h.feeds
  obtain ⟨hout, hnext⟩ := hfeeds.tick frameSize hbound h.sender
  have hdrained : c ∈ s.mixer.streams.map Prod.snd := by
    have hmem : (k, c) ∈ s.mixer.streams.filter (fun e => e.1 = k) := by
      rw [hfeeds.stream]
      exact List.mem_singleton.mpr rfl
    exact List.mem_map.mpr ⟨(k, c), List.mem_of_mem_filter hmem, rfl⟩
  have hchannel : (s.step .tick).2.channels c = { s.channels c with queue := [] } := if_pos hdrained
  constructor
  · have hfind : (Table.find Prod.fst k ((s.mixer.tick maxSpeakerBuffer frameSize s.channels).1.map
        fun e => (e.1, contribution e.2))) =
          some (k, contribution ((trim maxSpeakerBuffer (samples ++ (s.channels c).queue.flatten)).take
            frameSize)) := by
      rw [find_contributions, hout, Option.map_some]
    show ((Table.find Prod.fst k ((s.mixer.tick maxSpeakerBuffer frameSize s.channels).1.map
        fun e => (e.1, contribution e.2))).map Prod.snd).toList = _
    rw [hfind]
    rfl
  · constructor
    case feeds =>
      refine ⟨_, hnext, ?_, ?_⟩
      · exact (List.drop_sublist _ _).length_le.trans (length_trim_le _)
      · rw [hchannel, List.flatten_nil, List.append_nil]
    case sender =>
      rw [hchannel]
      exact h.sender

theorem Serving.other (h : s.Serving k c waiting) (hi : i.spares k c) (hheard : i.heardBy c = none) :
    s.taken k i = [] ∧ (s.step i).2.Serving k c waiting := by
  obtain ⟨samples, hfeeds, hbound, hwaiting⟩ := h.feeds
  cases i with
  | addSpeaker pubkey rx =>
    have hadd : (s.mixer.add pubkey rx).Feeds k c samples := hfeeds.add_of_ne hi.1.symm rx
    exact ⟨rfl, ⟨samples, hadd, hbound, hwaiting⟩, h.sender⟩
  | pcm rx chunk =>
    have hne : c ≠ rx := by
      rintro rfl
      simp [MixerInput.heardBy] at hheard
    have hchannel : (s.step (.pcm rx chunk)).2.channels c = s.channels c := Function.update_of_ne hne _ _
    refine ⟨rfl, ⟨samples, hfeeds, hbound, ?_⟩, ?_⟩
    · rw [hchannel]
      exact hwaiting
    · rw [hchannel]
      exact h.sender
  | senderDropped rx =>
    have hchannel : (s.step (.senderDropped rx)).2.channels c = s.channels c :=
      Function.update_of_ne (Ne.symm hi) _ _
    refine ⟨rfl, ⟨samples, hfeeds, hbound, ?_⟩, ?_⟩
    · rw [hchannel]
      exact hwaiting
    · rw [hchannel]
      exact h.sender
  | tick => simp [MixerInput.heardBy] at hheard

theorem Serving.push (h : s.Serving k c waiting) (chunk : List α) :
    s.taken k (.pcm c chunk) = [] ∧ (s.step (.pcm c chunk)).2.Serving k c (waiting ++ chunk) := by
  obtain ⟨samples, hfeeds, hbound, rfl⟩ := h.feeds
  have hchannel : (s.step (.pcm c chunk)).2.channels c =
      ⟨(s.channels c).queue ++ [chunk], (s.channels c).hasSender⟩ := Function.update_self ..
  refine ⟨rfl, ⟨samples, hfeeds, hbound, ?_⟩, ?_⟩
  · rw [hchannel, List.flatten_append, List.flatten_singleton, List.append_assoc]
  · rw [hchannel]
    exact h.sender

/-- Over a run the speaker is served as the bounded queue of its own samples would be. -/
theorem Serving.run (h : s.Serving k c waiting) (hinputs : ∀ i ∈ inputs, i.spares k c) :
    contributionsOf k s inputs =
        (serve maxSpeakerBuffer frameSize waiting (inputs.filterMap (MixerInput.heardBy c))).1.map
          (fun t => contribution (t.kept.take frameSize)) ∧
      (s.run inputs).Serving k c
        (serve maxSpeakerBuffer frameSize waiting (inputs.filterMap (MixerInput.heardBy c))).2 := by
  induction inputs generalizing s waiting with
  | nil => exact ⟨rfl, h⟩
  | cons i inputs ih =>
    have hi := hinputs i (List.mem_cons_self ..)
    have hrest : ∀ i ∈ inputs, i.spares k c := fun i hi => hinputs i (List.mem_cons_of_mem _ hi)
    rw [contributionsOf_cons]
    cases hheard : i.heardBy c with
    | none =>
      obtain ⟨htaken, hnext⟩ := h.other hi hheard
      rw [htaken, List.filterMap_cons_none hheard]
      exact ih hnext hrest
    | some input =>
      rw [List.filterMap_cons_some hheard]
      cases i with
      | addSpeaker pubkey rx => simp [MixerInput.heardBy] at hheard
      | senderDropped rx => simp [MixerInput.heardBy] at hheard
      | pcm rx chunk =>
        obtain ⟨rfl, rfl⟩ : rx = c ∧ .push chunk = input := by
          simpa [MixerInput.heardBy] using hheard
        obtain ⟨htaken, hnext⟩ := h.push chunk
        rw [htaken]
        exact ih hnext hrest
      | tick =>
        obtain rfl : .tick = input := by
          simpa [MixerInput.heardBy] using hheard
        obtain ⟨htaken, hnext⟩ := h.tick
        obtain ⟨hlater, hlast⟩ := ih hnext hrest
        rw [htaken, hlater, serve_tick]
        refine ⟨?_, hlast⟩
        rw [List.map_cons, List.singleton_append]

omit [Zero α] in
theorem pcmOf_cons (i : MixerInput α) (inputs : List (MixerInput α)) :
    pcmOf c (i :: inputs) = i.pcmFor c ++ pcmOf c inputs := List.flatMap_cons

theorem Awaiting.step (h : s.Awaiting k c waiting) (hi : i.spares k c) :
    s.taken k i = [] ∧ (s.step i).2.Awaiting k c (waiting ++ i.pcmFor c) := by
  have hsame : ∀ {t : MixerActor α}, t.mixer = s.mixer → t.channels c = s.channels c → t.Awaiting k c waiting := by
    intro t hmixer hchannel
    constructor
    · exact hmixer ▸ h.absent
    · exact hmixer ▸ h.free
    · exact hchannel ▸ h.queue
    · exact hchannel ▸ h.sender
  cases i with
  | addSpeaker pubkey rx =>
    rw [MixerInput.pcmFor, List.append_nil]
    refine ⟨rfl, h.absent.add_of_ne hi.1.symm rx, fun e he => ?_, h.queue, h.sender⟩
    rcases Mixer.mem_streams_add.mp he with hold | rfl
    · exact h.free e hold
    · exact hi.2
  | pcm rx chunk =>
    by_cases hrx : rx = c
    · subst hrx
      have hchannel : (s.step (.pcm rx chunk)).2.channels rx =
          ⟨(s.channels rx).queue ++ [chunk], (s.channels rx).hasSender⟩ := Function.update_self ..
      refine ⟨rfl, h.absent, h.free, ?_, ?_⟩
      · rw [hchannel, List.flatten_append, h.queue, MixerInput.pcmFor, if_pos rfl, List.flatten_singleton]
      · rw [hchannel]
        exact h.sender
    · rw [MixerInput.pcmFor, if_neg hrx, List.append_nil]
      exact ⟨rfl, hsame rfl (Function.update_of_ne (Ne.symm hrx) _ _)⟩
  | senderDropped rx =>
    rw [MixerInput.pcmFor, List.append_nil]
    exact ⟨rfl, hsame rfl (Function.update_of_ne (Ne.symm hi) _ _)⟩
  | tick =>
    obtain ⟨hout, habsent⟩ := h.absent.tick maxSpeakerBuffer frameSize s.channels
    have hfree : c ∉ s.mixer.streams.map Prod.snd := by
      intro hmem
      obtain ⟨e, he, hec⟩ := List.mem_map.mp hmem
      exact h.free e he hec
    have hchannel : (s.step .tick).2.channels c = s.channels c := if_neg hfree
    rw [MixerInput.pcmFor, List.append_nil]
    constructor
    · show ((Table.find Prod.fst k ((s.mixer.tick maxSpeakerBuffer frameSize s.channels).1.map
          fun e => (e.1, contribution e.2))).map Prod.snd).toList = []
      rw [find_contributions, hout]
      rfl
    · refine ⟨habsent, fun e he => h.free e (Mixer.mem_streams_tick.mp he).1, ?_, ?_⟩
      · rw [hchannel]
        exact h.queue
      · rw [hchannel]
        exact h.sender

theorem Awaiting.run (h : s.Awaiting k c waiting) (hinputs : ∀ i ∈ inputs, i.spares k c) :
    contributionsOf k s inputs = [] ∧ (s.run inputs).Awaiting k c (waiting ++ pcmOf c inputs) := by
  induction inputs generalizing s waiting with
  | nil =>
    have hnil : waiting ++ pcmOf c ([] : List (MixerInput α)) = waiting := List.append_nil waiting
    rw [hnil]
    exact ⟨rfl, h⟩
  | cons i inputs ih =>
    obtain ⟨htaken, hnext⟩ := h.step (hinputs i (List.mem_cons_self ..))
    obtain ⟨hnone, hlast⟩ := ih hnext fun i hi => hinputs i (List.mem_cons_of_mem _ hi)
    rw [contributionsOf_cons, htaken, hnone, pcmOf_cons, ← List.append_assoc]
    exact ⟨rfl, hlast⟩

/-- The speaker will not be heard again: it is gone, or its channel has lost its sender. -/
def Silent (s : MixerActor α) (k : String) : Prop :=
  s.mixer.Absent k ∨ ∃ c samples, s.mixer.Feeds k c samples ∧ (s.channels c).hasSender = false

theorem Serving.close (h : s.Serving k c waiting) : (s.step (.senderDropped c)).2.Silent k := by
  obtain ⟨samples, hfeeds, -⟩ := h.feeds
  have hchannel : (s.step (.senderDropped c)).2.channels c = ⟨(s.channels c).queue, false⟩ :=
    Function.update_self ..
  exact Or.inr ⟨c, samples, hfeeds, by rw [hchannel]⟩

theorem Silent.step (h : s.Silent k) (hi : ∀ rx, i ≠ .addSpeaker k rx) :
    s.taken k i = [] ∧ (s.step i).2.Silent k := by
  cases i with
  | addSpeaker pubkey rx =>
    have hne : k ≠ pubkey := by
      rintro rfl
      exact hi rx rfl
    refine ⟨rfl, ?_⟩
    rcases h with habsent | ⟨c, samples, hfeeds, hlost⟩
    · exact Or.inl (habsent.add_of_ne hne rx)
    · exact Or.inr ⟨c, samples, hfeeds.add_of_ne hne rx, hlost⟩
  | pcm rx chunk =>
    refine ⟨rfl, h.imp_right fun ⟨c, samples, hfeeds, hlost⟩ => ⟨c, samples, hfeeds, ?_⟩⟩
    by_cases hrx : c = rx
    · subst hrx
      show (Function.update s.channels c _ c).hasSender = false
      rw [Function.update_self]
      exact hlost
    · show (Function.update s.channels rx _ c).hasSender = false
      rw [Function.update_of_ne hrx]
      exact hlost
  | senderDropped rx =>
    refine ⟨rfl, h.imp_right fun ⟨c, samples, hfeeds, hlost⟩ => ⟨c, samples, hfeeds, ?_⟩⟩
    by_cases hrx : c = rx
    · subst hrx
      show (Function.update s.channels c _ c).hasSender = false
      rw [Function.update_self]
    · show (Function.update s.channels rx _ c).hasSender = false
      rw [Function.update_of_ne hrx]
      exact hlost
  | tick =>
    have hmixer : Table.find Prod.fst k (s.mixer.tick maxSpeakerBuffer frameSize s.channels).1 = none ∧
        (s.mixer.tick maxSpeakerBuffer frameSize s.channels).2.Absent k := by
      rcases h with habsent | ⟨c, samples, hfeeds, hlost⟩
      · exact habsent.tick maxSpeakerBuffer frameSize s.channels
      · exact hfeeds.tick_gone hlost maxSpeakerBuffer frameSize
    refine ⟨?_, Or.inl hmixer.2⟩
    show ((Table.find Prod.fst k ((s.mixer.tick maxSpeakerBuffer frameSize s.channels).1.map
        fun e => (e.1, contribution e.2))).map Prod.snd).toList = []
    rw [find_contributions, hmixer.1]
    rfl

theorem Silent.run (h : s.Silent k) (hinputs : ∀ rx, .addSpeaker k rx ∉ inputs) :
    contributionsOf k s inputs = [] := by
  induction inputs generalizing s with
  | nil => rfl
  | cons i inputs ih =>
    have hi : ∀ rx, i ≠ .addSpeaker k rx := fun rx heq => hinputs rx (heq ▸ List.mem_cons_self ..)
    obtain ⟨htaken, hnext⟩ := h.step hi
    have hrest := ih hnext fun rx hmem => hinputs rx (List.mem_cons_of_mem _ hmem)
    rw [contributionsOf_cons, htaken, hrest, List.append_nil]

theorem bounded_run (inputs : List (MixerInput α)) : (new.run inputs).mixer.Bounded maxSpeakerBuffer := by
  have hstep : ∀ (s : MixerActor α) i, s.mixer.Bounded maxSpeakerBuffer →
      (s.step i).2.mixer.Bounded maxSpeakerBuffer := by
    intro s i h
    cases i with
    | addSpeaker pubkey rx => exact h.add pubkey rx
    | pcm rx chunk => exact h
    | senderDropped rx => exact h
    | tick => exact h.tick
  have hrun : ∀ (inputs : List (MixerInput α)) (s : MixerActor α), s.mixer.Bounded maxSpeakerBuffer →
      (s.run inputs).mixer.Bounded maxSpeakerBuffer := by
    intro inputs
    induction inputs with
    | nil => exact fun s h => h
    | cons i inputs ih => exact fun s h => ih (s.step i).2 (hstep s i h)
  exact hrun inputs new (Mixer.bounded_empty _)

end MixerActor

section Filter

variable {k : String} {c : ℕ}

theorem pushed_heardBy (i : MixerInput α) : (i.heardBy c).toList.flatMap Input.pushed = i.pcmFor c := by
  cases i with
  | pcm rx chunk =>
    by_cases hrx : rx = c
    · simp [MixerInput.heardBy, MixerInput.pcmFor, Input.pushed, hrx]
    · simp [MixerInput.heardBy, MixerInput.pcmFor, hrx]
  | addSpeaker pubkey rx => rfl
  | senderDropped rx => rfl
  | tick => rfl

theorem heardBy_of_not_concerns {i : MixerInput α} (hi : i.concerns k c = false) : i.heardBy c = none := by
  cases i with
  | pcm rx chunk =>
    have hne : rx ≠ c := of_decide_eq_false hi
    simp [MixerInput.heardBy, hne]
  | addSpeaker pubkey rx => rfl
  | senderDropped rx => rfl
  | tick => simp [MixerInput.concerns] at hi

theorem flatMap_heardBy (inputs : List (MixerInput α)) :
    (inputs.filterMap (MixerInput.heardBy c)).flatMap Input.pushed = pcmOf c inputs := by
  induction inputs with
  | nil => rfl
  | cons i inputs ih =>
    rw [MixerActor.pcmOf_cons, ← pushed_heardBy, ← ih]
    cases hi : i.heardBy c with
    | none => rw [List.filterMap_cons_none hi, Option.toList_none, List.flatMap_nil, List.nil_append]
    | some input =>
      rw [List.filterMap_cons_some hi, List.flatMap_cons, Option.toList_some, List.flatMap_singleton]

theorem heardBy_filter (inputs : List (MixerInput α)) :
    (inputs.filter (MixerInput.concerns k c)).filterMap (MixerInput.heardBy c) =
      inputs.filterMap (MixerInput.heardBy c) := by
  induction inputs with
  | nil => rfl
  | cons i inputs ih =>
    cases hi : i.concerns k c with
    | true => rw [List.filter_cons_of_pos hi, List.filterMap_cons, List.filterMap_cons, ih]
    | false =>
      have hnot : ¬ i.concerns k c = true := by simp [hi]
      rw [List.filter_cons_of_neg hnot, List.filterMap_cons_none (heardBy_of_not_concerns hi), ih]

theorem pcmOf_filter (inputs : List (MixerInput α)) :
    pcmOf c (inputs.filter (MixerInput.concerns k c)) = pcmOf c inputs := by
  rw [← flatMap_heardBy, heardBy_filter, flatMap_heardBy]

end Filter

namespace MixerActor

variable [Zero α]

variable {k : String} {c : ℕ} {before after : List (MixerInput α)}

theorem run_append (s : MixerActor α) (inputs later : List (MixerInput α)) :
    s.run (inputs ++ later) = (s.run inputs).run later := List.foldl_append

theorem serving_registered (hbefore : ∀ i ∈ before, i.spares k c) (hafter : ∀ i ∈ after, i.spares k c) :
    contributionsOf k new (before ++ .addSpeaker k c :: after) =
        (serve maxSpeakerBuffer frameSize (pcmOf c before)
          (after.filterMap (MixerInput.heardBy c))).1.map
            (fun t => contribution (t.kept.take frameSize)) ∧
      (new.run (before ++ .addSpeaker k c :: after)).Serving k c
        (serve maxSpeakerBuffer frameSize (pcmOf c before) (after.filterMap (MixerInput.heardBy c))).2 := by
  obtain ⟨hnone, hawaiting⟩ := (awaiting_new k c).run hbefore
  have hserving := hawaiting.register
  obtain ⟨htaken, hlast⟩ := hserving.run hafter
  rw [contributionsOf_append, hnone, List.nil_append, contributionsOf_cons, htaken, run_append]
  exact ⟨rfl, hlast⟩

/-- A speaker that is registered once is served as a bounded queue of its own samples: no buffer is
longer than the bound, what the ticks took and lost is what arrived, in order, something is lost only
where the bound was full, and what the other speakers do has no part in it. Nothing is taken after
its channel has lost the sender. -/
theorem buffers_are_fifos (k : String) (c : ℕ) (before after : List (MixerInput α))
    (hbefore : ∀ i ∈ before, i.spares k c) (hafter : ∀ i ∈ after, i.spares k c) :
    let inputs := before ++ .addSpeaker k c :: after
    let served := serve maxSpeakerBuffer frameSize (pcmOf c before) (after.filterMap (MixerInput.heardBy c))
    (∀ start : List (MixerInput α), ((new.run start).mixer.drain maxSpeakerBuffer
      (new.run start).channels).Bounded maxSpeakerBuffer) ∧
    contributionsOf k new inputs = served.1.map (fun t => contribution (t.kept.take frameSize)) ∧
    (∀ t ∈ served.1, t.kept.length ≤ maxSpeakerBuffer ∧
      (t.lost ≠ [] → t.kept.length = maxSpeakerBuffer)) ∧
    served.1.flatMap (fun t => t.lost ++ t.kept.take frameSize) ++ served.2 = pcmOf c inputs ∧
    contributionsOf k new (inputs.filter (MixerInput.concerns k c)) = contributionsOf k new inputs ∧
    (∀ rest, (∀ rx, .addSpeaker k rx ∉ rest) →
      contributionsOf k new (inputs ++ .senderDropped c :: rest) = contributionsOf k new inputs) := by
  intro inputs served
  obtain ⟨hall, hserving⟩ := serving_registered hbefore hafter
  refine ⟨fun start => (bounded_run start).drain, hall, serve_bounded _ _, ?_, ?_, ?_⟩
  · have hsamples : pcmOf c inputs = pcmOf c before ++ pcmOf c after := by
      show (before ++ .addSpeaker k c :: after).flatMap (MixerInput.pcmFor c) = _
      rw [List.flatMap_append, List.flatMap_cons]
      rfl
    rw [hsamples, ← flatMap_heardBy after]
    exact serve_conserves _ _
  · have hself : (MixerInput.addSpeaker k c : MixerInput α).concerns k c = true := decide_eq_true rfl
    have hbefore' : ∀ i ∈ before.filter (MixerInput.concerns k c), i.spares k c :=
      fun i hi => hbefore i (List.mem_of_mem_filter hi)
    have hafter' : ∀ i ∈ after.filter (MixerInput.concerns k c), i.spares k c :=
      fun i hi => hafter i (List.mem_of_mem_filter hi)
    have hfiltered := (serving_registered hbefore' hafter').1
    rw [pcmOf_filter, heardBy_filter] at hfiltered
    show contributionsOf k new ((before ++ .addSpeaker k c :: after).filter (MixerInput.concerns k c)) = _
    rw [List.filter_append, List.filter_cons_of_pos hself, hfiltered]
    exact hall.symm
  · intro rest hrest
    have hsilent := hserving.close.run hrest
    have hclose : (new.run inputs).taken k (.senderDropped c) = [] := rfl
    rw [contributionsOf_append, contributionsOf_cons, hclose, List.nil_append]
    show _ ++ contributionsOf k ((new.run (before ++ .addSpeaker k c :: after)).step (.senderDropped c)).2 rest = _
    rw [hsilent, List.append_nil]

section Examples

/-- Two samples before the registration, a third one between the ticks, another speaker beside it. -/
theorem buffers_are_fifos_two_speakers :
    contributionsOf "alice" (new : MixerActor ℤ)
      ([.pcm 0 [1, 2]] ++ .addSpeaker "alice" 0 ::
        [.addSpeaker "bob" 1, .tick, .pcm 1 [9, 9, 9], .pcm 0 [3], .tick]) =
      [contribution [1, 2], contribution [3]] := by
  have hbefore : ∀ i ∈ [(.pcm 0 [1, 2] : MixerInput ℤ)], i.spares "alice" 0 := by
    simp [MixerInput.spares]
  have hafter : ∀ i ∈ [(.addSpeaker "bob" 1 : MixerInput ℤ), .tick, .pcm 1 [9, 9, 9], .pcm 0 [3], .tick],
      i.spares "alice" 0 := by
    simp [MixerInput.spares]
  obtain ⟨-, hall, -⟩ := buffers_are_fifos "alice" 0 _ _ hbefore hafter
  exact hall

end Examples

end MixerActor

end Proscenium.Stage
