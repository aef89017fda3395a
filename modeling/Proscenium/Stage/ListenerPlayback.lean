import Proscenium.Audio.Codec
import Proscenium.Audio.Transport
import Proscenium.Lib.SeqNumbers
import Proscenium.Stage.AuthCompleteness

/-! The playback of `run_listener_once` (`stage/pipeline.rs`): frames that were
lost are concealed, and the depth of the jitter buffer follows the underruns.
The connection, the events and the log are left out; what the ring buffer takes
and the underruns that it reports come with each frame. `frames` wraps. -/

namespace Proscenium.Stage

open Proscenium.Types Proscenium.Audio SeqNumbers

def jbMinFrames : ℕ := 3

def jbInitFrames : ℕ := 4

def jbMaxFrames : ℕ := 10

def driftInterval : ℕ := 250

def plcLimit : ℕ := 64

/-- A subtraction of `usize` values. -/
def checkedSub (a b : ℕ) : Option ℕ := if b ≤ a then some (a - b) else none

structure Jitter where
  playbackLive : Bool
  prefillCount : ℕ
  targetFrames : ℕ
  framesSinceAdapt : ℕ
  deriving DecidableEq, Repr

namespace Jitter

def start : Jitter := ⟨false, 0, jbInitFrames, 0⟩

/-- After a decoded frame while playing. -/
def adapt (underruns : ℕ) (j : Jitter) : Option Jitter :=
  if 0 < underruns then
    some { j with
      targetFrames := if j.targetFrames < jbMaxFrames then j.targetFrames + 1 else j.targetFrames
      framesSinceAdapt := 0 }
  else
    let framesSinceAdapt := j.framesSinceAdapt + 1
    if driftInterval ≤ framesSinceAdapt ∧ jbMinFrames < j.targetFrames then
      (checkedSub j.targetFrames 1).map fun targetFrames =>
        { j with targetFrames, framesSinceAdapt := 0 }
    else some { j with framesSinceAdapt }

/-- After a decoded frame before that; `prefill_count` is not read again. -/
def prefill (j : Jitter) : Jitter :=
  let prefillCount := j.prefillCount + 1
  if j.targetFrames ≤ prefillCount then { j with prefillCount, playbackLive := true }
  else { j with prefillCount }

/-- `pushed` is what `push` returns for `len` samples. -/
def play (len pushed underruns : ℕ) (j : Jitter) : Option Jitter :=
  -- the samples that were dropped are only logged
  let dropped := if pushed < len then checkedSub len pushed else some 0
  dropped.bind fun _ => if j.playbackLive then j.adapt underruns else some j.prefill

/-- The jitter buffer when `n` frames were decoded: the target is in its range, and it is not
adapted before that many frames as it starts with. -/
structure Sound (n : ℕ) (j : Jitter) : Prop where
  min_le : jbMinFrames ≤ j.targetFrames
  le_max : j.targetFrames ≤ jbMaxFrames
  live : j.playbackLive ↔ jbInitFrames ≤ n
  prefilled : j.playbackLive = false → j.prefillCount = n
  unadapted : n ≤ jbInitFrames → j.targetFrames = jbInitFrames ∧ j.framesSinceAdapt = 0

variable {n len pushed underruns : ℕ} {j : Jitter}

theorem sound_start : start.Sound 0 := ⟨by decide, by decide, by decide, fun _ => rfl, fun _ => ⟨rfl, rfl⟩⟩

theorem exists_adapt (underruns : ℕ) (h : j.Sound n) :
    ∃ j', j.adapt underruns = some j' ∧ j'.playbackLive = j.playbackLive ∧
      jbMinFrames ≤ j'.targetFrames ∧ j'.targetFrames ≤ jbMaxFrames := by
  have hmin := h.min_le
  have hmax := h.le_max
  unfold adapt
  by_cases hunderruns : 0 < underruns
  · simp only [hunderruns, ↓reduceIte]
    refine ⟨_, rfl, rfl, ?_⟩
    by_cases htarget : j.targetFrames < jbMaxFrames
    · simp only [htarget, ↓reduceIte]
      exact ⟨Nat.le_succ_of_le hmin, htarget⟩
    · simp only [htarget, ↓reduceIte]
      exact ⟨hmin, hmax⟩
  · simp only [hunderruns, ↓reduceIte]
    by_cases hdrift : driftInterval ≤ j.framesSinceAdapt + 1 ∧ jbMinFrames < j.targetFrames
    · have hone : 1 ≤ j.targetFrames := Nat.one_le_of_lt hdrift.2
      simp only [hdrift, and_self, ↓reduceIte, checkedSub, hone, Option.map_some]
      exact ⟨_, rfl, rfl, Nat.le_sub_one_of_lt hdrift.2, (Nat.sub_le _ _).trans hmax⟩
    · simp only [hdrift, ↓reduceIte]
      exact ⟨_, rfl, rfl, hmin, hmax⟩

theorem sound_prefill (h : j.Sound n) (hlive : j.playbackLive = false) : j.prefill.Sound (n + 1) := by
  have hfew : ¬ jbInitFrames ≤ n := fun hn => by
    simp [h.live.mpr hn] at hlive
  have htarget := (h.unadapted (not_le.mp hfew).le).1
  have hadapt := (h.unadapted (not_le.mp hfew).le).2
  have hcount := h.prefilled hlive
  unfold prefill
  by_cases hfull : j.targetFrames ≤ j.prefillCount + 1
  · have hn : jbInitFrames ≤ n + 1 := by
      rw [← htarget, ← hcount]
      exact hfull
    simp only [hfull, ↓reduceIte]
    exact ⟨h.min_le, h.le_max, by simp [hn], by simp, fun _ => ⟨htarget, hadapt⟩⟩
  · have hn : ¬ jbInitFrames ≤ n + 1 := by
      rw [← htarget, ← hcount]
      exact hfull
    simp only [hfull, ↓reduceIte]
    exact ⟨h.min_le, h.le_max, by simp [hn, hlive], fun _ => by simp [hcount], fun _ => ⟨htarget, hadapt⟩⟩

theorem exists_play (len pushed underruns : ℕ) (h : j.Sound n) :
    ∃ j', j.play len pushed underruns = some j' ∧ j'.Sound (n + 1) := by
  have hdropped : ∃ dropped, (if pushed < len then checkedSub len pushed else some 0) = some dropped := by
    by_cases hfull : pushed < len
    · exact ⟨len - pushed, by simp [hfull, checkedSub, hfull.le]⟩
    · exact ⟨0, by simp [hfull]⟩
  obtain ⟨dropped, hdropped⟩ := hdropped
  unfold play
  simp only [hdropped, Option.bind_some]
  cases hlive : j.playbackLive with
  | true =>
    obtain ⟨j', hadapt, hstays, hmin, hmax⟩ := exists_adapt underruns h
    have hn : jbInitFrames ≤ n := h.live.mp hlive
    refine ⟨j', hadapt, hmin, hmax, ?_, ?_, ?_⟩
    · simp [hstays, hlive, Nat.le_succ_of_le hn]
    · simp [hstays, hlive]
    · omega
  | false => exact ⟨j.prefill, rfl, sound_prefill h hlive⟩

end Jitter

/-- A frame, what `push` returns for its samples, and what `drain_underruns` does after it. -/
structure Arrival where
  frame : AudioFrame
  pushed : ℕ
  underruns : ℕ

/-- The samples of a `push` to the playback. -/
inductive Pushed (α : Type) where
  | concealed (samples : List α)
  | decoded (samples : List α)
  deriving DecidableEq, Repr

namespace Pushed

variable {α : Type}

def isDecoded : Pushed α → Bool
  | .concealed _ => false
  | .decoded _ => true

end Pushed

structure Listener (δ : Type) where
  auth : ListenerAuthState
  decoder : δ
  jitter : Jitter
  lastSeq : Option UInt32
  frames : UInt32

/-- How the loop leaves a frame; a subtraction that overflows is a panic. -/
inductive Turn (δ : Type) where
  | goesOn (s : Listener δ)
  | stops (s : Listener δ)
  | overflows

namespace Turn

/-- The loop goes on or stops, and the jitter buffer is sound. -/
def Sound {δ : Type} (n : ℕ) (t : Turn δ) : Prop :=
  ∃ s, (t = .goesOn s ∨ t = .stops s) ∧ s.jitter.Sound n

end Turn

namespace Listener

variable {δ α : Type} (C : AuthCrates) (opus : OpusDecoder δ α)

def start (hostPubkey : PublicKey) (decoder : δ) : Listener δ :=
  ⟨.new hostPubkey, decoder, .start, none, 0⟩

/-- The lost frames that are concealed before `seq`. -/
def lost (seq : UInt32) : Option UInt32 → ℕ
  | none => 0
  | some prev =>
    let lost := (seq - (prev + 1)).toNat
    if 0 < lost ∧ lost < plcLimit then lost else 0

def conceal (decoder : δ) : ℕ → List (Pushed α) × δ
  | 0 => ([], decoder)
  | n + 1 =>
    match opus.decodeLoss decoder with
    | (.ok plc, decoder) => (.concealed plc :: (conceal decoder n).1, (conceal decoder n).2)
    | (.error _, decoder) => conceal decoder n

/-- Decode and push into the jitter buffer. -/
def decodeFrame (a : Arrival) (packet : Bytes) (s : Listener δ) : List (Pushed α) × Turn δ :=
  match opus.decode s.decoder packet with
  | (.error _, decoder) => ([], .goesOn { s with decoder })
  | (.ok samples, decoder) =>
    match s.jitter.play samples.length a.pushed a.underruns with
    | none => ([.decoded samples], .overflows)
    | some jitter => ([.decoded samples], .goesOn { s with decoder, jitter, frames := s.frames + 1 })

def verifyAndDecode (a : Arrival) (f : Frame) (s : Listener δ) : List (Pushed α) × Turn δ :=
  match s.auth.verifyFrame C f with
  | (.tamperDetected, auth) => ([], .stops { s with auth })
  | (.invalidSignature, auth) => ([], .stops { s with auth })
  | (_, auth) => decodeFrame opus a f.opus { s with auth }

/-- An iteration of the loop, with its pushes. -/
def hear (a : Arrival) (s : Listener δ) : List (Pushed α) × Turn δ :=
  let plc := conceal opus s.decoder (lost a.frame.seq s.lastSeq)
  let s := { s with decoder := plc.2, lastSeq := some a.frame.seq }
  match splitWire a.frame.tag a.frame.payload with
  | .error _ => (plc.1, .goesOn s)
  | .ok f => (plc.1 ++ (verifyAndDecode C opus a f s).1, (verifyAndDecode C opus a f s).2)

def listen (s : Listener δ) : List Arrival → List (Pushed α) × Turn δ
  | [] => ([], .goesOn s)
  | a :: rest =>
    match hear C opus a s with
    | (pushes, .goesOn s) => (pushes ++ (listen s rest).1, (listen s rest).2)
    | (pushes, turn) => (pushes, turn)


def decodedIn (pushes : List (Pushed α)) : ℕ := pushes.countP Pushed.isDecoded

variable {n : ℕ} {s : Listener δ}

theorem decodedIn_append (pushes pushes' : List (Pushed α)) :
    decodedIn (pushes ++ pushes') = decodedIn pushes + decodedIn pushes' := List.countP_append

theorem decodedIn_conceal (decoder : δ) (k : ℕ) : decodedIn (conceal opus decoder k).1 = 0 := by
  induction k generalizing decoder with
  | zero => rfl
  | succ k ih =>
    rw [conceal]
    rcases opus.decodeLoss decoder with ⟨e | plc, decoder'⟩
    · exact ih decoder'
    · have hstep : decodedIn (.concealed plc :: (conceal opus decoder' k).1) =
          decodedIn (conceal opus decoder' k).1 := List.countP_cons_of_neg (by simp [Pushed.isDecoded])
      exact hstep.trans (ih decoder')

theorem sound_decodeFrame (a : Arrival) (packet : Bytes) (h : s.jitter.Sound n) :
    (decodeFrame opus a packet s).2.Sound (n + decodedIn (decodeFrame opus a packet s).1) := by
  unfold decodeFrame
  rcases opus.decode s.decoder packet with ⟨e | samples, decoder⟩
  · exact ⟨{ s with decoder }, .inl rfl, h⟩
  · obtain ⟨jitter, hplay, hsound⟩ := Jitter.exists_play samples.length a.pushed a.underruns h
    simp only [hplay]
    exact ⟨_, .inl rfl, hsound⟩

theorem sound_verifyAndDecode (a : Arrival) (f : Frame) (h : s.jitter.Sound n) :
    (verifyAndDecode C opus a f s).2.Sound (n + decodedIn (verifyAndDecode C opus a f s).1) := by
  unfold verifyAndDecode
  rcases s.auth.verifyFrame C f with ⟨result, auth⟩
  have hdecode := sound_decodeFrame opus (s := { s with auth }) a f.opus h
  cases result with
  | ok => exact hdecode
  | unverified => exact hdecode
  | verified => exact hdecode
  | tamperDetected => exact ⟨_, .inr rfl, h⟩
  | invalidSignature => exact ⟨_, .inr rfl, h⟩

theorem sound_hear (a : Arrival) (h : s.jitter.Sound n) :
    (hear C opus a s).2.Sound (n + decodedIn (hear C opus a s).1) := by
  unfold hear
  rcases splitWire a.frame.tag a.frame.payload with e | f
  · simp only [decodedIn_conceal, add_zero]
    exact ⟨_, .inl rfl, h⟩
  · simp only [decodedIn_append, decodedIn_conceal, zero_add]
    exact sound_verifyAndDecode C opus a f h

theorem listen_cons_of_goesOn {a : Arrival} {s' : Listener δ} {pushes : List (Pushed α)} (rest : List Arrival)
    (h : hear C opus a s = (pushes, .goesOn s')) :
    listen C opus s (a :: rest) = (pushes ++ (listen C opus s' rest).1, (listen C opus s' rest).2) := by
  rw [listen, h]

theorem sound_listen (arrivals : List Arrival) (h : s.jitter.Sound n) :
    (listen C opus s arrivals).2.Sound (n + decodedIn (listen C opus s arrivals).1) := by
  induction arrivals generalizing s n with
  | nil => exact ⟨s, .inl rfl, h⟩
  | cons a rest ih =>
    have hstep := sound_hear C opus a h
    cases hhear : hear C opus a s with
    | mk pushes turn =>
      rw [hhear] at hstep
      obtain ⟨s', rfl | rfl, hs'⟩ := hstep
      · rw [listen_cons_of_goesOn C opus rest hhear, decodedIn_append, ← add_assoc]
        exact ih hs'
      · rw [listen, hhear]
        exact ⟨s', .inr rfl, hs'⟩

end Listener

section Concealment

variable {δ α : Type} {C : AuthCrates} {opus : OpusDecoder δ α}

/-- The decoder fills in for every packet that was lost. -/
def Conceals (opus : OpusDecoder δ α) : Prop := ∀ decoder, ∃ plc, (opus.decodeLoss decoder).1 = .ok plc

/-- A well-formed frame with a packet that the decoder takes. -/
def Arrival.Decodable (opus : OpusDecoder δ α) (a : Arrival) : Prop :=
  ∃ f, splitWire a.frame.tag a.frame.payload = .ok f ∧
    ∀ decoder, ∃ samples, (opus.decode decoder f.opus).1 = .ok samples

def Arrival.wire (a : Arrival) : UInt8 × Bytes := (a.frame.tag, a.frame.payload)

def Arrival.seq (a : Arrival) : UInt32 := a.frame.seq

structure Plays (C : AuthCrates) (opus : OpusDecoder δ α) (auth : ListenerAuthState)
    (arrivals : List Arrival) : Prop where
  decodable : ∀ a ∈ arrivals, a.Decodable opus
  accepted : (runListener C auth (arrivals.map Arrival.wire)).2 = none

theorem runListener_goesOn {auth : ListenerAuthState} {tag : UInt8} {payload : Bytes} {f : Frame}
    {rest : List (UInt8 × Bytes)} (hsplit : splitWire tag payload = .ok f)
    (h : (runListener C auth ((tag, payload) :: rest)).2 = none) :
    (auth.verifyFrame C f).1 ≠ .tamperDetected ∧ (auth.verifyFrame C f).1 ≠ .invalidSignature ∧
      (runListener C (auth.verifyFrame C f).2 rest).2 = none := by
  simp only [runListener, hsplit] at h
  cases hverify : auth.verifyFrame C f with
  | mk result auth' =>
    rw [hverify] at h
    cases result with
    | ok => exact ⟨by simp, by simp, h⟩
    | unverified => exact ⟨by simp, by simp, h⟩
    | verified => exact ⟨by simp, by simp, h⟩
    | tamperDetected => simp at h
    | invalidSignature => simp at h

namespace Listener

theorem length_conceal (hconceals : Conceals opus) (decoder : δ) (k : ℕ) :
    (conceal opus decoder k).1.length = k := by
  induction k generalizing decoder with
  | zero => rfl
  | succ k ih =>
    obtain ⟨plc, hplc⟩ := hconceals decoder
    have hloss : opus.decodeLoss decoder = (.ok plc, (opus.decodeLoss decoder).2) := Prod.ext hplc rfl
    rw [conceal, hloss]
    exact congrArg Nat.succ (ih _)

theorem lost_of_gap {prev seq : UInt32} (h : (seq - (prev + 1)).toNat < plcLimit) :
    lost seq (some prev) = (seq - (prev + 1)).toNat := by
  rw [lost]
  by_cases hzero : 0 < (seq - (prev + 1)).toNat
  · exact if_pos ⟨hzero, h⟩
  · have hnone : (seq - (prev + 1)).toNat = 0 := Nat.eq_zero_of_not_pos hzero
    rw [hnone]
    exact ite_self 0

variable {n : ℕ} {s : Listener δ} {a : Arrival} {rest : List Arrival}

theorem decodeFrame_of_decodes {packet : Bytes} (hsound : s.jitter.Sound n)
    (h : ∃ samples, (opus.decode s.decoder packet).1 = .ok samples) :
    ∃ samples decoder jitter, jitter.Sound (n + 1) ∧
      decodeFrame opus a packet s =
        ([.decoded samples], .goesOn { s with decoder, jitter, frames := s.frames + 1 }) := by
  obtain ⟨samples, hsamples⟩ := h
  obtain ⟨jitter, hplay, hjitter⟩ := Jitter.exists_play samples.length a.pushed a.underruns hsound
  refine ⟨samples, (opus.decode s.decoder packet).2, jitter, hjitter, ?_⟩
  have hdecode : opus.decode s.decoder packet = (.ok samples, (opus.decode s.decoder packet).2) :=
    Prod.ext hsamples rfl
  rw [decodeFrame, hdecode]
  simp only [hplay]

theorem verifyAndDecode_of_accepted {f : Frame} (htamper : (s.auth.verifyFrame C f).1 ≠ .tamperDetected)
    (hsig : (s.auth.verifyFrame C f).1 ≠ .invalidSignature) :
    verifyAndDecode C opus a f s =
      decodeFrame opus a f.opus { s with auth := (s.auth.verifyFrame C f).2 } := by
  unfold verifyAndDecode
  cases hverify : s.auth.verifyFrame C f with
  | mk result auth =>
    rw [hverify] at htamper hsig
    cases result with
    | ok => rfl
    | unverified => rfl
    | verified => rfl
    | tamperDetected => exact absurd rfl htamper
    | invalidSignature => exact absurd rfl hsig

theorem hear_of_plays (hconceals : Conceals opus) (hsound : s.jitter.Sound n)
    (h : Plays C opus s.auth (a :: rest)) :
    ∃ pushes s', hear C opus a s = (pushes, .goesOn s') ∧ pushes.length = lost a.seq s.lastSeq + 1 ∧
      s'.lastSeq = some a.seq ∧ s'.jitter.Sound (n + 1) ∧ Plays C opus s'.auth rest := by
  obtain ⟨f, hsplit, hdecodes⟩ := h.decodable a List.mem_cons_self
  obtain ⟨htamper, hsig, haccepted⟩ := runListener_goesOn hsplit h.accepted
  have hlength := length_conceal hconceals s.decoder (lost a.seq s.lastSeq)
  have hrest : ∀ b ∈ rest, b.Decodable opus := fun b hb => h.decodable b (List.mem_cons_of_mem _ hb)
  -- the state in which the packet reaches the decoder
  let s₁ : Listener δ := { s with
    decoder := (conceal opus s.decoder (lost a.seq s.lastSeq)).2
    lastSeq := some a.seq }
  have hverify : verifyAndDecode C opus a f s₁ =
      decodeFrame opus a f.opus { s₁ with auth := (s.auth.verifyFrame C f).2 } :=
    verifyAndDecode_of_accepted htamper hsig
  obtain ⟨samples, decoder, jitter, hjitter, hdecode⟩ :=
    decodeFrame_of_decodes (a := a) (s := { s₁ with auth := (s.auth.verifyFrame C f).2 }) hsound (hdecodes _)
  let s₂ : Listener δ := { s₁ with
    auth := (s.auth.verifyFrame C f).2, decoder, jitter, frames := s.frames + 1 }
  refine ⟨(conceal opus s.decoder (lost a.seq s.lastSeq)).1 ++ [.decoded samples], s₂, ?_, ?_, rfl,
    hjitter, hrest, haccepted⟩
  · have hhear : hear C opus a s = ((conceal opus s.decoder (lost a.seq s.lastSeq)).1 ++
        (verifyAndDecode C opus a f s₁).1, (verifyAndDecode C opus a f s₁).2) := by
      unfold hear
      rw [hsplit]
      rfl
    rw [hhear, hverify, hdecode]
  · rw [List.length_append, hlength]
    rfl

theorem length_listen_of_lastSeq {prev : UInt32} {arrivals : List Arrival} (hconceals : Conceals opus)
    (hsound : s.jitter.Sound n) (h : Plays C opus s.auth arrivals) (hlast : s.lastSeq = some prev)
    (hgaps : SmallGaps plcLimit (prev :: arrivals.map Arrival.seq)) :
    (listen C opus s arrivals).1.length = covered (prev :: arrivals.map Arrival.seq) := by
  induction arrivals generalizing s n prev with
  | nil => rfl
  | cons a rest ih =>
    obtain ⟨pushes, s', hhear, hlength, hlast', hsound', hplays⟩ := hear_of_plays hconceals hsound h
    have hgap : (a.seq - (prev + 1)).toNat < plcLimit := hgaps.rel
    have hstep := toNat_step (by decide) hgap
    have hrest := ih hsound' hplays hlast' hgaps.tail
    rw [listen_cons_of_goesOn C opus rest hhear, List.length_append, hlength, hlast, lost_of_gap hgap,
      ← hstep, hrest]
    rfl

theorem length_listen {first : Arrival} (hconceals : Conceals opus) (hsound : s.jitter.Sound n)
    (h : Plays C opus s.auth (first :: rest)) (hlast : s.lastSeq = none)
    (hgaps : SmallGaps plcLimit ((first :: rest).map Arrival.seq)) :
    (listen C opus s (first :: rest)).1.length = covered ((first :: rest).map Arrival.seq) + 1 := by
  obtain ⟨pushes, s', hhear, hlength, hlast', hsound', hplays⟩ := hear_of_plays hconceals hsound h
  have hrest := length_listen_of_lastSeq hconceals hsound' hplays hlast' hgaps
  have hone : lost first.seq none + 1 = 1 := rfl
  rw [listen_cons_of_goesOn C opus rest hhear, List.length_append, hlength, hlast, hone, hrest, add_comm]
  rfl

/-- The wrapping distance from the first frame to the last. -/
def distance (first : Arrival) (rest : List Arrival) : ℕ := ((rest.getLastD first).seq - first.seq).toNat

theorem covered_mod_arrivals (first : Arrival) (rest : List Arrival) :
    covered ((first :: rest).map Arrival.seq) % 2 ^ 32 = distance first rest := by
  have hlast : (rest.map Arrival.seq).getLastD first.seq = (rest.getLastD first).seq := List.getLastD_map
  rw [List.map_cons, covered_mod, distance, hlast]

theorem length_eq_distance_iff {pushes : List (Pushed α)} {first : Arrival}
    (h : pushes.length = covered ((first :: rest).map Arrival.seq) + 1) :
    pushes.length = distance first rest + 1 ↔ covered ((first :: rest).map Arrival.seq) < 2 ^ 32 := by
  have hlast : (rest.map Arrival.seq).getLastD first.seq = (rest.getLastD first).seq := List.getLastD_map
  have hiff := covered_eq_iff first.seq (rest.map Arrival.seq)
  rw [hlast] at hiff
  rw [h, Nat.add_right_cancel_iff]
  exact hiff

/-- Between the first frame and the last, each step is covered by one push for each of its
sequence numbers; the target stays in its range, whatever arrives. -/
theorem pushes_cover_steps (C : AuthCrates) (opus : OpusDecoder δ α) (hostPubkey : PublicKey)
    (decoder : δ) (arrivals : List Arrival) :
    (listen C opus (start hostPubkey decoder) arrivals).2.Sound
        (decodedIn (listen C opus (start hostPubkey decoder) arrivals).1) ∧
      ∀ first rest, arrivals = first :: rest → Conceals opus → Plays C opus (.new hostPubkey) arrivals →
        SmallGaps plcLimit (arrivals.map Arrival.seq) →
        (listen C opus (start hostPubkey decoder) arrivals).1.length =
            covered (arrivals.map Arrival.seq) + 1 ∧
          covered (arrivals.map Arrival.seq) % 2 ^ 32 = distance first rest ∧
          ((listen C opus (start hostPubkey decoder) arrivals).1.length = distance first rest + 1 ↔
            covered (arrivals.map Arrival.seq) < 2 ^ 32) := by
  have hstart : (start hostPubkey decoder).jitter.Sound 0 := Jitter.sound_start
  constructor
  · have hsound := sound_listen C opus arrivals hstart
    rw [zero_add] at hsound
    exact hsound
  · intro first rest harrivals hconceals hplays hgaps
    subst harrivals
    have hlength := length_listen (s := start hostPubkey decoder) hconceals hstart hplays rfl hgaps
    exact ⟨hlength, covered_mod_arrivals first rest, length_eq_distance_iff hlength⟩

end Listener

section Examples

def silentDecoder : OpusDecoder Unit ℤ :=
  ⟨fun _ _ => ((Vector.replicate samplesPerFrame 0, .ok samplesPerFrame), ())⟩

def silentFrame (seq : UInt32) : Arrival := ⟨⟨seq, 0, tagNormal, [0xF8, 0xFF, 0xFE]⟩, samplesPerFrame, 0⟩

theorem silentDecoder_conceals : Conceals silentDecoder := fun _ => ⟨_, rfl⟩

theorem plays_silentFrames (hostPubkey : PublicKey) (seqs : List UInt32) :
    Plays countingCrates silentDecoder (.new hostPubkey) (seqs.map silentFrame) := by
  constructor
  · intro a ha
    obtain ⟨seq, -, rfl⟩ := List.mem_map.mp ha
    exact ⟨⟨[0xF8, 0xFF, 0xFE], tagNormal, none⟩, rfl, fun _ => ⟨_, rfl⟩⟩
  · induction seqs with
    | nil => rfl
    | cons seq seqs ih => exact ih

def sparseSeqs (seq : UInt32) (n : ℕ) : List UInt32 := List.iterate (· + 64) seq n

theorem smallGaps_sparseSeqs (seq : UInt32) (n : ℕ) : SmallGaps plcLimit (sparseSeqs seq n) := by
  induction n generalizing seq with
  | zero => exact List.isChain_nil
  | succ n ih =>
    have hrest := ih (seq + 64)
    cases n with
    | zero => exact List.isChain_singleton seq
    | succ n =>
      have hgap : (seq + 64 - (seq + 1)).toNat < plcLimit := by
        have hconst : seq + 64 - (seq + 1) = 63 := by
          grind
        rw [hconst]
        decide
      exact List.isChain_cons_cons.mpr ⟨hgap, hrest⟩

theorem covered_sparseSeqs (seq : UInt32) (n : ℕ) : covered (sparseSeqs seq (n + 1)) = 64 * n := by
  induction n generalizing seq with
  | zero => rfl
  | succ n ih =>
    have hrest := ih (seq + 64)
    have hstep : covered (sparseSeqs seq (n + 2)) =
        (seq + 64 - seq).toNat + covered (sparseSeqs (seq + 64) (n + 1)) := rfl
    have hconst : seq + 64 - seq = 64 := by
      grind
    rw [hstep, hrest, hconst, Nat.mul_succ, add_comm]
    rfl

def unsignedFrame : Arrival :=
  ⟨⟨0, 0, tagCheckpoint, List.replicate 96 1 ++ [0xF8, 0xFF, 0xFE]⟩, samplesPerFrame, 0⟩

theorem unsignedFrame_decodable : unsignedFrame.Decodable silentDecoder :=
  ⟨⟨[0xF8, 0xFF, 0xFE], tagCheckpoint, some (Vector.replicate 32 1, Vector.replicate 64 1)⟩, rfl,
    fun _ => ⟨_, rfl⟩⟩

/-- A stream that goes once around, which takes more than two weeks, and one that does not
pass the authentication. -/
theorem pushes_once_around :
    let rest := (sparseSeqs 64 (2 ^ 26)).map silentFrame
    (Conceals silentDecoder ∧
      Plays countingCrates silentDecoder (.new zeroHash) (silentFrame 0 :: rest) ∧
      SmallGaps plcLimit ((silentFrame 0 :: rest).map Arrival.seq) ∧
      (Listener.listen countingCrates silentDecoder (.start zeroHash ()) (silentFrame 0 :: rest)).1.length ≠
        Listener.distance (silentFrame 0) rest + 1) ∧
    unsignedFrame.Decodable silentDecoder ∧
      (Listener.listen countingCrates silentDecoder (.start zeroHash ()) [unsignedFrame]).1.length ≠
        Listener.distance unsignedFrame [] + 1 := by
  intro rest
  have hall : silentFrame 0 :: rest = (sparseSeqs 0 (2 ^ 26 + 1)).map silentFrame := rfl
  have hseqs : (silentFrame 0 :: rest).map Arrival.seq = sparseSeqs 0 (2 ^ 26 + 1) := by
    rw [hall, List.map_map]
    exact List.map_id _
  have hplays : Plays countingCrates silentDecoder (.new zeroHash) (silentFrame 0 :: rest) := by
    rw [hall]
    exact plays_silentFrames zeroHash _
  have hgaps : SmallGaps plcLimit ((silentFrame 0 :: rest).map Arrival.seq) := by
    rw [hseqs]
    exact smallGaps_sparseSeqs 0 _
  have hlength := Listener.length_listen (s := .start zeroHash ()) silentDecoder_conceals
    Jitter.sound_start hplays rfl hgaps
  have hrejected :
      (Listener.listen countingCrates silentDecoder (.start zeroHash ()) [unsignedFrame]).1 = [] := rfl
  refine ⟨⟨silentDecoder_conceals, hplays, hgaps, fun hequal => ?_⟩, unsignedFrame_decodable, ?_⟩
  · have hcovered := (Listener.length_eq_distance_iff hlength).mp hequal
    rw [hseqs, covered_sparseSeqs] at hcovered
    exact absurd hcovered (by decide)
  · rw [hrejected]
    decide

def wrappingFrames : List Arrival := [4294967294, 4294967295, 1].map silentFrame

theorem pushes_cover_steps_wrapping :
    let pushes := (Listener.listen countingCrates silentDecoder (.start zeroHash ()) wrappingFrames).1
    (Listener.listen countingCrates silentDecoder (.start zeroHash ()) wrappingFrames).2.Sound
        (Listener.decodedIn pushes) ∧
      pushes.length = 3 + 1 ∧ (pushes.length = 3 + 1 ↔ 3 < 2 ^ 32) := by
  have hplays : Plays countingCrates silentDecoder (.new zeroHash) wrappingFrames :=
    plays_silentFrames zeroHash _
  have hgaps : SmallGaps plcLimit (wrappingFrames.map Arrival.seq) := by
    decide
  have h := Listener.pushes_cover_steps countingCrates silentDecoder zeroHash () wrappingFrames
  have hcover := h.2 _ _ rfl silentDecoder_conceals hplays hgaps
  exact ⟨h.1, hcover.1, hcover.2.2⟩

end Examples

end Concealment

end Proscenium.Stage
