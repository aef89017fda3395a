import Proscenium.Audio.Codec
import Proscenium.Lib.Blocks

/-! How the samples are cut into the calls of `push_samples` does not matter. A
call leaves less than a frame, so one of at most nine frames fits beside it, and
the oldest samples are never dropped. -/

namespace Proscenium.Audio

open Proscenium.Types

variable {σ α : Type} (opus : Opus σ α)

/-- `encode_float` succeeds on a frame. -/
def Opus.Succeeds : Prop :=
  ∀ s frame, frame.length = samplesPerFrame → ∃ len, (opus.encodeFloat s frame).1.2 = .ok len

/-- The packet of a call that succeeded. -/
def packetOf (call : Vector UInt8 maxPacketSize × Except String ℕ) : List Bytes :=
  match call.2 with
  | .ok len => [call.1.toList.take len]
  | .error _ => []

def encodeFrames (encoder : σ) : List (List α) → List Bytes × σ
  | [] => ([], encoder)
  | frame :: frames =>
    let call := opus.encodeFloat encoder frame
    (packetOf call.1 ++ (encodeFrames call.2 frames).1, (encodeFrames call.2 frames).2)

namespace OpusEncoder

def pushAll : List (List α) → OpusEncoder σ α → List Bytes × OpusEncoder σ α
  | [], e => ([], e)
  | chunk :: chunks, e =>
    let call := e.pushSamples opus chunk
    (call.1 ++ (pushAll chunks call.2).1, (pushAll chunks call.2).2)

variable {opus}

theorem samplesPerFrame_pos : 0 < samplesPerFrame := by
  decide

theorem encodeFrames_append (encoder : σ) (frames more : List (List α)) :
    encodeFrames opus encoder (frames ++ more) =
      ((encodeFrames opus encoder frames).1 ++
          (encodeFrames opus (encodeFrames opus encoder frames).2 more).1,
        (encodeFrames opus (encodeFrames opus encoder frames).2 more).2) := by
  induction frames generalizing encoder with
  | nil => rfl
  | cons frame frames ih =>
    rw [List.cons_append, encodeFrames, encodeFrames, ih, List.append_assoc]

theorem length_encodeFrames (hok : opus.Succeeds) (encoder : σ) {frames : List (List α)}
    (h : ∀ frame ∈ frames, frame.length = samplesPerFrame) :
    (encodeFrames opus encoder frames).1.length = frames.length := by
  induction frames generalizing encoder with
  | nil => rfl
  | cons frame frames ih =>
    obtain ⟨len, hlen⟩ := hok encoder frame (h frame (List.mem_cons_self ..))
    have hrest := ih (opus.encodeFloat encoder frame).2 fun f hf => h f (List.mem_cons_of_mem _ hf)
    have hpacket : (packetOf (opus.encodeFloat encoder frame).1).length = 1 := by
      simp [packetOf, hlen]
    rw [encodeFrames, List.length_append, hpacket, hrest, List.length_cons, Nat.add_comm]

theorem drainFrames_eq (encoder : σ) (buffer : List α) : drainFrames opus encoder buffer =
    ((encodeFrames opus encoder (Blocks.full samplesPerFrame buffer)).1,
      ⟨(encodeFrames opus encoder (Blocks.full samplesPerFrame buffer)).2,
        Blocks.rest samplesPerFrame buffer⟩) := by
  induction buffer using Blocks.block_induction samplesPerFrame_pos generalizing encoder with
  | short buffer h =>
    rw [drainFrames, if_neg (not_le.mpr h), Blocks.full_of_lt h, Blocks.rest_of_lt h]
    rfl
  | block buffer h ih =>
    rw [drainFrames, if_pos h, Blocks.full_of_le samplesPerFrame_pos h,
      Blocks.rest_of_le samplesPerFrame_pos h, encodeFrames]
    simp only [ih]
    unfold packetOf
    cases (opus.encodeFloat encoder (buffer.take samplesPerFrame)).1.2 with
    | ok len => rfl
    | error e => rfl

theorem pushSamples_eq {e : OpusEncoder σ α} {samples : List α} (hbuffer : e.buffer.length < samplesPerFrame)
    (hsamples : samples.length ≤ 9 * samplesPerFrame) :
    e.pushSamples opus samples = drainFrames opus e.encoder (e.buffer ++ samples) := by
  have hfits : ¬ maxBuffer < (e.buffer ++ samples).length := by
    rw [List.length_append, maxBuffer]
    omega
  show drainFrames opus e.encoder (if maxBuffer < (e.buffer ++ samples).length then _ else e.buffer ++ samples) = _
  rw [if_neg hfits]

theorem pushAll_eq {chunks : List (List α)} (h : ∀ chunk ∈ chunks, chunk.length ≤ 9 * samplesPerFrame)
    {e : OpusEncoder σ α} (hbuffer : e.buffer.length < samplesPerFrame) :
    pushAll opus chunks e = drainFrames opus e.encoder (e.buffer ++ chunks.flatten) := by
  induction chunks generalizing e with
  | nil =>
    rw [List.flatten_nil, List.append_nil, drainFrames, if_neg (not_le.mpr hbuffer)]
    rfl
  | cons chunk chunks ih =>
    have hfirst : e.pushSamples opus chunk = drainFrames opus e.encoder (e.buffer ++ chunk) :=
      pushSamples_eq hbuffer (h chunk (List.mem_cons_self ..))
    have hleft : (e.pushSamples opus chunk).2.buffer.length < samplesPerFrame := by
      rw [hfirst, drainFrames_eq, Blocks.length_rest]
      exact Nat.mod_lt _ samplesPerFrame_pos
    have hrest := ih (fun c hc => h c (List.mem_cons_of_mem _ hc)) hleft
    rw [pushAll, hrest, hfirst, List.flatten_cons, ← List.append_assoc]
    simp only [drainFrames_eq]
    rw [Blocks.full_append samplesPerFrame_pos (e.buffer ++ chunk),
      Blocks.rest_append samplesPerFrame_pos (e.buffer ++ chunk), encodeFrames_append]

variable (opus)

/-- Whatever the cuts: each frame of the samples was encoded in its turn, and the rest of less than a
frame is in the buffer. -/
theorem packets_of_chunks (hok : opus.Succeeds) (encoder : σ) (chunks : List (List α))
    (h : ∀ chunk ∈ chunks, chunk.length ≤ 9 * samplesPerFrame) :
    let samples := chunks.flatten
    let frames := (List.range (samples.length / samplesPerFrame)).map fun i =>
      (samples.drop (i * samplesPerFrame)).take samplesPerFrame
    let out := pushAll opus chunks ⟨encoder, []⟩
    out.1 = (encodeFrames opus encoder frames).1 ∧
      out.2.encoder = (encodeFrames opus encoder frames).2 ∧
      out.1.length = samples.length / samplesPerFrame ∧
      out.2.buffer = samples.drop (samples.length - samples.length % samplesPerFrame) ∧
      out.2.buffer.length = samples.length % samplesPerFrame ∧
      out.2.buffer.length < samplesPerFrame := by
  intro samples frames out
  have hout : out = drainFrames opus encoder samples := pushAll_eq h samplesPerFrame_pos
  have hrest : samples.length - samples.length % samplesPerFrame =
      samples.length / samplesPerFrame * samplesPerFrame := by
    have hdiv := Nat.div_add_mod' samples.length samplesPerFrame
    omega
  have hlen : (Blocks.rest samplesPerFrame samples).length = samples.length % samplesPerFrame :=
    Blocks.length_rest
  rw [hout, drainFrames_eq]
  refine ⟨rfl, rfl, ?_, ?_, hlen, ?_⟩
  · have hframes : ∀ frame ∈ Blocks.full samplesPerFrame samples, frame.length = samplesPerFrame :=
      fun frame => Blocks.length_of_mem_full
    show (encodeFrames opus encoder (Blocks.full samplesPerFrame samples)).1.length = _
    rw [length_encodeFrames hok encoder hframes, Blocks.length_full]
  · rw [hrest]
    rfl
  · show (Blocks.rest samplesPerFrame samples).length < samplesPerFrame
    rw [hlen]
    exact Nat.mod_lt _ samplesPerFrame_pos

section Examples

/-- An encoder that writes packets of three bytes, and counts them. -/
def countingOpus : Opus ℕ ℤ where
  encodeFloat n _ := ((Vector.replicate maxPacketSize n.toUInt8, .ok 3), n + 1)

/-- Seventeen frames and half of one, in two pieces after an empty one. -/
theorem packets_of_chunks_counting :
    (pushAll countingOpus [[], List.replicate 8640 0, List.replicate 8160 1] ⟨0, []⟩).1.length = 17 ∧
      (pushAll countingOpus [[], List.replicate 8640 0, List.replicate 8160 1] ⟨0, []⟩).2.buffer.length =
        480 := by
  have hok : countingOpus.Succeeds := fun s frame _ => ⟨3, rfl⟩
  have hlen : ∀ chunk ∈ [[], List.replicate 8640 (0 : ℤ), List.replicate 8160 1],
      chunk.length ≤ 9 * samplesPerFrame := by
    simp [samplesPerFrame, -List.reduceReplicate]
  have hall := packets_of_chunks countingOpus hok 0 _ hlen
  have hsamples : [[], List.replicate 8640 (0 : ℤ), List.replicate 8160 1].flatten.length = 16800 := by
    simp [-List.reduceReplicate]
  obtain ⟨-, -, hpackets, -, hrest, -⟩ := hall
  rw [hsamples] at hpackets hrest
  exact ⟨hpackets, hrest⟩

end Examples

end OpusEncoder
end Proscenium.Audio
