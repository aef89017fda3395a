import Proscenium.Types.Signing

/-! The encoder and the decoder of the audio (`audio/codec.rs`): samples are
collected until there are enough for a frame. What Opus writes is a parameter;
the buffers that it writes into have a fixed size. -/

namespace Proscenium.Audio

open Proscenium.Types

/-- With one channel this is `FRAME_SIZE`, too. -/
def samplesPerFrame : ℕ := 960

def maxPacketSize : ℕ := 4000

/-- What is used of the `opus` crate: the buffer after `encode_float`, and the length that it
returns. -/
structure Opus (σ α : Type) where
  encodeFloat : σ → List α → (Vector UInt8 maxPacketSize × Except String ℕ) × σ

structure OpusEncoder (σ α : Type) where
  encoder : σ
  buffer : List α

namespace OpusEncoder

variable {σ α : Type} (opus : Opus σ α)

/-- The loop of `push_samples`; a frame that is not encoded is logged and lost. -/
def drainFrames (encoder : σ) (buffer : List α) : List Bytes × OpusEncoder σ α :=
  if samplesPerFrame ≤ buffer.length then
    let ((output, len), encoder) := opus.encodeFloat encoder (buffer.take samplesPerFrame)
    let (packets, last) := drainFrames encoder (buffer.drop samplesPerFrame)
    match len with
    | .ok len => (output.toList.take len :: packets, last)
    | .error _ => (packets, last)
  else ([], ⟨encoder, buffer⟩)
termination_by buffer.length
decreasing_by
  rw [List.length_drop]
  have hpos : 0 < samplesPerFrame := by decide
  omega

def maxBuffer : ℕ := samplesPerFrame * 10

def pushSamples (samples : List α) (e : OpusEncoder σ α) : List Bytes × OpusEncoder σ α :=
  let buffer := e.buffer ++ samples
  let buffer := if maxBuffer < buffer.length then buffer.drop (buffer.length - maxBuffer) else buffer
  drainFrames opus e.encoder buffer

theorem length_drainFrames (encoder : σ) (buffer : List α) :
    ∀ packet ∈ (drainFrames opus encoder buffer).1, packet.length ≤ maxPacketSize := by
  fun_induction drainFrames opus encoder buffer with
  | case1 encoder buffer henough output encoder' packets last hpackets len hencode ih =>
    rw [hpackets] at ih
    have hall : ∀ packet ∈ packets, packet.length ≤ maxPacketSize := ih
    refine List.forall_mem_cons.mpr ⟨?_, hall⟩
    rw [List.length_take, Vector.length_toList]
    exact Nat.min_le_right _ _
  | case2 encoder buffer henough output encoder' packets last hpackets e hencode ih =>
    rw [hpackets] at ih
    exact ih
  | case3 encoder buffer hfew => exact fun _ h => absurd h List.not_mem_nil

theorem length_pushSamples (samples : List α) (e : OpusEncoder σ α) :
    ∀ packet ∈ (e.pushSamples opus samples).1, packet.length ≤ maxPacketSize :=
  length_drainFrames opus _ _

end OpusEncoder

/-- The buffer after `decode_float`, and the length that it returns. -/
structure OpusDecoder (δ α : Type) where
  decodeFloat : δ → Bytes → (Vector α samplesPerFrame × Except String ℕ) × δ

namespace OpusDecoder

variable {δ α : Type} (opus : OpusDecoder δ α)

def decode (d : δ) (packet : Bytes) : Except String (List α) × δ :=
  let ((output, len), d) := opus.decodeFloat d packet
  (len.map fun len => output.toList.take len, d)

def decodeLoss (d : δ) : Except String (List α) × δ := opus.decode d []

end OpusDecoder

end Proscenium.Audio
