import Proscenium.Lib.BigEndian
import Proscenium.Lib.FrameStream
import Proscenium.Types.Signing

/-! The frames of a sync stream (`framing.rs`): a length of four bytes and the
payload. An empty frame ends the stream. -/

namespace Proscenium.Framing

open Proscenium.Types BigEndian FrameStream

def maxFrameSize : ℕ := 10000000

inductive AppError where
  | readExact (e : ReadExactError)
  | other (message : String)
  deriving DecidableEq, Repr

/-- The length is cast to `u32`. -/
def writeFrame (data : Bytes) : Bytes :=
  let len := UInt32.ofNat data.length
  toBytes 4 len.toNat ++ if data.isEmpty then [] else data

def frameTooLarge (len : ℕ) : AppError :=
  .other ("frame too large: " ++ toString len ++ " bytes")

/-- The payload behind a length, on what is left of the stream. -/
def readPayload (stop : StreamEnd) (len : UInt32) (bs : Bytes) :
    Except AppError (Option Bytes) × Bytes :=
  if len = 0 then (.ok none, bs)
  else if maxFrameSize < len.toNat then (.error (frameTooLarge len.toNat), bs)
  else
    match readExact stop len.toNat bs with
    | (.ok buf, rest) => (.ok (some buf), rest)
    | (.error e, rest) => (.error (.readExact e), rest)

def readFrame (stop : StreamEnd) (bs : Bytes) : Except AppError (Option Bytes) × Bytes :=
  match readExact stop 4 bs with
  | (.ok lenBuf, rest) => readPayload stop (UInt32.ofNat (ofBytes lenBuf)) rest
  | (.error e, rest) => (.error (.readExact e), rest)

structure Framed (data : Bytes) : Prop where
  nonempty : data ≠ []
  size : data.length ≤ maxFrameSize

theorem Framed.toNat_length {data : Bytes} (h : Framed data) :
    (UInt32.ofNat data.length).toNat = data.length := by
  have hlt : data.length < 2 ^ 32 := h.size.trans_lt (by decide)
  exact UInt32.toNat_ofNat_of_lt' hlt

theorem Framed.writeFrame {data : Bytes} (h : Framed data) :
    writeFrame data = toBytes 4 data.length ++ data := by
  have hempty : data.isEmpty = false := List.isEmpty_eq_false_iff.mpr h.nonempty
  rw [Framing.writeFrame, h.toNat_length, hempty]
  rfl

theorem Framed.ofBytes_length {data : Bytes} (h : Framed data) :
    UInt32.ofNat (ofBytes (toBytes 4 data.length)) = UInt32.ofNat data.length := by
  have hlt : data.length < 256 ^ 4 := h.size.trans_lt (by decide)
  rw [ofBytes_toBytes_of_lt hlt]

section Read

variable (stop : StreamEnd)

theorem readPayload_of_framed {data : Bytes} (h : Framed data) (bs : Bytes) :
    readPayload stop (UInt32.ofNat data.length) bs =
      match readExact stop data.length bs with
      | (.ok buf, rest) => (.ok (some buf), rest)
      | (.error e, rest) => (.error (.readExact e), rest) := by
  have hne : UInt32.ofNat data.length ≠ 0 := by
    intro hzero
    have hlength := congrArg UInt32.toNat hzero
    rw [h.toNat_length] at hlength
    exact h.nonempty (List.length_eq_zero_iff.mp hlength)
  have hsize : ¬ maxFrameSize < (UInt32.ofNat data.length).toNat := by
    rw [h.toNat_length]
    exact Nat.not_lt.mpr h.size
  rw [readPayload, if_neg hne, if_neg hsize, h.toNat_length]

theorem readFrame_append {hdr : Bytes} (hhdr : hdr.length = 4) (bs : Bytes) :
    readFrame stop (hdr ++ bs) = readPayload stop (UInt32.ofNat (ofBytes hdr)) bs := by
  rw [readFrame, readExact_append hhdr]

theorem readFrame_of_lt {bs : Bytes} (h : bs.length < 4) :
    readFrame stop bs = (.error (.readExact (stop.error bs.length)), []) := by
  rw [readFrame, readExact_of_lt h]

theorem readFrame_writeFrame {data : Bytes} (h : Framed data) (bs : Bytes) :
    readFrame stop (writeFrame data ++ bs) = (.ok (some data), bs) := by
  rw [h.writeFrame, List.append_assoc, readFrame_append stop (length_toBytes _ _), h.ofBytes_length,
    readPayload_of_framed stop h, readExact_append rfl]

theorem readFrame_writeFrame_nil (bs : Bytes) : readFrame stop (writeFrame [] ++ bs) = (.ok none, bs) :=
  readFrame_append stop (show (writeFrame []).length = 4 from rfl) bs

theorem eq_writeFrame_append_of_readFrame {bs data rest : Bytes}
    (h : readFrame stop bs = (.ok (some data), rest)) :
    Framed data ∧ bs = writeFrame data ++ rest := by
  rw [readFrame] at h
  split at h
  next lenBuf tail hread =>
    obtain ⟨hlen, rfl⟩ := eq_append_of_readExact hread
    have hlt : ofBytes lenBuf < 2 ^ 32 := by
      have := ofBytes_lt lenBuf
      rw [hlen] at this
      exact this
    rw [readPayload] at h
    split at h
    next => cases h
    next hne =>
      split at h
      next => cases h
      next hsize =>
        split at h
        next buf left hbuf =>
          cases h
          obtain ⟨hlength, rfl⟩ := eq_append_of_readExact hbuf
          rw [UInt32.toNat_ofNat_of_lt' hlt] at hlength hsize
          have hframed : Framed data := by
            refine ⟨fun hnil => hne ?_, hlength ▸ Nat.not_lt.mp hsize⟩
            rw [← hlength, hnil]
            rfl
          refine ⟨hframed, ?_⟩
          rw [hframed.writeFrame, hlength, ← hlen, toBytes_ofBytes, List.append_assoc]
        next => cases h
  next => cases h

def frameReader : Reader Bytes UInt8 AppError where
  next := readFrame stop
  shrinks bs data rest h := by
    obtain ⟨hframed, rfl⟩ := eq_writeFrame_append_of_readFrame stop h
    rw [hframed.writeFrame, List.length_append, List.length_append, length_toBytes]
    omega

theorem frameReader_next : (frameReader stop).next = readFrame stop := rfl

theorem frameReader_reads : (frameReader stop).Reads writeFrame Framed where
  next_encode _ bs h := readFrame_writeFrame stop h bs
  of_next _ _ _ h := eq_writeFrame_append_of_readFrame stop h

theorem length_lt_of_cut {part bs : Bytes} (h : part <+: bs) (hne : part ≠ bs) :
    part.length < bs.length :=
  lt_of_le_of_ne h.length_le fun hlength => hne (h.eq_of_length hlength)

theorem failsCut_writeFrame {data : Bytes} (h : Framed data) :
    (frameReader stop).FailsCut (writeFrame data) := by
  intro part hpart hne
  have hlength := length_lt_of_cut hpart hne
  rw [h.writeFrame] at hpart hlength
  rw [List.length_append, length_toBytes] at hlength
  rcases Nat.lt_or_ge part.length 4 with hshort | hlong
  · exact ⟨_, _, readFrame_of_lt stop hshort⟩
  · -- the length is there, and the payload is not
    obtain ⟨part', rfl⟩ := List.prefix_of_prefix_length_le (List.prefix_append _ _) hpart
      (by rwa [length_toBytes])
    have hlt : part'.length < data.length := by
      rw [List.length_append, length_toBytes] at hlength
      omega
    have hread : readFrame stop (toBytes 4 data.length ++ part') =
        (.error (.readExact (stop.error part'.length)), []) := by
      rw [readFrame_append stop (length_toBytes _ _), h.ofBytes_length, readPayload_of_framed stop h,
        readExact_of_lt hlt]
    exact ⟨_, _, hread⟩

theorem failsCut_writeFrame_nil : (frameReader stop).FailsCut (writeFrame []) :=
  fun _ hpart hne => ⟨_, _, readFrame_of_lt stop (length_lt_of_cut hpart hne)⟩

end Read

/-- A stream as `sync` writes it: the frames, and the empty one at the end. -/
def writeFrames (payloads : List Bytes) : Bytes := payloads.flatMap writeFrame ++ writeFrame []

def readFrames (stop : StreamEnd) (bs : Bytes) : List Bytes × Except AppError Unit × Bytes :=
  (frameReader stop).drain bs

/-- What is read is what was written, to the byte, and of a stream that was cut short the first
payloads and an error. -/
theorem readFrames_writeFrames (stop : StreamEnd) {payloads : List Bytes}
    (hpayloads : ∀ data ∈ payloads, data ≠ [] ∧ data.length ≤ maxFrameSize) :
    (∀ later, readFrames stop (writeFrames payloads ++ later) = (payloads, .ok (), later)) ∧
    ∀ part, part <+: writeFrames payloads → part ≠ writeFrames payloads →
      ∃ got e rest, got <+: payloads ∧ readFrames stop part = (got, .error e, rest) := by
  have hframed : ∀ data ∈ payloads, Framed data := fun data hdata =>
    ⟨(hpayloads data hdata).1, (hpayloads data hdata).2⟩
  have hreads := frameReader_reads stop
  constructor
  · intro later
    have hnext : (frameReader stop).next (writeFrame [] ++ later) = (.ok none, later) := by
      rw [frameReader_next, readFrame_writeFrame_nil]
    rw [readFrames, writeFrames, List.append_assoc, hreads.drain_flatMap hframed,
      Reader.drain_done hnext, List.append_nil]
  · intro part hpart hne
    have hframe : ∀ data, Framed data → (frameReader stop).FailsCut (writeFrame data) :=
      fun _ h => failsCut_writeFrame stop h
    exact hreads.drain_cut hframe (failsCut_writeFrame_nil stop) hframed hpart hne

theorem readFrames_writeFrames_two :
    (∀ later, readFrames .finished (writeFrames [[7], [1, 2]] ++ later) =
      ([[7], [1, 2]], .ok (), later)) ∧
    ∀ part, part <+: writeFrames [[7], [1, 2]] → part ≠ writeFrames [[7], [1, 2]] →
      ∃ got e rest, got <+: [[7], [1, 2]] ∧ readFrames .finished part = (got, .error e, rest) :=
  have hpayloads : ∀ data ∈ ([[7], [1, 2]] : List Bytes), data ≠ [] ∧ data.length ≤ maxFrameSize := by
    simp [maxFrameSize]
  readFrames_writeFrames .finished hpayloads

end Proscenium.Framing
