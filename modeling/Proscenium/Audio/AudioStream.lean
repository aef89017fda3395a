import Proscenium.Audio.Transport
import Proscenium.Framing

/-! A stream of audio frames from its first byte to its end: `read_audio_frame`
called until it returns no further frame. -/

namespace Proscenium.Audio

open Proscenium.Types Proscenium.Framing BigEndian FrameStream

def readAudioFrame (stop : StreamEnd) (bs : Bytes) : Except AppError (Option AudioFrame) × Bytes :=
  match FrameStream.readExact stop 2 bs with
  | (.error .closedStream, rest) => (.ok none, rest)
  | (.error e, rest) => (.error (.readExact e), rest)
  | (.ok lenBuf, rest) =>
    let len := UInt16.ofNat (ofBytes lenBuf)
    if len.toNat < headerSize then
      (.error (.other ("audio frame length too short: " ++ toString len.toNat)), rest)
    else
      match FrameStream.readExact stop len.toNat rest with
      | (.error e, rest) => (.error (.readExact e), rest)
      | (.ok buf, rest) =>
        match decodeAudioFrame buf with
        | .ok f => (.ok (some f), rest)
        | .error e => (.error (.other e), rest)

namespace ReadAudioFrame

/-- What becomes of a read that still waits when the stream has ended. -/
def atEnd (stop : StreamEnd) : ReadAudioFrame → Except AppError (Option AudioFrame)
  | .len got _ =>
    match stop.error got.length with
    | .closedStream => .ok none
    | e => .error (.readExact e)
  | .body _ _ got _ => .error (.readExact (stop.error got.length))

end ReadAudioFrame

section Poll

variable (stop : StreamEnd)

def settled : FramedRead.Outcome AudioFrame ReadAudioFrame String → Except AppError (Option AudioFrame)
  | .pending r => r.atEnd stop
  | .ready f => .ok (some f)
  | .failed e => .error (.other e)

theorem readBody_eq_poll {n : UInt16} (hlen : headerSize ≤ n.toNat) (bs : Bytes) :
    (match FrameStream.readExact stop n.toNat bs with
      | (.error e, rest) => (.error (.readExact e), rest)
      | (.ok buf, rest) =>
        match decodeAudioFrame buf with
        | .ok f => (.ok (some f), rest)
        | .error e => (.error (.other e), rest)) =
      (ReadAudioFrame.pollBody n hlen [] bs).map (settled stop) id := by
  rcases Nat.lt_or_ge bs.length n.toNat with hlt | hle
  · -- the stream ends within the body
    have hshort : ([] : Bytes).length + bs.length < n.toNat := by rwa [List.length_nil, Nat.zero_add]
    rw [FrameStream.readExact_of_lt hlt, ReadAudioFrame.pollBody]
    simp only [Audio.readExact_of_lt hshort, List.nil_append]
    rw [dif_pos hlt]
    rfl
  · have hread : Audio.readExact n.toNat [] bs = (bs.take n.toNat, bs.drop n.toNat) := rfl
    have hlength : ¬ (Audio.readExact n.toNat [] bs).1.length < n.toNat := by
      rw [hread, List.length_take_of_le hle]
      exact Nat.lt_irrefl _
    rw [FrameStream.readExact, if_pos hle]
    unfold ReadAudioFrame.pollBody
    dsimp only
    rw [dif_neg hlength, hread]
    cases decodeAudioFrame (bs.take n.toNat) with
    | ok f => rfl
    | error e => rfl

theorem readAudioFrame_eq_poll (bs : Bytes) :
    readAudioFrame stop bs = (audioReader.poll audioReader.start bs).map (settled stop) id := by
  have hpoll : audioReader.poll audioReader.start bs = ReadAudioFrame.start.poll bs := rfl
  rw [hpoll, ReadAudioFrame.start, ReadAudioFrame.poll]
  rcases Nat.lt_or_ge bs.length 2 with hlt | hle
  · -- it ends before the length is there
    have hshort : ([] : Bytes).length + bs.length < 2 := by rwa [List.length_nil, Nat.zero_add]
    rw [readAudioFrame, FrameStream.readExact_of_lt hlt]
    simp only [Audio.readExact_of_lt hshort, List.nil_append]
    rw [dif_pos hlt]
    cases stop with
    | finished => rfl
    | closed => rfl
    | lost reason => rfl
  · have hread : Audio.readExact 2 [] bs = (bs.take 2, bs.drop 2) := rfl
    have hlength : ¬ (Audio.readExact 2 [] bs).1.length < 2 := by
      rw [hread, List.length_take_of_le hle]
      exact Nat.lt_irrefl _
    rw [readAudioFrame, FrameStream.readExact, if_pos hle]
    dsimp only
    rw [dif_neg hlength, hread, ReadAudioFrame.pollLen]
    dsimp only
    by_cases hlen : (UInt16.ofNat (ofBytes (bs.take 2))).toNat < headerSize
    · rw [if_pos hlen, dif_pos hlen]
      rfl
    · rw [if_neg hlen, dif_neg hlen]
      exact readBody_eq_poll stop (not_lt.mp hlen) (bs.drop 2)

end Poll

section Streams

variable (stop : StreamEnd)

theorem readAudioFrame_writeAudioFrame {f : AudioFrame} (hf : f.Fits) (bs : Bytes) :
    readAudioFrame stop (writeAudioFrame f ++ bs) = (.ok (some f), bs) := by
  rw [readAudioFrame_eq_poll, audioReader_reads.poll_encode hf]
  rfl

theorem ne_some_atEnd (r : ReadAudioFrame) (f : AudioFrame) : r.atEnd stop ≠ .ok (some f) := by
  intro h
  cases r with
  | len got hgot => cases stop <;> cases h
  | body n hlen got hgot => cases h

theorem eq_writeAudioFrame_append {bs rest : Bytes} {f : AudioFrame}
    (h : readAudioFrame stop bs = (.ok (some f), rest)) :
    f.Fits ∧ bs = writeAudioFrame f ++ rest := by
  rw [readAudioFrame_eq_poll] at h
  rcases hpoll : audioReader.poll audioReader.start bs with ⟨outcome, left⟩
  rw [hpoll] at h
  obtain ⟨hread, rfl⟩ := Prod.mk.inj h
  cases outcome with
  | pending r => exact absurd hread (ne_some_atEnd stop r f)
  | ready g =>
    cases hread
    exact audioReader_reads.ready _ _ _ _ hpoll
  | failed e => cases hread

def frameReader : Reader AudioFrame UInt8 AppError where
  next := readAudioFrame stop
  shrinks bs f rest h := by
    obtain ⟨-, rfl⟩ := eq_writeAudioFrame_append stop h
    rw [List.length_append, length_writeAudioFrame]
    omega

theorem frameReader_next : (frameReader stop).next = readAudioFrame stop := rfl

theorem frameReader_reads : (frameReader stop).Reads writeAudioFrame AudioFrame.Fits where
  next_encode _ bs hf := readAudioFrame_writeAudioFrame stop hf bs
  of_next _ _ _ h := eq_writeAudioFrame_append stop h

/-- The frames, how the stream ended, and what was left of it. -/
def readAudioFrames (bs : Bytes) : List AudioFrame × Except AppError Unit × Bytes :=
  (frameReader stop).drain bs

def writeAudioFrames (frames : List AudioFrame) : Bytes := frames.flatMap writeAudioFrame

theorem readAudioFrames_append {frames : List AudioFrame} (hfits : ∀ f ∈ frames, f.Fits) (bs : Bytes) :
    readAudioFrames stop (writeAudioFrames frames ++ bs) =
      (frames ++ (readAudioFrames stop bs).1, (readAudioFrames stop bs).2) :=
  (frameReader_reads stop).drain_flatMap hfits bs

theorem readAudioFrames_nil : ∃ outcome, readAudioFrames stop [] = ([], outcome, []) := by
  cases stop with
  | finished => exact ⟨_, Reader.drain_error rfl⟩
  | closed => exact ⟨_, Reader.drain_done rfl⟩
  | lost reason => exact ⟨_, Reader.drain_error rfl⟩

theorem frames_eq_nil {bs : Bytes} (h : ∀ f rest, f.Fits → bs ≠ writeAudioFrame f ++ rest) :
    (readAudioFrames stop bs).1 = [] := by
  rcases hread : readAudioFrames stop bs with ⟨frames, outcome⟩
  obtain ⟨hfits, tail, hbytes, -⟩ := (frameReader_reads stop).flatMap_of_drain hread
  cases frames with
  | nil => rfl
  | cons f fs =>
    rw [List.flatMap_cons, List.append_assoc] at hbytes
    exact absurd hbytes (h f _ (hfits f List.mem_cons_self))

theorem frames_writeAudioFrame {f : AudioFrame} (hf : f.Fits) (bs : Bytes) :
    (readAudioFrames stop (writeAudioFrame f ++ bs)).1 = f :: (readAudioFrames stop bs).1 :=
  congrArg Prod.fst (Reader.drain_frame (readAudioFrame_writeAudioFrame stop hf bs))

end Streams

end Proscenium.Audio
