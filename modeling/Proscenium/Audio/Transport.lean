import Proscenium.Lib.BigEndian
import Proscenium.Lib.FramedRead
import Proscenium.Types.Signing

/-! Audio frames on a QUIC stream (`audio/transport.rs`): a length of two bytes,
a header of nine, and the payload. -/

namespace Proscenium.Audio

open Proscenium.Types BigEndian FramedRead

def headerSize : ℕ := 9

/-- The tuple of `read_audio_frame`, and what a `RelayFrame` carries. -/
structure AudioFrame where
  seq : UInt32
  timestamp : UInt32
  tag : UInt8
  payload : Bytes
  deriving DecidableEq, Repr

def encodeAudioFrame (f : AudioFrame) : Bytes :=
  toBytes 4 f.seq.toNat ++ toBytes 4 f.timestamp.toNat ++ [f.tag] ++ f.payload

def decodeAudioFrame (buf : Bytes) : Except String AudioFrame :=
  if buf.length < headerSize then
    .error ("audio frame too short: " ++ toString buf.length ++ " bytes")
  else
    .ok {
      seq := UInt32.ofNat (ofBytes (buf.take 4))
      timestamp := UInt32.ofNat (ofBytes ((buf.drop 4).take 4))
      tag := buf.getD 8 0
      payload := buf.drop headerSize }

/-- The length is cast to `u16`. -/
def writeAudioFrame (f : AudioFrame) : Bytes :=
  let frame := encodeAudioFrame f
  toBytes 2 (UInt16.ofNat frame.length).toNat ++ frame

/-- A `read_audio_frame` under way waits in the first or in the second of its `read_exact`s. -/
inductive ReadAudioFrame where
  | len (got : Bytes) (hgot : got.length < 2)
  | body (len : UInt16) (hlen : headerSize ≤ len.toNat) (got : Bytes) (hgot : got.length < len.toNat)
  deriving DecidableEq, Repr

/-- A poll of `read_exact`: what it holds for its buffer, and what it leaves. -/
def readExact (want : ℕ) (got unread : Bytes) : Bytes × Bytes :=
  (got ++ unread.take (want - got.length), unread.drop (want - got.length))

namespace ReadAudioFrame

theorem nil_length_lt : ([] : Bytes).length < 2 := Nat.zero_lt_two

def start : ReadAudioFrame := .len [] nil_length_lt

def held : ReadAudioFrame → Bytes
  | .len got _ => got
  | .body n _ got _ => toBytes 2 n.toNat ++ got

def pollBody (n : UInt16) (hlen : headerSize ≤ n.toNat) (got unread : Bytes) :
    Outcome AudioFrame ReadAudioFrame String × Bytes :=
  let read := readExact n.toNat got unread
  if h : read.1.length < n.toNat then (.pending (.body n hlen read.1 h), read.2)
  else
    match decodeAudioFrame read.1 with
    | .ok f => (.ready f, read.2)
    | .error e => (.failed e, read.2)

def pollLen (buf unread : Bytes) : Outcome AudioFrame ReadAudioFrame String × Bytes :=
  let n := UInt16.ofNat (ofBytes buf)
  if hlen : n.toNat < headerSize then
    (.failed ("audio frame length too short: " ++ toString n.toNat), unread)
  else pollBody n (not_lt.mp hlen) [] unread

def poll : ReadAudioFrame → Bytes → Outcome AudioFrame ReadAudioFrame String × Bytes
  | .len got _, unread =>
    let read := readExact 2 got unread
    if h : read.1.length < 2 then (.pending (.len read.1 h), read.2)
    else pollLen read.1 read.2
  | .body n hlen got _, unread => pollBody n hlen got unread

end ReadAudioFrame

def audioReader : Reader AudioFrame ReadAudioFrame UInt8 String :=
  ⟨ReadAudioFrame.start, ReadAudioFrame.held, ReadAudioFrame.poll⟩

/-- The length of the frame is not truncated. -/
def AudioFrame.Fits (f : AudioFrame) : Prop := (encodeAudioFrame f).length < 2 ^ 16

instance AudioFrame.decidableFits (f : AudioFrame) : Decidable f.Fits :=
  inferInstanceAs (Decidable (_ < _))

theorem length_encodeAudioFrame (f : AudioFrame) :
    (encodeAudioFrame f).length = headerSize + f.payload.length := by
  simp [encodeAudioFrame, headerSize]
  omega

theorem length_writeAudioFrame (f : AudioFrame) :
    (writeAudioFrame f).length = 2 + (encodeAudioFrame f).length := by
  rw [writeAudioFrame, List.length_append, length_toBytes]

theorem AudioFrame.Fits.writeAudioFrame {f : AudioFrame} (h : f.Fits) :
    writeAudioFrame f = toBytes 2 (encodeAudioFrame f).length ++ encodeAudioFrame f := by
  rw [Audio.writeAudioFrame, UInt16.toNat_ofNat_of_lt' h]

theorem AudioFrame.Fits.ofBytes_length {f : AudioFrame} (h : f.Fits) :
    ofBytes (toBytes 2 (encodeAudioFrame f).length) = (encodeAudioFrame f).length :=
  ofBytes_toBytes_of_lt h

section Codec

theorem uint32_ofNat_ofBytes_toBytes (n : UInt32) : UInt32.ofNat (ofBytes (toBytes 4 n.toNat)) = n := by
  rw [ofBytes_toBytes_of_lt n.toNat_lt, UInt32.ofNat_toNat]

theorem toBytes_uint32_ofBytes {bs : Bytes} (h : bs.length = 4) :
    toBytes 4 (UInt32.ofNat (ofBytes bs)).toNat = bs := by
  have hlt : ofBytes bs < 2 ^ 32 := by
    have := ofBytes_lt bs
    rw [h] at this
    exact this
  have hround := toBytes_ofBytes bs
  rw [h] at hround
  rw [UInt32.toNat_ofNat_of_lt' hlt, hround]

theorem decodeAudioFrame_encodeAudioFrame (f : AudioFrame) :
    decodeAudioFrame (encodeAudioFrame f) = .ok f := by
  have hlength : ¬ (encodeAudioFrame f).length < headerSize := by
    rw [length_encodeAudioFrame]
    omega
  rw [decodeAudioFrame, if_neg hlength]
  have hseq : (encodeAudioFrame f).take 4 = toBytes 4 f.seq.toNat := rfl
  have htimestamp : ((encodeAudioFrame f).drop 4).take 4 = toBytes 4 f.timestamp.toNat := rfl
  rw [hseq, htimestamp, uint32_ofNat_ofBytes_toBytes, uint32_ofNat_ofBytes_toBytes]
  rfl

theorem encodeAudioFrame_of_decode {buf : Bytes} {f : AudioFrame} (h : decodeAudioFrame buf = .ok f) :
    encodeAudioFrame f = buf := by
  rw [decodeAudioFrame] at h
  split at h
  · cases h
  · next hlength =>
    cases h
    simp only [headerSize, not_lt] at hlength
    have hseq : (buf.take 4).length = 4 := by simp; omega
    have htimestamp : ((buf.drop 4).take 4).length = 4 := by simp; omega
    rw [encodeAudioFrame, toBytes_uint32_ofBytes hseq, toBytes_uint32_ofBytes htimestamp]
    have htag : [buf.getD 8 0] ++ buf.drop 9 = buf.drop 8 := by
      rw [List.getD_eq_getElem _ _ (by omega), List.singleton_append,
        ← List.drop_eq_getElem_cons]
    calc buf.take 4 ++ (buf.drop 4).take 4 ++ [buf.getD 8 0] ++ buf.drop 9
        = buf.take 4 ++ ((buf.drop 4).take 4 ++ (buf.drop 4).drop 4) := by
          rw [List.append_assoc, List.append_assoc, htag, List.drop_drop]
      _ = buf := by rw [List.take_append_drop, List.take_append_drop]

theorem writeAudioFrame_cancel {f g : AudioFrame} {xs ys : Bytes} (hf : f.Fits) (hg : g.Fits)
    (h : writeAudioFrame f ++ xs = writeAudioFrame g ++ ys) : f = g ∧ xs = ys := by
  rw [hf.writeAudioFrame, hg.writeAudioFrame, List.append_assoc, List.append_assoc] at h
  obtain ⟨hlen, hrest⟩ := List.append_inj h (by rw [length_toBytes, length_toBytes])
  have hlength : (encodeAudioFrame f).length = (encodeAudioFrame g).length := by
    rw [← hf.ofBytes_length, hlen, hg.ofBytes_length]
  obtain ⟨hframe, htail⟩ := List.append_inj hrest hlength
  have hdecode := congrArg decodeAudioFrame hframe
  rw [decodeAudioFrame_encodeAudioFrame, decodeAudioFrame_encodeAudioFrame] at hdecode
  exact ⟨Except.ok.inj hdecode, htail⟩

end Codec

section Reads

theorem readExact_of_lt {want : ℕ} {got unread : Bytes} (h : got.length + unread.length < want) :
    readExact want got unread = (got ++ unread, []) := by
  rw [readExact, List.take_of_length_le (by omega), List.drop_of_length_le (by omega)]

theorem readExact_of_le {want : ℕ} {got unread : Bytes} (hgot : got.length ≤ want)
    (h : want ≤ got.length + unread.length) : (readExact want got unread).1.length = want := by
  rw [readExact, List.length_append, List.length_take]
  omega

theorem readExact_append (want : ℕ) (got unread : Bytes) :
    (readExact want got unread).1 ++ (readExact want got unread).2 = got ++ unread := by
  rw [readExact, List.append_assoc, List.take_append_drop]

namespace ReadAudioFrame

theorem pollBody_cases {n : UInt16} (hlen : headerSize ≤ n.toNat) {got : Bytes}
    (hgot : got.length < n.toNat) (bs : Bytes) :
    (∃ h, pollBody n hlen got bs = (.pending (.body n hlen (got ++ bs) h), [])) ∨
    ∃ f rest, pollBody n hlen got bs = (.ready f, rest) ∧ f.Fits ∧
      toBytes 2 n.toNat ++ (got ++ bs) = writeAudioFrame f ++ rest := by
  rcases Nat.lt_or_ge (got.length + bs.length) n.toNat with hlt | hle
  · have hlength : (got ++ bs).length < n.toNat := by rwa [List.length_append]
    refine .inl ⟨hlength, ?_⟩
    unfold pollBody
    simp only [readExact_of_lt hlt]
    rw [dif_pos hlength]
  · right
    have hbuf := readExact_of_le hgot.le hle
    have happend := readExact_append n.toNat got bs
    unfold pollBody
    dsimp only
    generalize readExact n.toNat got bs = read at hbuf happend ⊢
    rw [dif_neg hbuf.not_lt]
    cases hdecode : decodeAudioFrame read.1 with
    | error e =>
      rw [decodeAudioFrame, if_neg (by omega)] at hdecode
      cases hdecode
    | ok f =>
      have hencode := encodeAudioFrame_of_decode hdecode
      have hfits : f.Fits := by
        rw [AudioFrame.Fits, hencode, hbuf]
        exact n.toNat_lt
      refine ⟨f, read.2, rfl, hfits, ?_⟩
      rw [hfits.writeAudioFrame, hencode, hbuf, List.append_assoc, happend]

theorem pollLen_cases {hdr : Bytes} (hhdr : hdr.length = 2) (bs : Bytes) :
    (∃ r', pollLen hdr bs = (.pending r', []) ∧ r'.held = hdr ++ bs) ∨
    (∃ f rest, pollLen hdr bs = (.ready f, rest) ∧ f.Fits ∧ hdr ++ bs = writeAudioFrame f ++ rest) ∨
    ∃ e, pollLen hdr bs = (.failed e, bs) ∧ ofBytes hdr < headerSize := by
  have hlt : ofBytes hdr < 2 ^ 16 := by
    have := ofBytes_lt hdr
    rw [hhdr] at this
    exact this
  have htoNat := UInt16.toNat_ofNat_of_lt' hlt
  have hround : toBytes 2 (UInt16.ofNat (ofBytes hdr)).toNat = hdr := by
    rw [htoNat, ← hhdr, toBytes_ofBytes]
  unfold pollLen
  dsimp only
  by_cases hlen : (UInt16.ofNat (ofBytes hdr)).toNat < headerSize
  · rw [dif_pos hlen]
    rw [htoNat] at hlen
    exact .inr (.inr ⟨_, rfl, hlen⟩)
  · rw [dif_neg hlen]
    have hpos : ([] : Bytes).length < (UInt16.ofNat (ofBytes hdr)).toNat :=
      Nat.lt_of_lt_of_le (by decide) (not_lt.mp hlen)
    rcases pollBody_cases (not_lt.mp hlen) hpos bs with ⟨h, hpoll⟩ | ⟨f, rest, hpoll, hfits, hbytes⟩
    · exact .inl ⟨_, hpoll, congrArg (· ++ bs) hround⟩
    · rw [hround] at hbytes
      exact .inr (.inl ⟨f, rest, hpoll, hfits, hbytes⟩)

theorem poll_cases (r : ReadAudioFrame) (bs : Bytes) :
    (∃ r', r.poll bs = (.pending r', []) ∧ r'.held = r.held ++ bs) ∨
    (∃ f rest, r.poll bs = (.ready f, rest) ∧ f.Fits ∧ r.held ++ bs = writeAudioFrame f ++ rest) ∨
    ∃ e hdr rest, r.poll bs = (.failed e, rest) ∧ r.held ++ bs = hdr ++ rest ∧
      r.held.length ≤ hdr.length ∧ hdr.length = 2 ∧ ofBytes hdr < headerSize := by
  cases r with
  | body n hlen got hgot =>
    rcases pollBody_cases hlen hgot bs with ⟨h, hpoll⟩ | ⟨f, rest, hpoll, hfits, hbytes⟩
    · exact .inl ⟨_, hpoll, (List.append_assoc _ _ _).symm⟩
    · refine .inr (.inl ⟨f, rest, hpoll, hfits, ?_⟩)
      rw [← hbytes]
      exact List.append_assoc _ _ _
  | len got hgot =>
    rcases Nat.lt_or_ge (got.length + bs.length) 2 with hlt | hle
    · have hlength : (got ++ bs).length < 2 := by rwa [List.length_append]
      refine .inl ⟨.len (got ++ bs) hlength, ?_, rfl⟩
      unfold poll
      simp only [readExact_of_lt hlt]
      rw [dif_pos hlength]
    · have hhdr := readExact_of_le (Nat.le_of_lt hgot) hle
      have happend : got ++ bs = _ := (readExact_append 2 got bs).symm
      have hpoll : (len got hgot).poll bs =
          pollLen (readExact 2 got bs).1 (readExact 2 got bs).2 := by
        unfold poll
        dsimp only
        rw [dif_neg hhdr.not_lt]
      rw [hpoll, held, happend]
      rcases pollLen_cases hhdr (readExact 2 got bs).2 with hpending | hready | ⟨e, hfailed, hshort⟩
      · exact .inl hpending
      · exact .inr (.inl hready)
      · refine .inr (.inr ⟨e, _, _, hfailed, rfl, ?_, hhdr, hshort⟩)
        rw [hhdr]
        exact Nat.le_of_lt hgot

theorem held_ne (r : ReadAudioFrame) {f : AudioFrame} (hf : f.Fits) (xs : Bytes) :
    r.held ≠ writeAudioFrame f ++ xs := by
  intro hheld
  cases r with
  | len got hgot =>
    have hlength := congrArg List.length hheld
    rw [held, List.length_append, length_writeAudioFrame] at hlength
    omega
  | body n hlen got hgot =>
    rw [held, hf.writeAudioFrame, List.append_assoc] at hheld
    obtain ⟨hn, hgot'⟩ := List.append_inj hheld (by rw [length_toBytes, length_toBytes])
    have hnum := congrArg ofBytes hn
    rw [ofBytes_toBytes_of_lt n.toNat_lt, hf.ofBytes_length] at hnum
    rw [hgot', hnum, List.length_append] at hgot
    omega

end ReadAudioFrame

theorem ofBytes_hdr {f : AudioFrame} (hf : f.Fits) {hdr xs ys : Bytes} (hhdr : hdr.length = 2)
    (h : hdr ++ xs = writeAudioFrame f ++ ys) : headerSize ≤ ofBytes hdr := by
  rw [hf.writeAudioFrame, List.append_assoc] at h
  obtain ⟨rfl, -⟩ := List.append_inj h (by rw [hhdr, length_toBytes])
  rw [hf.ofBytes_length, length_encodeAudioFrame]
  exact Nat.le_add_right _ _

theorem audioReader_reads : audioReader.Reads writeAudioFrame AudioFrame.Fits where
  held_start := rfl
  encode_ne_nil f := by
    apply List.ne_nil_of_length_pos
    rw [length_writeAudioFrame]
    omega
  encode_cancel _ _ _ _ hf hg := writeAudioFrame_cancel hf hg
  held_incomplete r _ xs hf := r.held_ne hf xs
  pending r r' bs rest hpoll := by
    rcases r.poll_cases bs with ⟨t, h, hheld⟩ | ⟨f, rest', h, -⟩ | ⟨e, hdr, rest', h, -⟩
    · cases h.symm.trans hpoll
      exact ⟨rfl, hheld⟩
    · cases h.symm.trans hpoll
    · cases h.symm.trans hpoll
  ready r f bs rest hpoll := by
    rcases r.poll_cases bs with ⟨t, h, -⟩ | ⟨g, rest', h, hfits, hbytes⟩ | ⟨e, hdr, rest', h, -⟩
    · cases h.symm.trans hpoll
    · cases h.symm.trans hpoll
      exact ⟨hfits, hbytes⟩
    · cases h.symm.trans hpoll
  failed r bs e rest hpoll := by
    rcases r.poll_cases bs with ⟨t, h, -⟩ | ⟨g, rest', h, -⟩ | ⟨e', hdr, rest', h, hbytes, hle, hhdr, hshort⟩
    · cases h.symm.trans hpoll
    · cases h.symm.trans hpoll
    · cases h.symm.trans hpoll
      have hlength := congrArg List.length hbytes
      rw [List.length_append, List.length_append] at hlength
      refine ⟨?_, by omega, fun f xs ys hf hwire => ?_⟩
      · apply List.ne_nil_of_length_pos
        change 0 < (r.held ++ bs).length
        rw [List.length_append]
        omega
      · have hwire' : hdr ++ (rest ++ xs) = writeAudioFrame f ++ ys := by
          rw [← List.append_assoc, ← hbytes]
          exact hwire
        exact absurd (ofBytes_hdr hf hhdr hwire') (by omega)

end Reads

end Proscenium.Audio
