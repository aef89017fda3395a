import Mathlib

/-! Frames on a stream of bytes that ends: reading one after the other, until the
reader says that it is done or fails. What comes out is what was written, and of
a stream that was cut short a first part of it. -/

namespace FrameStream

inductive StreamEnd where
  | finished
  | closed
  | lost (reason : String)
  deriving DecidableEq, Repr

inductive ReadExactError where
  /-- The stream was finished after this many of the bytes. -/
  | finishedEarly (read : ℕ)
  | closedStream
  | readError (reason : String)
  deriving DecidableEq, Repr

def StreamEnd.error : StreamEnd → ℕ → ReadExactError
  | .finished, read => .finishedEarly read
  | .closed, _ => .closedStream
  | .lost reason, _ => .readError reason

section ReadExact

variable {B : Type*}

def readExact (stop : StreamEnd) (want : ℕ) (bs : List B) : Except ReadExactError (List B) × List B :=
  if want ≤ bs.length then (.ok (bs.take want), bs.drop want)
  else (.error (stop.error bs.length), [])

variable {stop : StreamEnd} {want : ℕ}

theorem readExact_append {buf : List B} (h : buf.length = want) (rest : List B) :
    readExact stop want (buf ++ rest) = (.ok buf, rest) := by
  subst want
  have hle : buf.length ≤ (buf ++ rest).length := by
    rw [List.length_append]
    exact Nat.le_add_right _ _
  rw [readExact, if_pos hle, List.take_left, List.drop_left]

theorem readExact_of_lt {bs : List B} (h : bs.length < want) :
    readExact stop want bs = (.error (stop.error bs.length), []) := by
  rw [readExact, if_neg (Nat.not_le.mpr h)]

theorem eq_append_of_readExact {bs buf rest : List B} (h : readExact stop want bs = (.ok buf, rest)) :
    buf.length = want ∧ bs = buf ++ rest := by
  rw [readExact] at h
  split at h
  next hle =>
    cases h
    exact ⟨List.length_take_of_le hle, (List.take_append_drop want bs).symm⟩
  next => cases h

end ReadExact

/-- One read of a frame: the frame, or `none` where the frames end, and what is left. -/
structure Reader (F B E : Type*) where
  next : List B → Except E (Option F) × List B
  shrinks : ∀ bs f rest, next bs = (.ok (some f), rest) → rest.length < bs.length

namespace Reader

variable {F B E : Type*} (rd : Reader F B E)

/-- Reads until there is no further frame: the frames, how it ended, and what is left. -/
def drain (bs : List B) : List F × Except E Unit × List B :=
  match h : rd.next bs with
  | (.ok (some f), rest) =>
    have := rd.shrinks bs f rest h
    let (fs, outcome) := drain rest
    (f :: fs, outcome)
  | (.ok none, rest) => ([], .ok (), rest)
  | (.error e, rest) => ([], .error e, rest)
termination_by bs.length

/-- What is cut off before its end cannot be read. -/
def FailsCut (bs : List B) : Prop :=
  ∀ part, part <+: bs → part ≠ bs → ∃ e rest, rd.next part = (.error e, rest)

/-- The reader takes what `encode` writes for the frames that fit, and nothing else. -/
structure Reads (encode : F → List B) (Fits : F → Prop) : Prop where
  next_encode : ∀ f bs, Fits f → rd.next (encode f ++ bs) = (.ok (some f), bs)
  of_next : ∀ bs f rest, rd.next bs = (.ok (some f), rest) → Fits f ∧ bs = encode f ++ rest

variable {rd} {bs rest : List B}

theorem drain_frame {f : F} (h : rd.next bs = (.ok (some f), rest)) :
    rd.drain bs = (f :: (rd.drain rest).1, (rd.drain rest).2) := by
  rw [drain]
  split
  next f' rest' h' =>
    cases h.symm.trans h'
    rfl
  next h' => cases h.symm.trans h'
  next h' => cases h.symm.trans h'

theorem drain_done (h : rd.next bs = (.ok none, rest)) : rd.drain bs = ([], .ok (), rest) := by
  rw [drain]
  split
  next h' => cases h.symm.trans h'
  next h' =>
    cases h.symm.trans h'
    rfl
  next h' => cases h.symm.trans h'

theorem drain_error {e : E} (h : rd.next bs = (.error e, rest)) :
    rd.drain bs = ([], .error e, rest) := by
  rw [drain]
  split
  next h' => cases h.symm.trans h'
  next h' => cases h.symm.trans h'
  next h' =>
    cases h.symm.trans h'
    rfl

variable {encode : F → List B} {Fits : F → Prop}

theorem Reads.drain_flatMap (h : rd.Reads encode Fits) {fs : List F} (hfits : ∀ f ∈ fs, Fits f)
    (bs : List B) :
    rd.drain (fs.flatMap encode ++ bs) = (fs ++ (rd.drain bs).1, (rd.drain bs).2) := by
  induction fs with
  | nil => rfl
  | cons f fs ih =>
    have hnext := h.next_encode f (fs.flatMap encode ++ bs) (hfits f List.mem_cons_self)
    rw [List.flatMap_cons, List.append_assoc, drain_frame hnext,
      ih fun g hg => hfits g (List.mem_cons_of_mem _ hg)]
    rfl

theorem Reads.flatMap_of_drain (h : rd.Reads encode Fits) {fs : List F} {outcome : Except E Unit}
    (hdrain : rd.drain bs = (fs, outcome, rest)) :
    (∀ f ∈ fs, Fits f) ∧ ∃ tail, bs = fs.flatMap encode ++ tail ∧ rd.drain tail = ([], outcome, rest) := by
  induction fs generalizing bs with
  | nil => exact ⟨fun _ hf => absurd hf List.not_mem_nil, bs, rfl, hdrain⟩
  | cons f fs ih =>
    rcases hnext : rd.next bs with ⟨read, left⟩
    rcases read with e | _ | g
    · rw [drain_error hnext] at hdrain
      cases hdrain
    · rw [drain_done hnext] at hdrain
      cases hdrain
    · rw [drain_frame hnext] at hdrain
      simp only [Prod.mk.injEq, List.cons.injEq] at hdrain
      obtain ⟨⟨rfl, hfs⟩, houtcome⟩ := hdrain
      have hleft : rd.drain left = (fs, outcome, rest) := Prod.ext hfs houtcome
      obtain ⟨hfits, tail, rfl, htail⟩ := ih hleft
      obtain ⟨hg, rfl⟩ := h.of_next bs g _ hnext
      refine ⟨List.forall_mem_cons.mpr ⟨hg, hfits⟩, tail, ?_, htail⟩
      rw [List.flatMap_cons, List.append_assoc]

theorem prefix_append_cases {part xs ys : List B} (h : part <+: xs ++ ys) :
    part <+: xs ∨ ∃ part', part = xs ++ part' ∧ part' <+: ys := by
  rcases List.prefix_or_prefix_of_prefix h (List.prefix_append xs ys) with hin | ⟨part', rfl⟩
  · exact .inl hin
  · exact .inr ⟨part', rfl, (List.prefix_append_right_inj xs).mp h⟩

theorem Reads.drain_cut (h : rd.Reads encode Fits) (hframe : ∀ f, Fits f → rd.FailsCut (encode f))
    {mark : List B} (hmark : rd.FailsCut mark) {fs : List F} (hfits : ∀ f ∈ fs, Fits f)
    {part : List B} (hpart : part <+: fs.flatMap encode ++ mark) (hne : part ≠ fs.flatMap encode ++ mark) :
    ∃ gs e rest, gs <+: fs ∧ rd.drain part = (gs, .error e, rest) := by
  induction fs generalizing part with
  | nil =>
    obtain ⟨e, rest, hnext⟩ := hmark part hpart hne
    exact ⟨[], e, rest, List.nil_prefix, drain_error hnext⟩
  | cons f fs ih =>
    rw [List.flatMap_cons, List.append_assoc] at hpart hne
    have hf := hfits f List.mem_cons_self
    -- the cut is in the first frame, or behind it
    rcases prefix_append_cases hpart with hin | ⟨part', rfl, hpart'⟩
    · by_cases heq : part = encode f
      · have hcut : fs.flatMap encode ++ mark ≠ [] := by
          intro hnil
          rw [hnil, List.append_nil] at hne
          exact hne heq
        have hrest := ih (fun g hg => hfits g (List.mem_cons_of_mem _ hg)) List.nil_prefix hcut.symm
        obtain ⟨gs, e, rest, hgs, hdrain⟩ := hrest
        have hnext := h.next_encode f [] hf
        rw [List.append_nil, ← heq] at hnext
        refine ⟨f :: gs, e, rest, (List.prefix_cons_inj f).mpr hgs, ?_⟩
        rw [drain_frame hnext, hdrain]
      · obtain ⟨e, rest, hnext⟩ := hframe f hf part hin heq
        exact ⟨[], e, rest, List.nil_prefix, drain_error hnext⟩
    · have hne' : part' ≠ fs.flatMap encode ++ mark := fun heq => hne (by rw [heq])
      obtain ⟨gs, e, rest, hgs, hdrain⟩ :=
        ih (fun g hg => hfits g (List.mem_cons_of_mem _ hg)) hpart' hne'
      refine ⟨f :: gs, e, rest, (List.prefix_cons_inj f).mpr hgs, ?_⟩
      rw [drain_frame (h.next_encode f part' hf), hdrain]

end Reader

end FrameStream
