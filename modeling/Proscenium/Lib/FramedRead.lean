import Mathlib

/-! Reading frames from a stream of bytes that arrives in pieces. A read that is
under way holds the bytes it has taken; polled with what has arrived since, it
takes more and yields a frame once it has all of it. -/

namespace FramedRead

/-- What a poll comes to: the read goes on, has its frame, or has failed. -/
inductive Outcome (F R E : Type*) where
  | pending (r : R)
  | ready (f : F)
  | failed (e : E)
  deriving DecidableEq, Repr

/-- Frames `F`, reads under way `R`, bytes `B`, errors `E`; a poll returns what it leaves of the
bytes. -/
structure Reader (F R B E : Type*) where
  start : R
  held : R → List B
  poll : R → List B → Outcome F R E × List B

variable {F R B E : Type*}

/-- The reader takes the bytes that `encode` writes for a frame, for the frames that fit. -/
structure Reader.Reads (rd : Reader F R B E) (encode : F → List B) (Fits : F → Prop) : Prop where
  held_start : rd.held rd.start = []
  encode_ne_nil : ∀ f, encode f ≠ []
  encode_cancel : ∀ f g xs ys, Fits f → Fits g → encode f ++ xs = encode g ++ ys → f = g ∧ xs = ys
  held_incomplete : ∀ r f xs, Fits f → rd.held r ≠ encode f ++ xs
  pending : ∀ r r' bs rest, rd.poll r bs = (.pending r', rest) →
    rest = [] ∧ rd.held r' = rd.held r ++ bs
  ready : ∀ r f bs rest, rd.poll r bs = (.ready f, rest) →
    Fits f ∧ rd.held r ++ bs = encode f ++ rest
  failed : ∀ r bs e rest, rd.poll r bs = (.failed e, rest) →
    rd.held r ++ bs ≠ [] ∧ rest.length ≤ bs.length ∧
      ∀ f xs ys, Fits f → (rd.held r ++ bs) ++ xs ≠ encode f ++ ys

namespace Reader.Reads

variable {rd : Reader F R B E} {encode : F → List B} {Fits : F → Prop}

theorem poll_cases (h : rd.Reads encode Fits) {r : R} {bs later : List B} {fs : List F}
    (hfits : ∀ f ∈ fs, Fits f) (hsync : (rd.held r ++ bs) ++ later = fs.flatMap encode) :
    (∃ r', rd.poll r bs = (.pending r', []) ∧ rd.held r' ++ later = fs.flatMap encode) ∨
    ∃ f fs' rest, fs = f :: fs' ∧ rd.poll r bs = (.ready f, rest) ∧
      rest ++ later = fs'.flatMap encode := by
  rcases hpoll : rd.poll r bs with ⟨outcome, rest⟩
  cases outcome with
  | pending r' =>
    obtain ⟨rfl, hheld⟩ := h.pending r r' bs rest hpoll
    refine .inl ⟨r', rfl, ?_⟩
    rw [hheld, hsync]
  | ready g =>
    obtain ⟨hg, hbytes⟩ := h.ready r g bs rest hpoll
    rw [hbytes, List.append_assoc] at hsync
    cases fs with
    | nil => exact absurd (List.append_eq_nil_iff.mp hsync).1 (h.encode_ne_nil g)
    | cons f fs =>
      rw [List.flatMap_cons] at hsync
      obtain ⟨rfl, hrest⟩ := h.encode_cancel g f _ _ hg (hfits f List.mem_cons_self) hsync
      exact .inr ⟨g, fs, rest, rfl, rfl, hrest⟩
  | failed e =>
    obtain ⟨hne, -, hbad⟩ := h.failed r bs e rest hpoll
    cases fs with
    | nil => exact absurd (List.append_eq_nil_iff.mp hsync).1 hne
    | cons f fs => exact absurd hsync (hbad f later _ (hfits f List.mem_cons_self))

theorem eq_nil_of_held (h : rd.Reads encode Fits) {r : R} {fs : List F} (hfits : ∀ f ∈ fs, Fits f)
    (hheld : rd.held r = fs.flatMap encode) : fs = [] := by
  cases fs with
  | nil => rfl
  | cons f fs => exact absurd hheld (h.held_incomplete r f _ (hfits f List.mem_cons_self))

theorem poll_encode (h : rd.Reads encode Fits) {f : F} (hf : Fits f) (bs : List B) :
    rd.poll rd.start (encode f ++ bs) = (.ready f, bs) := by
  have hstart : ∀ bs, rd.held rd.start ++ bs = bs := fun bs => by rw [h.held_start, List.nil_append]
  rcases hpoll : rd.poll rd.start (encode f ++ bs) with ⟨outcome, rest⟩
  cases outcome with
  | pending r =>
    have hheld := (h.pending _ _ _ _ hpoll).2
    rw [hstart] at hheld
    exact absurd hheld (h.held_incomplete r f bs hf)
  | ready g =>
    obtain ⟨hg, hbytes⟩ := h.ready _ _ _ _ hpoll
    rw [hstart] at hbytes
    obtain ⟨rfl, rfl⟩ := h.encode_cancel f g _ _ hf hg hbytes
    rfl
  | failed e =>
    have hbad := (h.failed _ _ _ _ hpoll).2.2 f [] bs hf
    rw [hstart, List.append_nil] at hbad
    exact absurd rfl hbad

theorem length_poll (h : rd.Reads encode Fits) (r : R) (bs : List B) :
    match rd.poll r bs with
    | (.pending r', rest) => (rd.held r').length + rest.length = (rd.held r).length + bs.length
    | (.ready f, rest) => (encode f).length + rest.length = (rd.held r).length + bs.length
    | (.failed _, rest) => rest.length ≤ (rd.held r).length + bs.length := by
  rcases hpoll : rd.poll r bs with ⟨outcome, rest⟩
  cases outcome with
  | pending r' =>
    obtain ⟨rfl, hheld⟩ := h.pending r r' bs rest hpoll
    simp [hheld]
  | ready f =>
    have hlength := congrArg List.length (h.ready r f bs rest hpoll).2
    simp only [List.length_append] at hlength
    exact hlength.symm
  | failed e => exact (h.failed r bs e rest hpoll).2.1.trans (Nat.le_add_left _ _)

end Reader.Reads

end FramedRead
