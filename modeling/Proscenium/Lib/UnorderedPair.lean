import Mathlib

/-! Names of unordered pairs: the smaller of the two, a separator and the larger
behind a prefix, and a hash of that. The names tell the pairs apart if the
separator is in none of what is named and the hash does not collide on them. -/

namespace UnorderedPair

variable {κ β η : Type*} [LinearOrder κ]

def sorted (a b : κ) : κ × κ := if b < a then (b, a) else (a, b)

section Spelled

variable (start : List β) (sep : β) (spell : κ → List β)

def spelled (a b : κ) : List β := start ++ spell (sorted a b).1 ++ sep :: spell (sorted a b).2

def spelledSet (keys : Set κ) : Set (List β) := {t | ∃ a ∈ keys, ∃ b ∈ keys, t = spelled start sep spell a b}

end Spelled

variable {a b c d : κ}

theorem sorted_eq (a b : κ) : sorted a b = (a ⊓ b, a ⊔ b) := by
  unfold sorted
  by_cases h : b < a
  · rw [if_pos h, inf_eq_right.mpr h.le, sup_eq_left.mpr h.le]
  · have hle : a ≤ b := not_lt.mp h
    rw [if_neg h, inf_eq_left.mpr hle, sup_eq_right.mpr hle]

theorem sorted_eq_iff : sorted a b = sorted c d ↔ s(a, b) = s(c, d) := by
  have h := Sym2.inf_eq_inf_and_sup_eq_sup (s := s(a, b)) (t := s(c, d))
  rw [sorted_eq, sorted_eq, Prod.mk.injEq]
  exact h

theorem forall_sorted {p : κ → Prop} (ha : p a) (hb : p b) : p (sorted a b).1 ∧ p (sorted a b).2 := by
  unfold sorted
  by_cases h : b < a
  · rw [if_pos h]
    exact ⟨hb, ha⟩
  · rw [if_neg h]
    exact ⟨ha, hb⟩

variable {sep : β} {spell : κ → List β} {keys : Set κ} {hash : List β → η}

theorem spelled_eq_iff (start : List β) (hspell : Function.Injective spell) (ha : sep ∉ spell a)
    (hb : sep ∉ spell b) :
    spelled start sep spell a b = spelled start sep spell c d ↔ s(a, b) = s(c, d) := by
  obtain ⟨hfst, hsnd⟩ := forall_sorted (p := fun k => sep ∉ spell k) ha hb
  rw [← sorted_eq_iff]
  constructor
  · intro h
    unfold spelled at h
    rw [List.append_assoc, List.append_assoc] at h
    obtain ⟨hsmaller, -, hlarger⟩ :=
      (List.append_cons_inj_of_notMem hfst hsnd).mp (List.append_cancel_left h)
    exact Prod.ext (hspell hsmaller) (hspell hlarger)
  · intro h
    unfold spelled
    rw [h]

theorem hash_spelled_eq_iff {start : List β} (hspell : Function.Injective spell) (hsep : ∀ k ∈ keys, sep ∉ spell k)
    (hhash : Set.InjOn hash (spelledSet start sep spell keys)) (ha : a ∈ keys) (hb : b ∈ keys)
    (hc : c ∈ keys) (hd : d ∈ keys) :
    hash (spelled start sep spell a b) = hash (spelled start sep spell c d) ↔ s(a, b) = s(c, d) := by
  rw [← spelled_eq_iff start hspell (hsep a ha) (hsep b hb)]
  exact hhash.eq_iff ⟨a, ha, b, hb, rfl⟩ ⟨c, hc, d, hd, rfl⟩

end UnorderedPair
