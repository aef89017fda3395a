import Mathlib

/-! Sequence numbers that wrap around. The steps from one number to the next add
up to the distance from the first to the last, as long as they do not go all the
way round. -/

namespace SeqNumbers

def covered : List UInt32 → ℕ
  | a :: b :: rest => (b - a).toNat + covered (b :: rest)
  | _ => 0

/-- Between two that follow each other, fewer than `n` are left out. -/
def SmallGaps (n : ℕ) (seqs : List UInt32) : Prop := seqs.IsChain fun a b => (b - (a + 1)).toNat < n

instance SmallGaps.decidable (n : ℕ) (seqs : List UInt32) : Decidable (SmallGaps n seqs) :=
  inferInstanceAs (Decidable (List.IsChain _ _))

theorem covered_cons_cons (a b : UInt32) (rest : List UInt32) :
    covered (a :: b :: rest) = (b - a).toNat + covered (b :: rest) := rfl

theorem covered_mod (a : UInt32) (rest : List UInt32) :
    covered (a :: rest) % 2 ^ 32 = (rest.getLastD a - a).toNat := by
  induction rest generalizing a with
  | nil => simp [covered]
  | cons b rest ih =>
    have hsum : (b - a) + (rest.getLastD b - b) = rest.getLastD b - a := by
      grind
    rw [covered_cons_cons, List.getLastD_cons, Nat.add_mod, ih, ← hsum, UInt32.toNat_add]
    simp

theorem covered_eq_iff (a : UInt32) (rest : List UInt32) :
    covered (a :: rest) = (rest.getLastD a - a).toNat ↔ covered (a :: rest) < 2 ^ 32 := by
  rw [← covered_mod]
  constructor
  · intro h
    rw [h]
    exact Nat.mod_lt _ (by decide)
  · intro h
    exact (Nat.mod_eq_of_lt h).symm

theorem toNat_step {a b : UInt32} {n : ℕ} (hn : n < 2 ^ 32) (h : (b - (a + 1)).toNat < n) :
    (b - a).toNat = (b - (a + 1)).toNat + 1 := by
  have hsplit : b - a = (b - (a + 1)) + 1 := by
    grind
  rw [hsplit, UInt32.toNat_add]
  exact Nat.mod_eq_of_lt (by simp; omega)

end SeqNumbers
