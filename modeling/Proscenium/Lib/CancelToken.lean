import Mathlib

/-! Cancellation tokens that form a tree: a token is the path that leads to it
from a root, and what cancels a token cancels every token below it. -/

abbrev CancelToken := List ℕ

namespace CancelToken

def child (t : CancelToken) (n : ℕ) : CancelToken := t ++ [n]

/-- `cs` are the tokens that `cancel` was called on. -/
def Cancelled (cs : List CancelToken) (t : CancelToken) : Prop := ∃ c ∈ cs, c <+: t

instance decidableCancelled (cs : List CancelToken) (t : CancelToken) : Decidable (Cancelled cs t) :=
  inferInstanceAs (Decidable (∃ c ∈ cs, c <+: t))

variable {cs : List CancelToken} {c t : CancelToken} {n : ℕ}

theorem cancelled_cons : Cancelled (c :: cs) t ↔ c <+: t ∨ Cancelled cs t := List.exists_mem_cons_iff ..

theorem cancelled_child : Cancelled cs (t.child n) ↔ t.child n ∈ cs ∨ Cancelled cs t := by
  constructor
  · rintro ⟨c, hc, hprefix⟩
    rcases List.prefix_concat_iff.mp hprefix with rfl | hprefix
    · exact .inl hc
    · exact .inr ⟨c, hc, hprefix⟩
  · rintro (hmem | ⟨c, hc, hprefix⟩)
    · exact ⟨_, hmem, List.prefix_refl _⟩
    · exact ⟨c, hc, hprefix.trans (List.prefix_append _ _)⟩

theorem prefix_child (t : CancelToken) (n : ℕ) : t <+: t.child n := List.prefix_append _ _

end CancelToken
