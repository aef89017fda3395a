import Mathlib

/-! A pool of tasks. The task at one index makes a step: it is replaced, or it
is over and leaves the pool; the others stay as they are. -/

namespace Tasks

variable {τ : Type*} {tasks : List τ} {i : Nat} {t : τ} {R : τ → τ → Prop}

def advance (tasks : List τ) (i : Nat) : Option τ → List τ
  | some next => tasks.set i next
  | none => tasks.eraseIdx i

theorem perm_others (hi : tasks[i]? = some t) : (t :: tasks.eraseIdx i).Perm tasks := by
  obtain ⟨hlt, rfl⟩ := List.getElem?_eq_some_iff.mp hi
  exact List.getElem_cons_eraseIdx_perm hlt

theorem advance_perm (hi : tasks[i]? = some t) (next : Option τ) :
    (advance tasks i next).Perm (next.toList ++ tasks.eraseIdx i) := by
  obtain ⟨hlt, -⟩ := List.getElem?_eq_some_iff.mp hi
  cases next with
  | none => exact List.Perm.refl _
  | some next => exact List.set_perm_cons_eraseIdx hlt next

theorem mem_advance (hi : tasks[i]? = some t) {next : Option τ} {u : τ} :
    u ∈ advance tasks i next ↔ u ∈ next ∨ u ∈ tasks.eraseIdx i := by
  rw [(advance_perm hi next).mem_iff, List.mem_append, Option.mem_toList,
    Option.mem_def]

theorem related_others (hR : ∀ {x y}, R x y → R y x) (h : tasks.Pairwise R)
    (hi : tasks[i]? = some t) : ∀ u ∈ tasks.eraseIdx i, R t u :=
  (List.pairwise_cons.mp ((List.Perm.pairwise_iff hR (perm_others hi)).mpr h)).1

theorem pairwise_advance (hR : ∀ {x y}, R x y → R y x) (h : tasks.Pairwise R)
    (hi : tasks[i]? = some t) {next : Option τ}
    (hnext : ∀ x ∈ next, ∀ u ∈ tasks.eraseIdx i, R x u) : (advance tasks i next).Pairwise R := by
  rw [List.Perm.pairwise_iff hR (advance_perm hi next)]
  have hothers : (tasks.eraseIdx i).Pairwise R := h.sublist (List.eraseIdx_sublist ..)
  cases next with
  | none => exact hothers
  | some x => exact List.pairwise_cons.mpr ⟨hnext x rfl, hothers⟩

end Tasks
