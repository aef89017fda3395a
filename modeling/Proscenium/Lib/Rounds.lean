import Mathlib

/-! Serving in rounds. A server works off a list, one entry a turn, and reads the
list anew when nothing of it is left. It serves each list it reads in full and in
order, and whoever is in every list is served within a bounded number of turns,
not counting those at which there was nobody to serve. -/

namespace Rounds

variable {α : Type*}

/-- What is left to serve at a turn; `fresh` is the list as it is now. -/
def refill (left fresh : List α) : List α :=
  match left with
  | [] => fresh
  | a :: left => a :: left

/-- Who is served at the turns, and what is left; there is one list for each turn. -/
def serve : List α → List (List α) → List α × List α
  | left, [] => ([], left)
  | left, fresh :: turns =>
    match refill left fresh with
    | [] => serve [] turns
    | a :: left =>
      let out := serve left turns
      (a :: out.1, out.2)

def reads : List α → List (List α) → List (List α)
  | _, [] => []
  | [], fresh :: turns => fresh :: reads fresh.tail turns
  | _ :: left, _ :: turns => reads left turns

variable {left fresh : List α} {turns later : List (List α)} {a : α} {n : ℕ}

theorem serve_cons_of_read : serve [] (fresh :: turns) =
    (fresh.head?.toList ++ (serve fresh.tail turns).1, (serve fresh.tail turns).2) := by
  cases fresh <;> rfl

theorem serve_append : serve left (turns ++ later) =
    ((serve left turns).1 ++ (serve (serve left turns).2 later).1,
      (serve (serve left turns).2 later).2) := by
  induction turns generalizing left with
  | nil => rfl
  | cons fresh turns ih =>
    cases left with
    | nil =>
      rw [List.cons_append, serve_cons_of_read, serve_cons_of_read, ih, List.append_assoc]
    | cons a left =>
      have hserve : ∀ ts : List (List α), serve (a :: left) (fresh :: ts) =
          (a :: (serve left ts).1, (serve left ts).2) := fun _ => rfl
      rw [List.cons_append, hserve, hserve, ih, List.cons_append]

theorem mem_of_mem_reads {l : List α} (h : l ∈ reads left turns) : l ∈ turns := by
  induction turns generalizing left with
  | nil =>
    cases left <;> exact nomatch h
  | cons fresh turns ih =>
    cases left with
    | nil =>
      rcases List.mem_cons.mp h with rfl | h
      · exact List.mem_cons_self
      · exact List.mem_cons_of_mem _ (ih h)
    | cons a left => exact List.mem_cons_of_mem _ (ih h)

theorem serve_append_left : (serve left turns).1 ++ (serve left turns).2 = left ++ (reads left turns).flatten := by
  induction turns generalizing left with
  | nil => simp [serve, reads]
  | cons fresh turns ih =>
    cases left with
    | nil =>
      have hfresh : fresh.head?.toList ++ fresh.tail = fresh := by cases fresh <;> rfl
      rw [serve_cons_of_read, List.append_assoc, ih, ← List.append_assoc, hfresh, reads, List.flatten_cons,
        List.nil_append]
    | cons a left =>
      have hserve : (serve left turns).1 ++ (serve left turns).2 = left ++ (reads left turns).flatten := ih
      rw [reads, List.cons_append, ← hserve]
      rfl

theorem mem_serve_of_mem (h : a ∈ left) (hlong : left.length ≤ turns.length) : a ∈ (serve left turns).1 := by
  induction left generalizing turns with
  | nil => exact nomatch h
  | cons b left ih =>
    cases turns with
    | nil => exact absurd hlong (by simp)
    | cons fresh turns =>
      show a ∈ b :: (serve left turns).1
      rcases List.mem_cons.mp h with rfl | h
      · exact List.mem_cons_self
      · exact List.mem_cons_of_mem _ (ih h (Nat.le_of_succ_le_succ hlong))

/-- Who is in every list that is read, but for empty ones, waits for what is left of the current list and
for one list more. -/
theorem mem_serve [DecidableEq α] (hreads : ∀ l ∈ reads left turns, l = [] ∨ a ∈ l ∧ l.length ≤ n)
    (hlong : left.length + n + (reads left turns).count [] ≤ turns.length) (hn : 0 < n) :
    a ∈ (serve left turns).1 := by
  induction turns generalizing left with
  | nil =>
    have hzero : left.length + n + (reads left []).count [] ≤ 0 := hlong
    omega
  | cons fresh turns ih =>
    cases left with
    | cons b left =>
      have hrest : left.length + n + (reads left turns).count [] ≤ turns.length := by
        simp only [reads, List.length_cons] at hlong
        omega
      exact List.mem_cons_of_mem _ (ih hreads hrest)
    | nil =>
      rw [serve_cons_of_read]
      simp only [reads, List.length_nil, List.length_cons] at hreads hlong
      rcases hreads fresh List.mem_cons_self with rfl | ⟨hmem, hbound⟩
      · rw [List.count_cons_self] at hlong
        refine ih (fun l hl => hreads l (List.mem_cons_of_mem _ hl)) ?_
        simp only [List.tail_nil, List.length_nil] at hlong ⊢
        omega
      · cases fresh with
        | nil => exact nomatch hmem
        | cons b fresh =>
          have htail : fresh.length ≤ turns.length := by
            simp only [List.length_cons] at hbound
            omega
          rcases List.mem_cons.mp hmem with rfl | hmem
          · exact List.mem_cons_self
          · exact List.mem_cons_of_mem _ (mem_serve_of_mem hmem htail)

end Rounds
