import Mathlib.Data.List.Infix

/-! A state that changes message by message, and a copy of it that is sent the
messages in order. The copy is at every moment what the state once was, and once
nothing is under way it is what the state is now. -/

namespace Replica

variable {σ μ : Type*} (apply : μ → σ → σ)

def replay (msgs : List μ) (s : σ) : σ := msgs.foldl (fun s m => apply m s) s

/-- What the messages under way, as far as they come, make of the copy is in the history of the state, and
all of them together make it the state. -/
structure Tracks (history : List σ) (pending : List μ) (current copy : σ) : Prop where
  snapshot : ∀ msgs, msgs <+: pending → replay apply msgs copy ∈ history
  current : replay apply pending copy = current

variable {apply} {history : List σ} {pending as bs : List μ} {current copy : σ} {m : μ}

theorem replay_append (s : σ) : replay apply (as ++ bs) s = replay apply bs (replay apply as s) :=
  List.foldl_append

theorem replay_insert (hm : ∀ s, apply m s = s) (s : σ) :
    replay apply (as ++ m :: bs) s = replay apply (as ++ bs) s := by
  rw [replay_append, replay_append]
  show replay apply bs (apply m (replay apply as s)) = _
  rw [hm]

theorem Tracks.start (s : σ) : Tracks apply [s] [] s s where
  snapshot msgs hmsgs := by
    obtain rfl := List.prefix_nil.mp hmsgs
    exact List.mem_singleton.mpr rfl
  current := rfl

theorem Tracks.seen (h : Tracks apply history pending current copy) : copy ∈ history :=
  h.snapshot [] List.nil_prefix

theorem Tracks.caught_up (h : Tracks apply history [] current copy) : copy = current := h.current

theorem Tracks.record (h : Tracks apply history pending current copy) (s : σ) :
    Tracks apply (s :: history) pending current copy where
  snapshot msgs hmsgs := List.mem_cons_of_mem _ (h.snapshot msgs hmsgs)
  current := h.current

theorem Tracks.publish (h : Tracks apply history pending current copy) (m : μ) :
    Tracks apply (apply m current :: history) (pending ++ [m]) (apply m current) copy := by
  have hall : replay apply (pending ++ [m]) copy = apply m current := by
    rw [replay_append, h.current]
    rfl
  refine ⟨fun msgs hmsgs => ?_, hall⟩
  rcases List.prefix_concat_iff.mp hmsgs with rfl | hmsgs
  · rw [hall]
    exact List.mem_cons_self
  · exact List.mem_cons_of_mem _ (h.snapshot msgs hmsgs)

theorem Tracks.receive (h : Tracks apply history (m :: pending) current copy) :
    Tracks apply history pending current (apply m copy) where
  snapshot msgs hmsgs := h.snapshot (m :: msgs) (List.cons_prefix_cons.mpr ⟨rfl, hmsgs⟩)
  current := h.current

theorem Tracks.insert (h : Tracks apply history (as ++ bs) current copy) (hm : ∀ s, apply m s = s) :
    Tracks apply history (as ++ m :: bs) current copy := by
  refine ⟨fun msgs hmsgs => ?_, (replay_insert hm copy).trans h.current⟩
  obtain ⟨rest, hrest⟩ := hmsgs
  rcases List.append_eq_append_iff.mp hrest with ⟨more, rfl, -⟩ | ⟨past, rfl, hpast⟩
  · exact h.snapshot msgs (List.append_assoc .. ▸ List.prefix_append _ _)
  · cases past with
    | nil =>
      rw [List.append_nil]
      exact h.snapshot as (List.prefix_append _ _)
    | cons m' past =>
      obtain ⟨rfl, hbs⟩ := List.cons.inj hpast
      have hbs : bs = past ++ rest := hbs
      rw [hbs, ← List.append_assoc] at h
      rw [replay_insert hm]
      exact h.snapshot (as ++ past) (List.prefix_append _ _)

end Replica
