import Proscenium.Lib.Machine

/-! A cell of a machine's state that some labels write and others clear. After a
run it holds what was last written, if nothing has cleared it since. Whether a
label clears it may depend on what it holds and on the rest of the state. -/

namespace Machine

structure Cell (σ α β : Type*) where
  content : σ → Option β
  write : α → Option β
  clears : β → σ → α → Bool

namespace Cell

variable {σ α β : Type*} (c : Cell σ α β) (step : σ → α → Option σ)

def Acts (s : σ) (a : α) : Prop :=
  ∀ t, step s a = some t → c.content t = (c.write a).or ((c.content s).filter fun b => !c.clears b s a)

/-- Nothing writes the cell or clears it while it holds `b`. -/
def Leaves (b : β) (s : σ) (a : α) : Prop := c.write a = none ∧ c.clears b s a = false

variable {c step} {s t u : σ} {a : α} {as : List α} {b : β}

theorem content_step_iff (h : c.Acts step s a) (ht : step s a = some t) :
    c.content t = some b ↔ c.write a = some b ∨ (c.content s = some b ∧ c.Leaves b s a) := by
  rw [h t ht, Leaves]
  cases hwrite : c.write a with
  | some b' => simp
  | none =>
    rw [Option.none_or, Option.filter_eq_some_iff]
    simp

/-- The last write that nothing has cleared since, or what was there from the start. -/
theorem content_exec_iff {ok : σ → α → Prop} {I : σ → Prop} (hacts : ∀ s a, I s → ok s a → c.Acts step s a)
    (hkeep : ∀ s a t, I s → ok s a → step s a = some t → I t) (hs : I s) (hok : Along step ok s as)
    (hrun : exec step s as = some t) :
    c.content t = some b ↔ (c.content s = some b ∧ Along step (c.Leaves b) s as) ∨
      ∃ before a after u, as = before ++ a :: after ∧ c.write a = some b ∧
        exec step s (before ++ [a]) = some u ∧ Along step (c.Leaves b) u after := by
  induction as generalizing s with
  | nil =>
    cases hrun
    refine ⟨fun h => .inl ⟨h, trivial⟩, ?_⟩
    rintro (⟨h, -⟩ | ⟨before, a, after, u, hsplit, -⟩)
    · exact h
    · exact absurd hsplit.symm (List.append_ne_nil_of_right_ne_nil _ (List.cons_ne_nil _ _))
  | cons a as ih =>
    obtain ⟨u, hu, hrun⟩ := exec_cons_eq_some.mp hrun
    have hlater := ih (hkeep s a u hs hok.1 hu) (hok.2 u hu) hrun
    have hfirst := content_step_iff (b := b) (hacts s a hs hok.1) hu
    rw [hlater, hfirst]
    constructor
    · rintro (⟨hwrite | ⟨hheld, hleaves⟩, hafter⟩ | ⟨before, x, after, v, rfl, hwrite, hv, hafter⟩)
      · exact .inr ⟨[], a, as, u, rfl, hwrite, exec_cons_eq_some.mpr ⟨u, hu, rfl⟩, hafter⟩
      · exact .inl ⟨hheld, (along_cons hu).mpr ⟨hleaves, hafter⟩⟩
      · exact .inr ⟨a :: before, x, after, v, rfl, hwrite, exec_cons_eq_some.mpr ⟨u, hu, hv⟩, hafter⟩
    · rintro (⟨hheld, hleaves⟩ | ⟨before, x, after, v, hsplit, hwrite, hv, hafter⟩)
      · obtain ⟨hleaves, hafter⟩ := (along_cons hu).mp hleaves
        exact .inl ⟨.inr ⟨hheld, hleaves⟩, hafter⟩
      · cases before with
        | nil =>
          obtain ⟨rfl, rfl⟩ := List.cons.inj hsplit
          obtain ⟨v', hv', hnil⟩ := exec_cons_eq_some.mp hv
          cases hnil
          obtain rfl := Option.some.inj (hv'.symm.trans hu)
          exact .inl ⟨.inl hwrite, hafter⟩
        | cons y before =>
          obtain ⟨rfl, rfl⟩ := List.cons.inj hsplit
          obtain ⟨u', hu', hv⟩ := exec_cons_eq_some.mp hv
          obtain rfl := Option.some.inj (hu'.symm.trans hu)
          exact .inr ⟨before, x, after, v, rfl, hwrite, hv, hafter⟩

end Cell
end Machine
