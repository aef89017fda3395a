import Mathlib

/-! Runs of a labelled machine. A step is a partial function of the state and
a label; everything a run leaves open (the scheduler, the network, random
draws, failures) is in the labels, so a run is a list of labels and a property
of every run is a property of every list. -/

namespace Machine

variable {σ α : Type*} (step : σ → α → Option σ)

def exec : σ → List α → Option σ
  | s, [] => some s
  | s, a :: as => (step s a).bind fun t => exec t as

/-- Every step of the run meets `ok` at the state it is taken from. -/
def Along (ok : σ → α → Prop) : σ → List α → Prop
  | _, [] => True
  | s, a :: as => ok s a ∧ ∀ t, step s a = some t → Along ok t as

instance decidableAlong {ok : σ → α → Prop} [∀ s a, Decidable (ok s a)] :
    ∀ (s : σ) (as : List α), Decidable (Along step ok s as)
  | _, [] => isTrue trivial
  | s, a :: as =>
    match h : step s a with
    | none => decidable_of_iff (ok s a) ⟨fun hok => ⟨hok, fun _ ht => nomatch h.symm.trans ht⟩, And.left⟩
    | some t =>
      have : Decidable (Along step ok t as) := decidableAlong t as
      decidable_of_iff (ok s a ∧ Along step ok t as)
        (and_congr_right fun _ => ⟨fun ht _ hu => Option.some.inj (h.symm.trans hu) ▸ ht,
          fun hall => hall t h⟩)

variable {step}

@[simp] theorem exec_nil (s : σ) : exec step s [] = some s := rfl

theorem exec_cons (s : σ) (a : α) (as : List α) :
    exec step s (a :: as) = (step s a).bind fun t => exec step t as := rfl

theorem exec_cons_eq_some {s u : σ} {a : α} {as : List α} :
    exec step s (a :: as) = some u ↔ ∃ t, step s a = some t ∧ exec step t as = some u := by
  rw [exec_cons, Option.bind_eq_some_iff]

theorem exec_append (s : σ) (as bs : List α) :
    exec step s (as ++ bs) = (exec step s as).bind fun t => exec step t bs := by
  induction as generalizing s with
  | nil => rfl
  | cons a as ih =>
    rw [List.cons_append, exec_cons, exec_cons, Option.bind_assoc]
    exact congrArg _ (funext ih)

theorem along_cons {ok : σ → α → Prop} {s t : σ} {a : α} {as : List α} (h : step s a = some t) :
    Along step ok s (a :: as) ↔ ok s a ∧ Along step ok t as := by
  refine and_congr_right fun _ => ?_
  constructor
  · intro hall
    exact hall t h
  · intro ht u hu
    obtain rfl : t = u := Option.some.inj (h.symm.trans hu)
    exact ht

theorem Along.append {ok : σ → α → Prop} {s t : σ} {as bs : List α}
    (has : Along step ok s as) (hrun : exec step s as = some t)
    (hbs : Along step ok t bs) : Along step ok s (as ++ bs) := by
  induction as generalizing s with
  | nil =>
    cases hrun
    exact hbs
  | cons a as ih =>
    obtain ⟨u, hu, hrun⟩ := exec_cons_eq_some.mp hrun
    refine ⟨has.1, fun v hv => ?_⟩
    obtain rfl : u = v := Option.some.inj (hu.symm.trans hv)
    exact ih (has.2 u hu) hrun

theorem Along.of_append {ok : σ → α → Prop} {s : σ} {as bs : List α}
    (h : Along step ok s (as ++ bs)) :
    Along step ok s as ∧ ∀ t, exec step s as = some t → Along step ok t bs := by
  induction as generalizing s with
  | nil =>
    refine ⟨trivial, ?_⟩
    rintro t ⟨⟩
    exact h
  | cons a as ih =>
    refine ⟨⟨h.1, fun u hu => (ih (h.2 u hu)).1⟩, fun t hrun => ?_⟩
    obtain ⟨u, hu, hrun⟩ := exec_cons_eq_some.mp hrun
    exact (ih (h.2 u hu)).2 t hrun

theorem Along.mono {ok ok' : σ → α → Prop} (himp : ∀ s a, ok s a → ok' s a) {s : σ}
    {as : List α} (h : Along step ok s as) : Along step ok' s as := by
  induction as generalizing s with
  | nil => trivial
  | cons a as ih => exact ⟨himp _ _ h.1, fun t ht => ih (h.2 t ht)⟩

theorem Along.and {ok ok' : σ → α → Prop} {s : σ} {as : List α} (h : Along step ok s as)
    (h' : Along step ok' s as) : Along step (fun s a => ok s a ∧ ok' s a) s as := by
  induction as generalizing s with
  | nil => trivial
  | cons a as ih => exact ⟨⟨h.1, h'.1⟩, fun t ht => ih (h.2 t ht) (h'.2 t ht)⟩

theorem along_and_iff {ok ok' : σ → α → Prop} {s : σ} {as : List α} :
    Along step (fun s a => ok s a ∧ ok' s a) s as ↔ Along step ok s as ∧ Along step ok' s as := by
  constructor
  · intro h
    exact ⟨h.mono fun _ _ => And.left, h.mono fun _ _ => And.right⟩
  · rintro ⟨h, h'⟩
    exact h.and h'

theorem Along.of_forall {p : α → Prop} {s : σ} {as : List α} (h : ∀ a ∈ as, p a) :
    Along step (fun _ a => p a) s as := by
  induction as generalizing s with
  | nil => trivial
  | cons a as ih =>
    exact ⟨h a List.mem_cons_self, fun _ _ => ih fun b hb => h b (List.mem_cons_of_mem _ hb)⟩

theorem exec_invariant {ok : σ → α → Prop} {I : σ → Prop}
    (hstep : ∀ s a t, I s → ok s a → step s a = some t → I t)
    {s t : σ} {as : List α} (hs : I s) (hok : Along step ok s as)
    (hrun : exec step s as = some t) : I t := by
  induction as generalizing s with
  | nil =>
    cases hrun
    exact hs
  | cons a as ih =>
    obtain ⟨u, hu, hrun⟩ := exec_cons_eq_some.mp hrun
    exact ih (hstep s a u hs hok.1 hu) (hok.2 u hu) hrun

theorem Along.mono_of_invariant {ok ok' : σ → α → Prop} {I : σ → Prop}
    (himp : ∀ s a, I s → ok s a → ok' s a)
    (hstep : ∀ s a t, I s → ok s a → step s a = some t → I t) {s : σ} {as : List α} (hs : I s)
    (h : Along step ok s as) : Along step ok' s as := by
  induction as generalizing s with
  | nil => trivial
  | cons a as ih =>
    exact ⟨himp s a hs h.1, fun t ht => ih (hstep s a t hs h.1 ht) (h.2 t ht)⟩

theorem along_iff {ok ok' : σ → α → Prop} {I : σ → Prop}
    (hok : ∀ s a, I s → (ok s a ↔ ok' s a))
    (hstep : ∀ s a t, I s → ok s a → step s a = some t → I t) {s : σ} {as : List α}
    (hs : I s) : Along step ok s as ↔ Along step ok' s as := by
  constructor
  · exact Along.mono_of_invariant (fun s a hs => (hok s a hs).mp) hstep hs
  · refine Along.mono_of_invariant (fun s a hs => (hok s a hs).mpr) ?_ hs
    intro s a t hs ha ht
    exact hstep s a t hs ((hok s a hs).mpr ha) ht

/-- A property of every state a run goes through is one of the first state and of what each
step leads to. -/
theorem forall_prefix_iff {P : σ → Prop} {s : σ} {as : List α} :
    (∀ bs t, bs <+: as → exec step s bs = some t → P t) ↔
      P s ∧ Along step (fun s a => ∀ t, step s a = some t → P t) s as := by
  induction as generalizing s with
  | nil =>
    constructor
    · intro h
      exact ⟨h [] s (List.prefix_refl []) rfl, trivial⟩
    · rintro ⟨hs, -⟩ bs t hbs hrun
      obtain rfl := List.prefix_nil.mp hbs
      cases hrun
      exact hs
  | cons a as ih =>
    constructor
    · intro h
      have hnext : ∀ u, step s a = some u →
          P u ∧ Along step (fun s a => ∀ t, step s a = some t → P t) u as := by
        intro u hu
        refine ih.mp fun bs t hbs hrun => h (a :: bs) t ?_ ?_
        · exact List.cons_prefix_cons.mpr ⟨rfl, hbs⟩
        · exact exec_cons_eq_some.mpr ⟨u, hu, hrun⟩
      exact ⟨h [] s List.nil_prefix rfl, fun u hu => (hnext u hu).1, fun u hu => (hnext u hu).2⟩
    · rintro ⟨hs, ha, has⟩ bs t hbs hrun
      cases bs with
      | nil =>
        cases hrun
        exact hs
      | cons b bs =>
        obtain ⟨rfl, htail⟩ := List.cons_prefix_cons.mp hbs
        obtain ⟨u, hu, hrun⟩ := exec_cons_eq_some.mp hrun
        exact ih.mpr ⟨ha u hu, has u hu⟩ bs t htail hrun

theorem forall_prefix_iff_along {P I : σ → Prop} {cond : σ → α → Prop}
    (hstep : ∀ s a, I s → ((∀ t, step s a = some t → P t) ↔ cond s a))
    (hkeep : ∀ s a t, I s → cond s a → P t → step s a = some t → I t) {s : σ} {as : List α}
    (hI : I s) (hP : P s) :
    (∀ bs t, bs <+: as → exec step s bs = some t → P t) ↔ Along step cond s as := by
  rw [forall_prefix_iff, and_iff_right hP]
  refine along_iff hstep (fun s a t hs hall ht => ?_) hI
  exact hkeep s a t hs ((hstep s a hs).mp hall) (hall t ht) ht

theorem forall_prefix_and_along_iff {P I : σ → Prop} {ok cond : σ → α → Prop}
    (hstep : ∀ s a, I s → ((∀ t, step s a = some t → P t) ∧ ok s a ↔ cond s a))
    (hkeep : ∀ s a t, I s → cond s a → P t → step s a = some t → I t) {s : σ} {as : List α}
    (hI : I s) (hP : P s) :
    (∀ bs t, bs <+: as → exec step s bs = some t → P t) ∧ Along step ok s as ↔
      Along step cond s as := by
  rw [forall_prefix_iff, and_iff_right hP, ← along_and_iff]
  refine along_iff hstep (fun s a t hs hall ht => ?_) hI
  exact hkeep s a t hs ((hstep s a hs).mp hall) (hall.1 t ht) ht

/-- The purge rule: when the dropped steps keep the relation and the kept steps can be
repeated along it, a run is related to the run of its kept steps alone. -/
theorem exec_filter {ok : σ → α → Prop} {keep : α → Bool} {rel : σ → σ → Prop}
    (hkeep : ∀ s s' a t, keep a = true → rel s s' → ok s a → step s a = some t →
      ∃ t', step s' a = some t' ∧ rel t t')
    (hdrop : ∀ s s' a t, keep a = false → rel s s' → ok s a → step s a = some t → rel t s')
    {s s' t : σ} {as : List α} (hrel : rel s s') (hok : Along step ok s as)
    (hrun : exec step s as = some t) :
    ∃ t', exec step s' (as.filter keep) = some t' ∧ rel t t' := by
  induction as generalizing s s' with
  | nil =>
    cases hrun
    exact ⟨s', rfl, hrel⟩
  | cons a as ih =>
    obtain ⟨u, hu, hrun⟩ := exec_cons_eq_some.mp hrun
    have hrest := hok.2 u hu
    cases hk : keep a with
    | false =>
      rw [List.filter_cons_of_neg (by simp [hk])]
      exact ih (hdrop s s' a u hk hrel hok.1 hu) hrest hrun
    | true =>
      obtain ⟨u', hu', hrel'⟩ := hkeep s s' a u hk hrel hok.1 hu
      obtain ⟨t', ht', hrel''⟩ := ih hrel' hrest hrun
      refine ⟨t', ?_, hrel''⟩
      rw [List.filter_cons_of_pos hk]
      exact exec_cons_eq_some.mpr ⟨u', hu', ht'⟩

end Machine
