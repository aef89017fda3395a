import Mathlib

/-! Hash chains: a value that absorbs one message after another. As long as the
hash has no collision among what is hashed, and never gives the value the chain
starts with, a value of the chain stands for the messages behind it. -/

namespace HashChain

variable {H M B : Type*} (hash : B → H) (pair : H → M → B)

def extend (h : H) (m : M) : H := hash (pair h m)

def chain (h : H) (ms : List M) : H := ms.foldl (extend hash pair) h

def inputs (h : H) : List M → List B
  | [] => []
  | m :: ms => pair h m :: inputs (extend hash pair h m) ms

/-- No two of the inputs collide, and none leads back to the start. -/
structure Binding (start : H) (hashed : Set B) : Prop where
  injOn : Set.InjOn hash hashed
  ne_start : ∀ b ∈ hashed, hash b ≠ start

variable {hash pair} {start h : H} {hashed : Set B}

theorem chain_append (h : H) (xs ys : List M) :
    chain hash pair h (xs ++ ys) = chain hash pair (chain hash pair h xs) ys := by
  unfold chain
  rw [List.foldl_append]

theorem chain_concat (h : H) (xs : List M) (m : M) :
    chain hash pair h (xs ++ [m]) = hash (pair (chain hash pair h xs) m) := by
  rw [chain_append]
  rfl

theorem inputs_append (h : H) (xs ys : List M) :
    inputs hash pair h (xs ++ ys) =
      inputs hash pair h xs ++ inputs hash pair (chain hash pair h xs) ys := by
  induction xs generalizing h with
  | nil => rfl
  | cons m xs ih =>
    rw [List.cons_append, inputs, inputs, ih, List.cons_append]
    rfl

theorem mem_inputs_middle (h : H) (xs : List M) (m : M) (ys : List M) :
    pair (chain hash pair h xs) m ∈ inputs hash pair h (xs ++ m :: ys) := by
  rw [inputs_append, List.mem_append]
  exact .inr List.mem_cons_self

theorem mem_inputs_concat (h : H) (xs : List M) (m : M) :
    pair (chain hash pair h xs) m ∈ inputs hash pair h (xs ++ [m]) := mem_inputs_middle h xs m []

theorem subset_of_append {xs ys : List M}
    (hsub : ∀ b ∈ inputs hash pair h (xs ++ ys), b ∈ hashed) :
    ∀ b ∈ inputs hash pair h xs, b ∈ hashed := by
  intro b hb
  refine hsub b ?_
  rw [inputs_append, List.mem_append]
  exact .inl hb

theorem Binding.of_nodup {l : List B} (hnodup : (l.map hash).Nodup) (hstart : start ∉ l.map hash) :
    Binding hash start {b | b ∈ l} where
  injOn _ hx _ hy := List.inj_on_of_nodup_map hnodup hx hy
  ne_start _ hb heq := hstart (heq ▸ List.mem_map_of_mem hb)

section Binding

variable (hpair : ∀ {h h' : H} {m m' : M}, pair h m = pair h' m' → h = h' ∧ m = m')
include hpair

theorem Binding.suffix (hbind : Binding hash start hashed) {xs ys : List M}
    (hxs : ∀ b ∈ inputs hash pair h xs, b ∈ hashed)
    (hys : ∀ b ∈ inputs hash pair start ys, b ∈ hashed)
    (heq : chain hash pair h xs = chain hash pair start ys) :
    ∃ zs, ys = zs ++ xs ∧ h = chain hash pair start zs := by
  induction xs using List.reverseRecOn generalizing ys with
  | nil => exact ⟨ys, (List.append_nil ys).symm, heq⟩
  | append_singleton xs x ih =>
    have hx := hxs _ (mem_inputs_concat h xs x)
    rw [chain_concat] at heq
    cases ys using List.reverseRecOn with
    | nil => exact absurd heq (hbind.ne_start _ hx)
    | append_singleton ys y =>
      have hy := hys _ (mem_inputs_concat start ys y)
      rw [chain_concat] at heq
      obtain ⟨hchain, rfl⟩ := hpair (hbind.injOn hx hy heq)
      obtain ⟨zs, rfl, hzs⟩ := ih (subset_of_append hxs) (subset_of_append hys) hchain
      exact ⟨zs, List.append_assoc .., hzs⟩

theorem Binding.chain_inj (hbind : Binding hash start hashed) {xs ys : List M}
    (hxs : ∀ b ∈ inputs hash pair start xs, b ∈ hashed)
    (hys : ∀ b ∈ inputs hash pair start ys, b ∈ hashed)
    (heq : chain hash pair start xs = chain hash pair start ys) : xs = ys := by
  obtain ⟨zs, rfl, hzs⟩ := hbind.suffix hpair hxs hys heq
  cases zs using List.reverseRecOn with
  | nil => rfl
  | append_singleton zs z =>
    have hz := subset_of_append hys _ (mem_inputs_concat start zs z)
    rw [chain_concat] at hzs
    exact absurd hzs.symm (hbind.ne_start _ hz)

theorem Binding.segment (hbind : Binding hash start hashed) {before xs ys : List M}
    (hbefore : ∀ b ∈ inputs hash pair start before, b ∈ hashed)
    (hxs : ∀ b ∈ inputs hash pair (chain hash pair start before) xs, b ∈ hashed)
    (hys : ∀ b ∈ inputs hash pair start ys, b ∈ hashed)
    (heq : chain hash pair (chain hash pair start before) xs = chain hash pair start ys) :
    ys = before ++ xs := by
  refine hbind.chain_inj hpair hys ?_ ?_
  · intro b hb
    rw [inputs_append, List.mem_append] at hb
    exact hb.elim (hbefore b) (hxs b)
  · rw [← heq, chain_append]

end Binding

end HashChain
