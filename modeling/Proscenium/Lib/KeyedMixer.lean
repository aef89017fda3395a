import Proscenium.Lib.Table

/-! Channels of samples that are drained into buffers. A channel and a buffer go by a key, and so
does what is removed: a key of which one channel has lost its sender loses all of them. -/

namespace KeyedMixer

structure Channel (α : Type*) where
  queue : List (List α)
  hasSender : Bool

/-- The samples, and which channels have been drained into it. -/
structure Buffer (α : Type*) where
  samples : List α
  sources : List ℕ

structure Mixer (κ α : Type*) where
  buffers : List (κ × Buffer α)
  streams : List (κ × ℕ)

variable {κ α : Type*} [DecidableEq κ]

/-- The oldest samples go if there are more than `cap`. -/
def Buffer.fill (cap : ℕ) (c : ℕ) (b : Buffer α) (batch : List α) : Buffer α :=
  let samples := b.samples ++ batch
  ⟨samples.drop (samples.length - cap), c :: b.sources⟩

def Buffer.drain (cap : ℕ) (channels : ℕ → Channel α) (b : Buffer α) (c : ℕ) : Buffer α :=
  (channels c).queue.foldl (Buffer.fill cap c) b

namespace Mixer

def empty : Mixer κ α := ⟨[], []⟩

def add (k : κ) (c : ℕ) (m : Mixer κ α) : Mixer κ α :=
  ⟨Table.upsert Prod.fst k (k, ⟨[], []⟩) (fun e => (e.1, ⟨[], []⟩)) m.buffers, m.streams ++ [(k, c)]⟩

def remove (k : κ) (m : Mixer κ α) : Mixer κ α :=
  ⟨Table.deleteWhere (fun e => e.1 = k) m.buffers, Table.deleteWhere (fun s => s.1 = k) m.streams⟩

def removeAll (ks : List κ) (m : Mixer κ α) : Mixer κ α := ks.foldl (fun m k => m.remove k) m

def drain (cap : ℕ) (channels : ℕ → Channel α) (m : Mixer κ α) : Mixer κ α :=
  { m with
    buffers := m.streams.foldl (fun buffers s => Table.updateWhere (fun e => e.1 = s.1)
      (fun e => (e.1, e.2.drain cap channels s.2)) buffers) m.buffers }

def gone (channels : ℕ → Channel α) (m : Mixer κ α) : List κ :=
  (m.streams.filter fun s => !(channels s.2).hasSender).map Prod.fst

def emit (frame : ℕ) (m : Mixer κ α) : List (κ × List α) × Mixer κ α :=
  (m.buffers.map fun e => (e.1, e.2.samples.take frame),
    { m with buffers := m.buffers.map fun e => (e.1, { e.2 with samples := e.2.samples.drop frame }) })

def tick (cap frame : ℕ) (channels : ℕ → Channel α) (m : Mixer κ α) : List (κ × List α) × Mixer κ α :=
  ((m.drain cap channels).removeAll (m.gone channels)).emit frame

def keys (m : Mixer κ α) : List κ := m.buffers.map Prod.fst

section Specs

variable {m : Mixer κ α} {k k' : κ} {c : ℕ} {ks : List κ} {cap frame : ℕ} {channels : ℕ → Channel α}

theorem mem_keys_add : k' ∈ (m.add k c).keys ↔ k' ∈ m.keys ∨ k' = k := by
  unfold add keys Table.upsert
  split
  next hany =>
    have hsame : (m.buffers.map fun e => if e.1 = k then (e.1, (⟨[], []⟩ : Buffer α)) else e).map Prod.fst =
        m.buffers.map Prod.fst := by
      rw [List.map_map]
      refine List.map_congr_left fun e _ => ?_
      rw [Function.comp_apply]
      split <;> rfl
    dsimp only
    rw [hsame, or_iff_left_of_imp]
    rintro rfl
    obtain ⟨e, he, hkey⟩ := List.any_eq_true.mp hany
    exact List.mem_map.mpr ⟨e, he, of_decide_eq_true hkey⟩
  next =>
    dsimp only
    rw [List.map_append, List.mem_append, List.map_singleton, List.mem_singleton]

theorem mem_streams_add {s : κ × ℕ} : s ∈ (m.add k c).streams ↔ s ∈ m.streams ∨ s = (k, c) := by
  unfold add
  rw [List.mem_append, List.mem_singleton]

theorem mem_streams_removeAll {s : κ × ℕ} : s ∈ (m.removeAll ks).streams ↔ s ∈ m.streams ∧ s.1 ∉ ks := by
  unfold removeAll
  induction ks generalizing m with
  | nil => exact (and_iff_left List.not_mem_nil).symm
  | cons k ks ih =>
    rw [List.foldl_cons, ih, List.mem_cons, not_or, ← and_assoc]
    refine and_congr_left fun _ => ?_
    unfold remove Table.deleteWhere
    simp

theorem mem_keys_removeAll : k ∈ (m.removeAll ks).keys ↔ k ∈ m.keys ∧ k ∉ ks := by
  unfold removeAll
  induction ks generalizing m with
  | nil => exact (and_iff_left List.not_mem_nil).symm
  | cons k' ks ih =>
    rw [List.foldl_cons, ih, List.mem_cons, not_or, ← and_assoc]
    refine and_congr_left fun _ => ?_
    unfold remove Table.deleteWhere keys
    simp only [List.mem_map, List.mem_filter, Bool.not_eq_true', decide_eq_false_iff_not]
    constructor
    · rintro ⟨e, ⟨he, hne⟩, rfl⟩
      exact ⟨⟨e, he, rfl⟩, hne⟩
    · rintro ⟨⟨e, he, rfl⟩, hne⟩
      exact ⟨e, ⟨he, hne⟩, rfl⟩

omit [DecidableEq κ] in
theorem mem_gone : k ∈ m.gone channels ↔ ∃ c, (k, c) ∈ m.streams ∧ (channels c).hasSender = false := by
  unfold gone
  simp only [List.mem_map, List.mem_filter, Bool.not_eq_true']
  constructor
  · rintro ⟨⟨_, c⟩, ⟨hs, hlost⟩, rfl⟩
    exact ⟨c, hs, hlost⟩
  · rintro ⟨c, hs, hlost⟩
    exact ⟨(k, c), ⟨hs, hlost⟩, rfl⟩

theorem buffers_drain : (m.drain cap channels).buffers = m.buffers.map fun e =>
    (e.1, ((m.streams.filter fun s => s.1 = e.1).map Prod.snd).foldl (Buffer.drain cap channels) e.2) := by
  unfold drain
  dsimp only
  generalize m.buffers = buffers
  induction m.streams generalizing buffers with
  | nil => exact (List.map_id buffers).symm
  | cons s streams ih =>
    rw [List.foldl_cons, ih]
    unfold Table.updateWhere
    rw [List.map_map]
    refine List.map_congr_left fun e _ => ?_
    rw [Function.comp_apply]
    by_cases hkey : e.1 = s.1
    · simp [hkey]
    · simp [hkey, Ne.symm hkey]

theorem keys_drain : (m.drain cap channels).keys = m.keys := by
  unfold keys
  rw [buffers_drain, List.map_map]
  rfl

theorem mem_streams_tick {s : κ × ℕ} :
    s ∈ (m.tick cap frame channels).2.streams ↔ s ∈ m.streams ∧ s.1 ∉ m.gone channels :=
  mem_streams_removeAll

theorem streams_tick_sublist : (m.tick cap frame channels).2.streams.Sublist m.streams := by
  have hremoved : ∀ (ks : List κ) (m : Mixer κ α), (m.removeAll ks).streams.Sublist m.streams := by
    intro ks
    unfold removeAll
    induction ks with
    | nil => exact fun m => List.Sublist.refl _
    | cons k ks ih => exact fun m => (ih (m.remove k)).trans List.filter_sublist
  exact hremoved (m.gone channels) (m.drain cap channels)

theorem mem_keys_tick : k ∈ (m.tick cap frame channels).2.keys ↔ k ∈ m.keys ∧ k ∉ m.gone channels := by
  unfold tick emit
  have hsame : ∀ m : Mixer κ α, (⟨m.buffers.map fun e => (e.1, { e.2 with samples := e.2.samples.drop frame }),
      m.streams⟩ : Mixer κ α).keys = m.keys := by
    intro m
    unfold keys
    rw [List.map_map]
    rfl
  rw [hsame, mem_keys_removeAll, keys_drain]

theorem mem_sources_drain {b : Buffer α} {c' : ℕ} :
    c' ∈ (b.drain cap channels c).sources ↔ c' ∈ b.sources ∨ c' = c ∧ (channels c).queue ≠ [] := by
  unfold Buffer.drain
  induction (channels c).queue generalizing b with
  | nil => simp
  | cons batch batches ih =>
    rw [List.foldl_cons, ih]
    simp only [Buffer.fill, List.mem_cons]
    tauto

theorem mem_sources_foldl {b : Buffer α} {cs : List ℕ} {c' : ℕ} :
    c' ∈ (cs.foldl (Buffer.drain cap channels) b).sources ↔
      c' ∈ b.sources ∨ c' ∈ cs ∧ (channels c').queue ≠ [] := by
  induction cs generalizing b with
  | nil => simp
  | cons c cs ih =>
    rw [List.foldl_cons, ih, mem_sources_drain, List.mem_cons]
    constructor
    · rintro ((h | ⟨rfl, h⟩) | ⟨hmem, h⟩)
      · exact .inl h
      · exact .inr ⟨.inl rfl, h⟩
      · exact .inr ⟨.inr hmem, h⟩
    · rintro (h | ⟨rfl | hmem, h⟩)
      · exact .inl (.inl h)
      · exact .inl (.inr ⟨rfl, h⟩)
      · exact .inr ⟨hmem, h⟩

theorem mem_buffers_add {e : κ × Buffer α} (h : e ∈ (m.add k c).buffers) :
    e ∈ m.buffers ∧ e.1 ≠ k ∨ e = (k, ⟨[], []⟩) := by
  unfold add Table.upsert at h
  dsimp only at h
  split at h
  next =>
    obtain ⟨q, hq, rfl⟩ := List.mem_map.mp h
    split
    next hkey => exact .inr (by rw [hkey])
    next hkey => exact .inl ⟨hq, hkey⟩
  next hnew =>
    rcases List.mem_append.mp h with he | he
    · exact .inl ⟨he, fun hkey => hnew (List.any_eq_true.mpr ⟨e, he, decide_eq_true hkey⟩)⟩
    · exact .inr (List.mem_singleton.mp he)

theorem buffers_removeAll_subset : (m.removeAll ks).buffers ⊆ m.buffers := by
  unfold removeAll
  induction ks generalizing m with
  | nil => exact fun _ h => h
  | cons k ks ih => exact fun e he => List.mem_of_mem_filter (ih he)

end Specs

section Owned

variable {owner : κ → Option ℕ} {m : Mixer κ α} {k : κ} {c : ℕ} {cap frame : ℕ} {channels : ℕ → Channel α}

/-- A key belongs to one channel: there is no other under it, and only that one has filled its buffer. -/
structure Owned (owner : κ → Option ℕ) (m : Mixer κ α) : Prop where
  streams : ∀ k c, (k, c) ∈ m.streams → owner k = some c
  sources : ∀ e ∈ m.buffers, ∀ c ∈ e.2.sources, owner e.1 = some c

omit [DecidableEq κ] in
theorem owned_empty (owner : κ → Option ℕ) : Owned owner (empty : Mixer κ α) :=
  ⟨fun _ _ h => absurd h List.not_mem_nil, fun _ h => absurd h List.not_mem_nil⟩

theorem Owned.add (h : Owned owner m) (hfree : owner k = none) (c : ℕ) :
    Owned (Function.update owner k (some c)) (m.add k c) := by
  constructor
  · intro k' c' hstream
    rcases mem_streams_add.mp hstream with hold | heq
    · have hne : k' ≠ k := by
        rintro rfl
        exact absurd (hfree.symm.trans (h.streams k' c' hold)).symm (Option.some_ne_none _)
      rw [Function.update_of_ne hne]
      exact h.streams k' c' hold
    · obtain ⟨rfl, rfl⟩ := Prod.mk.inj heq
      exact Function.update_self ..
  · intro e he c' hc'
    rcases mem_buffers_add he with ⟨hold, hne⟩ | rfl
    · rw [Function.update_of_ne hne]
      exact h.sources e hold c' hc'
    · exact absurd hc' List.not_mem_nil

theorem Owned.remove (h : Owned owner m) (k : κ) : Owned (Function.update owner k none) (m.remove k) := by
  have hne : ∀ {k' : κ}, k' ∉ [k] → k' ≠ k := fun hk heq => hk (List.mem_singleton.mpr heq)
  constructor
  · intro k' c' hstream
    have hstream : (k', c') ∈ (m.removeAll [k]).streams := hstream
    obtain ⟨hold, hk⟩ := mem_streams_removeAll.mp hstream
    rw [Function.update_of_ne (hne hk)]
    exact h.streams k' c' hold
  · intro e he c' hc'
    have he : e ∈ m.buffers.filter fun e => !decide (e.1 = k) := he
    obtain ⟨hold, hk⟩ := List.mem_filter.mp he
    have hk : e.1 ≠ k := by simpa using hk
    rw [Function.update_of_ne hk]
    exact h.sources e hold c' hc'

theorem Owned.drain (h : Owned owner m) : Owned owner (m.drain cap channels) := by
  refine ⟨h.streams, fun e he c hc => ?_⟩
  rw [buffers_drain] at he
  obtain ⟨e, hold, rfl⟩ := List.mem_map.mp he
  rcases mem_sources_foldl.mp hc with hsource | ⟨hstream, -⟩
  · exact h.sources e hold c hsource
  · obtain ⟨s, hs, rfl⟩ := List.mem_map.mp hstream
    obtain ⟨hs, hkey⟩ := List.mem_filter.mp hs
    rw [decide_eq_true_eq] at hkey
    exact hkey ▸ h.streams s.1 s.2 hs

theorem Owned.tick (h : Owned owner m) : Owned owner (m.tick cap frame channels).2 := by
  refine ⟨fun k c hstream => h.streams k c (mem_streams_tick.mp hstream).1, fun e he c hc => ?_⟩
  obtain ⟨e, hold, rfl⟩ := List.mem_map.mp he
  have hdrained : Owned owner (m.drain cap channels) := h.drain
  exact hdrained.sources e (buffers_removeAll_subset hold) c hc

end Owned

end Mixer

end KeyedMixer
