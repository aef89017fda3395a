import Proscenium.Lib.KeyedMixer

/-! A bounded queue that is served by ticks: what comes is queued, and at a tick
the oldest of what waits is lost if there is more than the bound, and a frame of
the rest taken. Under a key with one channel a `KeyedMixer` is such a queue. -/

namespace BoundedFifo

variable {α : Type*} {cap frame : ℕ}

/-- The newest `cap`. -/
def trim (cap : ℕ) (l : List α) : List α := l.drop (l.length - cap)

theorem length_trim_le (l : List α) : (trim cap l).length ≤ cap := by
  rw [trim, List.length_drop]
  omega

theorem trim_of_le {l : List α} (h : l.length ≤ cap) : trim cap l = l := by
  rw [trim, Nat.sub_eq_zero_of_le h, List.drop_zero]

theorem trim_append (l m : List α) : trim cap (trim cap l ++ m) = trim cap (l ++ m) := by
  by_cases h : l.length ≤ cap
  · rw [trim_of_le h]
  · have hcut : l.length - cap ≤ (l ++ m).length - cap := by
      rw [List.length_append]
      omega
    have hdrop : trim cap l ++ m = (l ++ m).drop (l.length - cap) := by
      rw [List.drop_append_of_le_length (by omega), trim]
    rw [hdrop, trim, trim, List.drop_drop, List.length_drop]
    congr 1
    omega

inductive Input (α : Type*) where
  | push (chunk : List α)
  | tick

/-- At a tick: what is lost, and what is left to take a frame of. -/
structure Served (α : Type*) where
  lost : List α
  kept : List α

/-- What each tick does, and what waits in the end. -/
def serve (cap frame : ℕ) : List α → List (Input α) → List (Served α) × List α
  | waiting, [] => ([], waiting)
  | waiting, .push chunk :: inputs => serve cap frame (waiting ++ chunk) inputs
  | waiting, .tick :: inputs =>
    let kept := trim cap waiting
    let later := serve cap frame (kept.drop frame) inputs
    (⟨waiting.take (waiting.length - cap), kept⟩ :: later.1, later.2)

def Input.pushed : Input α → List α
  | .push chunk => chunk
  | .tick => []

theorem serve_push (waiting chunk : List α) (inputs : List (Input α)) :
    serve cap frame waiting (.push chunk :: inputs) = serve cap frame (waiting ++ chunk) inputs := rfl

theorem serve_tick (waiting : List α) (inputs : List (Input α)) :
    serve cap frame waiting (.tick :: inputs) =
      (⟨waiting.take (waiting.length - cap), trim cap waiting⟩ ::
          (serve cap frame ((trim cap waiting).drop frame) inputs).1,
        (serve cap frame ((trim cap waiting).drop frame) inputs).2) := rfl

theorem serve_conserves (waiting : List α) (inputs : List (Input α)) :
    (serve cap frame waiting inputs).1.flatMap (fun s => s.lost ++ s.kept.take frame) ++
      (serve cap frame waiting inputs).2 = waiting ++ inputs.flatMap Input.pushed := by
  induction inputs generalizing waiting with
  | nil => simp [serve]
  | cons i inputs ih =>
    cases i with
    | push chunk =>
      rw [serve_push, ih, List.flatMap_cons, List.append_assoc]
      rfl
    | tick =>
      have hsplit : waiting.take (waiting.length - cap) ++ trim cap waiting = waiting :=
        List.take_append_drop ..
      have hkept : (trim cap waiting).take frame ++ (trim cap waiting).drop frame = trim cap waiting :=
        List.take_append_drop ..
      rw [serve_tick, List.flatMap_cons, List.flatMap_cons, List.append_assoc, ih, List.append_assoc]
      simp only [Input.pushed, List.nil_append]
      rw [← List.append_assoc ((trim cap waiting).take frame), hkept, ← List.append_assoc, hsplit]

theorem serve_bounded (waiting : List α) (inputs : List (Input α)) :
    ∀ s ∈ (serve cap frame waiting inputs).1, s.kept.length ≤ cap ∧ (s.lost ≠ [] → s.kept.length = cap) := by
  induction inputs generalizing waiting with
  | nil => simp [serve]
  | cons i inputs ih =>
    cases i with
    | push chunk => exact ih (waiting ++ chunk)
    | tick =>
      rw [serve_tick, List.forall_mem_cons]
      refine ⟨⟨length_trim_le waiting, fun hlost => ?_⟩, ih _⟩
      have hover : 0 < waiting.length - cap := by
        by_contra hnone
        apply hlost
        rw [Nat.eq_zero_of_not_pos hnone, List.take_zero]
      show (trim cap waiting).length = cap
      rw [trim, List.length_drop]
      omega

end BoundedFifo

namespace KeyedMixer

open BoundedFifo

variable {κ α : Type*} [DecidableEq κ]

theorem samples_drain {cap c : ℕ} {channels : ℕ → Channel α} {b : Buffer α} (h : b.samples.length ≤ cap) :
    (b.drain cap channels c).samples = trim cap (b.samples ++ (channels c).queue.flatten) := by
  unfold Buffer.drain
  induction (channels c).queue generalizing b with
  | nil =>
    rw [List.flatten_nil, List.append_nil, trim_of_le h]
    rfl
  | cons batch batches ih =>
    have hfill : (b.fill cap c batch).samples = trim cap (b.samples ++ batch) := rfl
    have hbound : (b.fill cap c batch).samples.length ≤ cap := by
      rw [hfill]
      exact length_trim_le _
    rw [List.foldl_cons, ih hbound, hfill, trim_append, List.flatten_cons, List.append_assoc]

namespace Mixer

variable {m : Mixer κ α} {k k' : κ} {c c' : ℕ} {cap frame : ℕ} {channels : ℕ → Channel α} {samples : List α}

def Bounded (cap : ℕ) (m : Mixer κ α) : Prop := ∀ e ∈ m.buffers, e.2.samples.length ≤ cap

/-- The key has a buffer with these samples, and this channel is its only one. -/
structure Feeds (k : κ) (c : ℕ) (m : Mixer κ α) (samples : List α) : Prop where
  buffer : ∃ b, Table.find Prod.fst k m.buffers = some (k, b) ∧ b.samples = samples
  stream : m.streams.filter (fun s => s.1 = k) = [(k, c)]

structure Absent (k : κ) (m : Mixer κ α) : Prop where
  buffer : Table.find Prod.fst k m.buffers = none
  stream : m.streams.filter (fun s => s.1 = k) = []

theorem absent_empty (k : κ) : Absent k (empty : Mixer κ α) := ⟨rfl, rfl⟩

theorem find_add_of_ne (hne : k ≠ k') :
    Table.find Prod.fst k (m.add k' c').buffers = Table.find Prod.fst k m.buffers := by
  unfold add
  apply Table.find_upsert_of_ne _ _ hne
  · intro e
    rfl
  · rfl

theorem streams_add_of_ne (hne : k ≠ k') :
    (m.add k' c').streams.filter (fun s => s.1 = k) = m.streams.filter (fun s => s.1 = k) := by
  simp [add, hne.symm]

theorem Absent.add_of_ne (h : Absent k m) (hne : k ≠ k') (c' : ℕ) : Absent k (m.add k' c') :=
  ⟨(find_add_of_ne hne).trans h.buffer, (streams_add_of_ne hne).trans h.stream⟩

theorem Feeds.add_of_ne (h : Feeds k c m samples) (hne : k ≠ k') (c' : ℕ) : Feeds k c (m.add k' c') samples := by
  obtain ⟨b, hfind, hsamples⟩ := h.buffer
  exact ⟨⟨b, (find_add_of_ne hne).trans hfind, hsamples⟩, (streams_add_of_ne hne).trans h.stream⟩

theorem Absent.add (h : Absent k m) (c : ℕ) : Feeds k c (m.add k c) [] := by
  constructor
  · have hfind : Table.find Prod.fst k (m.add k c).buffers =
        some (((Table.find Prod.fst k m.buffers).map fun e => (e.1, ⟨[], []⟩)).getD (k, ⟨[], []⟩)) := by
      unfold Mixer.add
      apply Table.find_upsert_self
      · intro e
        rfl
      · rfl
    rw [h.buffer] at hfind
    exact ⟨⟨[], []⟩, hfind, rfl⟩
  · have hold := h.stream
    simp only [Mixer.add, List.filter_append, hold]
    simp

section Removal

variable {ks : List κ}

theorem find_removeAll (hk : k ∉ ks) :
    Table.find Prod.fst k (m.removeAll ks).buffers = Table.find Prod.fst k m.buffers := by
  unfold removeAll
  induction ks generalizing m with
  | nil => rfl
  | cons k' ks ih =>
    rw [List.mem_cons, not_or] at hk
    rw [List.foldl_cons, ih hk.2]
    apply Table.find_deleteWhere_of_ne
    intro e he
    subst he
    simp [hk.1]

theorem streams_removeAll (hk : k ∉ ks) :
    (m.removeAll ks).streams.filter (fun s => s.1 = k) = m.streams.filter (fun s => s.1 = k) := by
  unfold removeAll
  induction ks generalizing m with
  | nil => rfl
  | cons k' ks ih =>
    rw [List.mem_cons, not_or] at hk
    rw [List.foldl_cons, ih hk.2]
    show (m.streams.filter fun s => !decide (s.1 = k')).filter (fun s => s.1 = k) = _
    rw [List.filter_filter]
    apply List.filter_congr
    intro s _
    by_cases hs : s.1 = k
    · simp [hs, hk.1]
    · simp [hs]

end Removal

theorem not_mem_gone (h : Feeds k c m samples) (hsender : (channels c).hasSender = true) : k ∉ m.gone channels := by
  intro hgone
  obtain ⟨c', hstream, hlost⟩ := mem_gone.mp hgone
  have hmem : (k, c') ∈ m.streams.filter (fun s => s.1 = k) := by
    simp [hstream]
  rw [h.stream, List.mem_singleton] at hmem
  obtain ⟨-, rfl⟩ := Prod.mk.inj hmem
  rw [hsender] at hlost
  simp at hlost

theorem find_drain : Table.find Prod.fst k (m.drain cap channels).buffers =
    (Table.find Prod.fst k m.buffers).map fun e =>
      (e.1, ((m.streams.filter fun s => s.1 = e.1).map Prod.snd).foldl (Buffer.drain cap channels) e.2) := by
  rw [buffers_drain, Table.find_map]
  intro e
  rfl

theorem find_emit : Table.find Prod.fst k (m.emit frame).1 =
      (Table.find Prod.fst k m.buffers).map (fun e => (e.1, e.2.samples.take frame)) := by
  unfold emit Table.find
  rw [List.find?_map]
  rfl

theorem find_buffers_emit : Table.find Prod.fst k (m.emit frame).2.buffers =
      (Table.find Prod.fst k m.buffers).map
        (fun e => (e.1, { e.2 with samples := e.2.samples.drop frame })) := by
  unfold emit
  rw [Table.find_map]
  intro e
  rfl

theorem Feeds.tick (h : Feeds k c m samples) (frame : ℕ) (hbound : samples.length ≤ cap)
    (hsender : (channels c).hasSender = true) :
    let kept := trim cap (samples ++ (channels c).queue.flatten)
    Table.find Prod.fst k (m.tick cap frame channels).1 = some (k, kept.take frame) ∧
      Feeds k c (m.tick cap frame channels).2 (kept.drop frame) := by
  intro kept
  obtain ⟨b, hfind, rfl⟩ := h.buffer
  have hgone : k ∉ m.gone channels := not_mem_gone h hsender
  have hdrained : Table.find Prod.fst k (m.drain cap channels).buffers =
      some (k, b.drain cap channels c) := by
    rw [find_drain, hfind, Option.map_some, h.stream]
    rfl
  have hkept : (b.drain cap channels c).samples = kept := samples_drain hbound
  have hleft : Table.find Prod.fst k ((m.drain cap channels).removeAll (m.gone channels)).buffers =
      some (k, b.drain cap channels c) := (find_removeAll hgone).trans hdrained
  have hstream : ((m.drain cap channels).removeAll (m.gone channels)).streams.filter (fun s => s.1 = k) =
      [(k, c)] := (streams_removeAll hgone).trans h.stream
  unfold Mixer.tick
  constructor
  · rw [find_emit, hleft, Option.map_some, hkept]
  · constructor
    · refine ⟨{ b.drain cap channels c with samples := kept.drop frame }, ?_, rfl⟩
      rw [find_buffers_emit, hleft, Option.map_some, hkept]
    · exact hstream

theorem Absent.tick (h : Absent k m) (cap frame : ℕ) (channels : ℕ → Channel α) :
    Table.find Prod.fst k (m.tick cap frame channels).1 = none ∧
    Absent k (m.tick cap frame channels).2 := by
  have hgone : k ∉ m.gone channels := by
    intro hgone
    obtain ⟨c', hstream, -⟩ := mem_gone.mp hgone
    have hmem : (k, c') ∈ m.streams.filter (fun s => s.1 = k) := by
      simp [hstream]
    rw [h.stream] at hmem
    simp at hmem
  have hdrained : Table.find Prod.fst k (m.drain cap channels).buffers = none := by
    rw [find_drain, h.buffer, Option.map_none]
  have hleft : Table.find Prod.fst k ((m.drain cap channels).removeAll (m.gone channels)).buffers = none :=
    (find_removeAll hgone).trans hdrained
  unfold Mixer.tick
  constructor
  · rw [find_emit, hleft, Option.map_none]
  · constructor
    · rw [find_buffers_emit, hleft, Option.map_none]
    · exact (streams_removeAll hgone).trans h.stream

theorem Feeds.tick_gone (h : Feeds k c m samples) (hlost : (channels c).hasSender = false) (cap frame : ℕ) :
    Table.find Prod.fst k (m.tick cap frame channels).1 = none ∧
      Absent k (m.tick cap frame channels).2 := by
  have hstream : (k, c) ∈ m.streams := by
    have hmem : (k, c) ∈ m.streams.filter (fun s => s.1 = k) := by
      rw [h.stream]
      exact List.mem_singleton.mpr rfl
    exact List.mem_of_mem_filter hmem
  have hgone : k ∈ m.gone channels := mem_gone.mpr ⟨c, hstream, hlost⟩
  have hkeys : k ∉ ((m.drain cap channels).removeAll (m.gone channels)).keys :=
    fun hmem => (mem_keys_removeAll.mp hmem).2 hgone
  have hleft : Table.find Prod.fst k ((m.drain cap channels).removeAll (m.gone channels)).buffers = none := by
    apply Table.find_eq_none_of_any
    intro hany
    obtain ⟨e, he, hek⟩ := List.any_eq_true.mp hany
    exact hkeys (List.mem_map.mpr ⟨e, he, of_decide_eq_true hek⟩)
  unfold Mixer.tick
  constructor
  · rw [find_emit, hleft, Option.map_none]
  · constructor
    · rw [find_buffers_emit, hleft, Option.map_none]
    · apply List.filter_eq_nil_iff.mpr
      intro s hs hsk
      obtain rfl : s.1 = k := of_decide_eq_true hsk
      exact (mem_streams_removeAll.mp hs).2 hgone

section Bounds

omit [DecidableEq κ] in
theorem bounded_empty (cap : ℕ) : Bounded cap (empty : Mixer κ α) := by
  intro e he
  exact absurd he List.not_mem_nil

theorem Bounded.add (h : Bounded cap m) (k : κ) (c : ℕ) : Bounded cap (m.add k c) := by
  intro e he
  rcases mem_buffers_add he with ⟨hold, -⟩ | rfl
  · exact h e hold
  · exact Nat.zero_le cap

theorem Bounded.drain (h : Bounded cap m) : Bounded cap (m.drain cap channels) := by
  have hall : ∀ (cs : List ℕ) (b : Buffer α), b.samples.length ≤ cap →
      (cs.foldl (Buffer.drain cap channels) b).samples.length ≤ cap := by
    intro cs
    induction cs with
    | nil => exact fun b hb => hb
    | cons c cs ih =>
      intro b hb
      apply ih
      rw [samples_drain hb]
      exact length_trim_le _
  intro e he
  rw [buffers_drain] at he
  obtain ⟨e, hold, rfl⟩ := List.mem_map.mp he
  exact hall _ e.2 (h e hold)

theorem Bounded.tick (h : Bounded cap m) : Bounded cap (m.tick cap frame channels).2 := by
  intro e he
  obtain ⟨e, hold, rfl⟩ := List.mem_map.mp he
  have hdrained : Bounded cap (m.drain cap channels) := h.drain
  have hlen := hdrained e (buffers_removeAll_subset hold)
  exact (List.drop_sublist frame e.2.samples).length_le.trans hlen

end Bounds

end Mixer
end KeyedMixer
