import Proscenium.DeviceSync.FleetConvergence
import Proscenium.DeviceSync.LwwConvergence

/-! A session that nothing comes between. Statement by statement it does what the
session of two devices does at once, and both devices have then heard of
everything that either of them had. -/

namespace Proscenium.DeviceSync

open Proscenium.Types Client Lww

def mergeEntries (me : String) (entries : List Entry) (st : OwnStore) : OwnStore :=
  entries.foldl (fun st e => if st.shouldUpdate me e then st.write me e else st) st

section Entries

variable {me : String} {st : OwnStore}

theorem graph_ext {g g' : SocialGraph} (h : g.rows = g'.rows) : g = g' := by
  cases g
  cases g'
  simpa using h

theorem moderation_ext {m m' : Moderation} (h : m.rows = m'.rows) : m = m' := by
  cases m
  cases m'
  simpa using h

theorem merge_follow (e : FollowEntry) :
    (if st.shouldUpdate me (.follow e) then st.write me (.follow e) else st) =
      { st with graph := mergeFollowsLww me [e] st.graph } := by
  have hrows : (mergeFollowsLww me [e] st.graph).rows =
      if st.shouldUpdate me (.follow e) then (followWire me).put st.graph.rows e else st.graph.rows := rfl
  by_cases hnewer : st.shouldUpdate me (.follow e) = true
  · rw [if_pos hnewer] at hrows ⊢
    have hgraph : (st.write me (.follow e)).graph = mergeFollowsLww me [e] st.graph := graph_ext hrows.symm
    exact congrArg (fun g => { st with graph := g }) hgraph
  · rw [if_neg hnewer] at hrows ⊢
    have hgraph : st.graph = mergeFollowsLww me [e] st.graph := graph_ext hrows.symm
    exact congrArg (fun g => { st with graph := g }) hgraph

theorem merge_mark (e : ModerationEntry) :
    (if st.shouldUpdate me (.moderation e) then st.write me (.moderation e) else st) =
      { st with moderation := mergeModerationLww [e] st.moderation } := by
  have hrows : (mergeModerationLww [e] st.moderation).rows =
      if st.shouldUpdate me (.moderation e) then moderationWire.put st.moderation.rows e
      else st.moderation.rows := rfl
  by_cases hnewer : st.shouldUpdate me (.moderation e) = true
  · rw [if_pos hnewer] at hrows ⊢
    have hmarks : (st.write me (.moderation e)).moderation = mergeModerationLww [e] st.moderation :=
      moderation_ext hrows.symm
    exact congrArg (fun m => { st with moderation := m }) hmarks
  · rw [if_neg hnewer] at hrows ⊢
    have hmarks : st.moderation = mergeModerationLww [e] st.moderation := moderation_ext hrows.symm
    exact congrArg (fun m => { st with moderation := m }) hmarks

theorem mergeEntries_follows (entries : List FollowEntry) : mergeEntries me (entries.map .follow) st =
    { st with graph := mergeFollowsLww me entries st.graph } := by
  induction entries generalizing st with
  | nil => rfl
  | cons e entries ih =>
    show mergeEntries me (entries.map .follow)
      (if st.shouldUpdate me (.follow e) then st.write me (.follow e) else st) = _
    rw [merge_follow, ih]
    rfl

theorem mergeEntries_moderation (entries : List ModerationEntry) :
    mergeEntries me (entries.map .moderation) st =
      { st with moderation := mergeModerationLww entries st.moderation } := by
  induction entries generalizing st with
  | nil => rfl
  | cons e entries ih =>
    show mergeEntries me (entries.map .moderation)
      (if st.shouldUpdate me (.moderation e) then st.write me (.moderation e) else st) = _
    rw [merge_mark, ih]
    rfl

variable (me st) in
theorem mergeEntries_entryDeltas (ours peer : DeviceSyncVector) (c : ContentStore) (now : UInt64) :
    (mergeEntries me (entryDeltas me ours peer) st).graph =
        (importDeltas me now (sendDeltas me c ours peer) st).graph ∧
      (mergeEntries me (entryDeltas me ours peer) st).moderation =
        (importDeltas me now (sendDeltas me c ours peer) st).moderation := by
  have hsplit : mergeEntries me (entryDeltas me ours peer) st =
      { st with
        graph := mergeFollowsLww me ((followWire me).deltas ours.follows peer.follows) st.graph
        moderation := mergeModerationLww (moderationWire.deltas ours.moderation peer.moderation)
          st.moderation } := by
    have happend : mergeEntries me (entryDeltas me ours peer) st =
        mergeEntries me ((moderationWire.deltas ours.moderation peer.moderation).map .moderation)
          (mergeEntries me (((followWire me).deltas ours.follows peer.follows).map .follow) st) := by
      unfold mergeEntries entryDeltas
      rw [List.foldl_append]
    rw [happend, mergeEntries_follows, mergeEntries_moderation]
  rw [hsplit]
  constructor
  · apply graph_ext
    rw [graph_importDeltas, follows_sendDeltas]
    rfl
  · apply moderation_ext
    rw [moderation_importDeltas, moderation_sendDeltas]
    rfl

end Entries

section Runs

variable {ι : Type} [DecidableEq ι] {me : String} {s : ℕ} {sender importer : ι}
  {reply : Option (List Entry)}

def Progress (s : ℕ) (l : FleetLabel ι) : Prop :=
  l = .answer s ∨ l = .compare s ∨ l = .write s ∨ l = .finish s

variable (me) in
theorem import_run (todo : List Entry) (o : Observed ι)
    (hs : o.fleet.sessions s = some (.importing sender importer todo none reply)) :
    ∃ run written, (∀ l ∈ run, Progress s l) ∧ (∀ e ∈ written, e ∈ todo) ∧
      Machine.exec (Observed.step me) o run =
        some ⟨(o.fleet.setStore importer (mergeEntries me todo (o.fleet.stores importer))).setSession s
          (some (.importing sender importer [] none reply)), o.history.hear importer written⟩ := by
  induction todo generalizing o with
  | nil =>
    refine ⟨[], [], by simp, by simp, ?_⟩
    have hfleet : (o.fleet.setStore importer (mergeEntries me [] (o.fleet.stores importer))).setSession s
        (some (.importing sender importer [] none reply)) = o.fleet := by
      simp [Fleet.setStore, Fleet.setSession, mergeEntries, ← hs]
    have hhistory : o.history.hear importer [] = o.history := by simp [History.hear]
    rw [hfleet, hhistory]
    rfl
  | cons e todo ih =>
    cases hnewer : (o.fleet.stores importer).shouldUpdate me e with
    | false =>
      let o' : Observed ι := ⟨o.fleet.setSession s (some (.importing sender importer todo none reply)), o.history⟩
      have hstep : o.step me (.compare s) = some o' := by
        simp [Observed.step, Fleet.step, hs, hnewer, History.record, o']
      have hs' : o'.fleet.sessions s = some (.importing sender importer todo none reply) := by
        simp [o', Fleet.setSession]
      obtain ⟨run, written, hrun, hwritten, hexec⟩ := ih o' hs'
      refine ⟨.compare s :: run, written, ?_, fun f hf => List.mem_cons_of_mem e (hwritten f hf), ?_⟩
      · rintro l (_ | ⟨_, hl⟩)
        · exact Or.inr (Or.inl rfl)
        · exact hrun l hl
      · refine Machine.exec_cons_eq_some.mpr ⟨o', hstep, hexec.trans ?_⟩
        simp [o', Fleet.setSession, Fleet.setStore, mergeEntries, hnewer]
    | true =>
      let o₁ : Observed ι :=
        ⟨o.fleet.setSession s (some (.importing sender importer todo (some e) reply)), o.history⟩
      let o₂ : Observed ι := ⟨(o.fleet.setStore importer ((o.fleet.stores importer).write me e)).setSession s
        (some (.importing sender importer todo none reply)), o.history.hear importer [e]⟩
      have hstep₁ : o.step me (.compare s) = some o₁ := by
        simp [Observed.step, Fleet.step, hs, hnewer, History.record, o₁]
      have hstep₂ : o₁.step me (.write s) = some o₂ := by
        simp [Observed.step, Fleet.step, History.record, o₁, o₂, Fleet.setSession, Fleet.setStore]
      have hs' : o₂.fleet.sessions s = some (.importing sender importer todo none reply) := by
        simp [o₂, Fleet.setSession]
      obtain ⟨run, written, hrun, hwritten, hexec⟩ := ih o₂ hs'
      refine ⟨.compare s :: .write s :: run, written ++ [e], ?_, ?_, ?_⟩
      · intro l hl
        rcases List.mem_cons.mp hl with rfl | hl
        · exact Or.inr (Or.inl rfl)
        · rcases List.mem_cons.mp hl with rfl | hl
          · exact Or.inr (Or.inr (Or.inl rfl))
          · exact hrun l hl
      · intro f hf
        rcases List.mem_append.mp hf with hf | hf
        · exact List.mem_cons_of_mem e (hwritten f hf)
        · exact List.mem_singleton.mp hf ▸ List.mem_cons_self
      · refine Machine.exec_cons_eq_some.mpr ⟨o₁, hstep₁, Machine.exec_cons_eq_some.mpr ⟨o₂, hstep₂, ?_⟩⟩
        refine hexec.trans ?_
        simp [o₂, Fleet.setSession, Fleet.setStore, mergeEntries, hnewer, History.hear]

/-- What a session makes of its two devices, and of what they have heard. -/
structure Exchanged (me : String) (now : UInt64) (i j : ι) (o t : Observed ι) : Prop where
  initiatorGraph : (t.fleet.stores i).graph =
    (deviceSync me now (o.fleet.stores i) (o.fleet.stores j)).1.graph
  initiatorModeration : (t.fleet.stores i).moderation =
    (deviceSync me now (o.fleet.stores i) (o.fleet.stores j)).1.moderation
  responderGraph : (t.fleet.stores j).graph =
    (deviceSync me now (o.fleet.stores i) (o.fleet.stores j)).2.graph
  responderModeration : (t.fleet.stores j).moderation =
    (deviceSync me now (o.fleet.stores i) (o.fleet.stores j)).2.moderation
  others : ∀ d, d ≠ i → d ≠ j → t.fleet.stores d = o.fleet.stores d
  initiatorHeard : ∀ e, e ∈ t.history.heard i ↔ e ∈ o.history.heard i ∨ e ∈ o.history.heard j
  responderHeard : ∀ e, e ∈ t.history.heard j ↔ e ∈ o.history.heard i ∨ e ∈ o.history.heard j

/-- A session alone, step by step, from its request to the responder's last entry. -/
theorem exec_session {o : Observed ι} (h : Healthy me o) (hs : o.fleet.sessions s = none) {i j : ι}
    (hij : i ≠ j) (now : UInt64) :
    ∃ run t, (∀ l ∈ run, Progress s l) ∧
      Machine.exec (Observed.step me) o (.request s i j :: run) = some t ∧ t.fleet.sessions s = none ∧
      Exchanged me now i j o t := by
  let vi := (o.fleet.stores i).buildDeviceSyncVector me
  let vj := (o.fleet.stores j).buildDeviceSyncVector me
  let toInitiator := entryDeltas me vj vi
  let toResponder := entryDeltas me vi vj
  let carried := Function.update o.history.carried s (o.history.heard i, o.history.heard j)
  let o₁ : Observed ι := ⟨o.fleet.setSession s (some (.requested i j vi)),
    { o.history with carried := Function.update o.history.carried s (o.history.heard i, []) }⟩
  let o₂ : Observed ι := ⟨o.fleet.setSession s (some (.importing j i toInitiator none (some toResponder))),
    { o.history with carried := carried }⟩
  have hrequest : o.step me (.request s i j) = some o₁ := by
    simp [Observed.step, Fleet.step, hs, History.record, o₁, vi]
  have hanswer : o₁.step me (.answer s) = some o₂ := by
    simp [Observed.step, Fleet.step, History.record, o₁, o₂, Fleet.setSession, toInitiator, toResponder,
      vi, vj, carried]
  have hs₂ : o₂.fleet.sessions s = some (.importing j i toInitiator none (some toResponder)) := by
    simp [o₂, Fleet.setSession]
  obtain ⟨run₁, written₁, hrun₁, hwritten₁, hexec₁⟩ := import_run me toInitiator o₂ hs₂
  let f₁ := (o₂.fleet.setStore i (mergeEntries me toInitiator (o₂.fleet.stores i))).setSession s
    (some (.importing j i [] none (some toResponder)))
  let o₃ : Observed ι := ⟨f₁.setSession s (some (.importing i j toResponder none none)),
    (o₂.history.hear i written₁).hear i (o.history.heard j)⟩
  have hfinish₁ : Observed.step me ⟨f₁, o₂.history.hear i written₁⟩ (.finish s) = some o₃ := by
    simp [Observed.step, Fleet.step, History.record, f₁, o₃, o₂, Fleet.setSession, History.hear, carried]
  have hs₃ : o₃.fleet.sessions s = some (.importing i j toResponder none none) := by
    simp [o₃, Fleet.setSession]
  obtain ⟨run₂, written₂, hrun₂, hwritten₂, hexec₂⟩ := import_run me toResponder o₃ hs₃
  let f₂ := (o₃.fleet.setStore j (mergeEntries me toResponder (o₃.fleet.stores j))).setSession s
    (some (.importing i j [] none none))
  let o₄ : Observed ι := ⟨f₂.setSession s none, (o₃.history.hear j written₂).hear j (o.history.heard i)⟩
  have hfinish₂ : Observed.step me ⟨f₂, o₃.history.hear j written₂⟩ (.finish s) = some o₄ := by
    simp [Observed.step, Fleet.step, History.record, f₂, o₄, o₃, o₂, Fleet.setSession, History.hear, carried]
  refine ⟨.answer s :: run₁ ++ .finish s :: run₂ ++ [.finish s], o₄, ?_, ?_, ?_, ?_⟩
  · intro l hl
    simp only [List.mem_append, List.mem_cons, List.not_mem_nil, or_false] at hl
    rcases hl with ((rfl | hl) | rfl | hl) | rfl
    · exact Or.inl rfl
    · exact hrun₁ l hl
    · exact Or.inr (Or.inr (Or.inr rfl))
    · exact hrun₂ l hl
    · exact Or.inr (Or.inr (Or.inr rfl))
  · refine Machine.exec_cons_eq_some.mpr ⟨o₁, hrequest, ?_⟩
    rw [Machine.exec_append, Machine.exec_append]
    have hfirst : Machine.exec (Observed.step me) o₁ (.answer s :: run₁) =
        some ⟨f₁, o₂.history.hear i written₁⟩ := Machine.exec_cons_eq_some.mpr ⟨o₂, hanswer, hexec₁⟩
    have hsecond : Machine.exec (Observed.step me) ⟨f₁, o₂.history.hear i written₁⟩ (.finish s :: run₂) =
        some ⟨f₂, o₃.history.hear j written₂⟩ := Machine.exec_cons_eq_some.mpr ⟨o₃, hfinish₁, hexec₂⟩
    have hlast : Machine.exec (Observed.step me) ⟨f₂, o₃.history.hear j written₂⟩ [.finish s] = some o₄ :=
      Machine.exec_cons_eq_some.mpr ⟨o₄, hfinish₂, rfl⟩
    rw [hfirst, Option.bind_some, hsecond, Option.bind_some, hlast]
  · simp [o₄, Fleet.setSession]
  have hstores_i : o₄.fleet.stores i = mergeEntries me toInitiator (o.fleet.stores i) := by
    simp [o₄, f₂, o₃, f₁, o₂, Fleet.setSession, Fleet.setStore, hij]
  have hstores_j : o₄.fleet.stores j = mergeEntries me toResponder (o.fleet.stores j) := by
    simp [o₄, f₂, o₃, f₁, o₂, Fleet.setSession, Fleet.setStore, hij.symm]
  have hwritten₁ : ∀ e ∈ written₁, e ∈ o.history.heard j := fun e he =>
    ((h.shows j).known _ e ((mem_entries me _ e).mp (entryDeltas_subset (hwritten₁ e he)))).2
  have hwritten₂ : ∀ e ∈ written₂, e ∈ o.history.heard i := fun e he =>
    ((h.shows i).known _ e ((mem_entries me _ e).mp (entryDeltas_subset (hwritten₂ e he)))).2
  have hheard_i : o₄.history.heard i = o.history.heard j ++ (written₁ ++ o.history.heard i) := by
    simp [o₄, o₃, o₂, History.hear, hij]
  have hheard_j : o₄.history.heard j = o.history.heard i ++ (written₂ ++ o.history.heard j) := by
    simp [o₄, o₃, o₂, History.hear, hij.symm]
  have hi := mergeEntries_entryDeltas me (o.fleet.stores i) vj vi (o.fleet.stores j).content now
  have hj := mergeEntries_entryDeltas me (o.fleet.stores j) vi vj
    (deviceSync me now (o.fleet.stores i) (o.fleet.stores j)).1.content now
  refine ⟨hstores_i ▸ hi.1, hstores_i ▸ hi.2, hstores_j ▸ hj.1, hstores_j ▸ hj.2, fun d hdi hdj => ?_,
    fun e => ?_, fun e => ?_⟩
  · simp [o₄, f₂, o₃, f₁, o₂, Fleet.setSession, Fleet.setStore, hdi, hdj]
  · rw [hheard_i, List.mem_append, List.mem_append]
    constructor
    · rintro (he | he | he)
      · exact Or.inr he
      · exact Or.inr (hwritten₁ e he)
      · exact Or.inl he
    · rintro (he | he)
      · exact Or.inr (Or.inr he)
      · exact Or.inl he
  · rw [hheard_j, List.mem_append, List.mem_append]
    constructor
    · rintro (he | he | he)
      · exact Or.inl he
      · exact Or.inl (hwritten₂ e he)
      · exact Or.inr he
    · rintro (he | he)
      · exact Or.inl he
      · exact Or.inr (Or.inr he)

/-- From any state that a fleet can come to, a session that nothing comes between runs to its end, does
what `deviceSync` does, and leaves both devices with all that either of them had heard of. -/
theorem undisturbed_session (me : String) (o₀ : Observed ι) (hfresh : o₀.Fresh me)
    (run₀ : List (FleetLabel ι))
    (hok : Machine.Along (Observed.step me) (fun o => InOrder me o.fleet) o₀ run₀) (o : Observed ι)
    (hrun : Machine.exec (Observed.step me) o₀ run₀ = some o) (s : ℕ) (hs : o.fleet.sessions s = none)
    (i j : ι) (hij : i ≠ j) (now : UInt64) :
    ∃ run t, (∀ l ∈ run, Progress s l) ∧
      Machine.exec (Observed.step me) o (.request s i j :: run) = some t ∧ t.fleet.sessions s = none ∧
      Exchanged me now i j o t :=
  exec_session (hfresh.healthy.exec hok hrun) hs hij now

end Runs

section Examples

/-- After a session that broke off, the devices start another one. -/
theorem undisturbed_session_again :
    let o := (Machine.exec (Observed.step "alice") newFleet brokenOff).getD newFleet
    ∃ run t, (∀ l ∈ run, Progress 0 l) ∧
      Machine.exec (Observed.step "alice") o (.request 0 1 0 :: run) = some t ∧
      t.fleet.sessions 0 = none ∧ Exchanged "alice" 9 1 0 o t := by
  have hsome : (Machine.exec (Observed.step "alice") newFleet brokenOff).isSome = true := by decide +kernel
  obtain ⟨t, ht⟩ := Option.isSome_iff_exists.mp hsome
  have hidle : ((Machine.exec (Observed.step "alice") newFleet brokenOff).getD newFleet).fleet.sessions 0 =
      none := by
    have hnone : (((Machine.exec (Observed.step "alice") newFleet brokenOff).getD
      newFleet).fleet.sessions 0).isNone = true := by decide +kernel
    exact Option.isNone_iff_eq_none.mp hnone
  exact undisturbed_session "alice" newFleet fresh_newFleet brokenOff (by decide +kernel) _
    (by rw [ht]; rfl) 0 hidle 1 0 (by decide) 9

end Examples

end Proscenium.DeviceSync
