import Proscenium.Lib.Machine
import Proscenium.Lib.Tasks

/-! The gossip tasks of the server. `subscribe` looks into the map, subscribes and
spawns a task without the lock, and puts the task's handle into the map in the end;
`unsubscribe` aborts the task whose handle it finds there. A handle that is replaced
is dropped, and its task goes on. -/

namespace Proscenium.Server

open Machine

structure GossipTask where
  id : Nat
  pubkey : String
  deriving DecidableEq, Repr

/-- Where `subscribe` awaits. -/
inductive SubscribePhase where
  | check
  | resolve
  | network
  /-- The lock for the second time, with the task that is spawned. -/
  | insert (id : Nat)
  deriving DecidableEq, Repr

inductive IngestionCall where
  | subscribe (pubkey : String) (phase : SubscribePhase)
  | unsubscribe (pubkey : String)
  deriving DecidableEq, Repr

structure IngestionManager where
  subscriptions : String → Option Nat
  /-- The tasks that are spawned and not aborted. -/
  live : List GossipTask
  spawned : Nat
  calls : List IngestionCall
  /-- Has an `unsubscribe` of the pubkey completed, and no `subscribe` of it started since? -/
  quiet : String → Bool

def IngestionCall.inserting : IngestionCall → Option Nat
  | .subscribe _ (.insert id) => some id
  | _ => none

def IngestionCall.Apart (c c' : IngestionCall) : Prop := ∀ id, c.inserting = some id → c'.inserting ≠ some id

namespace IngestionManager

inductive Label where
  | subscribe (pubkey : String)
  | unsubscribe (pubkey : String)
  /-- A call goes on; `ok` is how its await ends. -/
  | call (i : Nat) (ok : Bool)
  deriving DecidableEq, Repr

def new : IngestionManager := ⟨fun _ => none, [], 0, [], fun _ => false⟩

def runCall (s : IngestionManager) (ok : Bool) : IngestionCall → IngestionManager × Option IngestionCall
  | .subscribe pubkey .check =>
    (s, if (s.subscriptions pubkey).isSome then none else some (.subscribe pubkey .resolve))
  | .subscribe pubkey .resolve => (s, if ok then some (.subscribe pubkey .network) else none)
  | .subscribe pubkey .network =>
    if ok then
      ({ s with live := s.live ++ [⟨s.spawned, pubkey⟩], spawned := s.spawned + 1 },
        some (.subscribe pubkey (.insert s.spawned)))
    else (s, none)
  | .subscribe pubkey (.insert id) =>
    ({ s with subscriptions := Function.update s.subscriptions pubkey (some id) }, none)
  | .unsubscribe pubkey =>
    ({ s with
        subscriptions := Function.update s.subscriptions pubkey none
        live := s.live.filter fun t => s.subscriptions pubkey ≠ some t.id
        quiet := Function.update s.quiet pubkey true }, none)

def step (s : IngestionManager) : Label → Option IngestionManager
  | .subscribe pubkey => some { s with
      calls := s.calls ++ [.subscribe pubkey .check]
      quiet := Function.update s.quiet pubkey false }
  | .unsubscribe pubkey => some { s with calls := s.calls ++ [.unsubscribe pubkey] }
  | .call i ok => s.calls[i]?.map fun c =>
    let out := s.runCall ok c
    { out.1 with calls := Tasks.advance s.calls i out.2 }

/-- A pubkey has one live task at most, and none after it is unsubscribed. -/
structure Effective (s : IngestionManager) : Prop where
  alone : ∀ t ∈ s.live, ∀ t' ∈ s.live, t.pubkey = t'.pubkey → t = t'
  unsubscribed : ∀ t ∈ s.live, s.quiet t.pubkey = false

/-- The pubkey has a live task, or will have its handle. -/
def Taken (s : IngestionManager) (pubkey : String) : Prop :=
  s.subscriptions pubkey ≠ none ∨ ∃ id, IngestionCall.subscribe pubkey (.insert id) ∈ s.calls

/-- A task is not spawned while another call has spawned one for the pubkey or put it into the map,
nor after an `unsubscribe` that no other `subscribe` has followed; and an `unsubscribe` does not come
between the spawning of a task and the insertion of its handle. -/
def NotOverlapping (s : IngestionManager) : Label → Prop
  | .call i ok => ∀ c, s.calls[i]? = some c →
    match c with
    | .subscribe pubkey .network => ok = true → ¬ s.Taken pubkey ∧ s.quiet pubkey = false
    | .unsubscribe pubkey => ∀ id, IngestionCall.subscribe pubkey (.insert id) ∉ s.calls
    | _ => True
  | _ => True

structure Inv (s : IngestionManager) : Prop where
  effective : s.Effective
  ids : ∀ t ∈ s.live, ∀ t' ∈ s.live, t.id = t'.id → t = t'
  below : ∀ t ∈ s.live, t.id < s.spawned
  registered : ∀ t ∈ s.live, s.subscriptions t.pubkey = some t.id ∨
    IngestionCall.subscribe t.pubkey (.insert t.id) ∈ s.calls
  mapped : ∀ pubkey id, s.subscriptions pubkey = some id → ⟨id, pubkey⟩ ∈ s.live
  inserting : ∀ pubkey id, IngestionCall.subscribe pubkey (.insert id) ∈ s.calls →
    ⟨id, pubkey⟩ ∈ s.live ∧ s.subscriptions pubkey ≠ some id
  once : s.calls.Pairwise IngestionCall.Apart

variable {s s' : IngestionManager} {pubkey : String}

theorem inv_new : new.Inv where
  effective := ⟨fun _ ht => absurd ht List.not_mem_nil, fun _ ht => absurd ht List.not_mem_nil⟩
  ids _ ht := absurd ht List.not_mem_nil
  below _ ht := absurd ht List.not_mem_nil
  registered _ ht := absurd ht List.not_mem_nil
  mapped _ id h := absurd h.symm (Option.some_ne_none id)
  inserting _ _ h := absurd h List.not_mem_nil
  once := List.Pairwise.nil

theorem apart_symm {c c' : IngestionCall} (h : c.Apart c') : c'.Apart c := by
  intro id hc' hc
  exact h id hc hc'

theorem taken_iff (h : s.Inv) : s.Taken pubkey ↔ ∃ t ∈ s.live, t.pubkey = pubkey := by
  constructor
  · rintro (hmapped | ⟨id, hcall⟩)
    · obtain ⟨id, hid⟩ := Option.ne_none_iff_exists'.mp hmapped
      exact ⟨_, h.mapped pubkey id hid, rfl⟩
    · exact ⟨_, (h.inserting pubkey id hcall).1, rfl⟩
  · rintro ⟨t, ht, rfl⟩
    rcases h.registered t ht with hmapped | hcall
    · refine .inl ?_
      rw [hmapped]
      exact Option.some_ne_none t.id
    · exact .inr ⟨t.id, hcall⟩

theorem not_inserting {c : IngestionCall} (hc : c.inserting = none) (id : Nat) :
    IngestionCall.subscribe pubkey (.insert id) ≠ c := by
  rintro rfl
  exact Option.some_ne_none id hc

theorem inserting_eq_some {c : IngestionCall} {id : Nat} (hc : c.inserting = some id) :
    ∃ pubkey, c = .subscribe pubkey (.insert id) := by
  rcases c with ⟨p, _ | _ | _ | j⟩ | p
  case subscribe.insert =>
    obtain rfl : j = id := Option.some.inj hc
    exact ⟨p, rfl⟩
  all_goals exact absurd hc.symm (Option.some_ne_none id)

theorem inserting_advance {calls : List IngestionCall} {i : Nat} {c : IngestionCall} (hi : calls[i]? = some c)
    (hc : c.inserting = none) {next : Option IngestionCall} (hnext : ∀ n ∈ next, n.inserting = none) (id : Nat) :
    IngestionCall.subscribe pubkey (.insert id) ∈ Tasks.advance calls i next ↔
      IngestionCall.subscribe pubkey (.insert id) ∈ calls := by
  rw [Tasks.mem_advance hi, ← (Tasks.perm_others hi).mem_iff, List.mem_cons]
  have hother : IngestionCall.subscribe pubkey (.insert id) ≠ c := not_inserting hc id
  have hlater : IngestionCall.subscribe pubkey (.insert id) ∉ next := by
    intro hn
    exact Option.some_ne_none id (hnext _ hn)
  simp only [hother, hlater, false_or]

theorem once_advance (h : s.Inv) {i : Nat} {c : IngestionCall} (hi : s.calls[i]? = some c)
    {next : Option IngestionCall} (hnext : ∀ n ∈ next, n.inserting = none) :
    (Tasks.advance s.calls i next).Pairwise IngestionCall.Apart := by
  refine Tasks.pairwise_advance apart_symm h.once hi ?_
  intro n hn u _ id hid
  exact absurd (hid.symm.trans (hnext n hn)) (Option.some_ne_none id)

theorem inv_quietly (h : s.Inv) {i : Nat} {c : IngestionCall} (hi : s.calls[i]? = some c)
    (hc : c.inserting = none) {next : Option IngestionCall} (hnext : ∀ n ∈ next, n.inserting = none) :
    Inv { s with calls := Tasks.advance s.calls i next } where
  effective := ⟨h.effective.alone, h.effective.unsubscribed⟩
  ids := h.ids
  below := h.below
  registered t ht := (h.registered t ht).imp_right (inserting_advance hi hc hnext t.id).mpr
  mapped := h.mapped
  inserting pubkey id hcall := h.inserting pubkey id ((inserting_advance hi hc hnext id).mp hcall)
  once := once_advance h hi hnext

theorem inv_join (h : s.Inv) {c : IngestionCall} (hc : c.inserting = none) {quiet : String → Bool}
    (hquiet : ∀ pubkey, s.quiet pubkey = false → quiet pubkey = false) :
    Inv { s with calls := s.calls ++ [c], quiet := quiet } where
  effective := ⟨h.effective.alone, fun t ht => hquiet t.pubkey (h.effective.unsubscribed t ht)⟩
  ids := h.ids
  below := h.below
  registered t ht := (h.registered t ht).imp_right (List.mem_append_left [c])
  mapped := h.mapped
  inserting pubkey id hcall := by
    rcases List.mem_append.mp hcall with hold | hnew
    · exact h.inserting pubkey id hold
    · exact absurd (List.mem_singleton.mp hnew) (not_inserting hc id)
  once := by
    refine List.pairwise_append.mpr ⟨h.once, List.pairwise_singleton .., ?_⟩
    intro u _ c' hc' id _ hid
    rw [List.mem_singleton.mp hc', hc] at hid
    exact Option.some_ne_none id hid.symm

theorem inv_spawn (h : s.Inv) {i : Nat} (hi : s.calls[i]? = some (.subscribe pubkey .network))
    (hfree : ¬ s.Taken pubkey) (hquiet : s.quiet pubkey = false) :
    Inv { s with
      live := s.live ++ [⟨s.spawned, pubkey⟩]
      spawned := s.spawned + 1
      calls := Tasks.advance s.calls i (some (.subscribe pubkey (.insert s.spawned))) } := by
  have hnone : ∀ t ∈ s.live, t.pubkey ≠ pubkey := by
    intro t ht hpubkey
    exact hfree ((taken_iff h).mpr ⟨t, ht, hpubkey⟩)
  have hfresh : ∀ t ∈ s.live, t.id ≠ s.spawned := fun t ht => Nat.ne_of_lt (h.below t ht)
  have hmem : ∀ t, t ∈ s.live ++ [⟨s.spawned, pubkey⟩] ↔ t ∈ s.live ∨ t = ⟨s.spawned, pubkey⟩ := by
    intro t
    rw [List.mem_append, List.mem_singleton]
  have hcall : ∀ p id, IngestionCall.subscribe p (.insert id) ∈
      Tasks.advance s.calls i (some (.subscribe pubkey (.insert s.spawned))) ↔
      (p = pubkey ∧ id = s.spawned) ∨ IngestionCall.subscribe p (.insert id) ∈ s.calls := by
    intro p id
    rw [Tasks.mem_advance hi, ← (Tasks.perm_others hi).mem_iff, List.mem_cons]
    simp [eq_comm]
  refine ⟨⟨?_, ?_⟩, ?_, ?_, ?_, ?_, ?_, ?_⟩
  · intro t ht t' ht' hpubkey
    rcases (hmem t).mp ht with hold | rfl <;> rcases (hmem t').mp ht' with hold' | rfl
    · exact h.effective.alone t hold t' hold' hpubkey
    · exact absurd hpubkey (hnone t hold)
    · exact absurd hpubkey.symm (hnone t' hold')
    · rfl
  · intro t ht
    rcases (hmem t).mp ht with hold | rfl
    · exact h.effective.unsubscribed t hold
    · exact hquiet
  · intro t ht t' ht' hid
    rcases (hmem t).mp ht with hold | rfl <;> rcases (hmem t').mp ht' with hold' | rfl
    · exact h.ids t hold t' hold' hid
    · exact absurd hid (hfresh t hold)
    · exact absurd hid.symm (hfresh t' hold')
    · rfl
  · intro t ht
    rcases (hmem t).mp ht with hold | rfl
    · exact Nat.lt_succ_of_lt (h.below t hold)
    · exact Nat.lt_succ_self s.spawned
  · intro t ht
    rcases (hmem t).mp ht with hold | rfl
    · exact (h.registered t hold).imp_right fun hc => (hcall _ _).mpr (.inr hc)
    · exact .inr ((hcall _ _).mpr (.inl ⟨rfl, rfl⟩))
  · intro p id hid
    exact (hmem _).mpr (.inl (h.mapped p id hid))
  · intro p id hc
    rcases (hcall p id).mp hc with ⟨rfl, rfl⟩ | hold
    · refine ⟨(hmem _).mpr (.inr rfl), fun hid => ?_⟩
      exact hfree (.inl fun hnone => Option.some_ne_none _ (hid.symm.trans hnone))
    · obtain ⟨hlive, hnot⟩ := h.inserting p id hold
      exact ⟨(hmem _).mpr (.inl hlive), hnot⟩
  · have hothers : ∀ n ∈ some (IngestionCall.subscribe pubkey (.insert s.spawned)),
        ∀ u ∈ s.calls.eraseIdx i, n.Apart u := by
      intro n hn u hu id hid hother
      obtain rfl := Option.some.inj hn
      obtain rfl : s.spawned = id := Option.some.inj hid
      obtain ⟨p, rfl⟩ := inserting_eq_some hother
      exact hfresh _ (h.inserting p _ ((List.eraseIdx_sublist ..).subset hu)).1 rfl
    exact Tasks.pairwise_advance apart_symm h.once hi hothers

theorem inv_insert (h : s.Inv) {i id : Nat} (hi : s.calls[i]? = some (.subscribe pubkey (.insert id))) :
    Inv { s with
      subscriptions := Function.update s.subscriptions pubkey (some id)
      calls := Tasks.advance s.calls i none } := by
  have hown := (h.inserting pubkey id (List.mem_of_getElem? hi)).1
  have hapart : ∀ u ∈ s.calls.eraseIdx i, IngestionCall.Apart (.subscribe pubkey (.insert id)) u :=
    Tasks.related_others apart_symm h.once hi
  have hold : ∀ u ∈ s.calls.eraseIdx i, u ∈ s.calls := (List.eraseIdx_sublist ..).subset
  refine ⟨⟨h.effective.alone, h.effective.unsubscribed⟩, h.ids, h.below, ?_, ?_, ?_, ?_⟩
  · intro t ht
    show Function.update s.subscriptions pubkey (some id) t.pubkey = _ ∨ _ ∈ s.calls.eraseIdx i
    by_cases hp : t.pubkey = pubkey
    · obtain rfl : t = ⟨id, pubkey⟩ := h.effective.alone t ht _ hown hp
      exact .inl (Function.update_self ..)
    · rw [Function.update_of_ne hp]
      refine (h.registered t ht).imp_right fun hcall => ?_
      rcases List.mem_cons.mp ((Tasks.perm_others hi).mem_iff.mpr hcall) with heq | hmem
      · injection heq with hp'
        exact absurd hp' hp
      · exact hmem
  · intro p j hj
    by_cases hp : p = pubkey
    · subst hp
      have hself : Function.update s.subscriptions p (some id) p = some j := hj
      rw [Function.update_self] at hself
      obtain rfl : id = j := Option.some.inj hself
      exact hown
    · exact h.mapped p j ((Function.update_of_ne hp ..).symm.trans hj)
  · intro p j hj
    obtain ⟨hlive, hnot⟩ := h.inserting p j (hold _ hj)
    refine ⟨hlive, ?_⟩
    by_cases hp : p = pubkey
    · -- it would be the task of this call, which only this call inserts
      have hsame := h.effective.alone _ hlive _ hown hp
      injection hsame with hid
      exact absurd (congrArg some hid) (hapart _ hj id rfl)
    · exact (Function.update_of_ne hp ..).trans_ne hnot
  · exact h.once.sublist (List.eraseIdx_sublist ..)

theorem mem_unsubscribed (h : s.Inv) (hnone : ∀ id, IngestionCall.subscribe pubkey (.insert id) ∉ s.calls)
    (t : GossipTask) :
    t ∈ s.live.filter (fun t => s.subscriptions pubkey ≠ some t.id) ↔ t ∈ s.live ∧ t.pubkey ≠ pubkey := by
  rw [List.mem_filter, decide_eq_true_iff]
  refine and_congr_right fun ht => not_congr ?_
  constructor
  · intro hid
    rw [h.ids t ht _ (h.mapped pubkey t.id hid) rfl]
  · rintro rfl
    exact (h.registered t ht).resolve_right (hnone t.id)

theorem inv_unsubscribe (h : s.Inv) {i : Nat} (hi : s.calls[i]? = some (.unsubscribe pubkey))
    (hnone : ∀ id, IngestionCall.subscribe pubkey (.insert id) ∉ s.calls) :
    Inv { s with
      subscriptions := Function.update s.subscriptions pubkey none
      live := s.live.filter fun t => s.subscriptions pubkey ≠ some t.id
      calls := Tasks.advance s.calls i none
      quiet := Function.update s.quiet pubkey true } := by
  have hmem := mem_unsubscribed h hnone
  have hlast : ∀ n ∈ (none : Option IngestionCall), n.inserting = none := fun n hn => absurd hn (Option.not_mem_none n)
  have hcall : ∀ p id, IngestionCall.subscribe p (.insert id) ∈ Tasks.advance s.calls i none ↔
      IngestionCall.subscribe p (.insert id) ∈ s.calls := fun p id => inserting_advance hi rfl hlast id
  refine ⟨⟨?_, ?_⟩, ?_, ?_, ?_, ?_, ?_, once_advance h hi hlast⟩
  · intro t ht t' ht'
    exact h.effective.alone t ((hmem t).mp ht).1 t' ((hmem t').mp ht').1
  · intro t ht
    obtain ⟨hlive, hp⟩ := (hmem t).mp ht
    exact (Function.update_of_ne hp ..).trans (h.effective.unsubscribed t hlive)
  · intro t ht t' ht'
    exact h.ids t ((hmem t).mp ht).1 t' ((hmem t').mp ht').1
  · intro t ht
    exact h.below t ((hmem t).mp ht).1
  · intro t ht
    obtain ⟨hlive, hp⟩ := (hmem t).mp ht
    refine (h.registered t hlive).imp (fun hid => ?_) (hcall _ _).mpr
    exact (Function.update_of_ne hp ..).trans hid
  · intro p id hid
    have hp : p ≠ pubkey := by
      rintro rfl
      have hself : Function.update s.subscriptions p none p = some id := hid
      rw [Function.update_self] at hself
      exact Option.some_ne_none id hself.symm
    exact (hmem _).mpr ⟨h.mapped p id ((Function.update_of_ne hp ..).symm.trans hid), hp⟩
  · intro p id hc
    have hold := (hcall p id).mp hc
    have hp : p ≠ pubkey := by
      rintro rfl
      exact hnone id hold
    obtain ⟨hlive, hnot⟩ := h.inserting p id hold
    exact ⟨(hmem _).mpr ⟨hlive, hp⟩, (Function.update_of_ne hp ..).trans_ne hnot⟩

theorem inv_step (h : s.Inv) {l : Label} (hok : s.NotOverlapping l) (hstep : step s l = some s') : s'.Inv := by
  cases l with
  | subscribe pubkey =>
    obtain rfl := Option.some.inj hstep
    refine inv_join h rfl fun p hp => ?_
    by_cases hself : p = pubkey
    · exact hself ▸ Function.update_self ..
    · exact (Function.update_of_ne hself ..).trans hp
  | unsubscribe pubkey =>
    obtain rfl := Option.some.inj hstep
    exact inv_join h rfl fun _ hp => hp
  | call i ok =>
    obtain ⟨c, hi, rfl⟩ := Option.map_eq_some_iff.mp hstep
    have hnext := hok c hi
    cases c with
    | unsubscribe pubkey => exact inv_unsubscribe h hi hnext
    | subscribe pubkey phase =>
      cases phase with
      | check =>
        refine inv_quietly h hi rfl fun n hn => ?_
        simp only [runCall] at hn
        split at hn
        · exact absurd hn (Option.not_mem_none n)
        · rw [← Option.some.inj hn]
          rfl
      | resolve =>
        refine inv_quietly h hi rfl fun n hn => ?_
        simp only [runCall] at hn
        split at hn
        · rw [← Option.some.inj hn]
          rfl
        · exact absurd hn (Option.not_mem_none n)
      | network =>
        cases ok with
        | true => exact inv_spawn h hi (hnext rfl).1 (hnext rfl).2
        | false => exact inv_quietly h hi rfl fun n hn => absurd hn (Option.not_mem_none n)
      | insert id => exact inv_insert h hi

theorem notOverlapping_of_effective (h : s.Inv) {l : Label}
    (heffective : ∀ s', step s l = some s' → s'.Effective) : s.NotOverlapping l := by
  cases l with
  | subscribe pubkey => trivial
  | unsubscribe pubkey => trivial
  | call i ok =>
    intro c hi
    have hafter := heffective _ (Option.map_eq_some_iff.mpr ⟨c, hi, rfl⟩)
    rcases c with ⟨pubkey, _ | _ | _ | id⟩ | pubkey
    case subscribe.network =>
      rintro rfl
      have hnew : ⟨s.spawned, pubkey⟩ ∈ s.live ++ [⟨s.spawned, pubkey⟩] :=
        List.mem_append_right s.live (List.mem_singleton_self _)
      refine ⟨fun htaken => ?_, hafter.unsubscribed _ hnew⟩
      obtain ⟨t, ht, rfl⟩ := (taken_iff h).mp htaken
      have hsame := hafter.alone t (List.mem_append_left _ ht) _ hnew rfl
      exact Nat.ne_of_lt (h.below t ht) (congrArg GossipTask.id hsame)
    case unsubscribe =>
      intro id hcall
      obtain ⟨hlive, hnot⟩ := h.inserting pubkey id hcall
      have hleft : ⟨id, pubkey⟩ ∈ s.live.filter fun t => s.subscriptions pubkey ≠ some t.id :=
        List.mem_filter.mpr ⟨hlive, decide_eq_true hnot⟩
      have hquiet : Function.update s.quiet pubkey true pubkey = false := hafter.unsubscribed _ hleft
      rw [Function.update_self] at hquiet
      exact Bool.false_ne_true hquiet.symm
    all_goals trivial

/-- The tasks are effective after every step of a run exactly when no step of it overlaps. -/
theorem effective_along_iff (run : List Label) :
    Along step (fun s l => ∀ s', step s l = some s' → s'.Effective) new run ↔
      Along step NotOverlapping new run := by
  refine (along_iff (fun s l h => ?_) (fun s l s' h hok hstep => inv_step h hok hstep) inv_new).symm
  constructor
  · intro hok s' hstep
    exact (inv_step h hok hstep).effective
  · exact notOverlapping_of_effective h

/-- Two calls look into the map before either is in it. -/
theorem not_effective_twoCalls : ∃ s, exec step new [.subscribe "p", .subscribe "p", .call 0 true, .call 1 true,
    .call 0 true, .call 1 true, .call 0 true, .call 1 true] = some s ∧ ¬ s.Effective := by
  refine ⟨_, rfl, fun heffective => ?_⟩
  have hsame := heffective.alone ⟨0, "p"⟩ (by decide) ⟨1, "p"⟩ (by decide) rfl
  exact absurd hsame (by decide)

end IngestionManager
end Proscenium.Server
