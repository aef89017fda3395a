import Proscenium.Lib.LastMax
import Proscenium.Stage.ActorDefs

/-! The books of the `TopologyManager`: the counts in the list of sources are
those of the assignments, through any sequence of relays and listeners. -/

namespace Proscenium.Stage

inductive TopologyOp where
  | addRelay (endpointId : String) (capacity : UInt32)
  | assignListener (pubkey : String)

namespace TopologyManager

def step (t : TopologyManager) : TopologyOp → TopologyManager
  | .addRelay endpointId capacity => t.addRelay endpointId capacity
  | .assignListener pubkey => (t.assignListener pubkey).2

/-- The source that a listener is assigned to. -/
def sourceOf (t : TopologyManager) (pubkey : String) : Option String :=
  (t.assignments.find? fun a => a.1 = pubkey).map Prod.snd

/-- The free slots of a source once the listener has given its own back. -/
def room (t : TopologyManager) (pubkey : String) (s : Source) : Nat :=
  s.capacity.toNat - s.assigned.toNat + if t.sourceOf pubkey = some s.endpointId then 1 else 0

/-- What the counts and the assignments say of each other. -/
structure Booked (t : TopologyManager) : Prop where
  ids : (t.sources.map Source.endpointId).Nodup
  keys : (t.assignments.map Prod.fst).Nodup
  host : ∃ h ∈ t.sources, h.kind = .host ∧ ∀ s ∈ t.sources, s.kind = .host → s = h
  named : ∀ a ∈ t.assignments, ∃ s ∈ t.sources, s.endpointId = a.2
  counted : ∀ s ∈ t.sources, s.assigned.toNat = t.assignments.countP fun a => a.2 = s.endpointId
  bounded : ∀ s ∈ t.sources, s.assigned ≤ s.capacity

/-- What a call of `assign_listener` answers and leaves behind. -/
structure Assigns (t : TopologyManager) (pubkey : String) : Prop where
  again : (t.sourceOf pubkey).isSome → (t.assignListener pubkey).1.isSome
  refused : (t.assignListener pubkey).1 = none ↔
    t.sourceOf pubkey = none ∧ ∀ s ∈ t.sources, s.assigned = s.capacity
  hostFirst : ∀ s ∈ t.sources, s.kind = .host → 0 < t.room pubkey s →
    (t.assignListener pubkey).1 = some s.endpointId
  roomiest : (∀ s ∈ t.sources, s.kind = .host → t.room pubkey s = 0) →
    ∀ id, (t.assignListener pubkey).1 = some id →
      ∃ s ∈ t.sources, s.endpointId = id ∧ 0 < t.room pubkey s ∧
        ∀ s' ∈ t.sources, t.room pubkey s' ≤ t.room pubkey s
  assigned : (t.assignListener pubkey).2.sourceOf pubkey = (t.assignListener pubkey).1
  others : ∀ q, q ≠ pubkey → (t.assignListener pubkey).2.sourceOf q = t.sourceOf q

/-- What no assignment changes of a source. -/
def place (s : Source) : SourceKind × String × UInt32 := (s.kind, s.endpointId, s.capacity)

def capacityOffered (endpointId : String) : TopologyOp → Option UInt32
  | .addRelay id capacity => if id = endpointId then some capacity else none
  | .assignListener _ => none

/-- The host of the manager, and every other id a relay was added under, with the first capacity. -/
def Offered (hostEndpointId : String) (hostCapacity : UInt32) (ops : List TopologyOp) :
    SourceKind × String × UInt32 → Prop
  | (.host, endpointId, capacity) => endpointId = hostEndpointId ∧ capacity = hostCapacity
  | (.relay, endpointId, capacity) =>
    endpointId ≠ hostEndpointId ∧ ops.findSome? (capacityOffered endpointId) = some capacity

/-- The slot that the listener holds is given back. -/
def release (pubkey : String) (t : TopologyManager) : TopologyManager :=
  ⟨match t.assignments.find? (fun a => a.1 = pubkey) with
    | some a => updateFirst (fun s => s.endpointId = a.2)
        (fun s => { s with assigned := if s.assigned = 0 then 0 else s.assigned - 1 }) t.sources
    | none => t.sources,
    t.assignments.filter fun a => a.1 ≠ pubkey⟩

def choose (t : TopologyManager) : Option Source :=
  (t.sources.find? fun s => s.kind = .host ∧ s.assigned < s.capacity).or (TopologyManager.roomiest t.sources)

def book (pubkey : String) (source : Source) (t : TopologyManager) : TopologyManager :=
  ⟨updateFirst (· = source) (fun s => { s with assigned := s.assigned + 1 }) t.sources,
    t.assignments ++ [(pubkey, source.endpointId)]⟩

theorem assignListener_eq (t : TopologyManager) (pubkey : String) :
    t.assignListener pubkey = (t.release pubkey).choose.elim (none, t.release pubkey) fun source =>
      (some source.endpointId, (t.release pubkey).book pubkey source) := by
  unfold assignListener choose release
  dsimp only
  generalize Option.or _ _ = source
  cases source with
  | none => rfl
  | some source => rfl

section Sources

/-- The source with one slot less in use, when it is the one that was held. -/
def giveBack (held : Option String) (s : Source) : Source :=
  if held = some s.endpointId then { s with assigned := if s.assigned = 0 then 0 else s.assigned - 1 } else s

@[simp] theorem giveBack_endpointId (held : Option String) (s : Source) :
    (giveBack held s).endpointId = s.endpointId := by
  unfold giveBack
  split <;> simp

@[simp] theorem giveBack_kind (held : Option String) (s : Source) : (giveBack held s).kind = s.kind := by
  unfold giveBack
  split <;> simp

@[simp] theorem giveBack_capacity (held : Option String) (s : Source) :
    (giveBack held s).capacity = s.capacity := by
  unfold giveBack
  split <;> simp

theorem updateFirst_eq_map {id : String} {f : Source → Source} {p : Source → Bool} {l : List Source}
    (hids : (l.map Source.endpointId).Nodup) (hp : ∀ s ∈ l, p s = decide (s.endpointId = id)) :
    updateFirst p f l = l.map fun s => if s.endpointId = id then f s else s := by
  induction l with
  | nil => simp [updateFirst]
  | cons s ss ih =>
    obtain ⟨hs, hss⟩ := List.nodup_cons.mp hids
    have hhead : p s = decide (s.endpointId = id) := hp s List.mem_cons_self
    have htail := ih hss fun s' hs' => hp s' (List.mem_cons_of_mem s hs')
    by_cases hid : s.endpointId = id
    · -- no other source has the id, so that nothing changes behind this one
      have hrest : ss.map (fun s => if s.endpointId = id then f s else s) = ss := by
        refine (List.map_congr_left fun s' hs' => if_neg fun heq => hs ?_).trans (List.map_id ss)
        rw [hid, ← heq]
        exact List.mem_map_of_mem hs'
      simp [updateFirst, hhead, hid, hrest]
    · simp [updateFirst, hhead, hid, htail]

theorem roomiest_eq (l : List Source) : TopologyManager.roomiest l = l.foldl
    (List.keepLast (fun s => s.assigned < s.capacity) fun s => (s.capacity - s.assigned).toNat) none := by
  unfold TopologyManager.roomiest
  apply List.foldl_ext
  intro best s _
  cases best with
  | none => rfl
  | some b => simp only [List.keepLast, UInt32.le_iff_toNat_le]

theorem full_of_roomiest_eq_none {l : List Source} (h : TopologyManager.roomiest l = none) :
    ∀ s ∈ l, ¬ s.assigned < s.capacity := by
  rw [roomiest_eq] at h
  exact List.foldl_keepLast_eq_none_iff.mp h

theorem roomiest_eq_some_iff {b : Source} {l : List Source} : TopologyManager.roomiest l = some b ↔
    List.LastMax (fun s => s.assigned < s.capacity) (fun s => (s.capacity - s.assigned).toNat) l b := by
  rw [roomiest_eq]
  exact List.foldl_keepLast_eq_some_iff

theorem roomiest_spec {b : Source} {l : List Source} (h : TopologyManager.roomiest l = some b) :
    b ∈ l ∧ b.assigned < b.capacity ∧
      ∀ s ∈ l, s.assigned < s.capacity → s.capacity - s.assigned ≤ b.capacity - b.assigned := by
  have hlast := roomiest_eq_some_iff.mp h
  refine ⟨hlast.mem, hlast.qualifies, fun s hs hfree => ?_⟩
  exact UInt32.le_iff_toNat_le.mpr (hlast.le hs hfree)

theorem full_of_choose_eq_none {t : TopologyManager} (h : t.choose = none) :
    ∀ s ∈ t.sources, ¬ s.assigned < s.capacity :=
  full_of_roomiest_eq_none (Option.or_eq_none_iff.mp h).2

theorem choose_spec {source : Source} {t : TopologyManager} (h : t.choose = some source) :
    source ∈ t.sources ∧ source.assigned < source.capacity ∧
      (source.kind = .host ∨ (∀ s ∈ t.sources, s.kind = .host → ¬ s.assigned < s.capacity) ∧
        ∀ s ∈ t.sources, s.assigned < s.capacity → s.capacity - s.assigned ≤ source.capacity - source.assigned) := by
  rcases Option.or_eq_some_iff.mp h with hhost | ⟨hnone, hroomiest⟩
  · have hp := List.find?_some hhost
    simp only [decide_eq_true_eq] at hp
    exact ⟨List.mem_of_find?_eq_some hhost, hp.2, .inl hp.1⟩
  · have hno := List.find?_eq_none.mp hnone
    simp only [decide_eq_true_eq, not_and] at hno
    obtain ⟨hmem, hfree, hmax⟩ := roomiest_spec hroomiest
    exact ⟨hmem, hfree, .inr ⟨hno, hmax⟩⟩

end Sources

section Books

theorem sourceOf_eq_none_iff {pubkey : String} {t : TopologyManager} :
    t.sourceOf pubkey = none ↔ ∀ a ∈ t.assignments, a.1 ≠ pubkey := by
  simp [sourceOf]

theorem mem_of_sourceOf_eq_some {id pubkey : String} {t : TopologyManager} (h : t.sourceOf pubkey = some id) :
    (pubkey, id) ∈ t.assignments := by
  obtain ⟨a, hfind, rfl⟩ := Option.map_eq_some_iff.mp h
  have hkey : a.1 = pubkey := by simpa using List.find?_some hfind
  rw [← hkey]
  exact List.mem_of_find?_eq_some hfind

theorem sourceOf_release_self (pubkey : String) (t : TopologyManager) :
    (t.release pubkey).sourceOf pubkey = none := by
  simp [sourceOf_eq_none_iff, release]

theorem sourceOf_release_of_ne {pubkey q : String} (hq : q ≠ pubkey) (t : TopologyManager) :
    (t.release pubkey).sourceOf q = t.sourceOf q := by
  unfold sourceOf release
  rw [List.find?_filter]
  refine congrArg (Option.map Prod.snd) (congrArg (List.find? · t.assignments) (funext fun a => ?_))
  by_cases ha : a.1 = q
  · simp [ha, hq]
  · simp [ha]

theorem sourceOf_book_self {pubkey : String} {t : TopologyManager} (hfresh : t.sourceOf pubkey = none)
    (source : Source) : (t.book pubkey source).sourceOf pubkey = some source.endpointId := by
  have hnone : t.assignments.find? (fun a => a.1 = pubkey) = none := Option.map_eq_none_iff.mp hfresh
  simp [sourceOf, book, List.find?_append, hnone]

theorem sourceOf_book_of_ne {pubkey q : String} (hq : q ≠ pubkey) (source : Source) (t : TopologyManager) :
    (t.book pubkey source).sourceOf q = t.sourceOf q := by
  simp [sourceOf, book, List.find?_append, hq.symm]

theorem countP_release (id pubkey : String) {l : List (String × String)} (hkeys : (l.map Prod.fst).Nodup) :
    l.countP (fun a => a.2 = id) = (l.filter fun a => a.1 ≠ pubkey).countP (fun a => a.2 = id) +
      if (l.find? fun a => a.1 = pubkey).map Prod.snd = some id then 1 else 0 := by
  induction l with
  | nil => simp
  | cons a l ih =>
    obtain ⟨hfresh, hl⟩ := List.nodup_cons.mp hkeys
    by_cases ha : a.1 = pubkey
    · -- no other entry has the key, and nothing else is taken out
      have hothers : l.filter (fun b => b.1 ≠ pubkey) = l :=
        List.filter_eq_self.mpr fun b hb => by
          have hne : b.1 ≠ pubkey := fun heq => hfresh (by
            rw [ha, ← heq]
            exact List.mem_map_of_mem hb)
          simpa using hne
      have hfilter : (a :: l).filter (fun b => b.1 ≠ pubkey) = l.filter fun b => b.1 ≠ pubkey :=
        List.filter_cons_of_neg (by simp [ha])
      rw [hfilter, hothers, List.countP_cons, List.find?_cons_of_pos (by simp [ha])]
      simp
    · have hfilter : (a :: l).filter (fun b => b.1 ≠ pubkey) = a :: l.filter fun b => b.1 ≠ pubkey :=
        List.filter_cons_of_pos (by simp [ha])
      rw [hfilter, List.countP_cons, List.countP_cons, List.find?_cons_of_neg (by simp [ha]), ih hl]
      omega

theorem sources_release {t : TopologyManager} (ht : t.Booked) (pubkey : String) :
    (t.release pubkey).sources = t.sources.map (giveBack (t.sourceOf pubkey)) := by
  unfold release sourceOf
  cases hfind : t.assignments.find? fun a => a.1 = pubkey with
  | none =>
    have hid : giveBack (none : Option String) = id := funext fun s => by simp [giveBack]
    simp [hid]
  | some a =>
    refine (updateFirst_eq_map ht.ids fun s _ => rfl).trans (List.map_congr_left fun s _ => ?_)
    unfold giveBack
    by_cases hs : s.endpointId = a.2
    · simp [hs]
    · simp [hs, Ne.symm hs]

theorem sources_book {source : Source} {t : TopologyManager} (ht : t.Booked) (hmem : source ∈ t.sources)
    (pubkey : String) : (t.book pubkey source).sources = t.sources.map fun s =>
      if s.endpointId = source.endpointId then { s with assigned := s.assigned + 1 } else s := by
  refine updateFirst_eq_map ht.ids fun s hs => ?_
  have hiff : s = source ↔ s.endpointId = source.endpointId :=
    ⟨congrArg Source.endpointId, fun h => List.inj_on_of_nodup_map ht.ids hs hmem h⟩
  exact decide_eq_decide.mpr hiff

theorem Booked.eq_of_host {s s' : Source} {t : TopologyManager} (ht : t.Booked) (hs : s ∈ t.sources)
    (hs' : s' ∈ t.sources) (hhost : s.kind = .host) (hhost' : s'.kind = .host) : s = s' := by
  obtain ⟨h, -, -, honly⟩ := ht.host
  rw [honly s hs hhost, honly s' hs' hhost']

theorem Booked.assigned_pos {pubkey : String} {s : Source} {t : TopologyManager} (ht : t.Booked)
    (hs : s ∈ t.sources) (hheld : t.sourceOf pubkey = some s.endpointId) : 0 < s.assigned.toNat := by
  rw [ht.counted s hs]
  exact List.countP_pos_iff.mpr ⟨_, mem_of_sourceOf_eq_some hheld, by simp⟩

theorem Booked.assigned_giveBack {s : Source} {t : TopologyManager} (ht : t.Booked) (pubkey : String)
    (hs : s ∈ t.sources) : (giveBack (t.sourceOf pubkey) s).assigned.toNat +
      (if t.sourceOf pubkey = some s.endpointId then 1 else 0) = s.assigned.toNat := by
  by_cases hheld : t.sourceOf pubkey = some s.endpointId
  · have hpos := ht.assigned_pos hs hheld
    have hne : s.assigned ≠ 0 := fun h => by simp [h] at hpos
    have hone : (1 : UInt32) ≤ s.assigned := UInt32.le_iff_toNat_le.mpr hpos
    have hsub : (s.assigned - 1).toNat = s.assigned.toNat - 1 := UInt32.toNat_sub_of_le _ _ hone
    unfold giveBack
    rw [if_pos hheld, if_pos hheld]
    dsimp only
    rw [if_neg hne, hsub]
    omega
  · unfold giveBack
    rw [if_neg hheld, if_neg hheld, Nat.add_zero]

theorem Booked.room_eq {pubkey : String} {s : Source} {t : TopologyManager} (ht : t.Booked) (hs : s ∈ t.sources) :
    t.room pubkey s = s.capacity.toNat - (giveBack (t.sourceOf pubkey) s).assigned.toNat := by
  have hle := UInt32.le_iff_toNat_le.mp (ht.bounded s hs)
  have hback := ht.assigned_giveBack pubkey hs
  unfold room
  omega

theorem Booked.release {t : TopologyManager} (ht : t.Booked) (pubkey : String) : (t.release pubkey).Booked := by
  have hsources := sources_release ht pubkey
  refine ⟨?_, ?_, ?_, ?_, ?_, ?_⟩
  · have hids : ((t.release pubkey).sources.map Source.endpointId) = t.sources.map Source.endpointId := by
      simp [hsources, Function.comp_def]
    rw [hids]
    exact ht.ids
  · exact ht.keys.sublist (List.filter_sublist.map Prod.fst)
  · obtain ⟨h, hmem, hkind, honly⟩ := ht.host
    rw [hsources]
    refine ⟨giveBack _ h, List.mem_map_of_mem hmem, (giveBack_kind _ h).trans hkind, fun s hs hhost => ?_⟩
    obtain ⟨r, hr, rfl⟩ := List.mem_map.mp hs
    rw [giveBack_kind] at hhost
    rw [honly r hr hhost]
  · intro a ha
    obtain ⟨s, hs, hid⟩ := ht.named a (List.mem_of_mem_filter ha)
    rw [hsources]
    exact ⟨giveBack _ s, List.mem_map_of_mem hs, (giveBack_endpointId _ s).trans hid⟩
  · rw [hsources]
    intro s hs
    obtain ⟨r, hr, rfl⟩ := List.mem_map.mp hs
    have hback := ht.assigned_giveBack pubkey hr
    have hcount := countP_release r.endpointId pubkey ht.keys
    rw [← ht.counted r hr] at hcount
    rw [giveBack_endpointId]
    change _ = (t.assignments.filter fun a => a.1 ≠ pubkey).countP _
    unfold sourceOf at hback ⊢
    omega
  · rw [hsources]
    intro s hs
    obtain ⟨r, hr, rfl⟩ := List.mem_map.mp hs
    have hback := ht.assigned_giveBack pubkey hr
    have hle := UInt32.le_iff_toNat_le.mp (ht.bounded r hr)
    rw [giveBack_capacity]
    exact UInt32.le_iff_toNat_le.mpr (by omega)

theorem Booked.book {pubkey : String} {source : Source} {t : TopologyManager} (ht : t.Booked)
    (hmem : source ∈ t.sources) (hfree : source.assigned < source.capacity) (hfresh : t.sourceOf pubkey = none) :
    (t.book pubkey source).Booked := by
  have hsources := sources_book ht hmem pubkey
  have hlt := UInt32.lt_iff_toNat_lt.mp hfree
  have hadd : (source.assigned + 1).toNat = source.assigned.toNat + 1 := by
    have hcap := source.capacity.toNat_lt
    rw [UInt32.toNat_add, UInt32.toNat_one, Nat.mod_eq_of_lt (by omega)]
  have hsame : ∀ s ∈ t.sources, s.endpointId = source.endpointId → s = source :=
    fun s hs => List.inj_on_of_nodup_map ht.ids hs hmem
  refine ⟨?_, ?_, ?_, ?_, ?_, ?_⟩
  · have hids : (t.book pubkey source).sources.map Source.endpointId = t.sources.map Source.endpointId := by
      rw [hsources, List.map_map]
      refine List.map_congr_left fun s _ => ?_
      by_cases hid : s.endpointId = source.endpointId
      · simp [hid]
      · simp [hid]
    rw [hids]
    exact ht.ids
  · have hnot : pubkey ∉ t.assignments.map Prod.fst := by
      rw [List.mem_map]
      rintro ⟨a, ha, hkey⟩
      exact sourceOf_eq_none_iff.mp hfresh a ha hkey
    simp only [TopologyManager.book, List.map_append, List.map_cons, List.map_nil]
    exact List.Nodup.append ht.keys (List.nodup_singleton pubkey) (by simpa using hnot)
  · obtain ⟨h, hh, hkind, honly⟩ := ht.host
    have hkeep : ∀ r : Source, (if r.endpointId = source.endpointId then { r with assigned := r.assigned + 1 }
        else r).kind = r.kind := fun r => by split <;> simp
    rw [hsources]
    refine ⟨_, List.mem_map_of_mem hh, (hkeep h).trans hkind, fun s hs hhost => ?_⟩
    obtain ⟨r, hr, rfl⟩ := List.mem_map.mp hs
    rw [hkeep] at hhost
    rw [honly r hr hhost]
  · intro a ha
    rw [hsources]
    rcases List.mem_append.mp ha with ha | ha
    · obtain ⟨s, hs, hid⟩ := ht.named a ha
      refine ⟨_, List.mem_map_of_mem hs, ?_⟩
      split
      · exact hid
      · exact hid
    · refine ⟨_, List.mem_map_of_mem hmem, ?_⟩
      rw [List.mem_singleton.mp ha]
      simp
  · rw [hsources]
    intro s hs
    obtain ⟨r, hr, rfl⟩ := List.mem_map.mp hs
    have hcount := ht.counted r hr
    by_cases hid : r.endpointId = source.endpointId
    · obtain rfl := hsame r hr hid
      simp [TopologyManager.book, List.countP_append, hadd, hcount]
    · simp [TopologyManager.book, List.countP_append, hid, Ne.symm hid, hcount]
  · rw [hsources]
    intro s hs
    obtain ⟨r, hr, rfl⟩ := List.mem_map.mp hs
    by_cases hid : r.endpointId = source.endpointId
    · obtain rfl := hsame r hr hid
      rw [if_pos rfl]
      exact UInt32.le_iff_toNat_le.mpr (by simpa [hadd] using hlt)
    · rw [if_neg hid]
      exact ht.bounded r hr

end Books

section Runs

theorem Booked.new (hostEndpointId : String) (hostCapacity : UInt32) : (new hostEndpointId hostCapacity).Booked where
  ids := by simp [TopologyManager.new]
  keys := by simp [TopologyManager.new]
  host := by simp [TopologyManager.new]
  named := by simp [TopologyManager.new]
  counted := by simp [TopologyManager.new]
  bounded := by simp [TopologyManager.new]

theorem Booked.addRelay {t : TopologyManager} (ht : t.Booked) (endpointId : String) (capacity : UInt32) :
    (t.addRelay endpointId capacity).Booked := by
  unfold TopologyManager.addRelay
  split
  next => exact ht
  next hnew =>
    have hfresh : ∀ s ∈ t.sources, s.endpointId ≠ endpointId := by simpa using hnew
    have hsplit : ∀ s ∈ t.sources ++ [(⟨.relay, endpointId, capacity, 0⟩ : Source)],
        s ∈ t.sources ∨ s = ⟨.relay, endpointId, capacity, 0⟩ := fun s hs => by simpa using hs
    refine ⟨?_, ht.keys, ?_, ?_, ?_, ?_⟩
    · rw [List.map_append]
      exact List.Nodup.append ht.ids (List.nodup_singleton _) (by simpa using hfresh)
    · obtain ⟨h, hmem, hkind, honly⟩ := ht.host
      refine ⟨h, List.mem_append_left _ hmem, hkind, fun s hs hhost => ?_⟩
      rcases hsplit s hs with hs | rfl
      · exact honly s hs hhost
      · simp at hhost
    · intro a ha
      obtain ⟨s, hs, hid⟩ := ht.named a ha
      exact ⟨s, List.mem_append_left _ hs, hid⟩
    · intro s hs
      rcases hsplit s hs with hs | rfl
      · exact ht.counted s hs
      · -- an assignment names a source, and no source had this id before
        have hnone : t.assignments.countP (fun a => a.2 = endpointId) = 0 := by
          rw [List.countP_eq_zero]
          intro a ha hid
          obtain ⟨r, hr, hname⟩ := ht.named a ha
          exact hfresh r hr (hname.trans (of_decide_eq_true hid))
        simpa using hnone.symm
    · intro s hs
      rcases hsplit s hs with hs | rfl
      · exact ht.bounded s hs
      · simp

theorem Booked.assignListener {t : TopologyManager} (ht : t.Booked) (pubkey : String) :
    (t.assignListener pubkey).2.Booked := by
  have hrelease := ht.release pubkey
  rw [assignListener_eq]
  cases hchoose : (t.release pubkey).choose with
  | none => exact hrelease
  | some source =>
    obtain ⟨hmem, hfree, -⟩ := choose_spec hchoose
    exact hrelease.book hmem hfree (sourceOf_release_self pubkey t)

theorem Booked.step {t : TopologyManager} (ht : t.Booked) (op : TopologyOp) : (t.step op).Booked := by
  cases op with
  | addRelay endpointId capacity => exact ht.addRelay endpointId capacity
  | assignListener pubkey => exact ht.assignListener pubkey

theorem Booked.foldl {t : TopologyManager} (ht : t.Booked) (ops : List TopologyOp) :
    (ops.foldl TopologyManager.step t).Booked := by
  induction ops generalizing t with
  | nil => exact ht
  | cons op ops ih => exact ih (ht.step op)

theorem Booked.room_eq_zero_iff {pubkey : String} {s : Source} {t : TopologyManager} (ht : t.Booked)
    (hs : s ∈ t.sources) :
    t.room pubkey s = 0 ↔ s.assigned = s.capacity ∧ t.sourceOf pubkey ≠ some s.endpointId := by
  have hle := UInt32.le_iff_toNat_le.mp (ht.bounded s hs)
  have heq : s.assigned = s.capacity ↔ s.assigned.toNat = s.capacity.toNat := UInt32.toNat_inj.symm
  rw [heq]
  unfold room
  by_cases hheld : t.sourceOf pubkey = some s.endpointId
  · simp [hheld]
  · simp [hheld]
    omega

theorem Booked.free_iff {pubkey : String} {s : Source} {t : TopologyManager} (ht : t.Booked) (hs : s ∈ t.sources) :
    (giveBack (t.sourceOf pubkey) s).assigned < (giveBack (t.sourceOf pubkey) s).capacity ↔
      0 < t.room pubkey s := by
  rw [ht.room_eq hs, giveBack_capacity, UInt32.lt_iff_toNat_lt]
  omega

theorem Booked.room_le {pubkey : String} {r s : Source} {t : TopologyManager} (ht : t.Booked) (hr : r ∈ t.sources)
    (hs : s ∈ t.sources)
    (h : (giveBack (t.sourceOf pubkey) r).assigned < (giveBack (t.sourceOf pubkey) r).capacity →
      (giveBack (t.sourceOf pubkey) r).capacity - (giveBack (t.sourceOf pubkey) r).assigned ≤
        (giveBack (t.sourceOf pubkey) s).capacity - (giveBack (t.sourceOf pubkey) s).assigned)
    (hfree : 0 < t.room pubkey s) : t.room pubkey r ≤ t.room pubkey s := by
  by_cases hroom : 0 < t.room pubkey r
  · have hr' := (ht.free_iff hr).mpr hroom
    have hs' := (ht.free_iff hs).mpr hfree
    have hle := UInt32.le_iff_toNat_le.mp (h hr')
    rw [UInt32.toNat_sub_of_le _ _ (UInt32.le_of_lt hr'), UInt32.toNat_sub_of_le _ _ (UInt32.le_of_lt hs'),
      giveBack_capacity, giveBack_capacity] at hle
    rwa [ht.room_eq hr, ht.room_eq hs]
  · omega

theorem Booked.assigns {t : TopologyManager} (ht : t.Booked) (pubkey : String) : t.Assigns pubkey := by
  have hsources := sources_release ht pubkey
  have hself := sourceOf_release_self pubkey t
  cases hchoose : (t.release pubkey).choose with
  | none =>
    have hassign : t.assignListener pubkey = (none, t.release pubkey) := by
      rw [assignListener_eq, hchoose, Option.elim_none]
    have hfull : ∀ s ∈ t.sources, t.room pubkey s = 0 := fun s hs => by
      have hno := full_of_choose_eq_none hchoose (giveBack (t.sourceOf pubkey) s) (by
        rw [hsources]
        exact List.mem_map_of_mem hs)
      rw [ht.free_iff hs] at hno
      omega
    -- the source that the listener gave back would have a slot
    have hnone : t.sourceOf pubkey = none := by
      cases hheld : t.sourceOf pubkey with
      | none => rfl
      | some id =>
        obtain ⟨s, hs, hid⟩ := ht.named _ (mem_of_sourceOf_eq_some hheld)
        have hroom := (ht.room_eq_zero_iff hs).mp (hfull s hs)
        rw [hid] at hroom
        exact absurd hheld hroom.2
    constructor
    · simp [hnone]
    · simpa [hassign, hnone] using fun s hs => ((ht.room_eq_zero_iff hs).mp (hfull s hs)).1
    · intro s hs _ hroom
      rw [hfull s hs] at hroom
      omega
    · simp [hassign]
    · rw [hassign, hself]
    · intro q hq
      rw [hassign]
      exact sourceOf_release_of_ne hq t
  | some source =>
    have hassign : t.assignListener pubkey =
        (some source.endpointId, (t.release pubkey).book pubkey source) := by
      rw [assignListener_eq, hchoose, Option.elim_some]
    obtain ⟨hmem, hfree, hbest⟩ := choose_spec hchoose
    rw [hsources] at hmem hbest
    obtain ⟨s, hs, rfl⟩ := List.mem_map.mp hmem
    have hroom := (ht.free_iff hs).mp hfree
    rw [giveBack_endpointId] at hassign
    constructor
    · simp [hassign]
    · have hnot : ¬ (t.sourceOf pubkey = none ∧ ∀ r ∈ t.sources, r.assigned = r.capacity) := fun h => by
        have hzero : t.room pubkey s = 0 := (ht.room_eq_zero_iff hs).mpr ⟨h.2 s hs, by simp [h.1]⟩
        omega
      simp [hassign, hnot]
    · intro r hr hhost hfree'
      rw [hassign]
      rcases hbest with hkind | ⟨hfull, -⟩
      · rw [giveBack_kind] at hkind
        rw [ht.eq_of_host hr hs hhost hkind]
      · exact absurd ((ht.free_iff hr).mpr hfree')
          (hfull _ (List.mem_map_of_mem hr) (by rwa [giveBack_kind]))
    · intro hhost id hid
      rw [hassign] at hid
      refine ⟨s, hs, Option.some.inj hid, hroom, fun r hr => ?_⟩
      rcases hbest with hkind | ⟨-, hmax⟩
      · rw [giveBack_kind] at hkind
        have hzero := hhost s hs hkind
        omega
      · exact ht.room_le hr hs (hmax _ (List.mem_map_of_mem hr)) hroom
    · rw [hassign, sourceOf_book_self hself, giveBack_endpointId]
    · intro q hq
      rw [hassign, sourceOf_book_of_ne hq, sourceOf_release_of_ne hq]

theorem place_eq_iff {r s : Source} :
    place r = place s ↔ r.kind = s.kind ∧ r.endpointId = s.endpointId ∧ r.capacity = s.capacity := by
  simp only [place, Prod.mk.injEq]

theorem map_updateFirst {p : Source → Bool} {f : Source → Source} (hf : ∀ s, place (f s) = place s)
    (sources : List Source) : (updateFirst p f sources).map place = sources.map place := by
  induction sources with
  | nil => rfl
  | cons s sources ih =>
    unfold updateFirst
    split
    · rw [List.map_cons, List.map_cons, hf]
    · rw [List.map_cons, List.map_cons, ih]

theorem places_assignListener (pubkey : String) (t : TopologyManager) :
    (t.assignListener pubkey).2.sources.map place = t.sources.map place := by
  have hrelease : ∀ id, (updateFirst (fun s => s.endpointId = id)
      (fun s => { s with assigned := if s.assigned = 0 then 0 else s.assigned - 1 }) t.sources).map place =
        t.sources.map place := by
    intro id
    apply map_updateFirst
    intro s
    rfl
  unfold assignListener
  dsimp only
  generalize Option.or _ _ = source
  cases source with
  | none =>
    dsimp only
    split
    · exact hrelease _
    · rfl
  | some source =>
    refine (map_updateFirst ?_ _).trans ?_
    · intro s
      rfl
    · split
      · exact hrelease _
      · rfl

theorem mem_places_addRelay {endpointId : String} {capacity : UInt32} {t : TopologyManager}
    {k : SourceKind × String × UInt32} : k ∈ (t.addRelay endpointId capacity).sources.map place ↔
      k ∈ t.sources.map place ∨
        (¬ ∃ s ∈ t.sources, s.endpointId = endpointId) ∧ k = place ⟨.relay, endpointId, capacity, 0⟩ := by
  have hany : t.sources.any (fun s => s.endpointId = endpointId) = true ↔
      ∃ s ∈ t.sources, s.endpointId = endpointId := by
    simp only [List.any_eq_true, decide_eq_true_eq]
  unfold addRelay
  split
  next hknown => simp only [hany.mp hknown, not_true_eq_false, false_and, or_false]
  next hnew =>
    rw [List.map_append, List.mem_append, hany] at *
    simp only [hnew, not_false_eq_true, true_and, List.map_singleton, List.mem_singleton]

section Offers

variable {hostEndpointId : String} {hostCapacity : UInt32} {ops : List TopologyOp} {t : TopologyManager}

theorem offered_append_addRelay {endpointId : String} {capacity : UInt32} {o : SourceKind × String × UInt32}
    (ht : ∀ r, r ∈ t.sources.map place ↔ Offered hostEndpointId hostCapacity ops r) :
    Offered hostEndpointId hostCapacity (ops ++ [.addRelay endpointId capacity]) o ↔
      Offered hostEndpointId hostCapacity ops o ∨
        (¬ ∃ s ∈ t.sources, s.endpointId = endpointId) ∧ o = place ⟨.relay, endpointId, capacity, 0⟩ := by
  have hplaces : (¬ ∃ s ∈ t.sources, s.endpointId = endpointId) ↔ ∀ r ∈ t.sources.map place, r.2.1 ≠ endpointId := by
    simp [place]
  have hnew : (¬ ∃ s ∈ t.sources, s.endpointId = endpointId) ↔
      endpointId ≠ hostEndpointId ∧ ops.findSome? (capacityOffered endpointId) = none := by
    rw [hplaces]
    constructor
    · intro hno
      refine ⟨fun heq => hno (.host, hostEndpointId, hostCapacity) ((ht _).mpr ⟨rfl, rfl⟩) heq.symm, ?_⟩
      by_contra hsome
      obtain ⟨first, hfirst⟩ := Option.ne_none_iff_exists'.mp hsome
      by_cases hhost : endpointId = hostEndpointId
      · exact hno (.host, hostEndpointId, hostCapacity) ((ht _).mpr ⟨rfl, rfl⟩) hhost.symm
      · exact hno (.relay, endpointId, first) ((ht _).mpr ⟨hhost, hfirst⟩) rfl
    · rintro ⟨hhost, hnone⟩ ⟨kind, id, first⟩ hr rfl
      have hoffered := (ht _).mp hr
      cases kind with
      | host => exact hhost hoffered.1
      | relay => exact absurd hnone (by simp [hoffered.2])
  rw [hnew]
  obtain ⟨kind, id, first⟩ := o
  cases kind with
  | host => simp [Offered, place]
  | relay =>
    unfold Offered place
    dsimp only
    rw [List.findSome?_append, Option.or_eq_some_iff]
    by_cases hid : endpointId = id
    · subst hid
      simp [capacityOffered]
      tauto
    · simp [capacityOffered, hid, Ne.symm hid]

theorem mem_places_iff (o : SourceKind × String × UInt32) :
    o ∈ (ops.foldl step (new hostEndpointId hostCapacity)).sources.map place ↔
      Offered hostEndpointId hostCapacity ops o := by
  induction ops using List.reverseRecOn generalizing o with
  | nil =>
    obtain ⟨kind, id, capacity⟩ := o
    cases kind <;> simp [new, place, Offered]
  | append_singleton ops op ih =>
    rw [List.foldl_append, List.foldl_cons, List.foldl_nil]
    cases op with
    | addRelay endpointId capacity =>
      rw [offered_append_addRelay ih, ← ih]
      exact mem_places_addRelay
    | assignListener pubkey =>
      show o ∈ ((ops.foldl step (new hostEndpointId hostCapacity)).assignListener pubkey).2.sources.map place ↔ _
      rw [places_assignListener, ih]
      obtain ⟨kind, id, capacity⟩ := o
      cases kind <;> simp [Offered, List.findSome?_append, capacityOffered]

end Offers

/-- Through any calls the counts are those of the assignments and within the capacities, and the
next call for any listener gives it a slot whenever there is one; the sources are those that were added. -/
theorem booked_and_assigns (hostEndpointId : String) (hostCapacity : UInt32) (ops : List TopologyOp) :
    (ops.foldl step (new hostEndpointId hostCapacity)).Booked ∧
      (∀ pubkey, (ops.foldl step (new hostEndpointId hostCapacity)).Assigns pubkey) ∧
      ∀ o, o ∈ (ops.foldl step (new hostEndpointId hostCapacity)).sources.map place ↔
        Offered hostEndpointId hostCapacity ops o := by
  have hbooked := (Booked.new hostEndpointId hostCapacity).foldl ops
  exact ⟨hbooked, hbooked.assigns, mem_places_iff⟩

end Runs

end TopologyManager

end Proscenium.Stage
