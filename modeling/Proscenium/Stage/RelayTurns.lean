import Proscenium.Stage.RelaySlots
import Proscenium.Stage.Topology

/-! The listeners of a stage are assigned one after the other. Who lands on the new
relay is told so; where anybody else lands is a matter of the room that those before
have left on the sources. -/

namespace Proscenium.Stage

namespace TopologyManager

section Defs

variable (t : TopologyManager) (host relay pubkey : String)

def upstream : String := (t.sourceOf pubkey).getD host

/-- The host has no room for the listener; the source has the most, and no later one has as much. -/
def SendsTo (s : Source) : Prop :=
  (∀ h ∈ t.sources, h.kind = .host → t.room pubkey h = 0) ∧
    t.sources.LastMax (fun s => 0 < t.room pubkey s) (t.room pubkey) s

/-- The listener is sent to the relay, or to where it is. -/
def Settles : Prop := ∀ s, t.SendsTo pubkey s → s.endpointId = relay ∨ t.sourceOf pubkey = some s.endpointId

def Turns : List String → TopologyManager → Prop
  | [], _ => True
  | pk :: pks, t => t.Settles relay pk ∧ Turns pks (t.assignListener pk).2

/-- The host is a source by the name the listeners know, and relays serve only when it is full. -/
structure HostFirst (host : String) (t : TopologyManager) : Prop where
  named : ∀ s ∈ t.sources, s.kind = .host → s.endpointId = host
  full : ∀ s ∈ t.sources, s.kind = .host → s.assigned < s.capacity → ∀ a ∈ t.assignments, a.2 = host

end Defs

section Turn

variable {t : TopologyManager} {host relay pubkey : String}

theorem Booked.roomiest_release_iff (ht : t.Booked) {b : Source} :
    TopologyManager.roomiest (t.release pubkey).sources = some b ↔
      ∃ s, t.sources.LastMax (fun s => 0 < t.room pubkey s) (t.room pubkey) s ∧
        giveBack (t.sourceOf pubkey) s = b := by
  have hkey : ∀ s ∈ t.sources,
      (giveBack (t.sourceOf pubkey) s).assigned < (giveBack (t.sourceOf pubkey) s).capacity →
        ((giveBack (t.sourceOf pubkey) s).capacity - (giveBack (t.sourceOf pubkey) s).assigned).toNat =
          t.room pubkey s := by
    intro s hs hfree
    rw [UInt32.toNat_sub_of_le _ _ (UInt32.le_of_lt hfree), ht.room_eq hs, giveBack_capacity]
  rw [sources_release ht, roomiest_eq_some_iff, List.lastMax_map_iff]
  apply exists_congr
  intro s
  apply and_congr_left'
  apply List.lastMax_congr
  · intro r hr
    exact ht.free_iff hr
  · intro r hr q hq hfreeR hfreeQ
    rw [hkey r hr hfreeR, hkey q hq hfreeQ]

theorem Booked.assignListener_eq_some_iff (ht : t.Booked)
    (hfull : ∀ h ∈ t.sources, h.kind = .host → t.room pubkey h = 0) {id : String} :
    (t.assignListener pubkey).1 = some id ↔ ∃ s, t.SendsTo pubkey s ∧ s.endpointId = id := by
  have hnoHost : (t.release pubkey).sources.find? (fun s => s.kind = .host ∧ s.assigned < s.capacity) = none := by
    rw [List.find?_eq_none, sources_release ht]
    intro s hs
    obtain ⟨r, hr, rfl⟩ := List.mem_map.mp hs
    rw [decide_eq_true_eq, giveBack_kind]
    rintro ⟨hhost, hfree⟩
    have hroom := (ht.free_iff hr).mp hfree
    rw [hfull r hr hhost] at hroom
    exact absurd hroom (lt_irrefl 0)
  have hchoose : (t.release pubkey).choose = TopologyManager.roomiest (t.release pubkey).sources := by
    unfold choose
    rw [hnoHost, Option.none_or]
  rw [assignListener_eq, hchoose]
  constructor
  · intro hid
    cases hbest : TopologyManager.roomiest (t.release pubkey).sources with
    | none =>
      rw [hbest] at hid
      exact absurd hid.symm (Option.some_ne_none id)
    | some b =>
      obtain ⟨s, hs, rfl⟩ := ht.roomiest_release_iff.mp hbest
      rw [hbest, Option.elim_some, giveBack_endpointId] at hid
      exact ⟨s, ⟨hfull, hs⟩, Option.some.inj hid⟩
  · rintro ⟨s, ⟨-, hs⟩, rfl⟩
    rw [ht.roomiest_release_iff.mpr ⟨s, hs, rfl⟩, Option.elim_some, giveBack_endpointId]

/-- A turn sends the listener to the relay or leaves it where it is, just if it settles. -/
theorem Booked.settles_iff (ht : t.Booked) (hfirst : t.HostFirst host) :
    (∀ id, (t.assignListener pubkey).1 = some id → id = relay ∨ id = t.upstream host pubkey) ↔
      t.Settles relay pubkey := by
  by_cases hfull : ∀ h ∈ t.sources, h.kind = .host → t.room pubkey h = 0
  · constructor
    · intro hquiet s hs
      rcases hquiet s.endpointId ((ht.assignListener_eq_some_iff hfull).mpr ⟨s, hs, rfl⟩) with hrelay | hupstream
      · exact Or.inl hrelay
      · cases hheld : t.sourceOf pubkey with
        | some id =>
          rw [upstream, hheld, Option.getD_some] at hupstream
          exact Or.inr (congrArg some hupstream.symm)
        | none =>
          -- it is the host, which has no room
          rw [upstream, hheld, Option.getD_none] at hupstream
          obtain ⟨h, hh, hkind, -⟩ := ht.host
          have hsame : s = h := List.inj_on_of_nodup_map ht.ids hs.2.mem hh
            (hupstream.trans (hfirst.named h hh hkind).symm)
          have hroom := hs.2.qualifies
          rw [hsame, hfull h hh hkind] at hroom
          exact absurd hroom (lt_irrefl 0)
    · intro hsettles id hid
      obtain ⟨s, hs, rfl⟩ := (ht.assignListener_eq_some_iff hfull).mp hid
      rcases hsettles s hs with hrelay | hheld
      · exact Or.inl hrelay
      · rw [upstream, hheld, Option.getD_some]
        exact Or.inr rfl
  · refine iff_of_true ?_ fun s hs => absurd hs.1 hfull
    push Not at hfull
    obtain ⟨h, hh, hkind, hroom⟩ := hfull
    have hhost := (ht.assigns pubkey).hostFirst h hh hkind (Nat.pos_of_ne_zero hroom)
    intro id hid
    right
    obtain rfl : h.endpointId = id := Option.some.inj (hhost.symm.trans hid)
    cases hheld : t.sourceOf pubkey with
    | none => rw [upstream, hheld, Option.getD_none, hfirst.named h hh hkind]
    | some id =>
      -- a relay serves nobody while the host has a free slot
      rw [upstream, hheld, Option.getD_some]
      by_cases hown : id = h.endpointId
      · exact hown.symm
      · have hfree : h.assigned < h.capacity := by
          unfold room at hroom
          rw [hheld, if_neg (fun heq => hown (Option.some.inj heq))] at hroom
          exact UInt32.lt_iff_toNat_lt.mpr (by omega)
        rw [hfirst.named h hh hkind]
        exact (hfirst.full h hh hkind hfree _ (mem_of_sourceOf_eq_some hheld)).symm

theorem HostFirst.new (host : String) (capacity : UInt32) : (new host capacity).HostFirst host where
  named s hs _ := by rw [List.mem_singleton.mp hs]
  full s _ _ _ a ha := absurd ha List.not_mem_nil

theorem HostFirst.addRelay (hfirst : t.HostFirst host) (endpointId : String) (capacity : UInt32) :
    (t.addRelay endpointId capacity).HostFirst host := by
  have hold : ∀ s ∈ (t.addRelay endpointId capacity).sources, s.kind = .host → s ∈ t.sources := by
    intro s hs hhost
    unfold TopologyManager.addRelay at hs
    split at hs
    · exact hs
    · rcases List.mem_append.mp hs with hs | hs
      · exact hs
      · rw [List.mem_singleton.mp hs] at hhost
        cases hhost
  constructor
  · intro s hs hhost
    exact hfirst.named s (hold s hs hhost) hhost
  · intro s hs hhost hfree a ha
    rw [assignments_addRelay] at ha
    exact hfirst.full s (hold s hs hhost) hhost hfree a ha

theorem mem_assignments_assignListener {a : String × String} (h : a ∈ (t.assignListener pubkey).2.assignments) :
    a ∈ t.assignments ∨ (t.assignListener pubkey).1 = some a.2 := by
  rw [assignListener_eq] at h ⊢
  cases hchoose : (t.release pubkey).choose with
  | none =>
    rw [hchoose] at h
    exact Or.inl (List.mem_of_mem_filter h)
  | some source =>
    rw [hchoose] at h
    rcases List.mem_append.mp h with h | h
    · exact Or.inl (List.mem_of_mem_filter h)
    · rw [List.mem_singleton.mp h]
      exact Or.inr rfl

theorem Booked.assigned_le_of_host (ht : t.Booked) {h s : Source} (hh : h ∈ t.sources) (hhost : h.kind = .host)
    (hs : s ∈ (t.assignListener pubkey).2.sources) (hid : s.endpointId = h.endpointId) :
    h.assigned ≤ s.assigned := by
  rw [UInt32.le_iff_toNat_le, ht.counted h hh, (ht.assignListener pubkey).counted s hs, hid,
    countP_release h.endpointId pubkey ht.keys]
  have hstays : t.sourceOf pubkey = some h.endpointId → (t.assignListener pubkey).1 = some h.endpointId := by
    intro hheld
    apply (ht.assigns pubkey).hostFirst h hh hhost
    rw [room, if_pos hheld]
    exact Nat.succ_pos _
  rw [assignListener_eq] at hstays ⊢
  cases hchoose : (t.release pubkey).choose with
  | none =>
    rw [hchoose] at hstays
    have hnot : (t.assignments.find? fun a => a.1 = pubkey).map Prod.snd ≠ some h.endpointId :=
      fun hheld => Option.some_ne_none _ (hstays hheld).symm
    rw [if_neg hnot]
    exact le_refl _
  | some source =>
    rw [hchoose] at hstays
    simp only [Option.elim_some, TopologyManager.book, TopologyManager.release, List.countP_append,
      List.countP_singleton]
    apply Nat.add_le_add_left
    split
    next hheld =>
      have hsame : source.endpointId = h.endpointId := Option.some.inj (hstays hheld)
      rw [if_pos (decide_eq_true hsame)]
    next => exact Nat.zero_le _

theorem HostFirst.assignListener (hfirst : t.HostFirst host) (ht : t.Booked) (pubkey : String) :
    (t.assignListener pubkey).2.HostFirst host := by
  have hplace : ∀ s ∈ (t.assignListener pubkey).2.sources, ∃ h ∈ t.sources, place h = place s := by
    intro s hs
    apply List.mem_map.mp
    rw [← places_assignListener pubkey t]
    exact List.mem_map_of_mem hs
  constructor
  · intro s hs hhost
    obtain ⟨h, hh, heq⟩ := hplace s hs
    obtain ⟨hkind, hid, -⟩ := place_eq_iff.mp heq
    rw [← hid]
    exact hfirst.named h hh (hkind.trans hhost)
  · intro s hs hhost hfree a ha
    obtain ⟨h, hh, heq⟩ := hplace s hs
    obtain ⟨hkind, hid, hcapacity⟩ := place_eq_iff.mp heq
    have hkind : h.kind = .host := hkind.trans hhost
    have hless : h.assigned < h.capacity := by
      rw [hcapacity]
      exact UInt32.lt_of_le_of_lt (ht.assigned_le_of_host hh hkind hs hid.symm) hfree
    rcases mem_assignments_assignListener ha with hold | hnew
    · exact hfirst.full h hh hkind hless a hold
    · have hroom : 0 < t.room pubkey h := by
        have hlt := UInt32.lt_iff_toNat_lt.mp hless
        unfold room
        omega
      have hgiven := (ht.assigns pubkey).hostFirst h hh hkind hroom
      rw [← hfirst.named h hh hkind]
      exact (Option.some.inj (hgiven.symm.trans hnew)).symm

end Turn

section Turns

variable {t : TopologyManager} {host relay : String} {pubkeys : List String}

theorem Booked.assignAll (ht : t.Booked) (relay : String) (pubkeys : List String) :
    (assignAll relay pubkeys t).2.Booked := by
  induction pubkeys generalizing t with
  | nil => exact ht
  | cons pk pks ih => exact ih (ht.assignListener pk)

theorem HostFirst.assignAll (hfirst : t.HostFirst host) (ht : t.Booked) (relay : String) (pubkeys : List String) :
    (assignAll relay pubkeys t).2.HostFirst host := by
  induction pubkeys generalizing t with
  | nil => exact hfirst
  | cons pk pks ih => exact ih (hfirst.assignListener ht pk) (ht.assignListener pk)

theorem mem_assignAll_cons_iff {pk pubkey : String} {pks : List String} :
    pubkey ∈ (TopologyManager.assignAll relay (pk :: pks) t).1 ↔
      pubkey = pk ∧ (t.assignListener pk).1 = some relay ∨
        pubkey ∈ (TopologyManager.assignAll relay pks (t.assignListener pk).2).1 := by
  conv_lhs => unfold TopologyManager.assignAll
  dsimp only
  split
  next hrelay => simp only [List.mem_cons, hrelay, and_true]
  next hother => simp only [hother, and_false, false_or]

theorem Booked.sourceOf_assignAll (ht : t.Booked) {pubkey : String} (hnot : pubkey ∉ pubkeys) :
    (TopologyManager.assignAll relay pubkeys t).2.sourceOf pubkey = t.sourceOf pubkey := by
  induction pubkeys generalizing t with
  | nil => rfl
  | cons pk pks ih =>
    rw [List.mem_cons, not_or] at hnot
    obtain ⟨hne, hnot⟩ := hnot
    exact (ih (ht.assignListener pk) hnot).trans ((ht.assigns pk).others pubkey hne)

def toldAfter (t : TopologyManager) (host relay : String) (sent : List String) (pubkey : String) : String :=
  if pubkey ∈ sent then relay else t.upstream host pubkey

/-- When every turn settles, everybody is told where the books have them. -/
theorem Booked.toldAfter_eq (ht : t.Booked) (hfirst : t.HostFirst host) (h : Turns relay pubkeys t) (pubkey : String) :
    t.toldAfter host relay (TopologyManager.assignAll relay pubkeys t).1 pubkey =
      (TopologyManager.assignAll relay pubkeys t).2.upstream host pubkey := by
  induction pubkeys generalizing t with
  | nil => exact if_neg List.not_mem_nil
  | cons pk pks ih =>
    obtain ⟨hsettles, hturns⟩ := h
    have hrest := ih (ht.assignListener pk) (hfirst.assignListener ht pk) hturns
    refine Eq.trans ?_ hrest
    -- what is said of the later listeners is said of them after this turn too
    have hassigns := ht.assigns pk
    have hassigned := hassigns.assigned
    unfold toldAfter
    simp only [mem_assignAll_cons_iff]
    by_cases hlater : pubkey ∈ (TopologyManager.assignAll relay pks (t.assignListener pk).2).1
    · simp only [hlater, or_true, if_true]
    simp only [hlater, or_false, if_false]
    by_cases hpk : pubkey = pk
    · subst hpk
      cases hgiven : (t.assignListener pubkey).1 with
      | none =>
        -- it has no slot, and had none
        have hfree := (hassigns.refused.mp hgiven).1
        rw [hgiven] at hassigned
        simp only [upstream, hassigned, hfree, reduceCtorEq, and_false, if_false]
      | some id =>
        rw [hgiven] at hassigned
        have hquiet := (ht.settles_iff hfirst).mpr hsettles id hgiven
        simp only [Option.some.injEq, true_and]
        rw [upstream.eq_def (t.assignListener pubkey).2, hassigned, Option.getD_some]
        split
        next hrelay => exact hrelay.symm
        next hother => exact (hquiet.resolve_left hother).symm
    · simp only [hpk, false_and, if_false, upstream, hassigns.others pubkey hpk]

theorem Booked.turns_iff (ht : t.Booked) (hfirst : t.HostFirst host) (hnodup : pubkeys.Nodup) :
    (∀ pk ∈ pubkeys, ∀ id, (TopologyManager.assignAll relay pubkeys t).2.sourceOf pk = some id →
      t.toldAfter host relay (TopologyManager.assignAll relay pubkeys t).1 pk = id) ↔ Turns relay pubkeys t := by
  constructor
  · intro hall
    induction pubkeys generalizing t with
    | nil => trivial
    | cons pk pks ih =>
      obtain ⟨hfresh, hnodup⟩ := List.nodup_cons.mp hnodup
      have hassigns := ht.assigns pk
      have hbooked := ht.assignListener pk
      constructor
      · rw [← ht.settles_iff hfirst]
        intro id hid
        have hrecorded : (TopologyManager.assignAll relay pks (t.assignListener pk).2).2.sourceOf pk = some id := by
          rw [hbooked.sourceOf_assignAll hfresh, hassigns.assigned, hid]
        have htold := hall pk List.mem_cons_self id hrecorded
        unfold toldAfter at htold
        split at htold
        · exact Or.inl htold.symm
        · exact Or.inr htold.symm
      · apply ih hbooked (hfirst.assignListener ht pk) hnodup
        intro q hq id hid
        have hne : q ≠ pk := fun heq => hfresh (heq ▸ hq)
        have htold := hall q (List.mem_cons_of_mem pk hq) id hid
        unfold toldAfter at htold ⊢
        simp only [mem_assignAll_cons_iff, hne, false_and, false_or] at htold
        simpa only [upstream, hassigns.others q hne] using htold
  · intro hturns pk _ id hid
    rw [ht.toldAfter_eq hfirst hturns, upstream, hid, Option.getD_some]

end Turns

end TopologyManager

end Proscenium.Stage
