import Proscenium.DeviceSync.FleetDefs
import Proscenium.DeviceSync.MergeJoin

/-! What an edit and a merged entry do to the follows, mutes and blocks of one
device, seen as registers: one of them takes a write, and the others stay. -/

namespace Proscenium.DeviceSync

open Proscenium.Types Client Lww

variable {me : String} {st : OwnStore} {now : UInt64}

section Store

/-- Every own follow has the time of the follow, so its row is exported. -/
def Exported (me : String) (st : OwnStore) : Prop :=
  ∀ pubkey r, st.graph.row me pubkey = some r → r.followedAt.isSome

theorem exported_followee (pubkey : String) : st.exported me (.followee pubkey) =
    ((st.graph.row me pubkey).bind (followWire me).entry).map .follow := rfl

theorem exported_mark (pubkey kind : String) : st.exported me (.mark pubkey kind) =
    ((st.moderation.row pubkey kind).bind moderationWire.entry).map .moderation := rfl

theorem write_writes (e : Entry) :
    lastWrites.Writes e (st.exported me) ((st.write me e).exported me) := by
  cases e with
  | follow e =>
    constructor
    · exact congrArg (Option.map Entry.follow) (Wire.entry_put_self (followWire_faithful me))
    · intro k hk
      cases k with
      | mark pubkey kind => rfl
      | followee pubkey =>
        have hne : (me, pubkey) ≠ (followWire me).keyOf e :=
          fun h => hk (congrArg Key.followee (Prod.mk.inj h).2)
        have hrow : ((st.write me (.follow e)).graph.row me pubkey) = st.graph.row me pubkey :=
          Wire.find_put_of_ne hne
        rw [exported_followee, hrow, exported_followee]
  | moderation e =>
    constructor
    · exact congrArg (Option.map Entry.moderation) (Wire.entry_put_self moderationWire_faithful)
    · intro k hk
      cases k with
      | followee pubkey => rfl
      | mark pubkey kind =>
        have hne : (pubkey, kind) ≠ moderationWire.keyOf e := by
          intro h
          obtain ⟨rfl, rfl⟩ := Prod.mk.inj h
          exact hk rfl
        have hrow : ((st.write me (.moderation e)).moderation.row pubkey kind) =
            st.moderation.row pubkey kind := Wire.find_put_of_ne hne
        rw [exported_mark, hrow, exported_mark]

theorem covers_of_not_shouldUpdate (hst : Exported me st) {e : Entry}
    (h : st.shouldUpdate me e = false) : lastWrites.Covers (st.exported me) e := by
  cases e with
  | follow e =>
    cases hrow : st.graph.row me e.pubkey with
    | none => simp [OwnStore.shouldUpdate, hrow] at h
    | some r =>
      obtain ⟨t, ht⟩ := Option.isSome_iff_exists.mp (hst e.pubkey r hrow)
      have hkey : r.key = (me, e.pubkey) := Table.key_of_find hrow
      have hme : r.follower = me := (Prod.mk.inj hkey).1
      have hle : (followWire me).stampOf e ≤ (followWire me).stamp r := by
        simpa [OwnStore.shouldUpdate, hrow] using h
      refine ⟨.follow ⟨r.followee, t.toUInt64, r.state, r.lastChangedAt.toUInt64⟩, ?_, hle⟩
      show st.exported me (.followee e.pubkey) = _
      simp [exported_followee, hrow, followWire, hme, ht]
  | moderation e =>
    cases hrow : st.moderation.row e.pubkey e.kind with
    | none => simp [OwnStore.shouldUpdate, hrow] at h
    | some r =>
      have hle : moderationWire.stampOf e ≤ moderationWire.stamp r := by
        simpa [OwnStore.shouldUpdate, hrow] using h
      refine ⟨.moderation ⟨r.pubkey, r.kind, r.createdAt.toUInt64, r.state, r.lastChangedAt.toUInt64⟩, ?_, hle⟩
      show st.exported me (.mark e.pubkey e.kind) = _
      simp [exported_mark, hrow, moderationWire]

theorem Exported.write (hst : Exported me st) (e : Entry) : Exported me (st.write me e) := by
  cases e with
  | moderation e => exact hst
  | follow e =>
    intro pubkey r hr
    by_cases hk : pubkey = e.pubkey
    · obtain rfl := hk
      have hentry : ((st.write me (.follow e)).graph.row me e.pubkey).bind (followWire me).entry = some e :=
        Wire.entry_put_self (followWire_faithful me)
      rw [hr] at hentry
      obtain ⟨-, hmap⟩ := Option.ite_none_right_eq_some.mp hentry
      obtain ⟨t, ht, -⟩ := Option.map_eq_some_iff.mp hmap
      simp [ht]
    · have hne : (me, pubkey) ≠ (followWire me).keyOf e := fun h => hk (Prod.mk.inj h).2
      have hrow : ((st.write me (.follow e)).graph.row me pubkey) = st.graph.row me pubkey :=
        Wire.find_put_of_ne hne
      exact hst pubkey r (hrow ▸ hr)

end Store

section Vectors

variable (me st) in
theorem mem_entries (e : Entry) : e ∈ (st.buildDeviceSyncVector me).entries ↔ st.exported me e.key = some e := by
  unfold DeviceSyncVector.entries
  rw [List.mem_append, List.mem_map, List.mem_map]
  cases e with
  | follow e =>
    have hfind : e ∈ (followWire me).vector st.graph.rows ↔
        (st.graph.row me e.pubkey).bind (followWire me).entry = some e := by
      have hmem := Table.find_eq_some_iff (k := (me, e.pubkey)) (r := e)
        ((followWire me).nodup_vector st.graph.nodup_keys)
      rw [Wire.find_vector st.graph.nodup_keys] at hmem
      exact (hmem.trans (and_iff_left rfl)).symm
    show _ ↔ ((st.graph.row me e.pubkey).bind (followWire me).entry).map Entry.follow = _
    generalize (st.graph.row me e.pubkey).bind (followWire me).entry = exported at hfind
    simp [OwnStore.buildDeviceSyncVector, hfind, Option.map_eq_some_iff]
  | moderation e =>
    have hfind : e ∈ moderationWire.vector st.moderation.rows ↔
        (st.moderation.row e.pubkey e.kind).bind moderationWire.entry = some e := by
      have hmem := Table.find_eq_some_iff (k := (e.pubkey, e.kind)) (r := e)
        (moderationWire.nodup_vector st.moderation.nodup_keys)
      rw [Wire.find_vector st.moderation.nodup_keys] at hmem
      exact (hmem.trans (and_iff_left rfl)).symm
    show _ ↔ ((st.moderation.row e.pubkey e.kind).bind moderationWire.entry).map Entry.moderation = _
    generalize (st.moderation.row e.pubkey e.kind).bind moderationWire.entry = exported at hfind
    simp [OwnStore.buildDeviceSyncVector, hfind, Option.map_eq_some_iff]

variable {ours peer : DeviceSyncVector}

theorem entryDeltas_subset {e : Entry} (he : e ∈ entryDeltas me ours peer) : e ∈ ours.entries := by
  unfold entryDeltas at he
  unfold DeviceSyncVector.entries
  rw [List.mem_append, List.mem_map, List.mem_map] at he ⊢
  rcases he with ⟨f, hf, rfl⟩ | ⟨f, hf, rfl⟩
  · exact Or.inl ⟨f, List.mem_of_mem_filter hf, rfl⟩
  · exact Or.inr ⟨f, List.mem_of_mem_filter hf, rfl⟩

theorem exists_of_not_mem_entryDeltas {e : Entry} (he : e ∈ ours.entries) (hout : e ∉ entryDeltas me ours peer) :
    ∃ p ∈ peer.entries, lastWrites.keyOf p = lastWrites.keyOf e ∧
      lastWrites.stampOf e ≤ lastWrites.stampOf p := by
  unfold entryDeltas at hout
  unfold DeviceSyncVector.entries at he ⊢
  rw [List.mem_append, List.mem_map, List.mem_map] at he hout
  rcases he with ⟨f, hf, rfl⟩ | ⟨f, hf, rfl⟩
  · have hnot : f ∉ (followWire me).deltas ours.follows peer.follows := fun h => hout (Or.inl ⟨f, h, rfl⟩)
    cases hfind : Table.find (followWire me).keyOf ((followWire me).keyOf f) peer.follows with
    | none => exact absurd (List.mem_filter.mpr ⟨hf, by simp [hfind]⟩) hnot
    | some p =>
      have hp : p ∈ peer.follows := List.mem_of_find?_eq_some hfind
      have hkey : (followWire me).keyOf p = (followWire me).keyOf f := Table.key_of_find hfind
      have hle : (followWire me).stampOf f ≤ (followWire me).stampOf p := by
        by_contra hlt
        exact hnot (List.mem_filter.mpr ⟨hf, by simpa [hfind] using hlt⟩)
      refine ⟨.follow p, List.mem_append_left _ (List.mem_map_of_mem hp), ?_, hle⟩
      exact congrArg Key.followee (Prod.mk.inj hkey).2
  · have hnot : f ∉ moderationWire.deltas ours.moderation peer.moderation :=
      fun h => hout (Or.inr ⟨f, h, rfl⟩)
    cases hfind : Table.find moderationWire.keyOf (moderationWire.keyOf f) peer.moderation with
    | none => exact absurd (List.mem_filter.mpr ⟨hf, by simp [hfind]⟩) hnot
    | some p =>
      have hp : p ∈ peer.moderation := List.mem_of_find?_eq_some hfind
      have hkey : moderationWire.keyOf p = moderationWire.keyOf f := Table.key_of_find hfind
      have hle : moderationWire.stampOf f ≤ moderationWire.stampOf p := by
        by_contra hlt
        exact hnot (List.mem_filter.mpr ⟨hf, by simpa [hfind] using hlt⟩)
      refine ⟨.moderation p, List.mem_append_right _ (List.mem_map_of_mem hp), ?_, hle⟩
      obtain ⟨hpubkey, hkind⟩ := Prod.mk.inj hkey
      show Key.mark p.pubkey p.kind = Key.mark f.pubkey f.kind
      rw [hpubkey, hkind]

end Vectors

section Edits

variable {g : SocialGraph} {m : Moderation}

variable (me g now) in
theorem row_follow_self (entry : SocialGraphEntry) : ∃ r, (g.follow me entry now).row me entry.pubkey = some r ∧
    r.key = (me, entry.pubkey) ∧ r.followedAt.isSome ∧ r.lastChangedAt = now.toInt64 := by
  unfold SocialGraph.row SocialGraph.follow
  rw [Table.find_upsert_self (fun _ => by rfl) (by rfl)]
  cases hr : Table.find SocialGraphRow.key (me, entry.pubkey) g.rows with
  | none => exact ⟨_, rfl, rfl, rfl, rfl⟩
  | some r =>
    have hkey : r.key = (me, entry.pubkey) := Table.key_of_find hr
    exact ⟨_, rfl, hkey, rfl, rfl⟩

theorem row_follow_of_ne {entry : SocialGraphEntry} {pubkey : String} (hne : pubkey ≠ entry.pubkey) :
    (g.follow me entry now).row me pubkey = g.row me pubkey :=
  Table.find_upsert_of_ne (fun _ => by rfl) (by rfl) (fun h => hne (Prod.mk.inj h).2) g.rows

variable (me g now) in
theorem row_unfollow_self (pubkey : String) : (g.unfollow me pubkey now).row me pubkey =
    (g.row me pubkey).map fun r => { r with state := "removed", lastChangedAt := now.toInt64 } := by
  unfold SocialGraph.row SocialGraph.unfollow
  rw [Table.find_updateWhere (fun _ => by rfl)]
  cases hr : Table.find SocialGraphRow.key (me, pubkey) g.rows with
  | none => rfl
  | some r =>
    have hkey : r.key = (me, pubkey) := Table.key_of_find hr
    obtain ⟨hme, hpubkey⟩ := Prod.mk.inj hkey
    simp [hme, hpubkey]

theorem row_unfollow_of_ne {pubkey other : String} (hne : other ≠ pubkey) :
    (g.unfollow me pubkey now).row me other = g.row me other := by
  refine Table.find_updateWhere_of_ne (fun _ => by rfl) (fun r hr => ?_) g.rows
  have hother : r.followee = other := (Prod.mk.inj hr).2
  simp [hother, hne]

variable (m now) in
theorem row_activate_self (kind pubkey : String) : ∃ r, (m.activate kind pubkey now).row pubkey kind = some r ∧
    r.key = (pubkey, kind) ∧ r.lastChangedAt = now.toInt64 := by
  unfold Moderation.row Moderation.activate
  rw [Table.find_upsert_self (fun _ => by rfl) (by rfl)]
  cases hr : Table.find ModerationRow.key (pubkey, kind) m.rows with
  | none => exact ⟨_, rfl, rfl, rfl⟩
  | some r =>
    have hkey : r.key = (pubkey, kind) := Table.key_of_find hr
    exact ⟨_, rfl, hkey, rfl⟩

theorem row_activate_of_ne {kind pubkey : String} {k : String × String} (hne : k ≠ (pubkey, kind)) :
    Table.find ModerationRow.key k (m.activate kind pubkey now).rows = Table.find ModerationRow.key k m.rows :=
  Table.find_upsert_of_ne (fun _ => by rfl) (by rfl) hne m.rows

theorem row_lift_self (kind pubkey : String) : (m.lift kind pubkey now).row pubkey kind =
    (m.row pubkey kind).map fun r => { r with state := "removed", lastChangedAt := now.toInt64 } := by
  unfold Moderation.row Moderation.lift
  rw [Table.find_updateWhere (fun _ => by rfl)]
  cases hr : Table.find ModerationRow.key (pubkey, kind) m.rows with
  | none => rfl
  | some r =>
    have hkey : r.key = (pubkey, kind) := Table.key_of_find hr
    obtain ⟨hpubkey, hkind⟩ := Prod.mk.inj hkey
    simp [hpubkey, hkind]

theorem row_lift_of_ne {kind pubkey : String} {k : String × String} (hne : k ≠ (pubkey, kind)) :
    Table.find ModerationRow.key k (m.lift kind pubkey now).rows = Table.find ModerationRow.key k m.rows := by
  refine Table.find_updateWhere_of_ne (fun _ => by rfl) (fun r hr => ?_) m.rows
  have hk : ¬ (r.pubkey = pubkey ∧ r.kind = kind) := by
    rintro ⟨rfl, rfl⟩
    exact hne hr.symm
  simpa using hk

/-- What an edit does to the registers: it writes the one it is about, or finds no row to change. -/
structure Writing (me : String) (now : UInt64) (st : OwnStore) (ed : Edit) (e : Entry) : Prop where
  key : e.key = ed.key
  time : e.lastChangedAt = now
  writes : lastWrites.Writes e (st.exported me) ((ed.apply me now st).exported me)

structure Idle (me : String) (now : UInt64) (st : OwnStore) (ed : Edit) : Prop where
  none : st.exported me ed.key = none
  same : (ed.apply me now st).exported me = st.exported me

theorem writing_of_graph {ed : Edit} {pubkey : String} {r : SocialGraphRow} (hed : ed.key = .followee pubkey)
    (hrow : (ed.apply me now st).graph.row me pubkey = some r) (hkey : r.key = (me, pubkey))
    (hsome : r.followedAt.isSome) (hnow : r.lastChangedAt = now.toInt64)
    (hother : ∀ other, other ≠ pubkey →
      (ed.apply me now st).graph.row me other = st.graph.row me other)
    (hmoderation : (ed.apply me now st).moderation = st.moderation) : ∃ e, Writing me now st ed e := by
  obtain ⟨t, ht⟩ := Option.isSome_iff_exists.mp hsome
  obtain ⟨hme, hpubkey⟩ := Prod.mk.inj hkey
  refine ⟨.follow ⟨r.followee, t.toUInt64, r.state, r.lastChangedAt.toUInt64⟩, ?_, ?_, ?_, ?_⟩
  · rw [hed]
    exact congrArg Key.followee hpubkey
  · show r.lastChangedAt.toUInt64 = now
    rw [hnow, UInt64.toUInt64_toInt64]
  · show (ed.apply me now st).exported me (.followee r.followee) = _
    rw [hpubkey, exported_followee, hrow]
    simp [followWire, hme, hpubkey, ht]
  · intro k hk
    cases k with
    | followee other =>
      have hne : other ≠ pubkey := fun h => hk (congrArg Key.followee (h.trans hpubkey.symm))
      rw [exported_followee, hother other hne, exported_followee]
    | mark other kind => rw [exported_mark, hmoderation, exported_mark]

theorem writing_of_moderation {ed : Edit} {pubkey kind : String} {r : ModerationRow}
    (hed : ed.key = .mark pubkey kind)
    (hrow : (ed.apply me now st).moderation.row pubkey kind = some r) (hkey : r.key = (pubkey, kind))
    (hnow : r.lastChangedAt = now.toInt64)
    (hother : ∀ k, k ≠ (pubkey, kind) → Table.find ModerationRow.key k (ed.apply me now st).moderation.rows =
      Table.find ModerationRow.key k st.moderation.rows)
    (hgraph : (ed.apply me now st).graph = st.graph) : ∃ e, Writing me now st ed e := by
  obtain ⟨hpubkey, hkind⟩ := Prod.mk.inj hkey
  refine ⟨.moderation ⟨r.pubkey, r.kind, r.createdAt.toUInt64, r.state, r.lastChangedAt.toUInt64⟩,
    ?_, ?_, ?_, ?_⟩
  · rw [hed, ← hpubkey, ← hkind]
    rfl
  · show r.lastChangedAt.toUInt64 = now
    rw [hnow, UInt64.toUInt64_toInt64]
  · show (ed.apply me now st).exported me (.mark r.pubkey r.kind) = _
    rw [hpubkey, hkind, exported_mark, hrow]
    simp [moderationWire, hpubkey, hkind]
  · intro k hk
    cases k with
    | followee other => rw [exported_followee, hgraph, exported_followee]
    | mark other kind' =>
      have hne : (other, kind') ≠ (pubkey, kind) := by
        intro h
        obtain ⟨rfl, rfl⟩ := Prod.mk.inj h
        exact hk (by rw [← hpubkey, ← hkind]; rfl)
      have hsame : (ed.apply me now st).moderation.row other kind' = st.moderation.row other kind' :=
        hother _ hne
      rw [exported_mark, hsame, exported_mark]

variable (now) in
theorem edit_cases (hst : Exported me st) (ed : Edit) :
    (∃ e, Writing me now st ed e) ∨ Idle me now st ed := by
  have hlift : ∀ kind pubkey, ed.key = .mark pubkey kind →
      (ed.apply me now st).moderation = st.moderation.lift kind pubkey now →
      (ed.apply me now st).graph = st.graph → (∃ e, Writing me now st ed e) ∨ Idle me now st ed := by
    intro kind pubkey hed hlift hgraph
    have hrow : (ed.apply me now st).moderation.row pubkey kind = (st.moderation.row pubkey kind).map
        fun r => { r with state := "removed", lastChangedAt := now.toInt64 } := hlift ▸ row_lift_self kind pubkey
    have hother : ∀ k, k ≠ (pubkey, kind) → Table.find ModerationRow.key k (ed.apply me now st).moderation.rows =
        Table.find ModerationRow.key k st.moderation.rows := fun k hk => hlift ▸ row_lift_of_ne hk
    cases hr : st.moderation.row pubkey kind with
    | some r =>
      rw [hr] at hrow
      have hkey : r.key = (pubkey, kind) := Table.key_of_find hr
      exact Or.inl (writing_of_moderation hed hrow hkey rfl hother hgraph)
    | none =>
      rw [hr] at hrow
      refine Or.inr ⟨by rw [hed, exported_mark, hr]; rfl, funext fun k => ?_⟩
      cases k with
      | followee other => rw [exported_followee, hgraph, exported_followee]
      | mark other kind' =>
        have hsame : (ed.apply me now st).moderation.row other kind' = st.moderation.row other kind' := by
          by_cases hk : (other, kind') = (pubkey, kind)
          · obtain ⟨rfl, rfl⟩ := Prod.mk.inj hk
            exact hrow.trans hr.symm
          · exact hother _ hk
        rw [exported_mark, hsame, exported_mark]
  have hactivate : ∀ kind pubkey, ed.key = .mark pubkey kind →
      (ed.apply me now st).moderation = st.moderation.activate kind pubkey now →
      (ed.apply me now st).graph = st.graph → ∃ e, Writing me now st ed e := by
    intro kind pubkey hed hactivate hgraph
    obtain ⟨r, hrow, hkey, hnow⟩ := row_activate_self now st.moderation kind pubkey
    exact writing_of_moderation hed (hactivate ▸ hrow) hkey hnow
      (fun k hk => hactivate ▸ row_activate_of_ne hk) hgraph
  cases ed with
  | follow entry =>
    obtain ⟨r, hrow, hkey, hsome, hnow⟩ := row_follow_self me now st.graph entry
    exact Or.inl (writing_of_graph rfl hrow hkey hsome hnow (fun _ => row_follow_of_ne) rfl)
  | unfollow pubkey =>
    have hrow := row_unfollow_self me now st.graph pubkey
    cases hr : st.graph.row me pubkey with
    | some r =>
      rw [hr] at hrow
      have hkey : r.key = (me, pubkey) := Table.key_of_find hr
      have hed : (Edit.unfollow pubkey).key = .followee pubkey := rfl
      exact Or.inl (writing_of_graph hed hrow hkey (hst pubkey r hr) rfl (fun _ => row_unfollow_of_ne) rfl)
    | none =>
      rw [hr] at hrow
      refine Or.inr ⟨by show st.exported me (.followee pubkey) = none; rw [exported_followee, hr]; rfl,
        funext fun k => ?_⟩
      cases k with
      | mark other kind => rfl
      | followee other =>
        have hsame : (st.graph.unfollow me pubkey now).row me other = st.graph.row me other := by
          by_cases hk : other = pubkey
          · rw [hk, hrow, hr]
            rfl
          · exact row_unfollow_of_ne hk
        exact congrArg (fun row => (row.bind (followWire me).entry).map Entry.follow) hsame
  | muteUser pubkey => exact Or.inl (hactivate "mute" pubkey rfl rfl rfl)
  | unmuteUser pubkey => exact hlift "mute" pubkey rfl rfl rfl
  | blockUser pubkey => exact Or.inl (hactivate "block" pubkey rfl rfl rfl)
  | unblockUser pubkey => exact hlift "block" pubkey rfl rfl rfl

theorem Exported.apply (hst : Exported me st) (ed : Edit) : Exported me (ed.apply me now st) := by
  intro other r hr
  cases ed with
  | follow entry =>
    by_cases hk : other = entry.pubkey
    · obtain ⟨q, hrow, -, hsome, -⟩ := row_follow_self me now st.graph entry
      have hsame : some r = some q := hr.symm.trans (hk ▸ hrow)
      exact Option.some.inj hsame ▸ hsome
    · exact hst other r ((row_follow_of_ne hk).symm.trans hr)
  | unfollow pubkey =>
    by_cases hk : other = pubkey
    · have hrow : (st.graph.row me other).map _ = some r :=
        (row_unfollow_self me now st.graph other).symm.trans (hk ▸ hr)
      obtain ⟨q, hq, rfl⟩ := Option.map_eq_some_iff.mp hrow
      exact hst other q hq
    · exact hst other r ((row_unfollow_of_ne hk).symm.trans hr)
  | muteUser => exact hst other r hr
  | unmuteUser => exact hst other r hr
  | blockUser => exact hst other r hr
  | unblockUser => exact hst other r hr

end Edits

end Proscenium.DeviceSync
