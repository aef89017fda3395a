import Proscenium.Client.SocialIsolation
import Proscenium.DeviceSync.FleetStores

/-! Every device of a fleet shows the newest follow, mute or block it has heard of,
in whatever order edits, sessions and their statements come, as long as none of
them goes back in time; and devices that have heard of the same show the same. -/

namespace Proscenium.DeviceSync

open Proscenium.Types Client Lww

variable {ι : Type} {me : String}

/-- What holds of a session, of which the two lists are what its parties had heard at its beginning. -/
def Carries (look : ι → Key → Option Entry) (log : List Entry) (carried : List Entry × List Entry) :
    Option (Session ι) → Prop
  | none => True
  | some (.requested initiator _ vector) =>
    lastWrites.Summary vector.entries carried.1 ∧
      (∀ e ∈ vector.entries, lastWrites.Covers (look initiator) e) ∧ ∀ e ∈ carried.1, e ∈ log
  | some (.importing sender importer todo chosen (some reply)) =>
    lastWrites.Pending (look importer) carried.2 (chosen.toList ++ todo) ∧ (∀ e ∈ carried.2, e ∈ log) ∧
      lastWrites.Pending (look sender) carried.1 reply ∧ ∀ e ∈ carried.1, e ∈ log
  | some (.importing _ importer todo chosen none) =>
    lastWrites.Pending (look importer) carried.1 (chosen.toList ++ todo) ∧ ∀ e ∈ carried.1, e ∈ log

section Sessions

variable {look look' : ι → Key → Option Entry} {log log' : List Entry}
  {carried : List Entry × List Entry} {session : Option (Session ι)}

theorem Carries.mono (h : Carries look log carried session)
    (hgrow : ∀ d f, lastWrites.Covers (look d) f → lastWrites.Covers (look' d) f)
    (hlog : ∀ e ∈ log, e ∈ log') : Carries look' log' carried session := by
  match session with
  | none => trivial
  | some (.requested initiator _ vector) =>
    obtain ⟨hsummary, hcovers, hsub⟩ := h
    exact ⟨hsummary, fun e he => hgrow _ e (hcovers e he), fun e he => hlog e (hsub e he)⟩
  | some (.importing sender importer todo chosen (some reply)) =>
    obtain ⟨hin, hsub₂, hout, hsub₁⟩ := h
    exact ⟨hin.mono (hgrow importer), fun e he => hlog e (hsub₂ e he), hout.mono (hgrow sender),
      fun e he => hlog e (hsub₁ e he)⟩
  | some (.importing _ importer todo chosen none) =>
    obtain ⟨hin, hsub⟩ := h
    exact ⟨hin.mono (hgrow importer), fun e he => hlog e (hsub e he)⟩

theorem Carries.chosen_mem {sender importer : ι} {todo : List Entry} {e : Entry} {reply : Option (List Entry)}
    (h : Carries look log carried (some (.importing sender importer todo (some e) reply))) : e ∈ log := by
  cases reply with
  | some reply =>
    obtain ⟨hin, hsub, -⟩ := h
    exact hsub e (hin.known e List.mem_cons_self)
  | none =>
    obtain ⟨hin, hsub⟩ := h
    exact hsub e (hin.known e List.mem_cons_self)

theorem Carries.next {sender importer : ι} {todo : List Entry} {e : Entry} {reply : Option (List Entry)}
    {chosen : Option Entry} {todo' : List Entry} (hcoming : chosen.toList ++ todo' = e :: todo)
    (h : Carries look log carried (some (.importing sender importer todo' chosen reply)))
    (he : lastWrites.Covers (look importer) e) :
    Carries look log carried (some (.importing sender importer todo none reply)) := by
  cases reply with
  | some reply =>
    obtain ⟨hin, hsub, hrest⟩ := h
    rw [hcoming] at hin
    exact ⟨hin.drop he, hsub, hrest⟩
  | none =>
    obtain ⟨hin, hsub⟩ := h
    rw [hcoming] at hin
    exact ⟨hin.drop he, hsub⟩

end Sessions

variable (me) in
def Fleet.shown (f : Fleet ι) (device : ι) : Key → Option Entry := (f.stores device).exported me

variable (me) in
/-- Each device shows the newest of what it has heard of. -/
def Observed.ShowsNewest (o : Observed ι) : Prop :=
  ∀ device, lastWrites.Shows (o.fleet.shown me device) (o.history.heard device)

variable (me) in
structure Healthy (o : Observed ι) : Prop where
  exported : ∀ device, Exported me (o.fleet.stores device)
  shows : o.ShowsNewest me
  heard : ∀ device, ∀ e ∈ o.history.heard device, e ∈ o.history.log
  sessions : ∀ s, Carries (o.fleet.shown me) o.history.log (o.history.carried s) (o.fleet.sessions s)

variable {o : Observed ι}

theorem Observed.Fresh.healthy (h : o.Fresh me) : Healthy me o := by
  have hrow : ∀ device pubkey, (o.fleet.stores device).graph.row me pubkey = none := by
    intro device pubkey
    refine List.find?_eq_none.mpr fun r hr hkey => ?_
    have hk : r.key = (me, pubkey) := of_decide_eq_true hkey
    exact h.graph device r hr (Prod.mk.inj hk).1
  have hmark : ∀ device pubkey kind, (o.fleet.stores device).moderation.row pubkey kind = none := by
    intro device pubkey kind
    unfold Moderation.row
    rw [h.moderation device]
    rfl
  constructor
  case exported =>
    intro device pubkey r hr
    rw [hrow device pubkey] at hr
    exact nomatch hr
  case shows =>
    intro device
    constructor
    · intro k e he
      cases k with
      | followee pubkey =>
        have hnone : o.fleet.shown me device (.followee pubkey) = none := by
          show (o.fleet.stores device).exported me _ = _
          rw [exported_followee, hrow]
          rfl
        exact nomatch hnone.symm.trans he
      | mark pubkey kind =>
        have hnone : o.fleet.shown me device (.mark pubkey kind) = none := by
          show (o.fleet.stores device).exported me _ = _
          rw [exported_mark, hmark]
          rfl
        exact nomatch hnone.symm.trans he
    · intro e he
      rw [h.heard device] at he
      exact nomatch he
  case heard =>
    intro device e he
    rw [h.heard device] at he
    exact nomatch he
  case sessions =>
    intro s
    rw [h.sessions s]
    trivial

section Steps

theorem Healthy.setSession (h : Healthy me o) {s : ℕ} {session : Option (Session ι)}
    (carried : ℕ → List Entry × List Entry) (hothers : ∀ r, r ≠ s → carried r = o.history.carried r)
    (hs : Carries (o.fleet.shown me) o.history.log (carried s) session) :
    Healthy me ⟨o.fleet.setSession s session, { o.history with carried := carried }⟩ := by
  refine ⟨h.exported, h.shows, h.heard, fun r => ?_⟩
  by_cases hr : r = s
  · subst hr
    show Carries _ _ (carried r) (Function.update o.fleet.sessions r session r)
    rw [Function.update_self]
    exact hs
  · show Carries _ _ (carried r) (Function.update o.fleet.sessions s session r)
    rw [Function.update_of_ne hr, hothers r hr]
    exact h.sessions r

variable [DecidableEq ι]

theorem shown_setStore_self {f : Fleet ι} {device : ι} {st : OwnStore} :
    (f.setStore device st).shown me device = st.exported me := by
  simp [Fleet.shown, Fleet.setStore]

theorem shown_setStore_of_ne {f : Fleet ι} {device d : ι} {st : OwnStore} (hne : d ≠ device) :
    (f.setStore device st).shown me d = f.shown me d := by
  simp [Fleet.shown, Fleet.setStore, hne]

theorem covers_setStore {f : Fleet ι} {device : ι} {st : OwnStore} {e : Entry}
    (hw : lastWrites.Writes e (f.shown me device) (st.exported me))
    (hle : lastWrites.InOrder (f.shown me device) e) (d : ι) (p : Entry)
    (hp : lastWrites.Covers (f.shown me d) p) : lastWrites.Covers ((f.setStore device st).shown me d) p := by
  by_cases hd : d = device
  · subst hd
    rw [shown_setStore_self]
    exact hp.of_writes hw hle
  · rwa [shown_setStore_of_ne hd]

theorem showsNewest_take_iff (h : Healthy me o) {device : ι} {st : OwnStore} {e : Entry} {log : List Entry}
    (hw : lastWrites.Writes e (o.fleet.shown me device) (st.exported me)) :
    Observed.ShowsNewest me ⟨o.fleet.setStore device st, { o.history.hear device [e] with log := log }⟩ ↔
      lastWrites.InOrder (o.fleet.shown me device) e := by
  rw [← Stamped.shows_writes_iff (h.shows device) hw]
  constructor
  · intro hall
    have hself := hall device
    rw [shown_setStore_self] at hself
    simpa [History.hear] using hself
  · intro hself d
    by_cases hd : d = device
    · subst hd
      rw [shown_setStore_self]
      simpa [History.hear] using hself
    · rw [shown_setStore_of_ne hd]
      simpa [History.hear, hd] using h.shows d

theorem Healthy.take (h : Healthy me o) {device : ι} {st : OwnStore} {e : Entry} {log : List Entry}
    (hst : Exported me st) (hw : lastWrites.Writes e (o.fleet.shown me device) (st.exported me))
    (hle : lastWrites.InOrder (o.fleet.shown me device) e) (he : e ∈ log)
    (hlog : ∀ f ∈ o.history.log, f ∈ log) :
    Healthy me ⟨o.fleet.setStore device st, { o.history.hear device [e] with log := log }⟩ := by
  constructor
  case exported =>
    intro d
    by_cases hd : d = device
    · simpa [Fleet.setStore, hd] using hst
    · simpa [Fleet.setStore, hd] using h.exported d
  case shows => exact (showsNewest_take_iff h hw).mpr hle
  case heard =>
    intro d f hf
    by_cases hd : d = device
    · subst hd
      have hf : f = e ∨ f ∈ o.history.heard d := by simpa [History.hear] using hf
      rcases hf with rfl | hf
      · exact he
      · exact hlog f (h.heard d f hf)
    · have hf : f ∈ o.history.heard d := by simpa [History.hear, hd] using hf
      exact hlog f (h.heard d f hf)
  case sessions =>
    intro s
    exact (h.sessions s).mono (covers_setStore hw hle) hlog

theorem Healthy.hear (h : Healthy me o) {device : ι} {sent : List Entry}
    (hcovers : ∀ f ∈ sent, lastWrites.Covers (o.fleet.shown me device) f)
    (hsub : ∀ f ∈ sent, f ∈ o.history.log) : Healthy me ⟨o.fleet, o.history.hear device sent⟩ := by
  refine ⟨h.exported, fun d => ?_, fun d f hf => ?_, h.sessions⟩
  · by_cases hd : d = device
    · subst hd
      simpa [History.hear] using (h.shows d).append hcovers
    · simpa [History.hear, hd] using h.shows d
  · by_cases hd : d = device
    · subst hd
      have hf : f ∈ sent ∨ f ∈ o.history.heard d := by simpa [History.hear] using hf
      rcases hf with hf | hf
      · exact hsub f hf
      · exact h.heard d f hf
    · exact h.heard d f (by simpa [History.hear, hd] using hf)

/-- An edit keeps everyone at the newest exactly if its clock is not behind its row. -/
theorem edit_step (h : Healthy me o) (device : ι) (ed : Edit) (now : UInt64) :
    ∃ t, o.step me (.edit device ed now) = some t ∧
      (t.ShowsNewest me ↔ InOrder me o.fleet (.edit device ed now)) ∧
      (InOrder me o.fleet (.edit device ed now) → Healthy me t) := by
  have hst := h.exported device
  have hst' : Exported me (ed.apply me now (o.fleet.stores device)) := hst.apply ed
  rcases edit_cases now hst ed with ⟨e, hkey, htime, hw⟩ | ⟨hnone, hsame⟩
  · have hwritten : (ed.apply me now (o.fleet.stores device)).exported me ed.key = some e := hkey ▸ hw.self
    have horder : InOrder me o.fleet (.edit device ed now) ↔
        lastWrites.InOrder (o.fleet.shown me device) e := by
      show (∀ p, (o.fleet.stores device).exported me ed.key = some p → p.lastChangedAt ≤ now) ↔
        ∀ p, (o.fleet.stores device).exported me e.key = some p → p.lastChangedAt.toNat ≤ e.lastChangedAt.toNat
      rw [hkey, htime]
      rfl
    have hstep : o.step me (.edit device ed now) =
        some ⟨o.fleet.setStore device (ed.apply me now (o.fleet.stores device)),
          { o.history.hear device [e] with log := e :: o.history.log }⟩ := by
      simp [Observed.step, Fleet.step, History.record, hwritten]
    refine ⟨_, hstep, (showsNewest_take_iff h hw).trans horder.symm, fun hok => ?_⟩
    exact h.take hst' hw (horder.mp hok) List.mem_cons_self fun f hf => List.mem_cons_of_mem e hf
  · have hidle : (ed.apply me now (o.fleet.stores device)).exported me ed.key = none := hsame ▸ hnone
    have hstep : o.step me (.edit device ed now) =
        some ⟨o.fleet.setStore device (ed.apply me now (o.fleet.stores device)), o.history⟩ := by
      simp [Observed.step, Fleet.step, History.record, hidle]
    have hshown : (o.fleet.setStore device (ed.apply me now (o.fleet.stores device))).shown me =
        o.fleet.shown me := by
      funext d
      by_cases hd : d = device
      · subst hd
        exact shown_setStore_self.trans hsame
      · exact shown_setStore_of_ne hd
    have hhealthy : Healthy me ⟨o.fleet.setStore device (ed.apply me now (o.fleet.stores device)), o.history⟩ := by
      constructor
      case exported =>
        intro d
        by_cases hd : d = device
        · simpa [Fleet.setStore, hd] using hst'
        · simpa [Fleet.setStore, hd] using h.exported d
      case shows =>
        intro d
        rw [hshown]
        exact h.shows d
      case heard => exact h.heard
      case sessions =>
        intro s
        rw [hshown]
        exact h.sessions s
    refine ⟨_, hstep, iff_of_true hhealthy.shows fun p hp => ?_, fun _ => hhealthy⟩
    exact nomatch hnone.symm.trans hp

/-- What a session's own steps do: `write` keeps everyone at the newest exactly if the row has not
become newer, and the others always do. -/
theorem session_step (h : Healthy me o) {l : FleetLabel ι} (hl : ∀ device ed now, l ≠ .edit device ed now)
    {t : Observed ι} (ht : o.step me l = some t) :
    (t.ShowsNewest me ↔ InOrder me o.fleet l) ∧ (InOrder me o.fleet l → Healthy me t) := by
  have hkept : (InOrder me o.fleet l ↔ True) → Healthy me t →
      (t.ShowsNewest me ↔ InOrder me o.fleet l) ∧ (InOrder me o.fleet l → Healthy me t) := by
    intro htrue hhealthy
    rw [htrue]
    exact ⟨iff_of_true hhealthy.shows trivial, fun _ => hhealthy⟩
  obtain ⟨f, hf, rfl⟩ := Option.map_eq_some_iff.mp ht
  cases l with
  | edit device ed now => exact absurd rfl (hl device ed now)
  | request s initiator responder =>
    refine hkept Iff.rfl ?_
    simp only [Fleet.step] at hf
    split at hf
    next hnone =>
      obtain rfl := Option.some.inj hf
      have hsummary := (h.shows initiator).summary (mem_entries me (o.fleet.stores initiator))
      refine h.setSession _ (fun r hr => Function.update_of_ne hr ..) ?_
      rw [Function.update_self]
      refine ⟨hsummary, fun e he => ⟨e, (mem_entries me _ e).mp he, le_rfl⟩, h.heard initiator⟩
    next => exact nomatch hf
  | answer s =>
    refine hkept Iff.rfl ?_
    simp only [Fleet.step] at hf
    split at hf
    next initiator responder vector hs =>
      obtain rfl := Option.some.inj hf
      obtain ⟨hsummary, hcovers, hsub⟩ : Carries _ _ _ (some (.requested initiator responder vector)) :=
        hs ▸ h.sessions s
      have hours := (h.shows responder).summary (mem_entries me (o.fleet.stores responder))
      have hself : ∀ e ∈ ((o.fleet.stores responder).buildDeviceSyncVector me).entries,
          lastWrites.Covers (o.fleet.shown me responder) e := fun e he => ⟨e, (mem_entries me _ e).mp he, le_rfl⟩
      simp only [History.record, hs]
      refine h.setSession _ (fun r hr => Function.update_of_ne hr ..) ?_
      rw [Function.update_self]
      refine ⟨?_, h.heard responder, ?_, hsub⟩
      · exact hours.pending (fun e => entryDeltas_subset) hcovers fun e => exists_of_not_mem_entryDeltas
      · exact hsummary.pending (fun e => entryDeltas_subset) hself fun e => exists_of_not_mem_entryDeltas
    next => exact nomatch hf
  | compare s =>
    refine hkept Iff.rfl ?_
    simp only [Fleet.step] at hf
    split at hf
    next sender importer e todo reply hs =>
      obtain rfl := Option.some.inj hf
      have hcarries : Carries _ _ _ (some (.importing sender importer (e :: todo) none reply)) :=
        hs ▸ h.sessions s
      refine h.setSession o.history.carried (fun r _ => rfl) ?_
      cases hnewer : (o.fleet.stores importer).shouldUpdate me e with
      | true => cases reply <;> exact hcarries
      | false =>
        -- the entry is skipped, and the row is as new already
        have hcovers := covers_of_not_shouldUpdate (h.exported importer) hnewer
        exact hcarries.next rfl hcovers
    next => exact nomatch hf
  | write s =>
    simp only [Fleet.step] at hf
    split at hf
    next sender importer todo e reply hs =>
      obtain rfl := Option.some.inj hf
      have hcarries : Carries _ _ _ (some (.importing sender importer todo (some e) reply)) :=
        hs ▸ h.sessions s
      -- the write does not look at the row again, which may have become newer since
      have hw : lastWrites.Writes e (o.fleet.shown me importer)
          (((o.fleet.stores importer).write me e).exported me) := write_writes e
      have horder : InOrder me o.fleet (.write s) ↔ lastWrites.InOrder (o.fleet.shown me importer) e := by
        simp only [InOrder, hs]
        rfl
      simp only [History.record, hs]
      rw [horder]
      refine ⟨showsNewest_take_iff h hw, fun hle => ?_⟩
      have htake := h.take ((h.exported importer).write e) hw hle hcarries.chosen_mem fun f hf => hf
      refine htake.setSession o.history.carried (fun r _ => rfl) ?_
      have hgrown := hcarries.mono (covers_setStore hw hle) fun f hf => hf
      refine hgrown.next rfl ?_
      rw [shown_setStore_self]
      exact Stamped.covers_self_of_writes hw
    next => exact nomatch hf
  | finish s =>
    refine hkept Iff.rfl ?_
    simp only [Fleet.step] at hf
    split at hf
    next sender importer reply hs =>
      obtain rfl := Option.some.inj hf
      cases reply with
      | some reply =>
        -- the responder has its part, and the initiator still has to import the reply
        obtain ⟨hin, hsub₂, hout, hsub₁⟩ :
          Carries _ _ _ (some (.importing sender importer [] none (some reply))) := hs ▸ h.sessions s
        simp only [History.record, hs]
        have hhear := h.hear hin.done hsub₂
        exact hhear.setSession o.history.carried (fun r _ => rfl) ⟨hout, hsub₁⟩
      | none =>
        obtain ⟨hin, hsub⟩ : Carries _ _ _ (some (.importing sender importer [] none none)) :=
          hs ▸ h.sessions s
        simp only [History.record, hs]
        have hhear := h.hear hin.done hsub
        exact hhear.setSession o.history.carried (fun r _ => rfl) trivial
    next => exact nomatch hf
  | drop s =>
    refine hkept Iff.rfl ?_
    obtain rfl := Option.some.inj hf
    exact h.setSession o.history.carried (fun r _ => rfl) trivial

theorem step_showsNewest_iff (h : Healthy me o) (l : FleetLabel ι) :
    (∀ t, o.step me l = some t → t.ShowsNewest me) ↔
      ((∃ t, o.step me l = some t) → InOrder me o.fleet l) := by
  by_cases hl : ∃ device ed now, l = .edit device ed now
  · obtain ⟨device, ed, now, rfl⟩ := hl
    obtain ⟨t, ht, hiff, -⟩ := edit_step h device ed now
    constructor
    · intro hall _
      exact hiff.mp (hall t ht)
    · intro hok u hu
      obtain rfl : t = u := Option.some.inj (ht.symm.trans hu)
      exact hiff.mpr (hok ⟨t, ht⟩)
  · have hl : ∀ device ed now, l ≠ .edit device ed now := fun d ed now h => hl ⟨d, ed, now, h⟩
    constructor
    · rintro hall ⟨t, ht⟩
      exact (session_step h hl ht).1.mp (hall t ht)
    · intro hok t ht
      exact (session_step h hl ht).1.mpr (hok ⟨t, ht⟩)

theorem Healthy.step (h : Healthy me o) {l : FleetLabel ι} (hok : InOrder me o.fleet l) {t : Observed ι}
    (ht : o.step me l = some t) : Healthy me t := by
  by_cases hl : ∃ device ed now, l = .edit device ed now
  · obtain ⟨device, ed, now, rfl⟩ := hl
    obtain ⟨u, hu, -, hkept⟩ := edit_step h device ed now
    obtain rfl : u = t := Option.some.inj (hu.symm.trans ht)
    exact hkept hok
  · exact (session_step h (fun d ed now h => hl ⟨d, ed, now, h⟩) ht).2 hok

theorem Healthy.exec (h : Healthy me o) {run : List (FleetLabel ι)}
    (hok : Machine.Along (Observed.step me) (fun o => InOrder me o.fleet) o run) {t : Observed ι}
    (hrun : Machine.exec (Observed.step me) o run = some t) : Healthy me t :=
  Machine.exec_invariant (fun _ _ _ hs hok ht => hs.step hok ht) h hok hrun

end Steps

section Shown

variable {a b : OwnStore}

theorem isFollowing_eq_exported (ha : Exported me a) (pubkey : String) : a.graph.isFollowing me pubkey = true ↔
    ∃ e, a.exported me (.followee pubkey) = some (.follow e) ∧ e.state = "active" := by
  rw [SocialGraph.isFollowing_iff, exported_followee]
  constructor
  · rintro ⟨r, hr, hactive⟩
    obtain ⟨t, ht⟩ := Option.isSome_iff_exists.mp (ha pubkey r hr)
    have hkey : r.key = (me, pubkey) := Table.key_of_find hr
    refine ⟨⟨r.followee, t.toUInt64, r.state, r.lastChangedAt.toUInt64⟩, ?_, hactive⟩
    have hme : r.follower = me := (Prod.mk.inj hkey).1
    simp [hr, followWire, hme, ht]
  · rintro ⟨e, he, hactive⟩
    obtain ⟨f, hf, hfe⟩ := Option.map_eq_some_iff.mp he
    obtain rfl := Entry.follow.inj hfe
    obtain ⟨r, hr, hentry⟩ := Option.bind_eq_some_iff.mp hf
    obtain ⟨-, hmap⟩ := Option.ite_none_right_eq_some.mp hentry
    obtain ⟨t, -, rfl⟩ := Option.map_eq_some_iff.mp hmap
    exact ⟨r, hr, hactive⟩

variable (me) in
theorem marked_iff_exported (pubkey kind : String) :
    (a.moderation.rows.any fun r => r.pubkey = pubkey ∧ r.kind = kind ∧ r.state = "active") = true ↔
      ∃ e, a.exported me (.mark pubkey kind) = some (.moderation e) ∧ e.state = "active" := by
  have hrow : ∀ r, a.moderation.row pubkey kind = some r ↔
      r ∈ a.moderation.rows ∧ r.pubkey = pubkey ∧ r.kind = kind := by
    intro r
    unfold Moderation.row
    rw [Table.find_eq_some_iff a.moderation.nodup_keys]
    simp [ModerationRow.key]
  simp only [List.any_eq_true, decide_eq_true_eq, exported_mark]
  constructor
  · rintro ⟨r, hr, hpubkey, hkind, hactive⟩
    refine ⟨⟨r.pubkey, r.kind, r.createdAt.toUInt64, r.state, r.lastChangedAt.toUInt64⟩, ?_, hactive⟩
    simp [(hrow r).mpr ⟨hr, hpubkey, hkind⟩, moderationWire]
  · rintro ⟨e, he, hactive⟩
    obtain ⟨f, hf, hfe⟩ := Option.map_eq_some_iff.mp he
    obtain rfl := Entry.moderation.inj hfe
    obtain ⟨r, hr, hentry⟩ := Option.bind_eq_some_iff.mp hf
    obtain rfl := Option.some.inj hentry
    obtain ⟨hmem, hpubkey, hkind⟩ := (hrow r).mp hr
    exact ⟨r, hmem, hpubkey, hkind, hactive⟩

end Shown

variable [DecidableEq ι]

/-- Along a run each device always shows the newest follows, mutes and blocks that it has heard of,
exactly if no edit is made by a clock behind its row, and no row becomes newer than an entry between
the comparison and the write. -/
theorem fleet_shows_newest_iff (me : String) (o : Observed ι) (hfresh : o.Fresh me)
    (run : List (FleetLabel ι)) :
    (∀ bs t, bs <+: run → Machine.exec (Observed.step me) o bs = some t → t.ShowsNewest me) ↔
      Machine.Along (Observed.step me)
        (fun o l => (∃ t, o.step me l = some t) → InOrder me o.fleet l) o run := by
  have hhealthy := hfresh.healthy
  refine Machine.forall_prefix_iff_along (I := Healthy me) ?_ ?_ hhealthy hhealthy.shows
  · intro s l hs
    exact step_showsNewest_iff hs l
  · intro s l t hs hok _ ht
    exact hs.step (hok ⟨t, ht⟩) ht

/-- Devices that have heard of the same edits of a follow, a mute or a block, whichever way these went and
whatever broke off, agree on it, if no two edits of it had the same time. -/
theorem fleet_agree (me : String) (o : Observed ι) (hfresh : o.Fresh me) (run : List (FleetLabel ι))
    (hok : Machine.Along (Observed.step me) (fun o => InOrder me o.fleet) o run) (t : Observed ι)
    (hrun : Machine.exec (Observed.step me) o run = some t) (k : Key)
    (hdistinct : lastWrites.Distinct k t.history.log) (a b : ι)
    (hsame : ∀ e, e.key = k → (e ∈ t.history.heard a ↔ e ∈ t.history.heard b)) :
    (t.fleet.stores a).exported me k = (t.fleet.stores b).exported me k ∧
      ∀ pubkey,
        (k = .followee pubkey → (t.fleet.stores a).graph.isFollowing me pubkey =
          (t.fleet.stores b).graph.isFollowing me pubkey) ∧
        (k = .mark pubkey "mute" → (t.fleet.stores a).moderation.isMuted pubkey =
          (t.fleet.stores b).moderation.isMuted pubkey) ∧
        (k = .mark pubkey "block" → (t.fleet.stores a).moderation.isBlocked pubkey =
          (t.fleet.stores b).moderation.isBlocked pubkey) := by
  have h := hfresh.healthy.exec hok hrun
  have hlook : (t.fleet.stores a).exported me k = (t.fleet.stores b).exported me k :=
    (h.shows a).agree (h.shows b) hdistinct (h.heard a) hsame
  refine ⟨hlook, fun pubkey => ⟨?_, ?_, ?_⟩⟩
  · rintro rfl
    rw [Bool.eq_iff_iff, isFollowing_eq_exported (h.exported a), isFollowing_eq_exported (h.exported b),
      hlook]
  · rintro rfl
    rw [Bool.eq_iff_iff]
    unfold Moderation.isMuted
    rw [marked_iff_exported me, marked_iff_exported me, hlook]
  · rintro rfl
    rw [Bool.eq_iff_iff]
    unfold Moderation.isBlocked
    rw [marked_iff_exported me, marked_iff_exported me, hlook]

section Examples

def newFleet : Observed (Fin 3) where
  fleet := ⟨fun _ => ⟨⟨[], []⟩, .empty, .empty, []⟩, fun _ => none⟩
  history := ⟨[], fun _ => [], fun _ => ([], [])⟩

theorem fresh_newFleet : newFleet.Fresh "alice" :=
  ⟨fun _ _ hr => (nomatch hr), fun _ => rfl, fun _ => rfl, fun _ => rfl, rfl⟩

/-- A session of two devices breaks off after its first entry; one with the third comes to its end. -/
def brokenOff : List (FleetLabel (Fin 3)) :=
  [.edit 0 (.follow ⟨"bob", 5, 0, 0, false⟩) 5, .edit 0 (.muteUser "carol") 6, .request 0 1 0, .answer 0,
    .compare 0, .edit 1 (.unfollow "carol") 7, .write 0, .request 1 2 0, .drop 0, .answer 1, .compare 1,
    .write 1, .compare 1, .write 1, .finish 1, .finish 1]

theorem exec_brokenOff : ∃ t, Machine.exec (Observed.step "alice") newFleet brokenOff = some t := by
  have hsome : (Machine.exec (Observed.step "alice") newFleet brokenOff).isSome = true := by decide +kernel
  exact Option.isSome_iff_exists.mp hsome

theorem fleet_shows_newest_broken_off : ∃ t, Machine.exec (Observed.step "alice") newFleet brokenOff = some t ∧
    t.ShowsNewest "alice" := by
  obtain ⟨t, ht⟩ := exec_brokenOff
  have hok : Machine.Along (Observed.step "alice") (fun o => InOrder "alice" o.fleet) newFleet brokenOff := by
    decide +kernel
  refine ⟨t, ht, (fleet_shows_newest_iff "alice" newFleet fresh_newFleet brokenOff).mpr (hok.mono ?_) brokenOff t
    (List.prefix_refl _) ht⟩
  intro o l hstep _
  exact hstep

/-- The first device has muted carol, and the third hears of it by the second session. -/
theorem fleet_agree_broken_off :
    let t := (Machine.exec (Observed.step "alice") newFleet brokenOff).getD newFleet
    (t.fleet.stores 0).moderation.isMuted "carol" = (t.fleet.stores 2).moderation.isMuted "carol" := by
  obtain ⟨t, ht⟩ := exec_brokenOff
  have hlog : lastWrites.Distinct (.mark "carol" "mute")
      ((Machine.exec (Observed.step "alice") newFleet brokenOff).getD newFleet).history.log := by
    unfold Stamped.Distinct
    decide +kernel
  have hzero : ((Machine.exec (Observed.step "alice") newFleet brokenOff).getD newFleet).history.heard 0 =
      [.moderation ⟨"carol", "mute", 6, "active", 6⟩, .follow ⟨"bob", 5, "active", 5⟩] := by decide +kernel
  have htwo : ((Machine.exec (Observed.step "alice") newFleet brokenOff).getD newFleet).history.heard 2 =
      [.moderation ⟨"carol", "mute", 6, "active", 6⟩, .follow ⟨"bob", 5, "active", 5⟩,
        .moderation ⟨"carol", "mute", 6, "active", 6⟩, .follow ⟨"bob", 5, "active", 5⟩] := by decide +kernel
  refine ((fleet_agree "alice" newFleet fresh_newFleet brokenOff (by decide +kernel) _ (by rw [ht]; rfl)
    (.mark "carol" "mute") hlog 0 2 fun e _ => ?_).2 "carol").2.1 rfl
  rw [hzero, htwo]
  simp only [List.mem_cons, List.not_mem_nil, or_false]
  tauto

end Examples

end Proscenium.DeviceSync
