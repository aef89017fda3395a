import Proscenium.Client.FollowerDefs
import Proscenium.Types.AnnouncementCache

/-! The client's cache of announcements. The gossip handler compares with the
cached version, or with 0 if there is none; the sync client does not compare. -/

namespace Proscenium.Client

open Proscenium.Types Machine VersionGate Feed

namespace PeerStore

variable (S : SignatureCrates) (me masterPubkey : String)

def announcementSlot (ps : PeerStore) : AnnouncementSlot where
  cached := (Table.find AnnouncementRow.masterPubkey masterPubkey ps.announcements).map
    AnnouncementRow.announcementJson
  copy := (Table.find PeerIdentityRow.masterPubkey masterPubkey ps.storage.peerDelegations).map
    PeerIdentityRow.transportNodeIds

/-- An announcement is handled to the end before the next one. -/
def takeArrival (ps : PeerStore) (x : Arrival) : PeerStore :=
  Author.receive S me x.now ps (match x.route with
    | .gossip => .linkedDevices x.pk x.announcement
    | .sync => .deviceAnnouncement x.pk x.announcement)

/-- `cache_peer_device_announcement`. -/
def cacheAnnouncement (ps : PeerStore) (pk : String) (a : LinkedDevicesAnnouncement) (now : UInt64) :
    PeerStore :=
  { ps.saveAnnouncement pk a now with storage := ps.storage.updateTransportNodeIds pk a.nodeIds }

def stores (ps : PeerStore) (x : Arrival) : Bool :=
  match x.route with
  | .gossip => acceptsAnnouncement S noFails x.pk x.announcement ps
  | .sync => acceptsSyncAnnouncement S x.pk x.announcement

variable {S} {me} {masterPubkey}

theorem takeArrival_eq (ps : PeerStore) (x : Arrival) : ps.takeArrival S me x =
    if ps.stores S x then ps.cacheAnnouncement x.pk x.announcement x.now else ps := by
  obtain ⟨route, pk, a, now⟩ := x
  cases route with
  | gossip =>
    simp only [takeArrival, Author.receive, Node.handle]
    by_cases haccepts : acceptsAnnouncement S noFails pk a ps = true
    · simp only [if_pos haccepts]
      exact (if_pos haccepts).symm
    · simp only [if_neg haccepts]
      exact (if_neg haccepts).symm
  | sync =>
    simp only [takeArrival, Author.receive, Node.handle]
    by_cases haccepts : acceptsSyncAnnouncement S pk a = true
    · simp only [if_pos haccepts]
      exact (if_pos haccepts).symm
    · simp only [if_neg haccepts]
      exact (if_neg haccepts).symm

theorem find_saveAnnouncement (ps : PeerStore) (a : LinkedDevicesAnnouncement) (now : UInt64) :
    Table.find AnnouncementRow.masterPubkey masterPubkey
      (ps.saveAnnouncement masterPubkey a now).announcements =
        some ⟨masterPubkey, a, a.version.toInt64, now.toInt64⟩ := by
  refine Table.find_upsert_replace ?_ ?_ ?_ _
  · intro _
    rfl
  · rintro r rfl
    rfl
  · rfl

theorem find_saveAnnouncement_of_ne {pk : String} (hne : masterPubkey ≠ pk) (ps : PeerStore)
    (a : LinkedDevicesAnnouncement) (now : UInt64) :
    Table.find AnnouncementRow.masterPubkey masterPubkey (ps.saveAnnouncement pk a now).announcements =
      Table.find AnnouncementRow.masterPubkey masterPubkey ps.announcements := by
  refine Table.find_upsert_of_ne ?_ ?_ hne _
  · intro _
    rfl
  · rfl

theorem slot_cacheAnnouncement (ps : PeerStore) (a : LinkedDevicesAnnouncement) (now : UInt64) :
    (ps.cacheAnnouncement masterPubkey a now).announcementSlot masterPubkey =
      (ps.announcementSlot masterPubkey).write LinkedDevicesAnnouncement.nodeIds a := by
  refine Slot.ext ?_ ?_
  · show (Table.find _ _ (ps.saveAnnouncement masterPubkey a now).announcements).map _ = some a
    rw [find_saveAnnouncement]
    rfl
  · show (Table.find _ _ (Table.updateWhere _ _ ps.storage.peerDelegations)).map _ =
      ((Table.find _ _ ps.storage.peerDelegations).map _).map _
    rw [Table.find_updateWhere ?_]
    rotate_left
    · intro _
      rfl
    cases hrow : Table.find PeerIdentityRow.masterPubkey masterPubkey ps.storage.peerDelegations with
    | none => rfl
    | some r => simp [Table.key_of_find hrow]

theorem slot_cacheAnnouncement_of_ne {pk : String} (hne : masterPubkey ≠ pk) (ps : PeerStore)
    (a : LinkedDevicesAnnouncement) (now : UInt64) :
    (ps.cacheAnnouncement pk a now).announcementSlot masterPubkey = ps.announcementSlot masterPubkey := by
  refine Slot.ext ?_ ?_
  · exact congrArg (Option.map _) (find_saveAnnouncement_of_ne hne ps a now)
  · refine congrArg (Option.map _) (Table.find_updateWhere_of_ne ?_ ?_ _)
    · intro _
      rfl
    · intro r hr
      exact decide_eq_false (hr ▸ hne)

variable (S) (me) (masterPubkey)

/-- What the cache of the key rests on: it is the newest, empty before anything is received, and
the column with the version says that of the announcement. -/
structure Cached (w : Receiving PeerStore) : Prop where
  newest : w.Newest (announcementSlot masterPubkey)
  empty : w.received = [] → (w.store.announcementSlot masterPubkey).cached = none
  column : ∀ r, Table.find AnnouncementRow.masterPubkey masterPubkey w.store.announcements = some r →
    r.version = r.announcementJson.version.toInt64

/-- A sync brings nothing older than what is cached, the first one on a topic is not version 0,
and the identity of the peer is cached by the time its devices are. -/
def ArrivesInOrder (w : Receiving PeerStore) (x : Arrival) : Prop :=
  let s := w.store.announcementSlot masterPubkey
  x.ValidFor S masterPubkey →
    (x.route = .sync → ∀ c, s.cached = some c → c.number ≤ x.announcement.number) ∧
    (x.route = .gossip → s.cached = none → 0 < x.announcement.number) ∧
    (x.route = .sync ∨ (∀ c, s.cached = some c → c.number < x.announcement.number) →
      s.copy = none → x.announcement.nodeIds = [])

variable {S} {me} {masterPubkey} {w w' : Receiving PeerStore} {x : Arrival}

theorem stores_iff (hvalid : x.ValidFor S masterPubkey) (h : Cached masterPubkey w) :
    w.store.stores S x = true ↔ x.route = .sync ∨
      ((w.store.announcementSlot masterPubkey).cached.map LinkedDevicesAnnouncement.number).getD 0 <
        x.announcement.number := by
  obtain ⟨route, pk, a, now⟩ := x
  obtain ⟨rfl, hmaster, hverified⟩ := hvalid
  have hvalid : (verifyLinkedDevicesAnnouncement S a).toBool = true := Checks.toBool_eq_true.mpr hverified
  cases route with
  | sync =>
    refine iff_of_true ?_ (.inl rfl)
    exact Bool.and_eq_true_iff.mpr ⟨decide_eq_true hmaster, hvalid⟩
  | gossip =>
    have hversion : w.store.getPeerAnnouncementVersion pk =
        (w.store.announcementSlot pk).cached.map LinkedDevicesAnnouncement.version := by
      show (Table.find _ _ _).map _ = ((Table.find _ _ _).map _).map _
      cases hrow : Table.find AnnouncementRow.masterPubkey pk w.store.announcements with
      | none => rfl
      | some r =>
        rw [Option.map_some, h.column r hrow, UInt64.toUInt64_toInt64]
        rfl
    have hnumber : ∀ slot : Option LinkedDevicesAnnouncement,
        (slot.map LinkedDevicesAnnouncement.version).getD 0 < a.version ↔
          (slot.map LinkedDevicesAnnouncement.number).getD 0 < a.number := by
      intro slot
      cases slot with
      | none => exact UInt64.lt_iff_toNat_lt
      | some c => exact UInt64.lt_iff_toNat_lt
    have hgossip : ¬ Route.gossip = Route.sync := by decide
    replace hmaster : a.masterPubkey = pk := hmaster
    refine Iff.trans ?_ (or_iff_right hgossip).symm
    rw [← hnumber, ← hversion]
    simp only [stores, acceptsAnnouncement, hmaster, hvalid, noFails, decide_true, Bool.true_and,
      decide_eq_true_eq, Bool.false_eq_true, if_false]

theorem slot_takeArrival (ps : PeerStore) (hvalid : x.ValidFor S masterPubkey) :
    (ps.takeArrival S me x).announcementSlot masterPubkey =
      if ps.stores S x then
        (ps.announcementSlot masterPubkey).write LinkedDevicesAnnouncement.nodeIds x.announcement
      else ps.announcementSlot masterPubkey := by
  rw [takeArrival_eq]
  obtain ⟨rfl, -⟩ := hvalid
  split
  · exact slot_cacheAnnouncement ..
  · rfl

theorem validFor_of_stores {ps : PeerStore} (hstores : ps.stores S x = true) : x.ValidFor S x.pk := by
  obtain ⟨route, pk, a, now⟩ := x
  cases route with
  | gossip =>
    have hchecks := Bool.and_eq_true_iff.mp (Bool.and_eq_true_iff.mp hstores).1
    exact ⟨rfl, of_decide_eq_true hchecks.1, Checks.toBool_eq_true.mp hchecks.2⟩
  | sync =>
    have hchecks := Bool.and_eq_true_iff.mp hstores
    exact ⟨rfl, of_decide_eq_true hchecks.1, Checks.toBool_eq_true.mp hchecks.2⟩

theorem row_takeArrival_of_not_valid (ps : PeerStore) (hvalid : ¬ x.ValidFor S masterPubkey) :
    (ps.takeArrival S me x).announcementSlot masterPubkey = ps.announcementSlot masterPubkey ∧
    Table.find AnnouncementRow.masterPubkey masterPubkey (ps.takeArrival S me x).announcements =
      Table.find AnnouncementRow.masterPubkey masterPubkey ps.announcements := by
  rw [takeArrival_eq]
  split
  next hstores =>
    have hne : masterPubkey ≠ x.pk := by
      rintro rfl
      exact hvalid (validFor_of_stores hstores)
    exact ⟨slot_cacheAnnouncement_of_ne hne .., find_saveAnnouncement_of_ne hne ..⟩
  next => exact ⟨rfl, rfl⟩

theorem column_step (h : Cached masterPubkey w) (hstep : w.step S masterPubkey (takeArrival S me) x = some w') :
    ∀ r, Table.find AnnouncementRow.masterPubkey masterPubkey w'.store.announcements = some r →
      r.version = r.announcementJson.version.toInt64 := by
  obtain rfl := Option.some.inj hstep
  by_cases hvalid : x.ValidFor S masterPubkey
  · obtain ⟨rfl, -⟩ := hvalid
    intro r hrow
    simp only [takeArrival_eq] at hrow
    split at hrow
    · have hsaved : _ = some _ := hrow.symm.trans (find_saveAnnouncement w.store x.announcement x.now)
      obtain rfl := Option.some.inj hsaved
      rfl
    · exact h.column r hrow
  · intro r hrow
    exact h.column r ((row_takeArrival_of_not_valid w.store hvalid).2.symm.trans hrow)

theorem keepsNewest_iff (h : Cached masterPubkey w) :
    w.KeepsNewest S masterPubkey (takeArrival S me) (announcementSlot masterPubkey) x ↔
      ArrivesInOrder S masterPubkey w x := by
  rw [Receiving.keepsNewest_iff h.newest h.empty
    (slot_takeArrival w.store) fun hvalid => (row_takeArrival_of_not_valid w.store hvalid).1]
  refine forall_congr' fun hvalid => ?_
  have hstores := stores_iff hvalid h
  cases hroute : x.route with
  | sync =>
    rw [hstores.mpr (.inl hroute)]
    exact Receiving.inOrder_sync_iff
  | gossip =>
    unfold Receiving.InOrder
    have hsync : ¬ Route.gossip = Route.sync := by decide
    rw [hroute, or_iff_right hsync] at hstores
    cases hcached : (w.store.announcementSlot masterPubkey).cached with
    | none =>
      rw [hcached] at hstores
      replace hstores : w.store.stores S x = true ↔ 0 < x.announcement.number := hstores
      split
      next htrue =>
        constructor
        · rintro ⟨-, hrow⟩
          exact ⟨fun hg => absurd hg hsync, fun _ _ => hstores.mp htrue, fun _ => hrow⟩
        · rintro ⟨-, -, hrow⟩
          refine ⟨fun c hc => absurd hc.symm (Option.some_ne_none c), hrow (.inr ?_)⟩
          intro c hc
          exact absurd hc.symm (Option.some_ne_none c)
      next hfalse =>
        constructor
        · rintro ⟨c, hc, -⟩
          exact absurd hc.symm (Option.some_ne_none c)
        · rintro ⟨-, hzero, -⟩
          exact absurd (hstores.mpr (hzero rfl rfl)) hfalse
    | some c =>
      rw [hcached] at hstores
      replace hstores : w.store.stores S x = true ↔ c.number < x.announcement.number := hstores
      split
      next htrue =>
        have hlt := hstores.mp htrue
        constructor
        · rintro ⟨-, hrow⟩
          exact ⟨fun hg => absurd hg hsync, fun _ hn => absurd hn (Option.some_ne_none c), fun _ => hrow⟩
        · rintro ⟨-, -, hrow⟩
          have hall : ∀ d, some c = some d → d.number < x.announcement.number := by
            rintro _ ⟨⟩
            exact hlt
          exact ⟨fun d hd => (hall d hd).le, hrow (.inr hall)⟩
      next hfalse =>
        have hle := not_lt.mp fun hlt => hfalse (hstores.mpr hlt)
        refine iff_of_true ⟨c, rfl, hle⟩ ⟨fun hg => absurd hg hsync, fun _ hn => absurd hn (Option.some_ne_none c), ?_⟩
        rintro (hg | hlt)
        · exact absurd hg hsync
        · exact absurd (hlt c rfl) hle.not_gt

theorem cached_step (h : Cached masterPubkey w)
    (hkeeps : w.KeepsNewest S masterPubkey (takeArrival S me) (announcementSlot masterPubkey) x)
    (hstep : w.step S masterPubkey (takeArrival S me) x = some w') : Cached masterPubkey w' := by
  refine ⟨hkeeps.newest w' hstep, ?_, column_step h hstep⟩
  exact Receiving.empty_step h.empty (fun hvalid => (row_takeArrival_of_not_valid w.store hvalid).1) hstep

def receivingNone (storage : Storage) (content : ContentStore) : Receiving PeerStore :=
  ⟨⟨storage, [], content⟩, []⟩

theorem cached_receivingNone (storage : Storage) (content : ContentStore) :
    Cached masterPubkey (receivingNone storage content) := by
  refine ⟨fun hne => absurd rfl hne, fun _ => rfl, ?_⟩
  intro r hrow
  exact absurd hrow.symm (Option.some_ne_none r)

theorem along_keepsNewest_iff (storage : Storage) (content : ContentStore) (run : List Arrival) :
    Along (Receiving.step S masterPubkey (takeArrival S me))
        (Receiving.KeepsNewest S masterPubkey (takeArrival S me) (announcementSlot masterPubkey))
        (receivingNone storage content) run ↔
      Along (Receiving.step S masterPubkey (takeArrival S me)) (ArrivesInOrder S masterPubkey)
        (receivingNone storage content) run := by
  refine along_iff (I := Cached masterPubkey) (fun w x h => keepsNewest_iff h) ?_
    (cached_receivingNone storage content)
  intro w x w' h hkeeps hstep
  exact cached_step h hkeeps hstep

end PeerStore
end Proscenium.Client
