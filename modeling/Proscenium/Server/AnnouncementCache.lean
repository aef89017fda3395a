import Proscenium.Client.AnnouncementCache

/-! The server's cache of announcements. A topic's message is compared with the
cached version as `i64`, and a first one is always taken; a sync does not compare. -/

namespace Proscenium.Server

open Proscenium.Types Machine VersionGate

structure AnnouncementRow where
  masterPubkey : String
  announcementJson : LinkedDevicesAnnouncement
  version : Int64
  cachedAt : Int64
  deriving DecidableEq, Repr

/-- A row of the server's `peer_delegations`. -/
structure DelegationRow where
  masterPubkey : String
  signingPubkey : String
  delegationJson : SigningKeyDelegation
  transportNodeId : Option String
  transportNodeIdsJson : List String
  cachedAt : Int64
  deriving DecidableEq, Repr

structure DeviceTables where
  announcements : List AnnouncementRow
  peerDelegations : List DelegationRow
  deriving DecidableEq, Repr

namespace DeviceTables

variable (S : SignatureCrates) (masterPubkey : String)

def cachePeerDeviceAnnouncement (t : DeviceTables) (pk : String) (a : LinkedDevicesAnnouncement)
    (version : Int64) (transportNodeIds : List String) (now : UInt64) : DeviceTables where
  announcements := Table.upsert AnnouncementRow.masterPubkey pk ⟨pk, a, version, now.toInt64⟩
    (fun r => ⟨r.masterPubkey, a, version, now.toInt64⟩) t.announcements
  peerDelegations := Table.updateWhere (·.masterPubkey = pk)
    (fun r => { r with transportNodeIdsJson := transportNodeIds }) t.peerDelegations

def getPeerAnnouncementVersion (t : DeviceTables) (pk : String) : Option Int64 :=
  (Table.find AnnouncementRow.masterPubkey pk t.announcements).map AnnouncementRow.version

/-- Does a `LinkedDevices` on the topic of `topicOwner` get cached? -/
def acceptsGossip (t : DeviceTables) (topicOwner : String) (a : LinkedDevicesAnnouncement) : Bool :=
  decide (a.masterPubkey = topicOwner) && (verifyLinkedDevicesAnnouncement S a).toBool &&
    !(t.getPeerAnnouncementVersion topicOwner).any fun v => a.version.toInt64 ≤ v

/-- An announcement of a frame of `sync_from_peer_inner`. -/
def acceptsSync (pubkey : String) (a : LinkedDevicesAnnouncement) : Bool :=
  decide (a.masterPubkey = pubkey) && (verifyLinkedDevicesAnnouncement S a).toBool

def stores (t : DeviceTables) (x : Arrival) : Bool :=
  match x.route with
  | .gossip => t.acceptsGossip S x.pk x.announcement
  | .sync => acceptsSync S x.pk x.announcement

def takeArrival (t : DeviceTables) (x : Arrival) : DeviceTables :=
  let a := x.announcement
  if t.stores S x then
    t.cachePeerDeviceAnnouncement x.pk a a.version.toInt64 (a.devices.map DeviceEntry.nodeId) x.now
  else t

def announcementSlot (t : DeviceTables) : AnnouncementSlot where
  cached := (Table.find AnnouncementRow.masterPubkey masterPubkey t.announcements).map
    AnnouncementRow.announcementJson
  copy := (Table.find DelegationRow.masterPubkey masterPubkey t.peerDelegations).map
    DelegationRow.transportNodeIdsJson

/-- What the cache of the key rests on, as on the client. -/
structure Cached (w : Receiving DeviceTables) : Prop where
  newest : w.Newest (announcementSlot masterPubkey)
  empty : w.received = [] → (w.store.announcementSlot masterPubkey).cached = none
  column : ∀ r, Table.find AnnouncementRow.masterPubkey masterPubkey w.store.announcements = some r →
    r.version = r.announcementJson.version.toInt64

/-- A sync brings nothing older than what is cached, on a topic the versions compare as `i64` as
they do as `u64`, and the delegation of the peer is cached by the time its devices are. -/
def ArrivesInOrder (w : Receiving DeviceTables) (x : Arrival) : Prop :=
  let s := w.store.announcementSlot masterPubkey
  x.ValidFor S masterPubkey →
    (x.route = .sync → ∀ c, s.cached = some c → c.number ≤ x.announcement.number) ∧
    (x.route = .gossip → ∀ c, s.cached = some c →
      (x.announcement.version.toInt64 ≤ c.version.toInt64 ↔ x.announcement.number ≤ c.number)) ∧
    (x.route = .sync ∨ (∀ c, s.cached = some c → c.number < x.announcement.number) →
      s.copy = none → x.announcement.nodeIds = [])

variable {S} {masterPubkey} {w w' : Receiving DeviceTables} {x : Arrival}

theorem find_cached (t : DeviceTables) (a : LinkedDevicesAnnouncement) (version : Int64)
    (ids : List String) (now : UInt64) :
    Table.find AnnouncementRow.masterPubkey masterPubkey
      (t.cachePeerDeviceAnnouncement masterPubkey a version ids now).announcements =
        some ⟨masterPubkey, a, version, now.toInt64⟩ := by
  refine Table.find_upsert_replace ?_ ?_ ?_ _
  · intro _
    rfl
  · rintro r rfl
    rfl
  · rfl

theorem find_cached_of_ne {pk : String} (hne : masterPubkey ≠ pk) (t : DeviceTables)
    (a : LinkedDevicesAnnouncement) (version : Int64) (ids : List String) (now : UInt64) :
    Table.find AnnouncementRow.masterPubkey masterPubkey
      (t.cachePeerDeviceAnnouncement pk a version ids now).announcements =
        Table.find AnnouncementRow.masterPubkey masterPubkey t.announcements := by
  refine Table.find_upsert_of_ne ?_ ?_ hne _
  · intro _
    rfl
  · rfl

theorem slot_cached (t : DeviceTables) (a : LinkedDevicesAnnouncement) (version : Int64) (now : UInt64) :
    (t.cachePeerDeviceAnnouncement masterPubkey a version a.nodeIds now).announcementSlot masterPubkey =
      (t.announcementSlot masterPubkey).write LinkedDevicesAnnouncement.nodeIds a := by
  refine Slot.ext ?_ ?_
  · exact congrArg (Option.map AnnouncementRow.announcementJson) (find_cached t a version a.nodeIds now)
  · show (Table.find _ _ (Table.updateWhere _ _ t.peerDelegations)).map _ =
      ((Table.find _ _ t.peerDelegations).map _).map _
    rw [Table.find_updateWhere ?_]
    rotate_left
    · intro _
      rfl
    cases hrow : Table.find DelegationRow.masterPubkey masterPubkey t.peerDelegations with
    | none => rfl
    | some r => simp [Table.key_of_find hrow]

theorem slot_cached_of_ne {pk : String} (hne : masterPubkey ≠ pk) (t : DeviceTables)
    (a : LinkedDevicesAnnouncement) (version : Int64) (ids : List String) (now : UInt64) :
    (t.cachePeerDeviceAnnouncement pk a version ids now).announcementSlot masterPubkey =
      t.announcementSlot masterPubkey := by
  refine Slot.ext ?_ ?_
  · exact congrArg (Option.map _) (find_cached_of_ne hne t a version ids now)
  · refine congrArg (Option.map _) (Table.find_updateWhere_of_ne ?_ ?_ _)
    · intro _
      rfl
    · intro r hr
      exact decide_eq_false (hr ▸ hne)

theorem stores_iff (hvalid : x.ValidFor S masterPubkey) (h : Cached masterPubkey w) :
    w.store.stores S x = true ↔ x.route = .sync ∨
      ∀ c, (w.store.announcementSlot masterPubkey).cached = some c →
        ¬ x.announcement.version.toInt64 ≤ c.version.toInt64 := by
  obtain ⟨route, pk, a, now⟩ := x
  obtain ⟨rfl, hmaster, hverified⟩ := hvalid
  have hvalid : (verifyLinkedDevicesAnnouncement S a).toBool = true := Checks.toBool_eq_true.mpr hverified
  cases route with
  | sync =>
    refine iff_of_true ?_ (.inl rfl)
    exact Bool.and_eq_true_iff.mpr ⟨decide_eq_true hmaster, hvalid⟩
  | gossip =>
    have hgossip : ¬ Route.gossip = Route.sync := by decide
    have hversion : w.store.getPeerAnnouncementVersion pk =
        (w.store.announcementSlot pk).cached.map fun c => c.version.toInt64 := by
      show (Table.find _ _ _).map _ = ((Table.find _ _ _).map _).map _
      cases hrow : Table.find AnnouncementRow.masterPubkey pk w.store.announcements with
      | none => rfl
      | some r =>
        rw [Option.map_some, h.column r hrow]
        rfl
    replace hmaster : a.masterPubkey = pk := hmaster
    refine Iff.trans ?_ (or_iff_right hgossip).symm
    simp only [stores, acceptsGossip, hmaster, hvalid, decide_true, Bool.true_and, hversion]
    cases (w.store.announcementSlot pk).cached with
    | none => simp
    | some c => simp

theorem slot_takeArrival (t : DeviceTables) (hvalid : x.ValidFor S masterPubkey) :
    (t.takeArrival S x).announcementSlot masterPubkey =
      if t.stores S x then
        (t.announcementSlot masterPubkey).write LinkedDevicesAnnouncement.nodeIds x.announcement
      else t.announcementSlot masterPubkey := by
  obtain ⟨rfl, -⟩ := hvalid
  unfold takeArrival
  dsimp only
  split
  · exact slot_cached ..
  · rfl

theorem validFor_of_stores {t : DeviceTables} (hstores : t.stores S x = true) : x.ValidFor S x.pk := by
  obtain ⟨route, pk, a, now⟩ := x
  cases route with
  | gossip =>
    have hchecks := Bool.and_eq_true_iff.mp (Bool.and_eq_true_iff.mp hstores).1
    exact ⟨rfl, of_decide_eq_true hchecks.1, Checks.toBool_eq_true.mp hchecks.2⟩
  | sync =>
    have hchecks := Bool.and_eq_true_iff.mp hstores
    exact ⟨rfl, of_decide_eq_true hchecks.1, Checks.toBool_eq_true.mp hchecks.2⟩

theorem row_takeArrival_of_not_valid (t : DeviceTables) (hvalid : ¬ x.ValidFor S masterPubkey) :
    (t.takeArrival S x).announcementSlot masterPubkey = t.announcementSlot masterPubkey ∧
    Table.find AnnouncementRow.masterPubkey masterPubkey (t.takeArrival S x).announcements =
      Table.find AnnouncementRow.masterPubkey masterPubkey t.announcements := by
  unfold takeArrival
  dsimp only
  split
  next hstores =>
    have hne : masterPubkey ≠ x.pk := by
      rintro rfl
      exact hvalid (validFor_of_stores hstores)
    exact ⟨slot_cached_of_ne hne .., find_cached_of_ne hne ..⟩
  next => exact ⟨rfl, rfl⟩

theorem column_step (h : Cached masterPubkey w) (hstep : w.step S masterPubkey (takeArrival S) x = some w') :
    ∀ r, Table.find AnnouncementRow.masterPubkey masterPubkey w'.store.announcements = some r →
      r.version = r.announcementJson.version.toInt64 := by
  obtain rfl := Option.some.inj hstep
  by_cases hvalid : x.ValidFor S masterPubkey
  · obtain ⟨rfl, -⟩ := hvalid
    intro r hrow
    simp only [takeArrival] at hrow
    split at hrow
    · have hsaved : _ = some _ := hrow.symm.trans (find_cached w.store x.announcement _ _ x.now)
      obtain rfl := Option.some.inj hsaved
      rfl
    · exact h.column r hrow
  · intro r hrow
    exact h.column r ((row_takeArrival_of_not_valid w.store hvalid).2.symm.trans hrow)

theorem keepsNewest_iff (h : Cached masterPubkey w) :
    w.KeepsNewest S masterPubkey (takeArrival S) (announcementSlot masterPubkey) x ↔
      ArrivesInOrder S masterPubkey w x := by
  rw [Receiving.keepsNewest_iff h.newest h.empty
    (slot_takeArrival w.store) fun hvalid => (row_takeArrival_of_not_valid w.store hvalid).1]
  refine forall_congr' fun hvalid => ?_
  have hstores := stores_iff hvalid h
  cases hroute : x.route with
  | sync =>
    rw [hstores.mpr (.inl hroute)]
    exact Receiving.inOrder_sync_iff
  | gossip =>
    unfold Receiving.InOrder
    have hsync : ¬ Route.gossip = Route.sync := by decide
    rw [hroute, or_iff_right hsync] at hstores
    cases hcached : (w.store.announcementSlot masterPubkey).cached with
    | none =>
      have hall : ∀ {p : LinkedDevicesAnnouncement → Prop}, ∀ c,
          (none : Option LinkedDevicesAnnouncement) = some c → p c :=
        fun c hc => absurd hc.symm (Option.some_ne_none c)
      have htrue : w.store.stores S x = true := hstores.mpr (hcached ▸ hall)
      rw [if_pos htrue]
      constructor
      · rintro ⟨-, hrow⟩
        exact ⟨fun hg => absurd hg hsync, fun _ => hall, fun _ => hrow⟩
      · rintro ⟨-, -, hrow⟩
        exact ⟨hall, hrow (.inr hall)⟩
    | some c =>
      have hone : ∀ {p : LinkedDevicesAnnouncement → Prop}, (∀ d, some c = some d → p d) ↔ p c := by
        intro p
        refine ⟨fun h => h c rfl, ?_⟩
        rintro hc _ ⟨⟩
        exact hc
      rw [hcached, hone] at hstores
      rw [hone, hone, hone]
      split
      next htrue =>
        have hnot := hstores.mp htrue
        constructor
        · rintro ⟨hle, hrow⟩
          refine ⟨fun hg => absurd hg hsync, fun _ => iff_of_false hnot ?_, fun _ => hrow⟩
          intro hge
          -- equal versions are equal as `i64`
          have heq : x.announcement.version = c.version := UInt64.toNat_inj.mp (le_antisymm hge hle)
          rw [heq] at hnot
          exact hnot (Int64.le_refl _)
        · rintro ⟨-, hsame, hrow⟩
          have hlt := not_le.mp fun hge => hnot ((hsame rfl).mpr hge)
          exact ⟨hlt.le, hrow (.inr hlt)⟩
      next hfalse =>
        have hdropped : x.announcement.version.toInt64 ≤ c.version.toInt64 :=
          not_not.mp fun hnot => hfalse (hstores.mpr hnot)
        constructor
        · rintro ⟨d, ⟨⟩, hle⟩
          refine ⟨fun hg => absurd hg hsync, fun _ => iff_of_true hdropped hle, ?_⟩
          rintro (hg | hlt)
          · exact absurd hg hsync
          · exact absurd hlt hle.not_gt
        · rintro ⟨-, hsame, -⟩
          exact ⟨c, rfl, (hsame rfl).mp hdropped⟩

theorem cached_step (h : Cached masterPubkey w)
    (hkeeps : w.KeepsNewest S masterPubkey (takeArrival S) (announcementSlot masterPubkey) x)
    (hstep : w.step S masterPubkey (takeArrival S) x = some w') : Cached masterPubkey w' := by
  refine ⟨hkeeps.newest w' hstep, ?_, column_step h hstep⟩
  exact Receiving.empty_step h.empty (fun hvalid => (row_takeArrival_of_not_valid w.store hvalid).1) hstep

def receivingNone (peerDelegations : List DelegationRow) : Receiving DeviceTables :=
  ⟨⟨[], peerDelegations⟩, []⟩

theorem along_keepsNewest_iff (peerDelegations : List DelegationRow) (run : List Arrival) :
    Along (Receiving.step S masterPubkey (takeArrival S))
        (Receiving.KeepsNewest S masterPubkey (takeArrival S) (announcementSlot masterPubkey))
        (receivingNone peerDelegations) run ↔
      Along (Receiving.step S masterPubkey (takeArrival S)) (ArrivesInOrder S masterPubkey)
        (receivingNone peerDelegations) run := by
  refine along_iff (I := Cached masterPubkey) (fun w x h => keepsNewest_iff h) ?_ ?_
  · intro w x w' h hkeeps hstep
    exact cached_step h hkeeps hstep
  · refine ⟨fun hne => absurd rfl hne, fun _ => rfl, ?_⟩
    intro r hrow
    exact absurd hrow.symm (Option.some_ne_none r)

end DeviceTables

open Client in
/-- The caches of the client and of the server hold the newest announcement of a master key in
exactly the runs in which the announcements arrive in order. -/
theorem announcement_caches_iff (S : SignatureCrates) (me masterPubkey : String) (storage : Client.Storage)
    (content : ContentStore) (peerDelegations : List DelegationRow) (run : List Arrival) :
    (Along (Receiving.step S masterPubkey (PeerStore.takeArrival S me))
        (Receiving.KeepsNewest S masterPubkey (PeerStore.takeArrival S me)
          (PeerStore.announcementSlot masterPubkey))
        (PeerStore.receivingNone storage content) run ↔
      Along (Receiving.step S masterPubkey (PeerStore.takeArrival S me))
        (PeerStore.ArrivesInOrder S masterPubkey) (PeerStore.receivingNone storage content) run) ∧
    (Along (Receiving.step S masterPubkey (DeviceTables.takeArrival S))
        (Receiving.KeepsNewest S masterPubkey (DeviceTables.takeArrival S)
          (DeviceTables.announcementSlot masterPubkey))
        (DeviceTables.receivingNone peerDelegations) run ↔
      Along (Receiving.step S masterPubkey (DeviceTables.takeArrival S))
        (DeviceTables.ArrivesInOrder S masterPubkey) (DeviceTables.receivingNone peerDelegations) run) :=
  ⟨PeerStore.along_keepsNewest_iff storage content run, DeviceTables.along_keepsNewest_iff peerDelegations run⟩

open Client in
/-- The topic of bob brings version 2 of his devices, and then a sync brings version 1 of them. -/
theorem not_newest_older_sync :
    ¬ Along (Receiving.step checksumCrates "bob" (PeerStore.takeArrival checksumCrates "alice"))
      (Receiving.KeepsNewest checksumCrates "bob" (PeerStore.takeArrival checksumCrates "alice")
        (PeerStore.announcementSlot "bob")) (PeerStore.receivingNone ⟨[], [], []⟩ ⟨[], []⟩)
      [⟨.gossip, "bob", checksumAnnouncement "bob" "bob key" [] 2, 5⟩,
        ⟨.sync, "bob", checksumAnnouncement "bob" "bob key" [] 1, 6⟩] := by
  rw [PeerStore.along_keepsNewest_iff]
  intro horder
  have hsync := (horder.2 _ rfl).1 ⟨rfl, rfl, verify_checksumAnnouncement "bob" "bob key" [] 1⟩
  have hvalid : Arrival.ValidFor checksumCrates "bob"
      ⟨.gossip, "bob", checksumAnnouncement "bob" "bob key" [] 2, 5⟩ :=
    ⟨rfl, rfl, verify_checksumAnnouncement "bob" "bob key" [] 2⟩
  have hstart : PeerStore.Cached "bob" (PeerStore.receivingNone ⟨[], [], []⟩ ⟨[], []⟩) :=
    PeerStore.cached_receivingNone ..
  have hstores := (PeerStore.stores_iff hvalid hstart).mpr (.inr (by decide))
  have hslot : (PeerStore.takeArrival checksumCrates "alice" _ _).announcementSlot "bob" = _ :=
    PeerStore.slot_takeArrival (PeerStore.receivingNone ⟨[], [], []⟩ ⟨[], []⟩).store hvalid
  rw [if_pos hstores] at hslot
  have hle := hsync.1 rfl _ (congrArg Slot.cached hslot)
  exact absurd hle (by decide)

end Proscenium.Server
