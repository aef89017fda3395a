import Proscenium.Client.RotationContent
import Proscenium.Lib.VersionGate

/-! The versions of the announcements that the devices of one user broadcast:
the constant 1 at every start, the number of linked devices plus one when a
device is linked, and at a rotation the cached version, or else the number of
devices, plus one. Every device counts for itself. -/

namespace Proscenium.Client.Author

open Proscenium.Types Machine

variable (K : KeyCrates)

def deriveTransportKey (masterSecret : SecretKey) (deviceIndex : UInt32) : SecretKey :=
  K.hkdf (bigEndian deviceIndex) masterSecret.toList "proscenium/transport-key".toUTF8.toList

def transportNodeId (masterSecret : SecretKey) (deviceIndex : UInt32) : String :=
  publicText K (deriveTransportKey K masterSecret deviceIndex)

/-- The statement on `linked_devices`, whose rows are in the order in which
`get_linked_devices` lists them; `is_self` and `last_seen_at` are left out. -/
def upsertLinkedDevice (entry : DeviceEntry) (rows : List DeviceEntry) : List DeviceEntry :=
  if rows.any fun r => r.nodeId = entry.nodeId then
    rows.map fun r =>
      if r.nodeId = entry.nodeId then
        { r with deviceName := entry.deviceName, isPrimary := entry.isPrimary }
      else r
  else rows.orderedInsert (fun x y => x.addedAt.toInt64 < y.addedAt.toInt64) entry

namespace Device

/-- `setup` reads the files of the device. -/
def restarted (w : Device) (now : UInt64) : Device :=
  let me := w.identity
  { w with
    identity := buildIdentity K me.masterSecret w.indexFile me.dmPubkey me.dmKeyIndex now
    tasks := [] }

def announce (w : Device) (devices : List DeviceEntry) (version now : UInt64) : LinkedDevicesAnnouncement :=
  signLinkedDevicesAnnouncement K w.identity.signingSecret
    ⟨w.identity.masterPubkey, w.identity.delegation, devices, version, now, ""⟩

def register (w : Device) (entry : DeviceEntry) (ok : Bool) : Device :=
  if ok then { w with linkedDevices := upsertLinkedDevice entry w.linkedDevices } else w

def primaryEntry (w : Device) (now : UInt64) : DeviceEntry :=
  ⟨transportNodeId K w.identity.masterSecret 0, "Primary Device", true, now⟩

/-- The last block of `broadcast_initial_state`, whatever else is linked. -/
def initialAnnouncement (w : Device) (now : UInt64) : LinkedDevicesAnnouncement :=
  w.announce K [w.primaryEntry K now] 1 now

/-- `next_device_index`: a count that is cast. -/
def nextDeviceIndex (w : Device) : UInt32 := UInt32.ofNat w.linkedDevices.length

def linkedEntry (w : Device) (now : UInt64) : DeviceEntry :=
  ⟨transportNodeId K w.identity.masterSecret w.nextDeviceIndex,
    "Device " ++ toString w.nextDeviceIndex.toNat, false, now⟩

/-- The end of `handle_link_request`, after the bundle is sent. -/
def linkedAnnouncement (w : Device) (now : UInt64) (registers : Bool) : LinkedDevicesAnnouncement :=
  w.announce K (w.register (w.linkedEntry K now) registers).linkedDevices
    (w.nextDeviceIndex + 1).toUInt64 now

/-- A rotation that nothing comes in between, with the outcome of each of its awaits until one
fails or the device is turned off, and what it broadcasts of the devices. -/
def runPhases (now : UInt64) (plan : Plan) :
    Device → RotatePhase → List Bool → Device × List LinkedDevicesAnnouncement
  | w, _, [] => (w, [])
  | w, phase, ok :: awaits =>
    let out := w.runRotate K ok now plan phase
    let sent := match phase with
      | .broadcastLinkedDevices a => if ok then [a] else []
      | _ => []
    match out.2 with
    | none => (out.1, sent)
    | some next =>
      let rest := runPhases now plan out.1 next awaits
      (rest.1, sent ++ rest.2)

def rotate (w : Device) (now : UInt64) (awaits : List Bool) : Device × List LinkedDevicesAnnouncement :=
  runPhases K now (w.plan K now) w .broadcastRotation awaits

end Device

/-- The devices with one master key, and what they broadcast of themselves, oldest first. -/
structure Fleet where
  device : Nat → Device
  running : Nat → Bool
  feed : List LinkedDevicesAnnouncement

namespace Fleet

/-- `sent` says if the device has a sender for its own feed at that time. -/
inductive Label where
  /-- A start, or a restart. -/
  | start (d : Nat) (issuedAt now : UInt64) (registers sent : Bool)
  | link (d : Nat) (now : UInt64) (registers lists sent : Bool)
  | rotate (d : Nat) (now : UInt64) (awaits : List Bool) (sent : Bool)
  deriving DecidableEq, Repr

/-- Devices that have the master key and their files, and empty tables. -/
def new (masterSecret : SecretKey) (indexFile : Nat → Option UInt32) (dmPubkey : Nat → String)
    (dmKeyIndex : Nat → UInt32) : Fleet where
  device d :=
    .start (buildIdentity K masterSecret (indexFile d) (dmPubkey d) (dmKeyIndex d) 0) (indexFile d) []
  running _ := false
  feed := []

/-- The device after the step, and what it has broadcast of the devices. -/
def act (f : Fleet) : Label → Nat × Device × List LinkedDevicesAnnouncement
  | .start d issuedAt now registers sent =>
    let w := (f.device d).restarted K issuedAt
    (d, w.register (w.primaryEntry K now) registers, if sent then [w.initialAnnouncement K now] else [])
  | .link d now registers lists sent =>
    let w := f.device d
    (d, w.register (w.linkedEntry K now) registers,
      if lists && sent then [w.linkedAnnouncement K now registers] else [])
  | .rotate d now awaits sent =>
    let out := (f.device d).rotate K now awaits
    (d, out.1, if sent then out.2 else [])

def enabled (f : Fleet) : Label → Bool
  | .start _ _ _ _ _ => true
  | .link d _ _ _ _ | .rotate d _ _ _ => f.running d

def step (f : Fleet) (l : Label) : Option Fleet :=
  if f.enabled l then
    let (d, w, sent) := f.act K l
    some ⟨Function.update f.device d w, Function.update f.running d true, f.feed ++ sent⟩
  else none

def versionOf (a : LinkedDevicesAnnouncement) : Nat := a.version.toNat

/-- What a receiver holds that only takes higher versions, as `handle_linked_devices` does. -/
def received (feed : List LinkedDevicesAnnouncement) : Option LinkedDevicesAnnouncement :=
  feed.foldl (VersionGate.accept versionOf 0) none

/-- These are the devices and the delegation of the last announcement. -/
def Repeats (feed : List LinkedDevicesAnnouncement) (devices : List DeviceEntry)
    (delegation : SigningKeyDelegation) : Prop :=
  ∃ last, feed.getLast? = some last ∧ devices = last.devices ∧ delegation = last.delegation

/-- The receiver holds the devices and the delegation that were announced last. -/
def UpToDate (feed : List LinkedDevicesAnnouncement) : Prop :=
  feed ≠ [] → ∃ a, received feed = some a ∧ Repeats feed a.devices a.delegation

/-- A change goes out with a version above all earlier ones, and a receiver follows. -/
structure Advances (f : Fleet) (l : Label) : Prop where
  higher : ∀ f' a, f.step K l = some f' → f'.feed = f.feed ++ [a] →
    ¬ Repeats f.feed a.devices a.delegation → ∀ b ∈ f.feed, versionOf b < versionOf a
  upToDate : ∀ f', f.step K l = some f' → UpToDate f'.feed

def top (feed : List LinkedDevicesAnnouncement) : Nat :=
  (feed.map versionOf).foldr max 0

/-- The counter that a broadcast takes its version from is not behind what was broadcast before,
or it is no change: nothing has been broadcast before a start, there are at least as many
linked devices as the highest version when one more is linked, and the cached version, or else
the number of devices, is at least that at a rotation. -/
def CountersAhead (f : Fleet) : Label → Prop
  | .start d issuedAt now _ sent =>
    let w := (f.device d).restarted K issuedAt
    sent → top f.feed = 0 ∨ Repeats f.feed [w.primaryEntry K now] w.identity.delegation
  | .link d now registers lists sent =>
    let w := f.device d
    f.running d → lists → sent → top f.feed < (w.linkedDevices.length + 1) % 2 ^ 32 ∨
      Repeats f.feed (w.register (w.linkedEntry K now) registers).linkedDevices w.identity.delegation
  | .rotate d now awaits sent =>
    let w := f.device d
    f.running d → sent → ∀ reads caches rest, awaits = true :: true :: reads :: caches :: true :: rest →
      let cached := if reads then w.announcementVersion else none
      top f.feed < ((cached.map UInt64.toNat).getD w.linkedDevices.length + 1) % 2 ^ 64 ∨
        Repeats f.feed w.linkedDevices (w.plan K now).newDelegation

section Receiver

variable {feed : List LinkedDevicesAnnouncement} {a : LinkedDevicesAnnouncement}

theorem top_lt_iff {n : Nat} : top feed < n ↔ 0 < n ∧ ∀ b ∈ feed, versionOf b < n := by
  unfold top
  induction feed with
  | nil => simp
  | cons b feed ih =>
    rw [List.map_cons, List.foldr_cons, max_lt_iff, ih, List.forall_mem_cons]
    constructor
    · rintro ⟨hb, hn, hfeed⟩
      exact ⟨hn, hb, hfeed⟩
    · rintro ⟨hn, hb, hfeed⟩
      exact ⟨hb, hn, hfeed⟩

theorem received_append :
    received (feed ++ [a]) = VersionGate.accept versionOf 0 (received feed) a :=
  List.foldl_concat ..

theorem current_received_lt_iff :
    VersionGate.current versionOf 0 (received feed) < versionOf a ↔
      top feed < versionOf a := by
  unfold received
  rw [VersionGate.current_foldl_lt_iff, top_lt_iff]
  rfl

theorem repeats_append (devices : List DeviceEntry) (delegation : SigningKeyDelegation) :
    Repeats (feed ++ [a]) devices delegation ↔ devices = a.devices ∧ delegation = a.delegation := by
  unfold Repeats
  rw [List.getLast?_concat]
  constructor
  · rintro ⟨last, ⟨⟩, hsame⟩
    exact hsame
  · intro hsame
    exact ⟨a, rfl, hsame⟩

theorem upToDate_append (h : UpToDate feed)
    (ha : top feed < versionOf a ∨ Repeats feed a.devices a.delegation) : UpToDate (feed ++ [a]) := by
  intro _
  by_cases hlt : VersionGate.current versionOf 0 (received feed) < versionOf a
  · refine ⟨a, ?_, (repeats_append _ _).mpr ⟨rfl, rfl⟩⟩
    rw [received_append]
    exact VersionGate.accept_of_lt hlt
  · obtain ⟨last, hlast, hdevices, hdelegation⟩ := ha.resolve_left fun htop =>
      hlt (current_received_lt_iff.mpr htop)
    have hsome : feed ≠ [] := by
      rintro rfl
      exact absurd hlast.symm (Option.some_ne_none last)
    obtain ⟨b, hb, last', hlast', hbdevices, hbdelegation⟩ := h hsome
    obtain rfl : last' = last := Option.some.inj (hlast'.symm.trans hlast)
    refine ⟨b, ?_, (repeats_append _ _).mpr ⟨?_, ?_⟩⟩
    · rw [received_append]
      exact (VersionGate.accept_of_le (not_lt.mp hlt)).trans hb
    · exact hbdevices.trans hdevices.symm
    · exact hbdelegation.trans hdelegation.symm

theorem top_lt_of_upToDate (h : UpToDate (feed ++ [a]))
    (hhigher : ∀ b ∈ feed, versionOf b < versionOf a) : top feed < versionOf a := by
  refine top_lt_iff.mpr ⟨?_, hhigher⟩
  by_contra hzero
  -- the first announcement would not be taken
  have hnone : feed = [] := by
    refine List.eq_nil_iff_forall_not_mem.mpr fun b hb => ?_
    exact hzero (lt_of_le_of_lt (Nat.zero_le _) (hhigher b hb))
  subst hnone
  obtain ⟨b, hb, -⟩ := h (List.cons_ne_nil a [])
  have hle : versionOf a ≤ VersionGate.current versionOf 0 (received []) :=
    not_lt.mp fun hlt => hzero (current_received_lt_iff.mp hlt)
  rw [received_append, VersionGate.accept_of_le hle] at hb
  exact Option.some_ne_none b hb.symm

end Receiver

variable {K} {f f' : Fleet} {l : Label}

theorem feed_step (hstep : f.step K l = some f') : f.enabled l = true ∧ f'.feed = f.feed ++ (f.act K l).2.2 := by
  unfold step at hstep
  obtain ⟨henabled, hstep⟩ := Option.ite_none_right_eq_some.mp hstep
  obtain rfl := Option.some.inj hstep
  exact ⟨henabled, rfl⟩

theorem step_of_enabled (henabled : f.enabled l = true) :
    ∃ f', f.step K l = some f' ∧ f'.feed = f.feed ++ (f.act K l).2.2 :=
  ⟨_, if_pos henabled, rfl⟩

theorem advances_of_silent (h : UpToDate f.feed) (hsilent : f.enabled l = true → (f.act K l).2.2 = []) :
    f.Advances K l := by
  have hfeed : ∀ f', f.step K l = some f' → f'.feed = f.feed := by
    intro f' hstep
    obtain ⟨henabled, hfeed⟩ := feed_step hstep
    rw [hfeed, hsilent henabled, List.append_nil]
  refine ⟨?_, ?_⟩
  · intro f' a hstep happend
    exact absurd (List.self_eq_append_right.mp ((hfeed f' hstep).symm.trans happend)) (List.cons_ne_nil a [])
  · intro f' hstep
    rw [hfeed f' hstep]
    exact h

theorem advances_iff_of_sent (h : UpToDate f.feed) (henabled : f.enabled l = true)
    {a : LinkedDevicesAnnouncement} (ha : (f.act K l).2.2 = [a]) :
    f.Advances K l ↔ top f.feed < versionOf a ∨ Repeats f.feed a.devices a.delegation := by
  obtain ⟨f', hstep, hfeed⟩ := step_of_enabled (K := K) henabled
  rw [ha] at hfeed
  constructor
  · intro hadvances
    refine or_iff_not_imp_right.mpr fun hchange => ?_
    have hlatest := hadvances.upToDate f' hstep
    rw [hfeed] at hlatest
    exact top_lt_of_upToDate hlatest (hadvances.higher f' a hstep hfeed hchange)
  · intro hahead
    refine ⟨?_, ?_⟩
    · intro g b hg happend hchange
      obtain rfl : f' = g := Option.some.inj (hstep.symm.trans hg)
      obtain rfl : a = b := List.singleton_inj.mp (List.append_cancel_left (hfeed.symm.trans happend))
      exact (top_lt_iff.mp (hahead.resolve_right hchange)).2
    · intro g hg
      obtain rfl : f' = g := Option.some.inj (hstep.symm.trans hg)
      rw [hfeed]
      exact upToDate_append h hahead

theorem runPhases_later (now : UInt64) (plan : Plan) (w : Device) (awaits : List Bool) {phase : RotatePhase}
    (hphase : phase = .registerAgain ∨ phase = .writeIndex ∨ phase = .setIdentity) :
    (Device.runPhases K now plan w phase awaits).2 = [] := by
  have hset : ∀ u awaits, (Device.runPhases K now plan u .setIdentity awaits).2 = [] := by
    intro u awaits
    cases awaits <;> rfl
  have hwrite : ∀ u awaits, (Device.runPhases K now plan u .writeIndex awaits).2 = [] := by
    intro u awaits
    rcases awaits with _ | ⟨_ | _, awaits⟩
    · rfl
    · rfl
    · exact hset _ awaits
  rcases hphase with rfl | rfl | rfl
  · rcases awaits with _ | ⟨_ | _, awaits⟩
    · rfl
    · rfl
    · exact hwrite _ awaits
  · exact hwrite w awaits
  · exact hset w awaits

theorem rotate_sent (w : Device) (now : UInt64) (awaits : List Bool) :
    (w.rotate K now awaits).2 = match awaits with
      | true :: true :: reads :: _ :: true :: _ => [w.announcement K (w.plan K now) w.linkedDevices
          ((if reads then w.announcementVersion else none).getD (UInt64.ofNat w.linkedDevices.length) + 1)]
      | _ => [] := by
  rcases awaits with _ | ⟨_ | _, _ | ⟨_ | _, _ | ⟨reads, _ | ⟨caches, _ | ⟨_ | _, rest⟩⟩⟩⟩⟩
  case cons.true.cons.true.cons.cons.cons.true =>
    refine congrArg (List.cons _) ?_
    exact runPhases_later now _ _ rest (.inl rfl)
  all_goals rfl

theorem versionOf_rotation (cached : Option UInt64) (n : Nat) :
    (cached.getD (UInt64.ofNat n) + 1).toNat = ((cached.map UInt64.toNat).getD n + 1) % 2 ^ 64 := by
  cases cached with
  | none =>
    rw [Option.getD_none, Option.map_none, Option.getD_none, UInt64.toNat_add, UInt64.toNat_ofNat',
      Nat.mod_add_mod]
    rfl
  | some v => exact UInt64.toNat_add v 1

theorem versionOf_link (n : Nat) : (UInt32.ofNat n + 1).toUInt64.toNat = (n + 1) % 2 ^ 32 := by
  rw [UInt32.toNat_toUInt64, UInt32.toNat_add, UInt32.toNat_ofNat', Nat.mod_add_mod]
  rfl

theorem advances_iff (h : UpToDate f.feed) (l : Label) : f.Advances K l ↔ f.CountersAhead K l := by
  cases l with
  | start d issuedAt now registers sent =>
    unfold CountersAhead
    cases sent with
    | false => exact iff_of_true (advances_of_silent h fun _ => rfl) fun hsent => absurd hsent Bool.false_ne_true
    | true =>
      rw [advances_iff_of_sent h (l := .start d issuedAt now registers true) rfl rfl]
      simp only [forall_const]
      exact or_congr Nat.lt_one_iff Iff.rfl
  | link d now registers lists sent =>
    unfold CountersAhead
    by_cases hsent : f.running d = true ∧ lists = true ∧ sent = true
    · obtain ⟨hrunning, rfl, rfl⟩ := hsent
      rw [advances_iff_of_sent h (l := .link d now registers true true) hrunning rfl]
      simp only [hrunning, forall_const]
      refine or_congr ?_ Iff.rfl
      rw [← versionOf_link]
      rfl
    · refine iff_of_true (advances_of_silent h fun hrunning => if_neg fun hboth => ?_) ?_
      · exact hsent ⟨hrunning, Bool.and_eq_true_iff.mp hboth⟩
      · intro hrunning hlists hsent'
        exact absurd ⟨hrunning, hlists, hsent'⟩ hsent
  | rotate d now awaits sent =>
    unfold CountersAhead
    by_cases hsent : f.running d = true ∧ sent = true
    · obtain ⟨hrunning, rfl⟩ := hsent
      have hact : (f.act K (.rotate d now awaits true)).2.2 = ((f.device d).rotate K now awaits).2 := rfl
      rw [rotate_sent] at hact
      split at hact
      next reads caches rest =>
        rw [advances_iff_of_sent h (l := .rotate d now _ true) hrunning hact]
        simp only [hrunning, forall_const]
        constructor
        · rintro hahead _ _ _ ⟨⟩
          refine hahead.imp_left fun htop => ?_
          rw [← versionOf_rotation]
          exact htop
        · intro hahead
          refine (hahead reads caches rest rfl).imp_left fun htop => ?_
          rw [← versionOf_rotation] at htop
          exact htop
      next hshort =>
        refine iff_of_true (advances_of_silent h fun _ => hact) ?_
        rintro - - reads caches rest rfl
        exact (hshort reads caches rest rfl).elim
    · refine iff_of_true (advances_of_silent h fun hrunning => if_neg fun hboth => ?_) ?_
      · exact hsent ⟨hrunning, hboth⟩
      · intro hrunning hsent'
        exact absurd ⟨hrunning, hsent'⟩ hsent

/-- Versions advance in a run, and a receiver ends with what was announced last, exactly when
every counter is ahead at the time it is used. -/
theorem versions_advance_iff (masterSecret : SecretKey) (indexFile : Nat → Option UInt32)
    (dmPubkey : Nat → String) (dmKeyIndex : Nat → UInt32) (run : List Label) :
    Along (step K) (Advances K) (new K masterSecret indexFile dmPubkey dmKeyIndex) run ↔
      Along (step K) (CountersAhead K) (new K masterSecret indexFile dmPubkey dmKeyIndex) run := by
  refine along_iff (I := fun f => UpToDate f.feed) (fun f l h => advances_iff h l) ?_ ?_
  · intro f l f' _ hadvances hstep
    exact hadvances.upToDate f' hstep
  · intro hne
    exact absurd rfl hne

/-- The program is started, a device is linked, and the program is started again. -/
def startedTwice : List Label :=
  [.start 0 10 11 true true, .link 0 20 true true true, .start 0 30 31 true true]

theorem not_advance_startedTwice :
    ¬ Along (step plainKeys) (Advances plainKeys)
      (new plainKeys zeroSecret (fun _ => none) (fun _ => "") fun _ => 0) startedTwice := by
  intro h
  obtain ⟨f, hbefore, hfeed⟩ : ∃ f, exec (step plainKeys)
      (new plainKeys zeroSecret (fun _ => none) (fun _ => "") fun _ => 0) (startedTwice.take 2) = some f ∧
      f.feed.map (fun a => (a.version, a.delegation.issuedAt)) = [(1, 10), (2, 10)] := ⟨_, rfl, rfl⟩
  rw [← List.take_append_drop 2 startedTwice] at h
  have hlast := (h.of_append.2 f hbefore).1
  have hissued : ∀ b ∈ f.feed, b.delegation.issuedAt = 10 := by
    intro b hb
    have hmem : (b.version, b.delegation.issuedAt) ∈ [((1 : UInt64), (10 : UInt64)), (2, 10)] := by
      rw [← hfeed]
      exact List.mem_map_of_mem hb
    simp only [List.mem_cons, Prod.mk.injEq, List.not_mem_nil, or_false] at hmem
    exact hmem.elim And.right And.right
  obtain ⟨b, hb, hversion⟩ : ∃ b ∈ f.feed, (b.version, b.delegation.issuedAt) = (2, 10) := by
    refine List.mem_map.mp ?_
    rw [hfeed]
    decide
  let a := ((f.device 0).restarted plainKeys 30).initialAnnouncement plainKeys 31
  have hchange : ¬ Repeats f.feed a.devices a.delegation := by
    rintro ⟨last, hgetLast, -, hdelegation⟩
    have hsame : (30 : UInt64) = 10 :=
      (congrArg SigningKeyDelegation.issuedAt hdelegation).trans
        (hissued last (List.mem_of_getLast? hgetLast))
    exact absurd hsame (by decide)
  have hlt : versionOf b < 1 := hlast.higher _ a rfl rfl hchange b hb
  unfold versionOf at hlt
  rw [(Prod.mk.inj hversion).1] at hlt
  exact absurd hlt (by decide)

end Fleet
end Proscenium.Client.Author
