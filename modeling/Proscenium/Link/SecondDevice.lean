import Proscenium.Link.FailedLinks

/-! What a linked device is after its next start. `build_identity` makes everything
from the master key and the two key indices; the files with the transport key and
the device index, which the link writes, are read by nobody, and the transport key
is always the one of index 0. -/

namespace Proscenium.Link

open Proscenium.Types Client
open Client.Author (SecretKey zeroSecret transportNodeId deriveTransportKey)

variable (C : LinkCrates)

/-- The bundle holds the keys of the existing device, as the new one reads them. -/
structure Carries (me : Identity) (bundle : LinkBundleData) : Prop where
  signing : Base64.Engine.urlSafeNoPad.decode bundle.signingSecretKey = some me.signingSecret.toList
  dm : Base64.Engine.urlSafeNoPad.decode bundle.dmSecretKey = some me.dmSecret.toList
  transport : Base64.Engine.urlSafeNoPad.decode bundle.transportSecretKey =
    some (deriveTransportKey C.toKeyCrates me.masterSecret bundle.deviceIndex).toList
  master : bundle.masterSecretKey.bind Base64.Engine.urlSafeNoPad.decode = some me.masterSecret.toList
  delegation : bundle.delegation = me.delegation

/-- The new device is one more device of the user, for the devices that were there before, for the
existing device after it has registered it, and in its own tables. -/
structure SecondDevice (before after : LinkHost C) (bundle : LinkBundleData) (new : Identity) (store : LinkStore) :
    Prop where
  master : new.masterSecret = before.identity.masterSecret
  signing : new.signingSecret = before.identity.signingSecret
  dm : new.dmSecret = before.identity.dmSecret
  transport : new.transportNodeId =
    transportNodeId C.toKeyCrates before.identity.masterSecret bundle.deviceIndex
  registered : ∃ entry ∈ after.linkedDevices, entry.nodeId = new.transportNodeId
  others : new.transportNodeId ≠ before.identity.transportNodeId ∧
    ∀ entry ∈ before.linkedDevices, entry.nodeId ≠ new.transportNodeId
  profile : ∀ profile ∈ bundle.profile, store.getProfile new.masterPubkey = some profile
  follows : ∀ entry ∈ bundle.follows, store.graph.isFollowing new.masterPubkey entry.pubkey = true
  blocked : ∀ pubkey ∈ bundle.blockedUsers, pubkey ∈ store.getPubkeys "block"
  muted : ∀ pubkey ∈ bundle.mutedUsers, pubkey ∈ store.getPubkeys "mute"

section Files

theorem holds_foldl {l : List FileWrite} (hdistinct : l.Pairwise fun x y => x.file ≠ y.file) (f : DataDir)
    {x : FileWrite} (hx : x ∈ l) : x.Holds (l.foldl DataDir.write f) := by
  induction l generalizing f with
  | nil => exact absurd hx List.not_mem_nil
  | cons y l ih =>
    obtain ⟨hy, hl⟩ := List.pairwise_cons.mp hdistinct
    rw [List.foldl_cons]
    rcases List.mem_cons.mp hx with rfl | hx
    · rw [foldl_write_comm hy]
      exact write_again _ x
    · exact ih hl _ hx

theorem performed_of_all {steps : List FileStep} {f : DataDir} (hall : (runSteps steps f).2 = true) :
    ∀ s ∈ steps, ∃ x, s = some (x, true) ∧ x ∈ performed steps := by
  induction steps generalizing f with
  | nil => exact fun s hs => absurd hs List.not_mem_nil
  | cons s rest ih =>
    rcases s with _ | ⟨y, _ | _⟩
    · exact absurd hall Bool.false_ne_true
    · exact absurd hall Bool.false_ne_true
    · intro s hs
      rcases List.mem_cons.mp hs with rfl | hs
      · exact ⟨y, rfl, List.mem_cons_self⟩
      · obtain ⟨x, hsome, hx⟩ := ih (f := f.write y) hall s hs
        exact ⟨x, hsome, List.mem_cons_of_mem _ hx⟩

theorem masterKey_written {bundle : LinkBundleData} {w : FileWrites} {f : DataDir}
    (hall : (runSteps (fileSteps bundle w) f).2 = true) {bytes : Bytes}
    (hmaster : bundle.masterSecretKey.bind Base64.Engine.urlSafeNoPad.decode = some bytes) :
    (runSteps (fileSteps bundle w) f).1.masterKey = some bytes := by
  obtain ⟨text, htext, hdecode⟩ := Option.bind_eq_some_iff.mp hmaster
  have hstep : writeKey text w.masterKey .masterKey ∈ fileSteps bundle w := by
    unfold fileSteps
    rw [htext]
    exact List.mem_append_right _ (List.mem_singleton.mpr rfl)
  obtain ⟨x, hsome, hx⟩ := performed_of_all hall _ hstep
  rw [writeKey, hdecode] at hsome
  obtain ⟨rfl, hok⟩ := Prod.mk.inj (Option.some.inj hsome)
  have hwritten : written bytes w.masterKey = some bytes := by
    cases houtcome : w.masterKey with
    | ok => rfl
    | error =>
      rw [houtcome] at hok
      exact absurd hok Bool.false_ne_true
  have hholds := holds_foldl (pairwise_performed (pairwise_fileSteps bundle w)) f hx
  rw [← runSteps_eq, hwritten] at hholds
  exact (congrArg DataDir.masterKey hholds).symm

end Files

section Restart

variable {C}

theorem buildIdentity_eq {files : DataDir} {masterSecret : SecretKey}
    (hfile : files.masterKey = some masterSecret.toList) (fresh : SecretKey) (now : UInt64) :
    buildIdentity C files fresh now = some (identityOf C masterSecret files now) := by
  have hlength : masterSecret.toList.length = 32 := Vector.length_toList
  have hkey : loadOrCreateKeyBytes files.masterKey fresh = some masterSecret := by
    rw [hfile]
    exact dif_pos hlength
  unfold buildIdentity
  rw [hkey]
  rfl

variable {d : NewDevice} {masterPubkey : String} {hs : C.Handshake} {respBytes : Bytes} {outcome : Outcomes}
  {w : FileWrites} {bundle : LinkBundleData}

theorem steps_of_linked (hreceive : receiveBundle C hs respBytes = .ok bundle)
    (hlinked : (d.linkWithDevice C masterPubkey hs respBytes outcome w).2 = true) :
    (d.linkWithDevice C masterPubkey hs respBytes outcome w).1.files = (runSteps (fileSteps bundle w) d.files).1 ∧
      (runSteps (fileSteps bundle w) d.files).2 = true := by
  unfold NewDevice.linkWithDevice at hlinked ⊢
  simp only [hreceive] at hlinked ⊢
  split at hlinked
  next himported =>
    rw [if_pos himported]
    exact ⟨rfl, hlinked⟩
  next => exact absurd hlinked Bool.false_ne_true

theorem transportNodeId_linked {me : Identity} (hcarries : Carries C me bundle)
    (hreceive : receiveBundle C hs respBytes = .ok bundle)
    (hlinked : (d.linkWithDevice C masterPubkey hs respBytes outcome w).2 = true) {fresh : SecretKey} {now : UInt64}
    {new : Identity}
    (hrestart : buildIdentity C (d.linkWithDevice C masterPubkey hs respBytes outcome w).1.files fresh now = some new) :
    new.masterSecret = me.masterSecret ∧ new.transportNodeId = transportNodeId C.toKeyCrates me.masterSecret 0 := by
  obtain ⟨hfiles, hall⟩ := steps_of_linked hreceive hlinked
  have hmaster := masterKey_written hall hcarries.master
  rw [← hfiles] at hmaster
  obtain rfl := Option.some.inj ((buildIdentity_eq hmaster fresh now).symm.trans hrestart)
  exact ⟨rfl, rfl⟩

/-- A link that succeeds makes no second device: after its next start the new one has the NodeId of
the existing one. -/
theorem not_secondDevice {before after : LinkHost C} {master : SecretKey} {files : DataDir} {issuedAt : UInt64}
    (hbuilt : before.identity = identityOf C master files issuedAt) (hcarries : Carries C before.identity bundle)
    (hreceive : receiveBundle C hs respBytes = .ok bundle)
    (hlinked : (d.linkWithDevice C masterPubkey hs respBytes outcome w).2 = true) {fresh : SecretKey} {now : UInt64}
    {new : Identity}
    (hrestart : buildIdentity C (d.linkWithDevice C masterPubkey hs respBytes outcome w).1.files fresh now = some new) :
    ¬ SecondDevice C before after bundle new (d.linkWithDevice C masterPubkey hs respBytes outcome w).1.store := by
  intro hsecond
  obtain ⟨-, htransport⟩ := transportNodeId_linked hcarries hreceive hlinked hrestart
  refine hsecond.others.1 ?_
  rw [htransport, hbuilt]
  rfl

end Restart

section Examples

def existingIdentity : Identity := plainIdentity (emptyBundle zeroSecret) zeroSecret

/-- What the existing device has, for the device of index 1, with keys that the new device reads. -/
def readableBundle : LinkBundleData :=
  let b64 := fun key : SecretKey => Base64.Engine.urlSafeNoPad.encode key.toList
  { emptyBundle zeroSecret with
    signingSecretKey := b64 existingIdentity.signingSecret
    dmSecretKey := b64 existingIdentity.dmSecret
    delegation := existingIdentity.delegation
    transportSecretKey := b64 (deriveTransportKey Client.Author.plainKeys zeroSecret 1)
    masterSecretKey := some (b64 zeroSecret) }

theorem carries_readableBundle : Carries (plainLinks readableBundle) existingIdentity readableBundle where
  signing := Base64.Engine.decode_encode _ _
  dm := Base64.Engine.decode_encode _ _
  transport := Base64.Engine.decode_encode _ _
  master := by
    show Base64.Engine.urlSafeNoPad.decode (Base64.Engine.urlSafeNoPad.encode zeroSecret.toList) = _
    exact Base64.Engine.decode_encode _ _
  delegation := rfl

/-- A new installation that links with it; every statement and write succeeds. -/
def linkedInstallation : NewDevice × Bool :=
  (⟨emptyStore, noFiles⟩ : NewDevice).linkWithDevice (plainLinks readableBundle) "alice" zeroSecret linkResponse
    (fun _ => (true, 9)) goodWrites

theorem linkedInstallation_succeeds : linkedInstallation.2 = true := by
  have hreceive : receiveBundle (plainLinks readableBundle) zeroSecret linkResponse = .ok readableBundle := rfl
  have hkey : ∀ (key : SecretKey) (file : Option Bytes → FileWrite),
      writeKey (Base64.Engine.urlSafeNoPad.encode key.toList) (.ok ()) file = some (file (some key.toList), true) := by
    intro key file
    unfold writeKey
    rw [Base64.Engine.decode_encode]
    rfl
  have hsteps : fileSteps readableBundle goodWrites =
      [some (.signingKey (some existingIdentity.signingSecret.toList), true),
        some (.signingKeyIndex (some existingIdentity.delegation.keyIndex), true),
        some (.dmKeyIndex (some existingIdentity.delegation.dmKeyIndex), true),
        some (.transportKey (some (deriveTransportKey Client.Author.plainKeys zeroSecret 1).toList), true),
        some (.deviceIndex (some 1), true), some (.masterKey (some zeroSecret.toList), true)] := by
    simp only [fileSteps, readableBundle, goodWrites, hkey, Option.toList_some, List.map_cons, List.map_nil]
    rfl
  unfold linkedInstallation NewDevice.linkWithDevice
  simp only [hreceive, hsteps]
  rfl

/-- The installation after its next start, of which it knows the master key only. -/
def restartedInstallation : Identity :=
  identityOf (plainLinks readableBundle) zeroSecret linkedInstallation.1.files 20

theorem receive_readableBundle :
    receiveBundle (plainLinks readableBundle) zeroSecret linkResponse = .ok readableBundle := rfl

theorem buildIdentity_linkedInstallation :
    buildIdentity (plainLinks readableBundle) linkedInstallation.1.files zeroSecret 20 =
      some restartedInstallation := by
  obtain ⟨hfiles, hall⟩ := steps_of_linked receive_readableBundle linkedInstallation_succeeds
  refine buildIdentity_eq ?_ zeroSecret 20
  exact (congrArg DataDir.masterKey hfiles).trans (masterKey_written hall carries_readableBundle.master)

/-- The existing device, before or after it has registered the new one. -/
def existingDevice (linkedDevices : List DeviceEntry) : LinkHost (plainLinks readableBundle) :=
  .new _ existingIdentity emptyStore linkedDevices

def newEntry : DeviceEntry := LinkHost.newDevice (plainLinks readableBundle) 1 existingIdentity 9

theorem not_secondDevice_readable : ¬ SecondDevice (plainLinks readableBundle) (existingDevice [])
    (existingDevice [newEntry]) readableBundle restartedInstallation linkedInstallation.1.store := by
  have hbuilt : (existingDevice []).identity = identityOf (plainLinks readableBundle) zeroSecret noFiles 0 := rfl
  exact not_secondDevice hbuilt carries_readableBundle receive_readableBundle linkedInstallation_succeeds
    buildIdentity_linkedInstallation

/-- The link succeeds, and the new device comes up with the NodeId of the existing one. -/
theorem linked_not_second : linkedInstallation.2 = true ∧
    buildIdentity (plainLinks readableBundle) linkedInstallation.1.files zeroSecret 20 = some restartedInstallation ∧
    ¬ SecondDevice (plainLinks readableBundle) (existingDevice []) (existingDevice [newEntry]) readableBundle
      restartedInstallation linkedInstallation.1.store := by
  refine ⟨linkedInstallation_succeeds, buildIdentity_linkedInstallation, ?_⟩
  intro hsecond
  have hsame : restartedInstallation.transportNodeId = (existingDevice []).identity.transportNodeId := rfl
  exact hsecond.others.1 hsame

end Examples
end Proscenium.Link
