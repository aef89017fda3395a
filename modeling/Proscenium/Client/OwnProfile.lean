import Proscenium.Client.ProfileDefs
import Proscenium.Lib.Machine
import Proscenium.Types.ChecksumScheme

/-! Own and remote profiles share one table. As long as no remote input is filed
under the owner's key, the owner's row after a run is the one the owner's own
commands leave behind, with every remote input taken out of the run. -/

namespace Proscenium.Client

open Proscenium.Types

inductive Input where
  | saveMyProfile (req : ProfileRequest) (transition : Except String Unit) (fails : Fails)
  | importLinkBundle (profile : Option Profile) (fails : Fails)
  | resolvePeerIdentity (identity : IdentityResponse) (now : UInt64) (fails : Fails)
  | neighborUp (transportId : String) (identity : Option IdentityResponse) (now : UInt64)
      (fails : Fails)
  | profileUpdate (pk : String) (profile : Profile) (fails : Fails)
  | syncResult (pubkey : String) (profile : Option Profile) (fails : Fails)
  | push (remote : String) (msg : PushMessage) (fails : Fails)
  /-- Whatever else writes the tables that are read to decide: follows, follow requests,
  device announcements, rotations. -/
  | otherTables (peerDelegations : List PeerIdentityRow) (socialGraph : List SocialRow)

def Input.isOwn : Input → Bool
  | .saveMyProfile .. | .importLinkBundle .. => true
  | _ => false

variable (S : SignatureCrates) (me : String) (sign : Bytes → String)

def step (st : Storage) : Input → Option Storage
  | .saveMyProfile req transition fails => some (saveMyProfile me fails sign req transition st).2
  | .importLinkBundle profile fails => some (importLinkBundle me fails profile st)
  | .resolvePeerIdentity identity now fails => some (resolvePeerIdentity fails identity now st)
  | .neighborUp transportId identity now fails =>
    some (neighborUp me fails transportId identity now st)
  | .profileUpdate pk profile fails => some (handleProfileUpdate S fails pk profile st)
  | .syncResult pubkey profile fails => some (processSyncResult fails pubkey profile st)
  | .push remote msg fails => some (handlePush S me fails remote msg st)
  | .otherTables peerDelegations socialGraph => some { st with peerDelegations, socialGraph }

/-- No profile that a remote input makes the client store is filed under `me`. -/
def FiledElsewhere (st : Storage) : Input → Prop
  | .resolvePeerIdentity identity _ _ | .neighborUp _ (some identity) _ _ =>
    identity.profile.isSome = true → identity.masterPubkey ≠ me
  | .profileUpdate pk profile fails => gossipAccepts S fails pk profile st = true → pk ≠ me
  | .syncResult pubkey profile _ => profile.isSome = true → pubkey ≠ me
  | .push remote msg fails =>
    (pushedProfile S me fails remote msg st).isSome = true → pushSender fails remote st ≠ me
  | .saveMyProfile .. | .importLinkBundle .. | .neighborUp _ none _ _ | .otherTables .. => True

instance : ∀ (st : Storage) (a : Input), Decidable (FiledElsewhere S me st a)
  | _, .resolvePeerIdentity .. | _, .neighborUp _ (some _) _ _ | _, .profileUpdate ..
  | _, .syncResult .. | _, .push .. => by unfold FiledElsewhere; infer_instance
  | _, .saveMyProfile .. | _, .importLinkBundle .. | _, .neighborUp _ none _ _
  | _, .otherTables .. => isTrue trivial

section Frame

variable {S : SignatureCrates} {me : String} {fails : Fails}

theorem profileOf_attempt_of_ne {pubkey : String} (hne : pubkey ≠ me) (p : Profile) (st : Storage) :
    (st.attempt fails .saveProfile (Storage.saveProfile pubkey p)).profileOf me =
      st.profileOf me := by
  unfold Storage.attempt
  split
  · rfl
  · exact Storage.profileOf_saveProfile_of_ne hne p st

theorem profileOf_attempt_of_profiles {stmt : Statement} {f : Storage → Storage}
    (hf : ∀ st, (f st).profiles = st.profiles) (st : Storage) :
    (st.attempt fails stmt f).profileOf me = st.profileOf me := by
  unfold Storage.attempt Storage.profileOf
  split
  · rfl
  · rw [hf]

theorem profileOf_storeIdentity {identity : IdentityResponse}
    (h : identity.profile.isSome = true → identity.masterPubkey ≠ me) (now : UInt64)
    (st : Storage) : (storeIdentity fails identity now st).profileOf me = st.profileOf me := by
  have hcache : (st.attempt fails .cachePeerIdentity
      (Storage.cachePeerIdentity identity now)).profileOf me = st.profileOf me := by
    refine profileOf_attempt_of_profiles ?_ st
    intro _
    rfl
  unfold storeIdentity
  split
  next p hp =>
    have hne : identity.masterPubkey ≠ me := h (by rw [hp]; rfl)
    exact (profileOf_attempt_of_ne hne p _).trans hcache
  next => exact hcache

theorem profileOf_neighborUp {identity : Option IdentityResponse}
    (h : ∀ i ∈ identity, i.profile.isSome = true → i.masterPubkey ≠ me) (transportId : String)
    (now : UInt64) (st : Storage) :
    (neighborUp me fails transportId identity now st).profileOf me = st.profileOf me := by
  have hfollower : ∀ pubkey st, (Storage.attempt fails .upsertFollower st
      (Storage.upsertFollower me pubkey now)).profileOf me = st.profileOf me := by
    intro pubkey st
    refine profileOf_attempt_of_profiles ?_ st
    intro _
    rfl
  unfold neighborUp
  split
  next i => exact (hfollower _ _).trans (profileOf_storeIdentity (h i rfl) now st)
  next => exact hfollower _ st

theorem profileOf_handleProfileUpdate {pk : String} {p : Profile} {st : Storage}
    (h : gossipAccepts S fails pk p st = true → pk ≠ me) :
    (handleProfileUpdate S fails pk p st).profileOf me = st.profileOf me := by
  unfold handleProfileUpdate
  split
  next hacc => exact profileOf_attempt_of_ne (h hacc) p st
  next => rfl

theorem profileOf_processSyncResult {pubkey : String} {profile : Option Profile}
    (h : profile.isSome = true → pubkey ≠ me) (st : Storage) :
    (processSyncResult fails pubkey profile st).profileOf me = st.profileOf me := by
  unfold processSyncResult
  split
  next p => exact profileOf_attempt_of_ne (h rfl) p st
  next => rfl

theorem profileOf_handlePush {remote : String} {msg : PushMessage} {st : Storage}
    (h : (pushedProfile S me fails remote msg st).isSome = true →
      pushSender fails remote st ≠ me) :
    (handlePush S me fails remote msg st).profileOf me = st.profileOf me := by
  unfold handlePush
  split
  next p hp => exact profileOf_attempt_of_ne (h (by rw [hp]; rfl)) p st
  next => rfl

theorem profileOf_step_of_remote {sign : Bytes → String} {st st' : Storage} {a : Input}
    (hown : a.isOwn = false) (hfiled : FiledElsewhere S me st a)
    (hstep : step S me sign st a = some st') : st'.profileOf me = st.profileOf me := by
  cases a with
  | saveMyProfile => exact nomatch hown
  | importLinkBundle => exact nomatch hown
  | resolvePeerIdentity identity now fails =>
    obtain rfl := Option.some.inj hstep
    exact profileOf_storeIdentity hfiled now st
  | neighborUp transportId identity now fails =>
    obtain rfl := Option.some.inj hstep
    refine profileOf_neighborUp ?_ transportId now st
    rintro i ⟨⟩
    exact hfiled
  | profileUpdate pk profile fails =>
    obtain rfl := Option.some.inj hstep
    exact profileOf_handleProfileUpdate hfiled
  | syncResult pubkey profile fails =>
    obtain rfl := Option.some.inj hstep
    exact profileOf_processSyncResult hfiled st
  | push remote msg fails =>
    obtain rfl := Option.some.inj hstep
    exact profileOf_handlePush hfiled
  | otherTables peerDelegations socialGraph =>
    obtain rfl := Option.some.inj hstep
    rfl

theorem profileOf_step_of_own {sign : Bytes → String} {st st₁ st' : Storage} {a : Input}
    (hown : a.isOwn = true) (hrow : st.profileOf me = st'.profileOf me)
    (hstep : step S me sign st a = some st₁) :
    ∃ st₁', step S me sign st' a = some st₁' ∧ st₁.profileOf me = st₁'.profileOf me := by
  cases a with
  | saveMyProfile req transition fails =>
    obtain rfl := Option.some.inj hstep
    refine ⟨_, rfl, ?_⟩
    have hvis : st.getVisibility me = st'.getVisibility me := congrArg Storage.visibilityOf hrow
    unfold saveMyProfile
    rw [hvis]
    split
    · exact hrow
    · dsimp only
      split
      · exact hrow
      · split
        · exact hrow
        · rw [Storage.profileOf_saveProfile_self, Storage.profileOf_saveProfile_self]
  | importLinkBundle profile fails =>
    obtain rfl := Option.some.inj hstep
    refine ⟨_, rfl, ?_⟩
    unfold importLinkBundle Storage.attempt
    split
    · split
      · exact hrow
      · rw [Storage.profileOf_saveProfile_self, Storage.profileOf_saveProfile_self]
    · exact hrow
  | _ => exact nomatch hown

end Frame

/-- The owner's stored profile, and with it the owner's visibility, after any run whose
remote inputs are filed elsewhere is what the owner's commands alone make of it. -/
theorem own_profile_undisturbed {S : SignatureCrates} {me : String} {sign : Bytes → String}
    {run : List Input} {st st' : Storage}
    (hfiled : Machine.Along (step S me sign) (FiledElsewhere S me) st run)
    (hrun : Machine.exec (step S me sign) st run = some st') :
    ∃ own, Machine.exec (step S me sign) st (run.filter Input.isOwn) = some own ∧
      st'.profileOf me = own.profileOf me ∧ st'.getVisibility me = own.getVisibility me := by
  have hkeep : ∀ (s s' : Storage) a t, Input.isOwn a = true → s.profileOf me = s'.profileOf me →
      FiledElsewhere S me s a → step S me sign s a = some t →
      ∃ t', step S me sign s' a = some t' ∧ t.profileOf me = t'.profileOf me :=
    fun _ _ _ _ hk hrow _ hstep => profileOf_step_of_own hk hrow hstep
  have hdrop : ∀ (s s' : Storage) a t, Input.isOwn a = false → s.profileOf me = s'.profileOf me →
      FiledElsewhere S me s a → step S me sign s a = some t → t.profileOf me = s'.profileOf me :=
    fun _ _ _ _ hk hrow hok hstep => (profileOf_step_of_remote hk hok hstep).trans hrow
  obtain ⟨own, hown, hrow⟩ := Machine.exec_filter hkeep hdrop rfl hfiled hrun
  exact ⟨own, hown, hrow, congrArg Storage.visibilityOf hrow⟩

def Storage.empty : Storage := ⟨[], [], []⟩

def saveAs (visibility : String) : Input :=
  .saveMyProfile ⟨"me", "", none, none, visibility⟩ (.ok ()) fun _ => false

/-- A response that names `master` and brings a public profile. -/
def identityNaming (master : String) : IdentityResponse :=
  ⟨master, ⟨master, "signer", 0, "", 0, 0, ""⟩, ["node"], some ⟨"peer", "", none, none, .isPublic, ""⟩⟩

/-- The owner is listed, and a peer's identity is resolved. -/
def resolvingRun (peer : String) : List Input :=
  [saveAs "listed", .resolvePeerIdentity (identityNaming peer) 0 fun _ => false]

theorem own_profile_undisturbed_by_peer :
    ∃ st' own,
      Machine.exec (step checksumCrates "alice" fun _ => "") .empty (resolvingRun "bob") = some st' ∧
      Machine.exec (step checksumCrates "alice" fun _ => "") .empty [saveAs "listed"] = some own ∧
      (st'.profileOf "bob").isSome = true ∧ st'.getVisibility "alice" = .listed ∧
      st'.getVisibility "alice" = own.getVisibility "alice" := by
  have hfiled : Machine.Along (step checksumCrates "alice" fun _ => "")
      (FiledElsewhere checksumCrates "alice") .empty (resolvingRun "bob") := by decide
  have hrun : ∃ st', Machine.exec (step checksumCrates "alice" fun _ => "") .empty
      (resolvingRun "bob") = some st' ∧ (st'.profileOf "bob").isSome = true ∧
      st'.getVisibility "alice" = .listed := ⟨_, rfl, by decide, by decide⟩
  obtain ⟨st', hst', hbob, hlisted⟩ := hrun
  obtain ⟨own, hown, -, hvis⟩ := own_profile_undisturbed hfiled hst'
  exact ⟨st', own, hst', hown, hbob, hlisted, hvis⟩

/-- A peer answers an identity query with the owner's own master key. -/
theorem not_own_profile_undisturbed :
    ¬ ∀ (run : List Input) (st' own : Storage),
      Machine.exec (step checksumCrates "alice" fun _ => "") .empty run = some st' →
      Machine.exec (step checksumCrates "alice" fun _ => "") .empty (run.filter Input.isOwn) =
        some own →
      st'.getVisibility "alice" = own.getVisibility "alice" := by
  intro hall
  have hvis := hall (resolvingRun "alice") _ _ rfl rfl
  exact absurd hvis (by decide)

end Proscenium.Client
