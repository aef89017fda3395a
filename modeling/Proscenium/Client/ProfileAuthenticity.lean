import Proscenium.Client.OwnProfile

/-! Are the stored profiles of others what their masters' keys signed? Gossip and
pushes check the signature, as long as a key is cached to check it with; an
identity response and the summary of a sync are stored as they come. -/

namespace Proscenium.Client

open Proscenium.Types
open Machine

variable (S : SignatureCrates)

/-- The master key has signed a delegation to this key. -/
def Delegates (masterPubkey : String) (key : PublicKey) : Prop :=
  ∃ d, verifyDelegation S d = .ok () ∧ d.masterPubkey = masterPubkey ∧ S.parsePublicKey d.signingPubkey = .ok key

structure AuthenticProfile (masterPubkey : String) (p : Profile) : Prop where
  valid : validateProfile p = .ok ()
  signed : ∃ key, Delegates S masterPubkey key ∧ verifyProfileSignature S p key = .ok ()

def profileRow (pubkey : String) (p : Profile) : ProfileRow :=
  ⟨pubkey, p.displayName, p.bio, p.avatarHash, p.avatarTicket, p.visibility.toText, p.signature⟩

variable (me : String)

def Storage.ProfilesAuthentic (st : Storage) : Prop :=
  ∀ masterPubkey ≠ me, ∀ r ∈ st.profileOf masterPubkey,
    ∃ p, r = profileRow masterPubkey p ∧ AuthenticProfile S masterPubkey p

/-- The lookup finds a key in the cache that the master key delegated. -/
def Storage.CachesDelegated (fails : Fails) (masterPubkey : String) (st : Storage) : Prop :=
  ∃ signingPubkey key, (if fails .signingPubkey then none else st.getPeerSigningPubkey masterPubkey) =
    some signingPubkey ∧ S.parsePublicKey signingPubkey = .ok key ∧ Delegates S masterPubkey key

/-- What the input makes the client store for another user. -/
def storedProfile (st : Storage) : Input → Option (String × Profile)
  | .resolvePeerIdentity identity _ fails | .neighborUp _ (some identity) _ fails =>
    if fails .saveProfile then none else identity.profile.map (identity.masterPubkey, ·)
  | .profileUpdate pk p fails =>
    if gossipAccepts S fails pk p st ∧ fails .saveProfile = false then some (pk, p) else none
  | .syncResult pubkey profile fails => if fails .saveProfile then none else profile.map (pubkey, ·)
  | .push remote msg fails =>
    if fails .saveProfile then none
    else (pushedProfile S me fails remote msg st).map (pushSender fails remote st, ·)
  | .saveMyProfile .. | .importLinkBundle .. | .neighborUp _ none _ _ | .otherTables .. => none

/-- A profile that is stored without a check is authentic, and so is one that is accepted while no key is
cached that its master key delegated. -/
def VouchedProfile (st : Storage) : Input → Prop
  | .resolvePeerIdentity identity _ fails | .neighborUp _ (some identity) _ fails =>
    fails .saveProfile = false → identity.masterPubkey ≠ me → ∀ p ∈ identity.profile,
      AuthenticProfile S identity.masterPubkey p
  | .profileUpdate pk p fails => gossipAccepts S fails pk p st = true → fails .saveProfile = false → pk ≠ me →
      st.CachesDelegated S fails pk ∨ AuthenticProfile S pk p
  | .syncResult pubkey profile fails => fails .saveProfile = false → pubkey ≠ me → ∀ p ∈ profile,
      AuthenticProfile S pubkey p
  | .push remote msg fails => fails .saveProfile = false → pushSender fails remote st ≠ me →
      ∀ p ∈ pushedProfile S me fails remote msg st,
        st.CachesDelegated S fails (pushSender fails remote st) ∨ AuthenticProfile S (pushSender fails remote st) p
  | .saveMyProfile .. | .importLinkBundle .. | .neighborUp _ none _ _ | .otherTables .. => True

variable {S} {me} {st st' : Storage} {fails : Fails}

theorem authentic_of_gossip {pk : String} {p : Profile} (haccepts : gossipAccepts S fails pk p st = true)
    (hcached : st.CachesDelegated S fails pk) : AuthenticProfile S pk p := by
  obtain ⟨signingPubkey, key, hlookup, hparse, hdelegates⟩ := hcached
  have hsigner : resolveSigner S fails pk st = some key := by
    unfold resolveSigner
    dsimp only
    rw [hlookup, Option.bind_some, hparse]
    rfl
  unfold gossipAccepts at haccepts
  rw [hsigner] at haccepts
  obtain ⟨hvalid, hsigned⟩ := (Bool.and_eq_true ..).mp haccepts
  exact ⟨Checks.toBool_eq_true.mp hvalid, key, hdelegates, Checks.toBool_eq_true.mp hsigned⟩

theorem authentic_of_push {remote : String} {msg : PushMessage} {p : Profile}
    (hpushed : p ∈ pushedProfile S me fails remote msg st)
    (hcached : st.CachesDelegated S fails (pushSender fails remote st)) :
    AuthenticProfile S (pushSender fails remote st) p := by
  obtain ⟨signingPubkey, key, hlookup, hparse, hdelegates⟩ := hcached
  unfold pushedProfile at hpushed
  dsimp only at hpushed
  split at hpushed
  · obtain ⟨-, hchecks⟩ := Option.filter_eq_some_iff.mp hpushed
    obtain ⟨hvalid, hsigned⟩ := (Bool.and_eq_true ..).mp hchecks
    unfold pushSignerOk at hsigned
    rw [hlookup] at hsigned
    dsimp only at hsigned
    rw [hparse] at hsigned
    exact ⟨Checks.toBool_eq_true.mp hvalid, key, hdelegates, Checks.toBool_eq_true.mp hsigned⟩
  · exact absurd hpushed (Option.not_mem_none p)

def Storage.rowAfter (st : Storage) (stored : Option (String × Profile)) (masterPubkey : String) : Option ProfileRow :=
  match stored with
  | some (pubkey, p) => if pubkey = masterPubkey then some (profileRow masterPubkey p) else st.profileOf masterPubkey
  | none => st.profileOf masterPubkey

theorem profileOf_attempt {masterPubkey pubkey : String} (p : Profile) (st : Storage) :
    (st.attempt fails .saveProfile (Storage.saveProfile pubkey p)).profileOf masterPubkey =
      st.rowAfter (if fails .saveProfile then none else some (pubkey, p)) masterPubkey := by
  unfold Storage.attempt
  split
  · rfl
  · unfold Storage.rowAfter
    dsimp only
    split
    next hsame => exact hsame ▸ Storage.profileOf_saveProfile_self ..
    next hother => exact Storage.profileOf_saveProfile_of_ne hother p st

theorem profileOf_storeIdentity_eq {masterPubkey : String} (identity : IdentityResponse) (now : UInt64) (st : Storage) :
    (storeIdentity fails identity now st).profileOf masterPubkey =
      st.rowAfter (if fails .saveProfile then none else identity.profile.map (identity.masterPubkey, ·))
        masterPubkey := by
  have hcache : (st.attempt fails .cachePeerIdentity (Storage.cachePeerIdentity identity now)).profileOf masterPubkey =
      st.profileOf masterPubkey := by
    refine profileOf_attempt_of_profiles ?_ st
    intro _
    rfl
  unfold storeIdentity
  cases identity.profile with
  | none => cases fails .saveProfile <;> exact hcache
  | some p =>
    dsimp only
    rw [profileOf_attempt]
    unfold Storage.rowAfter
    rw [hcache]
    rfl

/-- A remote input changes the row that it stores a profile in, and the owner's commands only the owner's. -/
theorem profileOf_step {sign : Bytes → String} {a : Input} (hstep : step S me sign st a = some st')
    {masterPubkey : String} (hother : masterPubkey ≠ me) :
    st'.profileOf masterPubkey = st.rowAfter (storedProfile S me st a) masterPubkey := by
  cases a with
  | saveMyProfile req transition fails =>
    obtain rfl := Option.some.inj hstep
    show (saveMyProfile me fails sign req transition st).2.profileOf masterPubkey = st.profileOf masterPubkey
    unfold saveMyProfile
    split
    · rfl
    · dsimp only
      split
      · rfl
      · split
        · rfl
        · exact Storage.profileOf_saveProfile_of_ne hother.symm _ st
  | importLinkBundle profile fails =>
    obtain rfl := Option.some.inj hstep
    show (importLinkBundle me fails profile st).profileOf masterPubkey = st.profileOf masterPubkey
    unfold importLinkBundle
    split
    · exact profileOf_attempt_of_ne hother.symm _ st
    · rfl
  | resolvePeerIdentity identity now fails =>
    obtain rfl := Option.some.inj hstep
    exact profileOf_storeIdentity_eq identity now st
  | neighborUp transportId identity now fails =>
    obtain rfl := Option.some.inj hstep
    have hfollower : ∀ pubkey (st : Storage), (st.attempt fails .upsertFollower
        (Storage.upsertFollower me pubkey now)).profileOf masterPubkey = st.profileOf masterPubkey := by
      intro pubkey st
      refine profileOf_attempt_of_profiles ?_ st
      intro _
      rfl
    cases identity with
    | none => exact hfollower transportId st
    | some identity => exact (hfollower identity.masterPubkey _).trans (profileOf_storeIdentity_eq identity now st)
  | profileUpdate pk p fails =>
    obtain rfl := Option.some.inj hstep
    show (handleProfileUpdate S fails pk p st).profileOf masterPubkey = _
    unfold handleProfileUpdate storedProfile
    dsimp only
    cases gossipAccepts S fails pk p st with
    | false => rfl
    | true =>
      rw [if_pos rfl, profileOf_attempt]
      cases fails .saveProfile <;> rfl
  | syncResult pubkey profile fails =>
    obtain rfl := Option.some.inj hstep
    cases profile with
    | none =>
      show st.profileOf masterPubkey = st.rowAfter (if fails .saveProfile then none else none) masterPubkey
      cases fails .saveProfile <;> rfl
    | some p => exact profileOf_attempt p st
  | push remote msg fails =>
    obtain rfl := Option.some.inj hstep
    show (handlePush S me fails remote msg st).profileOf masterPubkey = st.rowAfter (if fails .saveProfile then none
      else (pushedProfile S me fails remote msg st).map (pushSender fails remote st, ·)) masterPubkey
    unfold handlePush
    cases pushedProfile S me fails remote msg st with
    | none => cases fails .saveProfile <;> rfl
    | some p => exact profileOf_attempt p st
  | otherTables peerDelegations socialGraph =>
    obtain rfl := Option.some.inj hstep
    rfl

theorem profileRow_injective (masterPubkey : String) : Function.Injective (profileRow masterPubkey) := by
  rintro ⟨name, bio, hash, ticket, visibility, signature⟩ ⟨name', bio', hash', ticket', visibility', signature'⟩ h
  simp only [profileRow, ProfileRow.mk.injEq, true_and] at h
  obtain ⟨rfl, rfl, rfl, rfl, htext, rfl⟩ := h
  have hread := congrArg Visibility.fromStr htext
  rw [Visibility.fromStr_toText, Visibility.fromStr_toText] at hread
  obtain rfl := Except.ok.inj hread
  rfl

theorem step_authentic_iff {sign : Bytes → String} {a : Input} (h : st.ProfilesAuthentic S me)
    (hstep : step S me sign st a = some st') : st'.ProfilesAuthentic S me ↔
      ∀ masterPubkey p, storedProfile S me st a = some (masterPubkey, p) → masterPubkey ≠ me →
        AuthenticProfile S masterPubkey p := by
  constructor
  · intro h' masterPubkey p hstored hother
    have hrow : st'.profileOf masterPubkey = some (profileRow masterPubkey p) := by
      rw [profileOf_step hstep hother, hstored]
      exact if_pos rfl
    obtain ⟨q, hq, hauthentic⟩ := h' masterPubkey hother _ hrow
    exact profileRow_injective masterPubkey hq ▸ hauthentic
  · intro hstored masterPubkey hother r hr
    rw [profileOf_step hstep hother] at hr
    unfold Storage.rowAfter at hr
    split at hr
    next pubkey p heq =>
      split at hr
      next hsame =>
        subst hsame
        exact ⟨p, (Option.some.inj hr).symm, hstored pubkey p heq hother⟩
      next => exact h masterPubkey hother r hr
    next => exact h masterPubkey hother r hr

/-- The checks that are made with a delegated key leave nothing to ask for. -/
theorem vouched_iff (a : Input) : VouchedProfile S me st a ↔
    ∀ masterPubkey p, storedProfile S me st a = some (masterPubkey, p) → masterPubkey ≠ me →
      AuthenticProfile S masterPubkey p := by
  have hunchecked : ∀ (fails : Fails) (pubkey : String) (profile : Option Profile),
      (fails .saveProfile = false → pubkey ≠ me → ∀ p ∈ profile, AuthenticProfile S pubkey p) ↔
        ∀ masterPubkey p, (if fails .saveProfile then none else profile.map (pubkey, ·)) = some (masterPubkey, p) →
          masterPubkey ≠ me → AuthenticProfile S masterPubkey p := by
    intro fails pubkey profile
    cases fails .saveProfile with
    | true => exact iff_of_true (fun h => absurd h.symm Bool.false_ne_true) fun _ _ h =>
        absurd h.symm (Option.some_ne_none _)
    | false =>
      rw [imp_iff_right rfl]
      constructor
      · intro hall masterPubkey p hstored hother
        obtain ⟨q, hq, heq⟩ := Option.map_eq_some_iff.mp hstored
        obtain ⟨rfl, rfl⟩ := Prod.mk.inj heq
        exact hall hother q hq
      · intro hall hother p hp
        exact hall pubkey p (Option.map_eq_some_iff.mpr ⟨p, hp, rfl⟩) hother
  cases a with
  | saveMyProfile | importLinkBundle | otherTables =>
    exact iff_of_true trivial fun _ _ h => absurd h.symm (Option.some_ne_none _)
  | resolvePeerIdentity identity now fails => exact hunchecked fails identity.masterPubkey identity.profile
  | neighborUp transportId identity now fails =>
    cases identity with
    | none => exact iff_of_true trivial fun _ _ h => absurd h.symm (Option.some_ne_none _)
    | some identity => exact hunchecked fails identity.masterPubkey identity.profile
  | syncResult pubkey profile fails => exact hunchecked fails pubkey profile
  | profileUpdate pk p fails =>
    show (gossipAccepts S fails pk p st = true → fails .saveProfile = false → pk ≠ me → _) ↔
      ∀ masterPubkey q, (if gossipAccepts S fails pk p st = true ∧ fails .saveProfile = false then some (pk, p)
        else none) = some (masterPubkey, q) → _
    constructor
    · intro hall masterPubkey q hstored hother
      obtain ⟨⟨haccepts, hfails⟩, heq⟩ := Option.ite_none_right_eq_some.mp hstored
      obtain ⟨rfl, rfl⟩ := Prod.mk.inj (Option.some.inj heq)
      exact (hall haccepts hfails hother).elim (authentic_of_gossip haccepts) id
    · intro hall haccepts hfails hother
      exact .inr (hall pk p (if_pos ⟨haccepts, hfails⟩) hother)
  | push remote msg fails =>
    refine Iff.trans ?_ (hunchecked fails (pushSender fails remote st) (pushedProfile S me fails remote msg st))
    refine imp_congr_right fun _ => imp_congr_right fun _ => forall₂_congr fun p hp => ?_
    exact or_iff_right_of_imp (authentic_of_push hp)

theorem profiles_along_iff (sign : Bytes → String) (run : List Input) :
    Along (step S me sign) (fun st a => ∀ st', step S me sign st a = some st' → st'.ProfilesAuthentic S me)
      .empty run ↔ Along (step S me sign) (VouchedProfile S me) .empty run := by
  have hempty : Storage.empty.ProfilesAuthentic S me := fun _ _ r hr => absurd hr (Option.not_mem_none r)
  refine along_iff (fun st a h => ?_) (fun st a st' _ hok hstep => hok st' hstep) hempty
  rw [vouched_iff]
  constructor
  · intro hall
    obtain ⟨st', hstep⟩ : ∃ st', step S me sign st a = some st' := by
      cases a <;> exact ⟨_, rfl⟩
    exact (step_authentic_iff h hstep).mp (hall st' hstep)
  · intro hstored st' hstep
    exact (step_authentic_iff h hstep).mpr hstored

end Proscenium.Client
