import Proscenium.Client.ProfileAuthenticity
import Proscenium.Server.SubscriptionMatch

/-! The profiles that the server keeps in its registrations, from gossip and from
the summaries of its syncs. A row has no signature: it is authentic if it shows
what an authentic profile says. -/

namespace Proscenium.Server

open Proscenium.Types
open Machine
open Client (Delegates AuthenticProfile)

abbrev ProfileColumns := Option String × Option String × Option String × String

def Registration.columns (r : Registration) : ProfileColumns := (r.displayName, r.bio, r.avatarHash, r.visibility)

/-- The columns that `update_profile` writes. -/
def profileColumns (p : Profile) : ProfileColumns :=
  (some p.displayName, some p.bio, p.avatarHash, p.visibility.toText)

def Storage.columnsOf (pubkey : String) (st : Storage) : Option ProfileColumns :=
  (Table.find Registration.pubkey pubkey st.registrations).map Registration.columns

namespace ServerState

inductive ProfileInput where
  /-- A listener of `owner` takes a profile. -/
  | profileUpdate (owner : String) (profile : Profile) (env : Env) (keyFails : Bool) (ran : Nat)
  | summary (pubkey : String) (profile : Profile) (env : Env)
  /-- Whatever writes the cached keys. -/
  | keys (peerDelegations : List PeerDelegation)

def registered (rows : List Registration) : ServerState :=
  ⟨⟨rows.map fun r => { r with displayName := none, bio := none, avatarHash := none }, [], [], [], []⟩, []⟩

variable (S : SignatureCrates) (srv : ServerState)

def storeSummaryProfile (pubkey : String) (profile : Profile) (env : Env) : ServerState :=
  if (validateProfile profile).toBool then
    { srv with storage := (srv.storage.updateProfile env pubkey profile).2 }
  else srv

def profileStep (srv : ServerState) : ProfileInput → Option ServerState
  | .profileUpdate owner profile env keyFails ran => some (srv.processProfileUpdate S owner profile env keyFails ran)
  | .summary pubkey profile env => some (srv.storeSummaryProfile pubkey profile env)
  | .keys peerDelegations => some { srv with storage := { srv.storage with peerDelegations } }

def AuthenticColumns (pubkey : String) (c : ProfileColumns) : Prop :=
  ∃ p, c = profileColumns p ∧ AuthenticProfile S pubkey p

def ProfilesAuthentic : Prop :=
  ∀ pubkey, ∀ c ∈ srv.storage.columnsOf pubkey, c.1.isSome → AuthenticColumns S pubkey c

def CachesDelegated (keyFails : Bool) (owner : String) : Prop :=
  ∃ key, resolveSigner S keyFails owner (Store.empty.withServer srv).index = some key ∧ Delegates S owner key

/-- A profile in a summary that is stored says what an authentic one does, and so does one from gossip that is
accepted while no key is cached that its master key delegated. -/
def VouchedProfile : ProfileInput → Prop
  | .profileUpdate owner profile env keyFails _ => srv.acceptsProfile S keyFails owner profile = true →
      env.fails .updateProfile = none → srv.storage.isActive owner = true →
      srv.CachesDelegated S keyFails owner ∨ AuthenticColumns S owner (profileColumns profile)
  | .summary pubkey profile env => validateProfile profile = .ok () → env.fails .updateProfile = none →
      srv.storage.isActive pubkey = true → AuthenticColumns S pubkey (profileColumns profile)
  | .keys _ => True

variable {S} {srv} {srv' : ServerState} {env : Env} {st : Storage} {owner pubkey : String}

theorem authentic_of_accepts {profile : Profile} {keyFails : Bool}
    (haccepts : srv.acceptsProfile S keyFails owner profile = true) (hcached : srv.CachesDelegated S keyFails owner) :
    AuthenticProfile S owner profile := by
  obtain ⟨key, hsigner, hdelegates⟩ := hcached
  obtain ⟨hvalid, hsigned⟩ := (Bool.and_eq_true ..).mp haccepts
  unfold Store.signedBy at hsigned
  rw [hsigner] at hsigned
  exact ⟨Checks.toBool_eq_true.mp hvalid, key, hdelegates, Checks.toBool_eq_true.mp hsigned⟩

section Columns

theorem columnsOf_updateWhere {q : Registration → Bool} {g : Registration → Registration}
    (hkey : ∀ r, (g r).pubkey = r.pubkey) {rows : List Registration}
    (hsame : ∀ r, Table.find Registration.pubkey pubkey rows = some r → q r = true → (g r).columns = r.columns) :
    (Table.find Registration.pubkey pubkey (Table.updateWhere q g rows)).map Registration.columns =
      (Table.find Registration.pubkey pubkey rows).map Registration.columns := by
  rw [Table.find_updateWhere hkey]
  cases hrow : Table.find Registration.pubkey pubkey rows with
  | none => rfl
  | some r =>
    refine congrArg some ?_
    show (if q r = true then g r else r).columns = r.columns
    split
    next hq => exact hsame r hrow hq
    next => rfl

theorem columnsOf_updateProfile (hfails : env.fails .updateProfile = none) (profile : Profile) (pubkey : String) :
    (st.updateProfile env owner profile).2.columnsOf pubkey =
      if pubkey = owner ∧ st.isActive owner = true then some (profileColumns profile) else st.columnsOf pubkey := by
  unfold Storage.columnsOf
  rw [Store.registrations_updateProfile, if_pos hfails]
  split
  next hactive =>
    obtain ⟨rfl, hactive⟩ := hactive
    obtain ⟨r, hrow, hr⟩ := (Option.any_eq_true ..).mp hactive
    rw [Table.find_updateWhere, hrow]
    · have hq : (decide (r.pubkey = pubkey ∧ r.isActive = 1)) = true :=
        decide_eq_true ⟨Table.key_of_find hrow, of_decide_eq_true hr⟩
      rw [Option.map_some, Option.map_some, if_pos hq]
      rfl
    · exact fun _ => rfl
  next hnot =>
    refine columnsOf_updateWhere ?_ fun r hrow hq => absurd ⟨?_, ?_⟩ hnot
    · exact fun _ => rfl
    · exact (Table.key_of_find hrow).symm.trans (of_decide_eq_true hq).1
    · have hkey := Table.key_of_find hrow
      obtain ⟨howner, hr⟩ := of_decide_eq_true hq
      refine (Option.any_eq_true ..).mpr ⟨r, ?_, decide_eq_true hr⟩
      rw [← howner, hkey]
      exact hrow

/-- The row of the user, if it is active, has the visibility already. -/
def HasVisibility (owner : String) (visibility : Visibility) (st : Storage) : Prop :=
  ∀ r, Table.find Registration.pubkey owner st.registrations = some r → r.isActive = 1 →
    r.visibility = visibility.toText

theorem visibility_updateWhere {g : Registration → Registration} {visibility : Visibility}
    (hkey : ∀ r, (g r).pubkey = r.pubkey) (hvis : ∀ r, (g r).visibility = visibility.toText)
    {rows : List Registration} {r : Registration} (hr : Table.find Registration.pubkey owner
      (Table.updateWhere (fun r => r.pubkey = owner ∧ r.isActive = 1) g rows) = some r)
    (hactive : r.isActive = 1) : r.visibility = visibility.toText := by
  rw [Table.find_updateWhere hkey] at hr
  obtain ⟨u, hu, rfl⟩ := Option.map_eq_some_iff.mp hr
  split
  next => exact hvis u
  next hnot =>
    rw [if_neg hnot] at hactive
    exact absurd (decide_eq_true ⟨Table.key_of_find hu, hactive⟩) hnot

theorem hasVisibility_updateProfile (hfails : env.fails .updateProfile = none) (profile : Profile) :
    HasVisibility owner profile.visibility (st.updateProfile env owner profile).2 := by
  intro r hr hactive
  rw [Store.registrations_updateProfile, if_pos hfails] at hr
  exact visibility_updateWhere (by intro _; rfl) (by intro _; rfl) hr hactive

theorem columnsOf_write {visibility : Visibility} (h : HasVisibility owner visibility st) {w : Write}
    (hw : w ∈ handleVisibilityChange visibility) : (st.write owner w).columnsOf pubkey = st.columnsOf pubkey ∧
      HasVisibility owner visibility (st.write owner w) := by
  cases w with
  | deleteInteractions | deletePosts | deleteSyncState => exact ⟨rfl, h⟩
  | deactivate =>
    refine ⟨columnsOf_updateWhere (by intro _; rfl) (by intro _ _ _; rfl), fun r hr hactive => ?_⟩
    have hrow : Table.find Registration.pubkey owner (Table.updateWhere (fun r => r.pubkey = owner)
        (fun r => { r with isActive := 0 }) st.registrations) = some r := hr
    rw [Table.find_updateWhere (by intro _; rfl)] at hrow
    obtain ⟨u, hu, rfl⟩ := Option.map_eq_some_iff.mp hrow
    rw [if_pos (decide_eq_true (Table.key_of_find hu))] at hactive
    have hzero : (0 : Int) = 1 := hactive
    exact absurd hzero (by decide)
  | setVisibility visibility' =>
    obtain rfl : visibility' = visibility := by
      cases visibility <;> simp [handleVisibilityChange, unregisterUser] at hw <;> exact hw
    refine ⟨columnsOf_updateWhere (by intro _; rfl) ?_, fun r hr hactive => ?_⟩
    · intro r hrow hq
      obtain ⟨howner, hactive⟩ := of_decide_eq_true hq
      obtain rfl : pubkey = owner := (Table.key_of_find hrow).symm.trans howner
      unfold Registration.columns
      rw [← h r hrow hactive]
    · exact visibility_updateWhere (by intro _; rfl) (by intro _; rfl) hr hactive

theorem columnsOf_writes {visibility : Visibility} {writes : List Write} (h : HasVisibility owner visibility st)
    (hwrites : writes ⊆ handleVisibilityChange visibility) :
    (writes.foldl (Storage.write owner) st).columnsOf pubkey = st.columnsOf pubkey := by
  induction writes generalizing st with
  | nil => rfl
  | cons w writes ih =>
    obtain ⟨hcolumns, hafter⟩ := columnsOf_write h (hwrites List.mem_cons_self)
    rw [List.foldl_cons, ih hafter fun x hx => hwrites (List.mem_cons_of_mem _ hx)]
    exact hcolumns

end Columns

theorem columnsOf_profileUpdate (profile : Profile) (keyFails : Bool) (ran : Nat) :
    (srv.processProfileUpdate S owner profile env keyFails ran).storage.columnsOf pubkey =
      if pubkey = owner ∧ (srv.acceptsProfile S keyFails owner profile = true ∧ env.fails .updateProfile = none ∧
          srv.storage.isActive owner = true) then some (profileColumns profile)
      else srv.storage.columnsOf pubkey := by
  unfold processProfileUpdate
  by_cases haccepts : srv.acceptsProfile S keyFails owner profile = true ∧ env.fails .updateProfile = none
  · rw [if_pos haccepts]
    show Storage.columnsOf pubkey (List.foldl _ _ _) = _
    rw [columnsOf_writes (hasVisibility_updateProfile haccepts.2 profile) (List.take_subset ..),
      columnsOf_updateProfile haccepts.2]
    simp only [haccepts.1, haccepts.2, true_and]
  · rw [if_neg haccepts, if_neg fun h => haccepts ⟨h.2.1, h.2.2.1⟩]

theorem columnsOf_summary (profile : Profile) :
    (srv.storeSummaryProfile owner profile env).storage.columnsOf pubkey =
      if pubkey = owner ∧ (validateProfile profile = .ok () ∧ env.fails .updateProfile = none ∧
          srv.storage.isActive owner = true) then some (profileColumns profile)
      else srv.storage.columnsOf pubkey := by
  unfold storeSummaryProfile
  by_cases hvalid : validateProfile profile = .ok ()
  · rw [if_pos (Checks.toBool_eq_true.mpr hvalid)]
    by_cases hfails : env.fails .updateProfile = none
    · rw [columnsOf_updateProfile hfails]
      simp only [hvalid, hfails, true_and]
    · rw [if_neg fun h => hfails h.2.2.1]
      unfold Storage.columnsOf
      rw [Store.registrations_updateProfile, if_neg hfails]
  · rw [if_neg fun h => hvalid (Checks.toBool_eq_true.mp h), if_neg fun h => hvalid h.2.1]

theorem authentic_after_iff (h : srv.ProfilesAuthentic S) {profile : Profile} {stores : Prop} [Decidable stores]
    (hcolumns : ∀ pubkey, srv'.storage.columnsOf pubkey = if pubkey = owner ∧ stores then
      some (profileColumns profile) else srv.storage.columnsOf pubkey) :
    srv'.ProfilesAuthentic S ↔ (stores → AuthenticColumns S owner (profileColumns profile)) := by
  constructor
  · intro h' hstores
    exact h' owner _ ((hcolumns owner).trans (if_pos ⟨rfl, hstores⟩)) rfl
  · intro hvouched pubkey c hc hprofile
    rw [hcolumns] at hc
    split at hc
    next hstored =>
      obtain ⟨rfl, hstores⟩ := hstored
      exact Option.some.inj hc ▸ hvouched hstores
    next => exact h pubkey c hc hprofile

theorem profileStep_authentic_iff (h : srv.ProfilesAuthentic S) {input : ProfileInput}
    (hstep : profileStep S srv input = some srv') : srv'.ProfilesAuthentic S ↔ srv.VouchedProfile S input := by
  cases input with
  | profileUpdate owner profile env keyFails ran =>
    obtain rfl := Option.some.inj hstep
    rw [authentic_after_iff h fun pubkey => columnsOf_profileUpdate profile keyFails ran]
    constructor
    · intro hstored haccepts hfails hactive
      exact .inr (hstored ⟨haccepts, hfails, hactive⟩)
    · rintro hvouched ⟨haccepts, hfails, hactive⟩
      refine (hvouched haccepts hfails hactive).elim (fun hcached => ?_) id
      exact ⟨profile, rfl, authentic_of_accepts haccepts hcached⟩
  | summary pubkey profile env =>
    obtain rfl := Option.some.inj hstep
    rw [authentic_after_iff h fun pubkey => columnsOf_summary profile]
    constructor
    · intro hstored hvalid hfails hactive
      exact hstored ⟨hvalid, hfails, hactive⟩
    · rintro hvouched ⟨hvalid, hfails, hactive⟩
      exact hvouched hvalid hfails hactive
  | keys peerDelegations =>
    obtain rfl := Option.some.inj hstep
    exact iff_of_true h trivial

theorem authentic_registered (rows : List Registration) : (registered rows).ProfilesAuthentic S := by
  intro pubkey c hc hprofile
  obtain ⟨r, hr, rfl⟩ := Option.map_eq_some_iff.mp hc
  obtain ⟨u, -, rfl⟩ := List.mem_map.mp (List.mem_of_find?_eq_some hr)
  exact absurd hprofile Bool.false_ne_true

theorem profiles_along_iff (rows : List Registration) (run : List ProfileInput) :
    Along (profileStep S) (fun srv input => ∀ srv', profileStep S srv input = some srv' → srv'.ProfilesAuthentic S)
      (registered rows) run ↔ Along (profileStep S) (VouchedProfile S) (registered rows) run := by
  refine along_iff (fun srv input h => ?_) (fun srv input srv' _ hok hstep => hok srv' hstep)
    (authentic_registered rows)
  constructor
  · intro hall
    obtain ⟨srv', hstep⟩ : ∃ srv', profileStep S srv input = some srv' := by
      cases input <;> exact ⟨_, rfl⟩
    exact (profileStep_authentic_iff h hstep).mp (hall srv' hstep)
  · intro hvouched srv' hstep
    exact (profileStep_authentic_iff h hstep).mpr hvouched

end ServerState

/-- On a client as on the server, the profiles of others are authentic after every step of a run exactly when
no step stores one that nobody has vouched for. -/
theorem remote_profiles_authentic_iff (S : SignatureCrates) :
    (∀ me sign run, Along (Client.step S me sign)
        (fun st a => ∀ st', Client.step S me sign st a = some st' → st'.ProfilesAuthentic S me) .empty run ↔
      Along (Client.step S me sign) (Client.VouchedProfile S me) .empty run) ∧
    ∀ rows run, Along (ServerState.profileStep S)
        (fun srv input => ∀ srv', ServerState.profileStep S srv input = some srv' → srv'.ProfilesAuthentic S)
        (.registered rows) run ↔
      Along (ServerState.profileStep S) (ServerState.VouchedProfile S) (.registered rows) run :=
  ⟨fun _ sign run => Client.profiles_along_iff sign run, fun rows run => ServerState.profiles_along_iff rows run⟩

def unsignedProfile : Profile := ⟨"bob", "", none, none, .isPublic, ""⟩

/-- A peer answers a sync for "bob", and the profile in its summary is stored. -/
theorem not_profiles_authentic_served : ∃ st, Machine.exec (Client.step checksumCrates "alice" fun _ => "")
    Client.Storage.empty [.syncResult "bob" (some unsignedProfile) fun _ => false] = some st ∧
      st.getVisibility "bob" = .isPublic ∧ ¬ st.ProfilesAuthentic checksumCrates "alice" := by
  refine ⟨_, rfl, by decide, fun hauthentic => ?_⟩
  obtain ⟨p, hp, -, key, -, hverify⟩ := hauthentic "bob" (by decide) (Client.profileRow "bob" unsignedProfile) rfl
  obtain rfl := Client.profileRow_injective "bob" hp
  have hsignature : hexToSignature checksumCrates unsignedProfile.signature =
      .error ("invalid signature hex length: " ++ toString unsignedProfile.signature.utf8ByteSize) :=
    if_pos (by decide)
  unfold verifyProfileSignature at hverify
  rw [hsignature] at hverify
  exact absurd hverify (by simp [bind, Except.bind])

end Proscenium.Server
