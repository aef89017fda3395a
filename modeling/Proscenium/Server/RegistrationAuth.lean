import Proscenium.Server.RegistrationDefs
import Proscenium.Types.ChecksumScheme

/-! Who can change what the server stores for a master key. A request only
touches the rows of the master key it names, and only when its own signature
verifies; whether that signature stands for the master key depends on the
delegation it brings along. -/

namespace Proscenium.Server

open Proscenium.Types

inductive Request where
  | register (req : RegistrationRequest)
  | unregister (req : RegistrationRequest)
  | updateProfile (req : ProfileUpdateRequest)
  deriving DecidableEq, Repr

structure View where
  registration : Option Registration
  peerDelegation : Option PeerDelegation
  posts : List Authored
  interactions : List Authored
  syncState : Option SyncState
  deriving DecidableEq, Repr

def Storage.viewOf (st : Storage) (masterPubkey : String) : View where
  registration := Table.find Registration.pubkey masterPubkey st.registrations
  peerDelegation := Table.find PeerDelegation.masterPubkey masterPubkey st.peerDelegations
  posts := st.posts.filter (·.author = masterPubkey)
  interactions := st.interactions.filter (·.author = masterPubkey)
  syncState := Table.find SyncState.pubkey masterPubkey st.syncState

namespace Request

def masterPubkey : Request → String
  | .register req | .unregister req => req.masterPubkey
  | .updateProfile req => req.masterPubkey

def delegation : Request → SigningKeyDelegation
  | .register req | .unregister req => req.delegation
  | .updateProfile req => req.delegation

def signed : Request → Option RegistrationRequest
  | .register req | .unregister req => some req
  | .updateProfile req => (Visibility.fromStr req.visibility).toOption.map req.registration

variable (S : SignatureCrates) (config : ServerConfig)

def handle (env : Env) (srv : ServerState) : Request → ServerState
  | .register req => (Server.register S config env req srv).2
  | .unregister req => (Server.unregister S env req srv).2
  | .updateProfile req => (Server.updateProfile S env req srv).2

/-- The request is signed by a key that the master key itself delegated. -/
def Authentic (req : Request) (masterPubkey : String) : Prop :=
  (∃ r, req.signed = some r ∧ verifyRegistrationSignature S r = .ok ()) ∧
    verifyDelegation S req.delegation = .ok () ∧ req.delegation.masterPubkey = masterPubkey

/-- The checks of the three endpoints. -/
def Admitted (now : UInt64) : Request → Prop
  | .register req => req.action ≠ some "unregister" ∧
      verifyRegistrationSignature S req = .ok () ∧
      absDiff req.timestamp now ≤ timestampToleranceMs ∧ req.serverUrl = config.publicUrl ∧
      req.visibility ≠ .isPrivate ∧ config.registrationOpen = true
  | .unregister req => req.action = some "unregister" ∧ verifyRegistrationSignature S req = .ok ()
  | .updateProfile req => ∃ visibility, Visibility.fromStr req.visibility = .ok visibility ∧
      verifyRegistrationSignature S (req.registration visibility) = .ok ()

/-- The delegation in the request is the master key's own. -/
def Delegated (req : Request) : Prop :=
  verifyDelegation S req.delegation = .ok () ∧ req.delegation.masterPubkey = req.masterPubkey

end Request

section Frame

variable {S : SignatureCrates} {config : ServerConfig} {env : Env} {M : String}

theorem viewOf_run {stmt : Statement} {st : Storage} {f : Storage → Storage}
    (hf : (f st).viewOf M = st.viewOf M) : (st.run env stmt f).2.viewOf M = st.viewOf M := by
  unfold Storage.run
  split
  · rfl
  · exact hf

theorem viewOf_cachePeerDelegation {pubkey : String} (hne : M ≠ pubkey) (signing : String)
    (d : SigningKeyDelegation) (node : Option String) (st : Storage) :
    (st.cachePeerDelegation env pubkey signing d node).2.viewOf M = st.viewOf M := by
  refine viewOf_run ?_
  simp only [Storage.viewOf]
  rw [Table.find_upsert_of_ne ?_ ?_ hne]
  · exact fun _ => rfl
  · rfl

theorem viewOf_upsertRegistration {pubkey : String} (hne : M ≠ pubkey) (visibility : String)
    (profile : Option Profile) (node : Option String) (d : Option SigningKeyDelegation)
    (st : Storage) :
    (st.upsertRegistration env pubkey visibility profile node d).viewOf M = st.viewOf M := by
  simp only [Storage.viewOf, Storage.upsertRegistration]
  rw [Table.find_upsert_of_ne ?_ ?_ hne]
  · exact fun _ => rfl
  · rfl

theorem viewOf_registerUser {pubkey : String} (hne : M ≠ pubkey) (visibility : String)
    (profile : Option Profile) (node : Option String) (d : Option SigningKeyDelegation)
    (st : Storage) :
    (st.registerUser env pubkey visibility profile node d).2.viewOf M = st.viewOf M := by
  have hrun : (st.run env .registerUser
      (Storage.upsertRegistration env pubkey visibility profile node d)).2.viewOf M = st.viewOf M :=
    viewOf_run (viewOf_upsertRegistration hne visibility profile node d st)
  unfold Storage.registerUser
  split
  next heq => rwa [heq] at hrun
  next heq =>
    rw [heq] at hrun
    split
    · exact (viewOf_cachePeerDelegation hne _ _ _ _).trans hrun
    · exact hrun

theorem author_ne {pubkey : String} (hne : M ≠ pubkey) (r : Authored)
    (hr : decide (r.author = M) = true) : decide (r.author = pubkey) = false := by
  have hauthor := of_decide_eq_true hr
  exact decide_eq_false fun h => hne (hauthor.symm.trans h)

theorem viewOf_deleteInteractions {pubkey : String} (hne : M ≠ pubkey) (st : Storage) :
    (st.deleteInteractions pubkey).viewOf M = st.viewOf M := by
  simp only [Storage.viewOf, Storage.deleteInteractions]
  rw [Table.filter_deleteWhere_of_disjoint (author_ne hne)]

theorem viewOf_deletePosts {pubkey : String} (hne : M ≠ pubkey) (st : Storage) :
    (st.deletePosts pubkey).viewOf M = st.viewOf M := by
  simp only [Storage.viewOf, Storage.deletePosts]
  rw [Table.filter_deleteWhere_of_disjoint (author_ne hne)]

theorem viewOf_deleteSyncState {pubkey : String} (hne : M ≠ pubkey) (st : Storage) :
    (st.deleteSyncState pubkey).viewOf M = st.viewOf M := by
  simp only [Storage.viewOf, Storage.deleteSyncState]
  rw [Table.find_deleteWhere_of_ne]
  exact fun r hr => decide_eq_false fun h => hne (hr.symm.trans h)

theorem viewOf_deactivate {pubkey : String} (hne : M ≠ pubkey) (st : Storage) :
    (st.deactivate pubkey).viewOf M = st.viewOf M := by
  simp only [Storage.viewOf, Storage.deactivate]
  rw [Table.find_updateWhere_of_ne]
  · exact fun _ => rfl
  · exact fun r hr => decide_eq_false fun h => hne (hr.symm.trans h)

theorem viewOf_unregisterUser {pubkey : String} (hne : M ≠ pubkey) (st : Storage) :
    (st.unregisterUser env pubkey).2.viewOf M = st.viewOf M := by
  -- each statement leaves the view as the one before it left it
  unfold Storage.unregisterUser
  have h₁ : (st.run env .deleteInteractions (Storage.deleteInteractions pubkey)).2.viewOf M =
      st.viewOf M := viewOf_run (viewOf_deleteInteractions hne st)
  split
  next heq => rwa [heq] at h₁
  next st₁ heq =>
    rw [heq] at h₁
    have h₂ : (st₁.run env .deletePosts (Storage.deletePosts pubkey)).2.viewOf M = st.viewOf M :=
      (viewOf_run (viewOf_deletePosts hne st₁)).trans h₁
    split
    next heq => rwa [heq] at h₂
    next st₂ heq =>
      rw [heq] at h₂
      have h₃ : (st₂.run env .deleteSyncState (Storage.deleteSyncState pubkey)).2.viewOf M =
          st.viewOf M := (viewOf_run (viewOf_deleteSyncState hne st₂)).trans h₂
      split
      next heq => rwa [heq] at h₃
      next st₃ heq =>
        rw [heq] at h₃
        exact (viewOf_run (viewOf_deactivate hne st₃)).trans h₃

theorem viewOf_updateProfile {pubkey : String} (hne : M ≠ pubkey) (profile : Profile)
    (st : Storage) : (st.updateProfile env pubkey profile).2.viewOf M = st.viewOf M := by
  unfold Storage.updateProfile
  split
  · rfl
  · simp only [Storage.viewOf]
    rw [Table.find_updateWhere_of_ne]
    · exact fun _ => rfl
    · exact fun r hr => decide_eq_false fun h => hne (hr.symm.trans h.1)

end Frame

section Endpoints

variable {S : SignatureCrates} {config : ServerConfig} {env : Env} {srv : ServerState}

theorem validateRegistration_eq_ok {req : RegistrationRequest} :
    validateRegistration S config env req = .ok () ↔
      verifyRegistrationSignature S req = .ok () ∧
      absDiff req.timestamp env.nowValidate ≤ timestampToleranceMs ∧
      req.serverUrl = config.publicUrl ∧ req.visibility ≠ .isPrivate ∧
      config.registrationOpen = true := by
  unfold validateRegistration
  cases verifyRegistrationSignature S req with
  | error e => simp
  | ok u => grind

theorem subscribe_storage (pubkey : String) : (subscribe env pubkey srv).storage = srv.storage := by
  unfold subscribe
  split_ifs <;> rfl

theorem register_storage (req : RegistrationRequest) :
    (register S config env req srv).2.storage =
      if req.action ≠ some "unregister" ∧ validateRegistration S config env req = .ok () then
        (srv.storage.registerUser env req.masterPubkey req.visibility.toText none
          (some req.transportNodeId) (some req.delegation)).2
      else srv.storage := by
  unfold register
  by_cases haction : req.action = some "unregister"
  · simp [haction]
  · rw [if_neg haction]
    cases validateRegistration S config env req with
    | error e => simp
    | ok u =>
      simp only [ne_eq, haction, not_false_eq_true, and_self, if_true]
      split
      · split <;> rfl
      · split
        · rfl
        · dsimp only
          split
          · exact subscribe_storage _
          · rfl

theorem unregister_storage (req : RegistrationRequest) :
    (unregister S env req srv).2.storage =
      if req.action = some "unregister" ∧ verifyRegistrationSignature S req = .ok () then
        (srv.storage.unregisterUser env req.masterPubkey).2
      else srv.storage := by
  unfold unregister
  by_cases haction : req.action = some "unregister"
  · rw [if_neg (not_not_intro haction)]
    cases verifyRegistrationSignature S req with
    | error e => simp
    | ok u =>
      simp only [haction, and_self, if_true]
      split <;> rfl
  · simp [haction]

theorem updateProfile_storage (req : ProfileUpdateRequest) :
    (updateProfile S env req srv).2.storage =
      match Visibility.fromStr req.visibility with
      | .error _ => srv.storage
      | .ok visibility =>
        if verifyRegistrationSignature S (req.registration visibility) = .ok () then
          (srv.storage.updateProfile env req.masterPubkey
            ⟨req.displayName.getD "", req.bio.getD "", req.avatarHash, none, visibility, ""⟩).2
        else srv.storage := by
  unfold updateProfile
  cases Visibility.fromStr req.visibility with
  | error e => rfl
  | ok visibility =>
    dsimp only
    cases verifyRegistrationSignature S (req.registration visibility) with
    | error e => rw [if_neg (by simp)]
    | ok u =>
      rw [if_pos rfl]
      dsimp only
      split
      · rfl
      · split <;> rfl

theorem handle_storage_of_not_admitted {req : Request}
    (h : ¬ req.Admitted S config env.nowValidate) :
    (req.handle S config env srv).storage = srv.storage := by
  cases req with
  | register req =>
    rw [Request.handle, register_storage, if_neg]
    rw [validateRegistration_eq_ok]
    exact h
  | unregister req =>
    rw [Request.handle, unregister_storage, if_neg]
    exact h
  | updateProfile req =>
    rw [Request.handle, updateProfile_storage]
    split
    · rfl
    next visibility hvis => exact if_neg fun hsig => h ⟨visibility, hvis, hsig⟩

theorem handle_viewOf_of_ne {req : Request} {M : String} (hne : M ≠ req.masterPubkey) :
    (req.handle S config env srv).storage.viewOf M = srv.storage.viewOf M := by
  cases req with
  | register req =>
    rw [Request.handle, register_storage]
    split
    · exact viewOf_registerUser hne _ _ _ _ _
    · rfl
  | unregister req =>
    rw [Request.handle, unregister_storage]
    split
    · exact viewOf_unregisterUser hne _
    · rfl
  | updateProfile req =>
    rw [Request.handle, updateProfile_storage]
    split
    · rfl
    · split
      · exact viewOf_updateProfile hne _ _
      · rfl

theorem Request.Admitted.signed {req : Request} {now : UInt64} (h : req.Admitted S config now) :
    ∃ r, req.signed = some r ∧ verifyRegistrationSignature S r = .ok () := by
  cases req with
  | register req => exact ⟨req, rfl, h.2.1⟩
  | unregister req => exact ⟨req, rfl, h.2⟩
  | updateProfile req =>
    obtain ⟨visibility, hvis, hsig⟩ := h
    refine ⟨_, ?_, hsig⟩
    rw [Request.signed, hvis]
    rfl

end Endpoints

def Env.calm (now : UInt64) : Env := ⟨now, now, now, now, fun _ => none, fun _ => true, false⟩

def ServerState.withUser (pubkey : String) : ServerState :=
  ⟨⟨[⟨pubkey, 0, 0, none, none, none, "public", 1, none, none⟩], [], [], [], []⟩, []⟩

section Converse

variable {S : SignatureCrates} {config : ServerConfig}

theorem Request.Admitted.changes {req : Request} {now : UInt64} (h : req.Admitted S config now) :
    ∃ srv, (req.handle S config (Env.calm now) srv).storage.viewOf req.masterPubkey ≠
      srv.storage.viewOf req.masterPubkey := by
  cases req with
  | register req =>
    refine ⟨⟨⟨[], [], [], [], []⟩, []⟩, fun heq => ?_⟩
    have hok : req.action ≠ some "unregister" ∧
        validateRegistration S config (Env.calm now) req = .ok () :=
      ⟨h.1, validateRegistration_eq_ok.mpr h.2⟩
    rw [Request.handle, register_storage, if_pos hok] at heq
    have hrow := congrArg View.registration heq
    simp [Storage.registerUser, Storage.run, Env.calm, Storage.cachePeerDelegation, Storage.viewOf,
      Storage.upsertRegistration, Table.upsert, Table.find, Request.masterPubkey] at hrow
  | unregister req =>
    have hok : req.action = some "unregister" ∧ verifyRegistrationSignature S req = .ok () := h
    refine ⟨ServerState.withUser req.masterPubkey, fun heq => ?_⟩
    rw [Request.handle, unregister_storage, if_pos hok] at heq
    have hrow := congrArg (fun v => v.registration.map Registration.isActive) heq
    simp [Storage.unregisterUser, Storage.run, Env.calm, Storage.deactivate, Storage.viewOf,
      Storage.deleteSyncState, Storage.deletePosts, Storage.deleteInteractions, Table.updateWhere,
      Table.find, Request.masterPubkey, ServerState.withUser] at hrow
  | updateProfile req =>
    obtain ⟨visibility, hvis, hsig⟩ := h
    refine ⟨ServerState.withUser req.masterPubkey, fun heq => ?_⟩
    rw [Request.handle, updateProfile_storage, hvis] at heq
    dsimp only at heq
    rw [if_pos hsig] at heq
    have hrow := congrArg (fun v => v.registration.map Registration.displayName) heq
    simp [Storage.updateProfile, Env.calm, Storage.viewOf, Table.updateWhere, Table.find,
      Request.masterPubkey, ServerState.withUser] at hrow

/-- The server authenticates exactly those requests that it refuses or whose delegation
is the named master key's own. -/
theorem handle_authentic_iff (S : SignatureCrates) (config : ServerConfig) (now : UInt64)
    (req : Request) :
    (∀ (env : Env) (srv : ServerState) (M : String), env.nowValidate = now →
      (req.handle S config env srv).storage.viewOf M ≠ srv.storage.viewOf M → req.Authentic S M) ↔
    (req.Admitted S config now → req.Delegated S) := by
  constructor
  · intro hall hadm
    obtain ⟨srv, hchange⟩ := hadm.changes
    exact (hall (Env.calm now) srv req.masterPubkey rfl hchange).2
  · rintro hdel env srv M rfl hchange
    have hadm : req.Admitted S config env.nowValidate := by
      by_contra hnot
      rw [handle_storage_of_not_admitted hnot] at hchange
      exact hchange rfl
    obtain rfl : M = req.masterPubkey := by
      by_contra hne
      exact hchange (handle_viewOf_of_ne hne)
    exact ⟨hadm.signed, hdel hadm⟩

end Converse

/-- A delegation by `master` that `master` did not sign. -/
def unsignedDelegation (master signer : String) : SigningKeyDelegation :=
  ⟨master, signer, 0, "", 0, 0, hexEncode (List.replicate 64 0)⟩

/-- `signer` registers in the name of `master`. -/
def forgedRegistration (master signer : String) : RegistrationRequest :=
  let req : RegistrationRequest :=
    ⟨master, "node", "https://server", 0, .isPublic, none, "", unsignedDelegation master signer⟩
  { req with signature := hexEncode (checksumSign signer (registrationSigningBytes req)) }

theorem not_handle_authentic_forged :
    ¬ ∀ (req : Request) (config : ServerConfig) (env : Env) (srv : ServerState) (M : String),
      (req.handle checksumCrates config env srv).storage.viewOf M ≠ srv.storage.viewOf M →
        req.Authentic checksumCrates M := by
  intro hall
  have hauth := hall (.register (forgedRegistration "alice" "mallory")) ⟨"https://server", true⟩
    (Env.calm 0) (ServerState.withUser "alice") "alice" (by decide +kernel)
  have hunsigned : verifyDelegation checksumCrates (unsignedDelegation "alice" "mallory") ≠ .ok () := by
    decide +kernel
  exact hunsigned hauth.2.1

end Proscenium.Server
