import Proscenium.Server.RegistrationAuth

/-! When and where a captured request still works. Only `register` looks at the
clock and at the server the request was signed for, and the object it verifies
is the one a profile update is verified by when no action is named. -/

namespace Proscenium.Server

open Proscenium.Types

inductive Endpoint where
  | register
  | unregister
  | updateProfile
  deriving DecidableEq, Repr

/-- Wherever the call looks at the clock, it is further away from `timestamp` than
the tolerance. -/
def Env.Stale (env : Env) (timestamp : UInt64) : Prop :=
  ∀ now ∈ [env.nowValidate, env.nowRegister, env.nowStore, env.nowCache],
    timestampToleranceMs < absDiff timestamp now

namespace Request

def endpoint : Request → Endpoint
  | .register _ => .register
  | .unregister _ => .unregister
  | .updateProfile _ => .updateProfile

variable (S : SignatureCrates) (config : ServerConfig) (env : Env) (srv : ServerState)

def succeeds : Request → Bool
  | .register req => (Server.register S config env req srv).1.isOk
  | .unregister req => (Server.unregister S env req srv).1.isOk
  | .updateProfile req => (Server.updateProfile S env req srv).1.isOk

def ForItsEndpoint : Request → Prop
  | .register req => req.action ≠ some "unregister"
  | .unregister req => req.action = some "unregister"
  | .updateProfile _ => True

/-- A validly signed request for its endpoint, as somebody may have seen it pass. -/
def Captured (req : Request) (r : RegistrationRequest) : Prop :=
  req.signed = some r ∧ verifyRegistrationSignature S r = .ok () ∧ req.ForItsEndpoint

/-- What can be made of the signed object `r` is good for one server, for a while and
for one endpoint. -/
structure ReplaySafe (req : Request) (r : RegistrationRequest) : Prop where
  unchanged : ∀ replay : Request, replay.signed = some r →
    ∀ (config : ServerConfig) (env : Env) (srv : ServerState),
      config.publicUrl ≠ r.serverUrl ∨ env.Stale r.timestamp →
        replay.handle S config env srv = srv
  refused : ∀ replay : Request, replay.signed = some r → replay.endpoint ≠ req.endpoint →
    ∀ (config : ServerConfig) (env : Env) (srv : ServerState),
      replay.succeeds S config env srv = false

def NamesAction (req : Request) : Prop := ∃ r, req = .register r ∧ r.action.isSome

end Request

section Signed

variable {r : RegistrationRequest}

theorem signed_updateProfile {req : ProfileUpdateRequest}
    (h : (Request.updateProfile req).signed = some r) :
    ∃ visibility, Visibility.fromStr req.visibility = .ok visibility ∧
      r = req.registration visibility := by
  rw [Request.signed] at h
  cases hvis : Visibility.fromStr req.visibility with
  | error e =>
    rw [hvis] at h
    exact absurd h (by simp [Except.toOption])
  | ok visibility =>
    rw [hvis] at h
    have hreq : some (req.registration visibility) = some r := h
    exact ⟨visibility, rfl, (Option.some.inj hreq).symm⟩

/-- The profile update that a signed object passes for. -/
def profileUpdateOf (r : RegistrationRequest) : ProfileUpdateRequest where
  masterPubkey := r.masterPubkey
  transportNodeId := r.transportNodeId
  serverUrl := r.serverUrl
  timestamp := r.timestamp
  visibility := r.visibility.toText
  displayName := none
  bio := none
  avatarHash := none
  signature := r.signature
  delegation := r.delegation

theorem signed_profileUpdateOf (haction : r.action = none) :
    (Request.updateProfile (profileUpdateOf r)).signed = some r := by
  obtain ⟨master, node, url, timestamp, visibility, action, signature, delegation⟩ := r
  obtain rfl : action = none := haction
  have hvis : Visibility.fromStr visibility.toText = .ok visibility :=
    Visibility.fromStr_toText visibility
  simp only [Request.signed, profileUpdateOf, hvis]
  rfl

end Signed

section Refusals

variable {S : SignatureCrates} {config : ServerConfig} {env : Env} {srv : ServerState}
  {r : RegistrationRequest}

theorem register_of_foreign_or_stale
    (h : config.publicUrl ≠ r.serverUrl ∨ env.Stale r.timestamp) :
    (register S config env r srv).2 = srv := by
  unfold register
  by_cases haction : r.action = some "unregister"
  · rw [if_pos haction]
  · rw [if_neg haction]
    have hnot : validateRegistration S config env r ≠ .ok () := by
      intro hok
      obtain ⟨-, htime, hurl, -, -⟩ := validateRegistration_eq_ok.mp hok
      rcases h with hurl' | hstale
      · exact hurl' hurl.symm
      · have hfar := hstale env.nowValidate (by simp)
        omega
    cases hval : validateRegistration S config env r with
    | error e => rfl
    | ok u => exact absurd hval hnot

theorem unregister_refuses (h : r.action ≠ some "unregister") :
    (unregister S env r srv).1.isOk = false := by
  unfold unregister
  rw [if_pos h]
  rfl

theorem Request.NamesAction.replaySafe {req : Request} (h : req.NamesAction)
    (hcaptured : req.Captured S r) : req.ReplaySafe S r := by
  obtain ⟨r', rfl, hsome⟩ := h
  obtain ⟨hsigned, -, hitsOwn⟩ := hcaptured
  obtain rfl : r' = r := Option.some.inj hsigned
  have haction : r'.action ≠ some "unregister" := hitsOwn
  have hput : ∀ replay : ProfileUpdateRequest,
      (Request.updateProfile replay).signed ≠ some r' := by
    intro replay hreplay
    obtain ⟨visibility, -, rfl⟩ := signed_updateProfile hreplay
    exact absurd hsome (by simp [ProfileUpdateRequest.registration])
  constructor
  · intro replay hreplay config env srv hforeign
    cases replay with
    | register req =>
      obtain rfl : req = r' := Option.some.inj hreplay
      exact register_of_foreign_or_stale hforeign
    | unregister req =>
      obtain rfl : req = r' := Option.some.inj hreplay
      rw [Request.handle, Server.unregister, if_pos haction]
    | updateProfile req => exact absurd hreplay (hput req)
  · intro replay hreplay hother config env srv
    cases replay with
    | register req => exact absurd rfl hother
    | unregister req =>
      obtain rfl : req = r' := Option.some.inj hreplay
      exact unregister_refuses haction
    | updateProfile req => exact absurd hreplay (hput req)

end Refusals

section Replays

variable {S : SignatureCrates} {req : Request} {r : RegistrationRequest}

def foreignTo (url : String) : ServerConfig := ⟨url ++ "/", true⟩

theorem foreignTo_publicUrl_ne (url : String) : (foreignTo url).publicUrl ≠ url := by
  intro h
  have hlength : (url ++ "/").length = url.length := congrArg String.length h
  rw [String.length_append] at hlength
  exact absurd hlength (by simp)

theorem Request.ReplaySafe.not_admitted (h : req.ReplaySafe S r) (hsigned : req.signed = some r)
    (now : UInt64) : ¬ req.Admitted S (foreignTo r.serverUrl) now := by
  intro hadm
  obtain ⟨srv, hchange⟩ := hadm.changes
  have hsame := h.unchanged req hsigned (foreignTo r.serverUrl) (Env.calm now) srv
    (.inl (foreignTo_publicUrl_ne r.serverUrl))
  rw [hsame] at hchange
  exact hchange rfl

theorem updateProfile_profileUpdateOf_succeeds (haction : r.action = none)
    (hver : verifyRegistrationSignature S r = .ok ()) (config : ServerConfig) :
    (Request.updateProfile (profileUpdateOf r)).succeeds S config (Env.calm 0)
      (ServerState.withUser r.masterPubkey) = true := by
  obtain ⟨visibility, hvis, hr⟩ := signed_updateProfile (signed_profileUpdateOf haction)
  rw [Request.succeeds, Server.updateProfile, hvis]
  dsimp only
  rw [← hr, hver]
  simp [Storage.updateProfile, Env.calm, ServerState.withUser, profileUpdateOf,
    Except.isOk, Except.toBool]

theorem Request.ReplaySafe.namesAction (h : req.ReplaySafe S r) (hcaptured : req.Captured S r) :
    req.NamesAction := by
  obtain ⟨hsigned, hver, haction⟩ := hcaptured
  cases req with
  | register r' =>
    obtain rfl : r' = r := Option.some.inj hsigned
    refine ⟨r', rfl, ?_⟩
    cases hnone : r'.action with
    | some action => rfl
    | none =>
      -- the same object, sent as a profile update
      have hrefused := h.refused (.updateProfile (profileUpdateOf r')) (signed_profileUpdateOf hnone)
        Endpoint.noConfusion ⟨"", true⟩ (Env.calm 0) (ServerState.withUser r'.masterPubkey)
      rw [updateProfile_profileUpdateOf_succeeds hnone hver] at hrefused
      exact absurd hrefused (by decide)
  | unregister r' =>
    obtain rfl : r' = r := Option.some.inj hsigned
    exact absurd ⟨haction, hver⟩ (h.not_admitted hsigned 0)
  | updateProfile put =>
    obtain ⟨visibility, hvis, rfl⟩ := signed_updateProfile hsigned
    exact absurd ⟨visibility, hvis, hver⟩ (h.not_admitted hsigned 0)

end Replays

/-- A captured request stays harmless exactly when it is a registration that names an
action. -/
theorem replaySafe_iff (S : SignatureCrates) (req : Request) (r : RegistrationRequest) :
    (req.Captured S r → req.ReplaySafe S r) ↔ (req.Captured S r → req.NamesAction) :=
  ⟨fun h hcaptured => (h hcaptured).namesAction hcaptured,
    fun h hcaptured => (h hcaptured).replaySafe hcaptured⟩

/-- What `key` signs for the server `url`, as its own master key. -/
def signedRequest (key url : String) (action : Option String) : RegistrationRequest :=
  let req : RegistrationRequest :=
    ⟨key, "node", url, 0, .isPublic, action, "", unsignedDelegation key key⟩
  { req with signature := hexEncode (checksumSign key (registrationSigningBytes req)) }

theorem verify_signedRequest (key url : String) (action : Option String) :
    verifyRegistrationSignature checksumCrates (signedRequest key url action) = .ok () := by
  unfold verifyRegistrationSignature
  simp only [Checks.bind_eq_ok, Checks.mapError_eq_ok, Checks.accept_eq_ok]
  refine ⟨_, hexToSignature_hexEncode (length_checksumSign ..), checksumKey key, rfl, ?_⟩
  exact verify_checksumSign key _

/-- Alice's request to unregister from one server removes her from another one, at any time,
and her registration passes for an update of her profile. -/
theorem not_replaySafe_signedRequest :
    ((Request.unregister (signedRequest "alice" "https://a" (some "unregister"))).Captured
        checksumCrates (signedRequest "alice" "https://a" (some "unregister")) ∧
      ¬ (Request.unregister (signedRequest "alice" "https://a" (some "unregister"))).ReplaySafe
        checksumCrates (signedRequest "alice" "https://a" (some "unregister"))) ∧
    (Request.register (signedRequest "alice" "https://a" none)).Captured
        checksumCrates (signedRequest "alice" "https://a" none) ∧
      ¬ (Request.register (signedRequest "alice" "https://a" none)).ReplaySafe
        checksumCrates (signedRequest "alice" "https://a" none) := by
  have hleave : (Request.unregister (signedRequest "alice" "https://a" (some "unregister"))).Captured
      checksumCrates (signedRequest "alice" "https://a" (some "unregister")) :=
    ⟨rfl, verify_signedRequest .., rfl⟩
  have hjoin : (Request.register (signedRequest "alice" "https://a" none)).Captured
      checksumCrates (signedRequest "alice" "https://a" none) := by
    refine ⟨rfl, verify_signedRequest .., ?_⟩
    intro h
    cases h
  refine ⟨⟨hleave, fun hsafe => ?_⟩, hjoin, fun hsafe => ?_⟩
  · exact hsafe.not_admitted rfl 0 ⟨rfl, hleave.2.1⟩
  · obtain ⟨r, hr, hsome⟩ := hsafe.namesAction hjoin
    cases hr
    cases hsome

end Proscenium.Server
