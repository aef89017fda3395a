import Proscenium.Client.RotationReach
import Proscenium.Client.AnnouncementVersions
import Proscenium.Server.RegistrationAuth

/-! A client that registers with a server, and what each of the two takes it to be
registered as. Commands send requests and wait for the reply; any number are under
way at once, requests and replies get lost, and the server serves others in
between. The client's list follows the server's with the replies that are on their
way, as long as they come in the order in which the requests were handled. -/

namespace Proscenium.Client.Registering

open Proscenium.Types
open Author (KeyCrates SecretKey Identity signHex transportNodeId publicText deriveSigningKey buildIdentity)
open Server (ServerState ServerConfig Registration ProfileUpdateRequest)

/-- The row of a server, as far as these commands look at it. -/
structure ServerEntry where
  registeredAt : Option Int64
  visibility : String
  deriving DecidableEq, Repr

/-- `answered` is in the order in which the requests were handled, with whether they succeeded. -/
structure World where
  identity : Identity
  entry : Option ServerEntry
  server : ServerState
  asked : List Server.Request
  answered : List (Server.Request × Bool)

inductive Label where
  | addServer
  | removeServer
  | registerWithServer (visibility : String) (now : UInt64)
  | unregisterFromServer (now : UInt64)
  | syncProfileToServer (profile : Profile) (now : UInt64)
  | handle (i : ℕ) (env : Server.Env)
  | receive (i : ℕ) (now : UInt64)
  | loseRequest (i : ℕ)
  | loseReply (i : ℕ)
  /-- Somebody else's request. -/
  | others (req : Server.Request) (env : Server.Env)

section Requests

variable (K : KeyCrates) (me : Identity) (url : String)

def registrationRequest (now : UInt64) (visibility : Visibility) (action : Option String) : RegistrationRequest :=
  let payload : RegistrationRequest := ⟨me.masterPubkey, transportNodeId K me.masterSecret 0, url, now, visibility,
    action, "", me.delegation⟩
  { payload with signature := signHex K me.signingSecret (registrationSigningBytes payload) }

/-- An unknown visibility is signed as the default one, and sent as it is. -/
def profileUpdate (now : UInt64) (profile : Profile) (visibility : String) : ProfileUpdateRequest :=
  let vis := match Visibility.fromStr visibility with
    | .ok vis => vis
    | .error _ => .isPublic
  { masterPubkey := me.masterPubkey
    transportNodeId := transportNodeId K me.masterSecret 0
    serverUrl := url
    timestamp := now
    visibility
    displayName := if profile.displayName = "" then none else some profile.displayName
    bio := if profile.bio = "" then none else some profile.bio
    avatarHash := profile.avatarHash
    signature := (registrationRequest K me url now vis none).signature
    delegation := me.delegation }

end Requests

section Server

variable (S : SignatureCrates) (config : ServerConfig)

def accepts (env : Server.Env) (srv : ServerState) : Server.Request → Bool
  | .register req => (Server.register S config env req srv).1.toBool
  | .unregister req => (Server.unregister S env req srv).1.toBool
  | .updateProfile req => (Server.updateProfile S env req srv).1.toBool

def listing (pubkey : String) (srv : ServerState) : Option String :=
  (srv.storage.registrations.find? fun r => r.pubkey = pubkey ∧ r.isActive = 1).map Registration.visibility

end Server

def settles : Server.Request → Bool
  | .register _ | .unregister _ => true
  | .updateProfile _ => false

/-- What a request that succeeds makes of a listing. -/
def effect : Server.Request → Option String → Option String
  | .register req, _ => some req.visibility.toText
  | .unregister _, _ => none
  | .updateProfile req, listed => listed.map fun _ => req.visibility

namespace World

def view (w : World) : Option String := w.entry.bind fun e => e.registeredAt.map fun _ => e.visibility

def markServerRegistered (visibility : String) (now : UInt64) (w : World) : World :=
  { w with entry := w.entry.map fun _ => ⟨some now.toInt64, visibility⟩ }

def markServerUnregistered (w : World) : World :=
  { w with entry := w.entry.map fun e => { e with registeredAt := none } }

variable (K : KeyCrates) (config : ServerConfig) (url : String)

def ask (req : Server.Request) (w : World) : World := { w with asked := w.asked ++ [req] }

def receive (now : UInt64) (w : World) : Server.Request × Bool → World
  | (.register req, true) => w.markServerRegistered req.visibility.toText now
  | (.unregister _, true) => w.markServerUnregistered
  | _ => w

def step (w : World) : Label → Option World
  | .addServer => some { w with entry := w.entry <|> some ⟨none, "public"⟩ }
  | .removeServer => some { w with entry := none }
  | .registerWithServer visibility now =>
    match Visibility.fromStr visibility with
    | .ok vis => some (w.ask (.register (registrationRequest K w.identity url now vis none)))
    | .error _ => some w
  | .unregisterFromServer now =>
    some (w.ask (.unregister (registrationRequest K w.identity url now .isPublic (some "unregister"))))
  | .syncProfileToServer profile now =>
    let visibility := (w.entry.map ServerEntry.visibility).getD "public"
    some (w.ask (.updateProfile (profileUpdate K w.identity url now profile visibility)))
  | .handle i env => w.asked[i]?.map fun req =>
    { w with
      server := req.handle K.toSignatureCrates config env w.server
      asked := w.asked.eraseIdx i
      answered := w.answered ++ [(req, accepts K.toSignatureCrates config env w.server req)] }
  | .receive i now => w.answered[i]?.map fun reply =>
    { w.receive now reply with answered := w.answered.eraseIdx i }
  | .loseRequest i => some { w with asked := w.asked.eraseIdx i }
  | .loseReply i => some { w with answered := w.answered.eraseIdx i }
  | .others req env => some { w with server := req.handle K.toSignatureCrates config env w.server }

def settle (listed : Option String) (reply : Server.Request × Bool) : Option String :=
  if reply.2 && settles reply.1 then effect reply.1 listed else listed

/-- The client's list, once all replies on their way have come. -/
def expected (w : World) : Option String := w.answered.foldl settle w.view

/-- The reply is a success that changes the client's list. -/
def SettlesAt (w : World) (i : ℕ) : Prop := ∃ reply ∈ w.answered[i]?, reply.2 = true ∧ settles reply.1 = true

/-- Successes come in order and none is lost, no profile update is overtaken by a registration, the
client's row is there while it counts, and the server admits no forged request. -/
def Orderly (w : World) : Label → Prop
  | .removeServer => w.view = none
  | .handle i env => ∀ update, w.asked[i]? = some (.updateProfile update) →
      accepts K.toSignatureCrates config env w.server (.updateProfile update) = true →
        listing w.identity.masterPubkey w.server = some update.visibility
  | .receive i _ => w.SettlesAt i → w.entry.isSome = true ∧ ∀ j < i, ¬ w.SettlesAt j
  | .loseReply i => ¬ w.SettlesAt i
  | .others req env => req.masterPubkey = w.identity.masterPubkey →
      ¬ req.Admitted K.toSignatureCrates config env.nowValidate
  | _ => True

/-- The server lists the user as the client will take it, and what is asked is asked in the user's name. -/
structure InStep (w : World) : Prop where
  listed : listing w.identity.masterPubkey w.server = w.expected
  own : ∀ req ∈ w.asked, req.masterPubkey = w.identity.masterPubkey

end World

section Rows

variable {ρ : Type*} {p q : ρ → Bool} {f : ρ → ρ} {t : List ρ}

theorem find?_updateWhere_of_unseen (hq : ∀ r, q r = true → p r = false ∧ p (f r) = false) :
    (Table.updateWhere q f t).find? p = t.find? p := by
  unfold Table.updateWhere
  induction t with
  | nil => rfl
  | cons r t ih =>
    rw [List.map_cons, List.find?_cons, List.find?_cons]
    by_cases hr : q r = true
    · rw [if_pos hr, (hq r hr).1, (hq r hr).2]
      exact ih
    · rw [if_neg hr]
      split
      · rfl
      · exact ih

theorem find?_updateWhere_self (hf : ∀ r, p r = true → p (f r) = true) :
    (Table.updateWhere p f t).find? p = (t.find? p).map f := by
  unfold Table.updateWhere
  induction t with
  | nil => rfl
  | cons r t ih =>
    rw [List.map_cons, List.find?_cons, List.find?_cons]
    by_cases hr : p r = true
    · rw [if_pos hr, hf r hr, hr]
      rfl
    · rw [if_neg hr, Bool.eq_false_iff.mpr hr]
      exact ih

theorem find?_upsert_of_unseen {κ : Type*} [DecidableEq κ] {key : ρ → κ} {k : κ} {new : ρ} (hnew : p new = false)
    (hk : ∀ r, key r = k → p r = false ∧ p (f r) = false) : (Table.upsert key k new f t).find? p = t.find? p := by
  unfold Table.upsert
  split
  · have hunseen : ∀ r, decide (key r = k) = true → p r = false ∧ p (f r) = false :=
      fun r hr => hk r (of_decide_eq_true hr)
    have hfound := find?_updateWhere_of_unseen (t := t) hunseen
    simpa [Table.updateWhere] using hfound
  · rw [List.find?_append, List.find?_singleton, hnew]
    simp

theorem map_find?_of_all {α : Type*} {g : ρ → α} {a : α} (hany : t.any p = true)
    (hall : ∀ r ∈ t, p r = true → g r = a) : (t.find? p).map g = some a := by
  cases hr : t.find? p with
  | none =>
    obtain ⟨r, hmem, hp⟩ := List.any_eq_true.mp hany
    exact absurd hp (List.find?_eq_none.mp hr r hmem)
  | some r =>
    have hmem := List.mem_of_find?_eq_some hr
    exact congrArg some (hall r hmem (List.find?_some hr))

end Rows

section Listing

variable {S : SignatureCrates} {config : ServerConfig} {env : Server.Env} {srv : ServerState} {pubkey : String}

def listed (pubkey : String) (r : Registration) : Bool := r.pubkey = pubkey ∧ r.isActive = 1

theorem listing_eq :
    listing pubkey srv = (srv.storage.registrations.find? (listed pubkey)).map Registration.visibility :=
  rfl

theorem listed_of_ne {r : Registration} (hne : r.pubkey ≠ pubkey) : listed pubkey r = false :=
  decide_eq_false fun h => hne h.1

theorem registrations_registerUser (user visibility : String) (profile : Option Profile) (node : Option String)
    (d : Option SigningKeyDelegation) (st : Server.Storage) :
    let out := st.registerUser env user visibility profile node d
    (out.1.toBool = true ∧
        out.2.registrations = (st.upsertRegistration env user visibility profile node d).registrations) ∨
      (out.1.toBool = false ∧ out.2.registrations = st.registrations) := by
  unfold Server.Storage.registerUser Server.Storage.run
  cases env.fails .registerUser with
  | some e => exact Or.inr ⟨rfl, rfl⟩
  | none =>
    refine Or.inl ?_
    dsimp only
    split
    · refine ⟨rfl, ?_⟩
      unfold Server.Storage.cachePeerDelegation Server.Storage.run
      split <;> rfl
    · exact ⟨rfl, rfl⟩

theorem registrations_unregisterUser (user : String) (st : Server.Storage) :
    let out := st.unregisterUser env user
    (out.1.toBool = true ∧ out.2.registrations = (st.deactivate user).registrations) ∨
      (out.1.toBool = false ∧ out.2.registrations = st.registrations) := by
  unfold Server.Storage.unregisterUser Server.Storage.run
  cases env.fails .deleteInteractions with
  | some e => exact Or.inr ⟨rfl, rfl⟩
  | none =>
    cases env.fails .deletePosts with
    | some e => exact Or.inr ⟨rfl, rfl⟩
    | none =>
      cases env.fails .deleteSyncState with
      | some e => exact Or.inr ⟨rfl, rfl⟩
      | none =>
        cases env.fails .deactivate with
        | some e => exact Or.inr ⟨rfl, rfl⟩
        | none => exact Or.inl ⟨rfl, rfl⟩

def reviseProfile (env : Server.Env) (req : ProfileUpdateRequest) (r : Registration) : Registration :=
  { r with
    displayName := some (req.displayName.getD "")
    bio := some (req.bio.getD "")
    avatarHash := req.avatarHash
    visibility := req.visibility
    lastSeen := env.nowStore.toInt64 }

/-- What a request that succeeds makes of the registrations. -/
def revised (env : Server.Env) (st : Server.Storage) : Server.Request → List Registration
  | .register req => (st.upsertRegistration env req.masterPubkey req.visibility.toText none (some req.transportNodeId)
      (some req.delegation)).registrations
  | .unregister req => (st.deactivate req.masterPubkey).registrations
  | .updateProfile req => Table.updateWhere (listed req.masterPubkey) (reviseProfile env req) st.registrations

/-- A request succeeds and revises the registrations, or fails and leaves them as they are. -/
def Settled (S : SignatureCrates) (config : ServerConfig) (env : Server.Env) (srv : ServerState)
    (req : Server.Request) : Prop :=
  (accepts S config env srv req = true ∧
      (req.handle S config env srv).storage.registrations = revised env srv.storage req) ∨
    (accepts S config env srv req = false ∧
      (req.handle S config env srv).storage.registrations = srv.storage.registrations)

theorem settled_register (req : RegistrationRequest) : Settled S config env srv (.register req) := by
  have hstored := @registrations_registerUser env req.masterPubkey req.visibility.toText none
    (some req.transportNodeId) (some req.delegation) srv.storage
  simp only [Settled, accepts, Server.Request.handle, revised]
  unfold Server.register
  split
  · exact Or.inr ⟨rfl, rfl⟩
  · cases Server.validateRegistration S config env req with
    | error e => exact Or.inr ⟨rfl, rfl⟩
    | ok u =>
      revert hstored
      dsimp only
      rcases srv.storage.registerUser env req.masterPubkey req.visibility.toText none
        (some req.transportNodeId) (some req.delegation) with ⟨_ | _, st⟩
      · rintro (⟨hok, -⟩ | ⟨-, hsame⟩)
        · exact absurd hok Bool.false_ne_true
        · split <;> exact Or.inr ⟨rfl, hsame⟩
      · rintro (⟨-, hnew⟩ | ⟨hok, -⟩)
        · refine Or.inl ?_
          split
          · exact ⟨rfl, hnew⟩
          · refine ⟨rfl, ?_⟩
            dsimp only
            split
            · rw [Server.subscribe_storage]
              exact hnew
            · exact hnew
        · exact absurd hok Bool.false_ne_true.symm

theorem settled_unregister (req : RegistrationRequest) : Settled S config env srv (.unregister req) := by
  have hstored := @registrations_unregisterUser env req.masterPubkey srv.storage
  simp only [Settled, accepts, Server.Request.handle, revised]
  unfold Server.unregister Server.unsubscribe
  split
  · exact Or.inr ⟨rfl, rfl⟩
  · cases verifyRegistrationSignature S req with
    | error e => exact Or.inr ⟨rfl, rfl⟩
    | ok u =>
      revert hstored
      dsimp only
      rcases srv.storage.unregisterUser env req.masterPubkey with ⟨_ | _, st⟩
      · rintro (⟨hok, -⟩ | ⟨-, hsame⟩)
        · exact absurd hok Bool.false_ne_true
        · exact Or.inr ⟨rfl, hsame⟩
      · rintro (⟨-, hnew⟩ | ⟨hok, -⟩)
        · exact Or.inl ⟨rfl, hnew⟩
        · exact absurd hok Bool.false_ne_true.symm

theorem toText_of_fromStr {s : String} {visibility : Visibility} (h : Visibility.fromStr s = .ok visibility) :
    visibility.toText = s := by
  unfold Visibility.fromStr at h
  grind [Visibility.toText]

theorem settled_updateProfile (req : ProfileUpdateRequest) : Settled S config env srv (.updateProfile req) := by
  simp only [Settled, accepts, Server.Request.handle, revised]
  unfold Server.updateProfile Server.Storage.updateProfile
  cases hvis : Visibility.fromStr req.visibility with
  | error e => exact Or.inr ⟨rfl, rfl⟩
  | ok visibility =>
    have htext : visibility.toText = req.visibility := toText_of_fromStr hvis
    dsimp only
    cases verifyRegistrationSignature S (req.registration visibility) with
    | error e => exact Or.inr ⟨rfl, rfl⟩
    | ok u =>
      cases env.fails .updateProfile with
      | some e => exact Or.inr ⟨rfl, rfl⟩
      | none =>
        dsimp only
        rw [htext]
        split
        next => exact Or.inl ⟨rfl, rfl⟩
        next hnone =>
          -- no row is active, and none is touched
          refine Or.inr ⟨rfl, ?_⟩
          have hsame : ∀ r ∈ srv.storage.registrations, ¬ (r.pubkey = req.masterPubkey ∧ r.isActive = 1) := by
            simpa using hnone
          refine (List.map_congr_left fun r hr => ?_).trans (List.map_id _)
          exact if_neg fun hlisted => hsame r hr (of_decide_eq_true hlisted)

theorem settled (req : Server.Request) : Settled S config env srv req := by
  cases req with
  | register req => exact settled_register req
  | unregister req => exact settled_unregister req
  | updateProfile req => exact settled_updateProfile req

theorem find_revised_of_ne (req : Server.Request) (hne : req.masterPubkey ≠ pubkey) :
    (revised env srv.storage req).find? (listed pubkey) = srv.storage.registrations.find? (listed pubkey) := by
  have hother : ∀ {r : Registration}, r.pubkey = req.masterPubkey → listed pubkey r = false := by
    intro r hr
    exact listed_of_ne fun h => hne (hr.symm.trans h)
  cases req with
  | register req => exact find?_upsert_of_unseen (hother rfl) fun r hr => ⟨hother hr, hother hr⟩
  | unregister req =>
    exact find?_updateWhere_of_unseen fun r hr => ⟨hother (of_decide_eq_true hr), hother (of_decide_eq_true hr)⟩
  | updateProfile req =>
    exact find?_updateWhere_of_unseen fun r hr => ⟨hother (of_decide_eq_true hr).1, hother (of_decide_eq_true hr).1⟩

theorem find_revised_self (req : Server.Request) :
    ((revised env srv.storage req).find? (listed req.masterPubkey)).map Registration.visibility =
      effect req ((srv.storage.registrations.find? (listed req.masterPubkey)).map Registration.visibility) := by
  cases req with
  | register req =>
    refine map_find?_of_all ?_ ?_
    · refine Table.any_upsert_self ?_ (fun r hr => ?_) _
      · exact decide_eq_true ⟨rfl, rfl⟩
      · exact decide_eq_true ⟨hr, rfl⟩
    · intro r hr hlisted
      -- every row of the user is the one that was written
      rcases Table.mem_upsert_iff.mp hr with ⟨-, hne⟩ | ⟨q, -, -, rfl⟩ | ⟨-, rfl⟩
      · exact absurd (of_decide_eq_true hlisted).1 hne
      · rfl
      · rfl
  | unregister req =>
    have hnone : (revised env srv.storage (.unregister req)).find? (listed req.masterPubkey) = none := by
      refine List.find?_eq_none.mpr fun r hr hlisted => ?_
      obtain ⟨q, -, rfl⟩ := List.mem_map.mp hr
      have hrow := of_decide_eq_true hlisted
      split at hrow
      next =>
        have hactive : (0 : ℤ) = 1 := hrow.2
        omega
      next hne => exact hne (decide_eq_true hrow.1)
    exact congrArg (Option.map _) hnone
  | updateProfile req =>
    have hfound := find?_updateWhere_self (p := listed req.masterPubkey) (t := srv.storage.registrations)
      (f := reviseProfile env req) fun r hr => hr
    refine (congrArg (Option.map _) hfound).trans ?_
    simp only [effect, Server.Request.masterPubkey, Option.map_map]
    rfl

theorem listing_handle (req : Server.Request) :
    listing pubkey (req.handle S config env srv) =
      if accepts S config env srv req && req.masterPubkey = pubkey then effect req (listing pubkey srv)
      else listing pubkey srv := by
  simp only [listing_eq]
  have hsettled : Settled S config env srv req := settled req
  rcases hsettled with ⟨hok, hnew⟩ | ⟨hok, hsame⟩
  · rw [hnew, hok, Bool.true_and]
    by_cases huser : req.masterPubkey = pubkey
    · subst huser
      rw [if_pos (decide_eq_true rfl)]
      exact find_revised_self req
    · rw [if_neg fun h => huser (of_decide_eq_true h)]
      rw [find_revised_of_ne req huser]
  · rw [hsame, hok]
    rfl

end Listing

namespace World

variable {K : KeyCrates} {config : ServerConfig} {url : String} {w w' : World}

@[simp] theorem settle_of_not_settles (listed : Option String) {reply : Server.Request × Bool}
    (h : ¬ (reply.2 = true ∧ settles reply.1 = true)) : settle listed reply = listed :=
  if_neg fun hboth => h (Bool.and_eq_true_iff.mp hboth)

theorem foldl_settle_of_none {replies : List (Server.Request × Bool)} (listed : Option String)
    (h : ∀ reply ∈ replies, ¬ (reply.2 = true ∧ settles reply.1 = true)) : replies.foldl settle listed = listed := by
  induction replies generalizing listed with
  | nil => rfl
  | cons reply replies ih =>
    rw [List.foldl_cons, settle_of_not_settles listed (h reply List.mem_cons_self)]
    exact ih listed fun r hr => h r (List.mem_cons_of_mem _ hr)

theorem foldl_settle_eraseIdx {replies : List (Server.Request × Bool)} {i : ℕ} (listed : Option String)
    (h : ∀ reply ∈ replies[i]?, ¬ (reply.2 = true ∧ settles reply.1 = true)) :
    (replies.eraseIdx i).foldl settle listed = replies.foldl settle listed := by
  induction replies generalizing i listed with
  | nil => rfl
  | cons reply replies ih =>
    cases i with
    | zero =>
      have hnone := settle_of_not_settles listed (h reply rfl)
      rw [List.eraseIdx_cons_zero, List.foldl_cons, hnone]
    | succ i =>
      rw [List.eraseIdx_cons_succ, List.foldl_cons, List.foldl_cons]
      exact ih _ h

theorem foldl_settle_first {replies : List (Server.Request × Bool)} {i : ℕ} {reply : Server.Request × Bool}
    (listed : Option String) (hi : replies[i]? = some reply)
    (hfirst : ∀ j < i, ∀ earlier ∈ replies[j]?, ¬ (earlier.2 = true ∧ settles earlier.1 = true)) :
    (replies.eraseIdx i).foldl settle (settle listed reply) = replies.foldl settle listed := by
  induction replies generalizing i with
  | nil => exact nomatch hi
  | cons first replies ih =>
    cases i with
    | zero =>
      cases hi
      rfl
    | succ i =>
      have hnone := hfirst 0 (Nat.succ_pos i) first rfl
      rw [List.eraseIdx_cons_succ, List.foldl_cons, List.foldl_cons, settle_of_not_settles _ hnone,
        settle_of_not_settles _ hnone]
      exact ih hi fun j hj => hfirst (j + 1) (Nat.succ_lt_succ hj)

theorem view_receive (now : UInt64) {reply : Server.Request × Bool} (hentry : w.entry.isSome = true) :
    (w.receive now reply).view = settle w.view reply := by
  obtain ⟨e, he⟩ := Option.isSome_iff_exists.mp hentry
  obtain ⟨req, ok⟩ := reply
  cases req <;> cases ok <;>
    simp [receive, markServerRegistered, markServerUnregistered, view, settle, settles, effect, he]

theorem view_receive_of_not_settles (now : UInt64) {reply : Server.Request × Bool}
    (h : ¬ (reply.2 = true ∧ settles reply.1 = true)) : w.receive now reply = w := by
  obtain ⟨req, ok⟩ := reply
  cases req <;> cases ok <;> first | rfl | exact absurd ⟨rfl, rfl⟩ h

variable (K config url) in
theorem identity_step {l : Label} (hstep : w.step K config url l = some w') : w'.identity = w.identity := by
  cases l with
  | handle i env =>
    obtain ⟨req, -, rfl⟩ := Option.map_eq_some_iff.mp hstep
    rfl
  | receive i now =>
    obtain ⟨reply, -, rfl⟩ := Option.map_eq_some_iff.mp hstep
    obtain ⟨req, ok⟩ := reply
    cases req <;> cases ok <;> rfl
  | registerWithServer visibility now =>
    simp only [step] at hstep
    split at hstep <;> cases hstep <;> rfl
  | _ =>
    cases hstep
    rfl

theorem InStep.ask (h : w.InStep) {req : Server.Request} (hreq : req.masterPubkey = w.identity.masterPubkey) :
    (w.ask req).InStep where
  listed := h.listed
  own r hr := by
    rcases List.mem_append.mp hr with hr | hr
    · exact h.own r hr
    · exact List.mem_singleton.mp hr ▸ hreq

theorem listing_eq_settle {S : SignatureCrates} {env : Server.Env} {srv : ServerState} {req : Server.Request}
    (hfresh : ∀ update, req = .updateProfile update → accepts S config env srv req = true →
      listing req.masterPubkey srv = some update.visibility) :
    listing req.masterPubkey (req.handle S config env srv) =
      settle (listing req.masterPubkey srv) (req, accepts S config env srv req) := by
  rw [listing_handle, decide_eq_true rfl, Bool.and_true]
  unfold settle
  cases req with
  | register req => simp [settles]
  | unregister req => simp [settles]
  | updateProfile update =>
    rw [settles, Bool.and_false, if_neg (Bool.false_ne_true)]
    split
    next hok =>
      have hlisted := hfresh update rfl hok
      rw [effect, hlisted]
      rfl
    next => rfl

theorem InStep.handle (h : w.InStep) {i : ℕ} {env : Server.Env} {req : Server.Request} (hreq : w.asked[i]? = some req)
    (hok : w.Orderly K config (.handle i env)) :
    InStep { w with
      server := req.handle K.toSignatureCrates config env w.server
      asked := w.asked.eraseIdx i
      answered := w.answered ++ [(req, accepts K.toSignatureCrates config env w.server req)] } where
  listed := by
    have hown : req.masterPubkey = w.identity.masterPubkey := h.own req (List.mem_of_getElem? hreq)
    have hfresh : ∀ update, req = .updateProfile update →
        accepts K.toSignatureCrates config env w.server req = true →
          listing req.masterPubkey w.server = some update.visibility := by
      rintro update rfl haccepts
      rw [hown]
      exact hok update hreq haccepts
    have hnew := listing_eq_settle hfresh
    rw [hown, h.listed] at hnew
    refine hnew.trans ?_
    simp only [expected, List.foldl_append, List.foldl_cons, List.foldl_nil]
    rfl
  own r hr := h.own r (List.mem_of_mem_eraseIdx hr)

theorem InStep.receive (h : w.InStep) {i : ℕ} {now : UInt64} {reply : Server.Request × Bool}
    (hreply : w.answered[i]? = some reply) (hok : w.Orderly K config (.receive i now)) :
    InStep { w.receive now reply with answered := w.answered.eraseIdx i } := by
  -- the replies may come in any order, but those that settle something come in theirs
  by_cases hsettles : reply.2 = true ∧ settles reply.1 = true
  · obtain ⟨hentry, hfirst⟩ := hok ⟨reply, hreply, hsettles⟩
    have hview : (w.receive now reply).view = settle w.view reply := view_receive now hentry
    have hlater := foldl_settle_first w.view hreply fun j hj r hr hsettled => hfirst j hj ⟨r, hr, hsettled⟩
    refine ⟨?_, ?_⟩
    · rw [← hview] at hlater
      obtain ⟨req, ok⟩ := reply
      cases req <;> cases ok <;> exact h.listed.trans hlater.symm
    · obtain ⟨req, ok⟩ := reply
      cases req <;> cases ok <;> exact h.own
  · rw [view_receive_of_not_settles now hsettles]
    refine ⟨h.listed.trans ?_, h.own⟩
    refine (foldl_settle_eraseIdx w.view fun r hr => ?_).symm
    exact Option.some.inj (hreply.symm.trans hr) ▸ hsettles

theorem InStep.others (h : w.InStep) {env : Server.Env} {req : Server.Request}
    (hok : w.Orderly K config (.others req env)) :
    InStep { w with server := req.handle K.toSignatureCrates config env w.server } where
  listed := by
    refine Eq.trans ?_ h.listed
    by_cases hown : req.masterPubkey = w.identity.masterPubkey
    · have hsame : (req.handle K.toSignatureCrates config env w.server).storage = w.server.storage :=
        Server.handle_storage_of_not_admitted (hok hown)
      exact congrArg (fun st => listing w.identity.masterPubkey ⟨st, []⟩) hsame
    · refine (listing_handle req).trans (if_neg fun h => hown ?_)
      exact of_decide_eq_true (Bool.and_eq_true_iff.mp h).2
  own := h.own

theorem InStep.step (h : w.InStep) {l : Label} (hok : w.Orderly K config l) (hstep : w.step K config url l = some w') :
    w'.InStep := by
  cases l with
  | addServer =>
    cases hstep
    refine ⟨h.listed.trans ?_, h.own⟩
    have hview : ({ w with entry := w.entry <|> some ⟨none, "public"⟩ } : World).view = w.view := by
      unfold view
      cases w.entry <;> rfl
    exact congrArg (List.foldl settle · w.answered) hview.symm
  | removeServer =>
    cases hstep
    exact ⟨h.listed.trans (congrArg (List.foldl settle · w.answered) hok), h.own⟩
  | registerWithServer visibility now =>
    simp only [World.step] at hstep
    split at hstep <;> cases hstep
    · exact h.ask rfl
    · exact h
  | unregisterFromServer now =>
    cases hstep
    exact h.ask rfl
  | syncProfileToServer profile now =>
    cases hstep
    exact h.ask rfl
  | handle i env =>
    obtain ⟨req, hreq, rfl⟩ := Option.map_eq_some_iff.mp hstep
    exact h.handle hreq hok
  | receive i now =>
    obtain ⟨reply, hreply, rfl⟩ := Option.map_eq_some_iff.mp hstep
    exact h.receive hreply hok
  | loseRequest i =>
    cases hstep
    exact ⟨h.listed, fun req hreq => h.own req (List.mem_of_mem_eraseIdx hreq)⟩
  | loseReply i =>
    cases hstep
    refine ⟨h.listed.trans (foldl_settle_eraseIdx w.view ?_).symm, h.own⟩
    exact fun reply hreply hsettles => hok ⟨reply, hreply, hsettles⟩
  | others req env =>
    cases hstep
    exact h.others hok

/-- Along an orderly run the server lists the user as the client's list will say once the replies on
their way have come, and as it says when none is. -/
theorem registration_in_step {run : List Label} (hasked : w.asked = []) (hanswered : w.answered = [])
    (hview : listing w.identity.masterPubkey w.server = w.view)
    (hok : Machine.Along (World.step K config url) (Orderly K config) w run)
    (hrun : Machine.exec (World.step K config url) w run = some w') :
    listing w.identity.masterPubkey w'.server = w'.expected ∧
      ((∀ i, ¬ w'.SettlesAt i) → listing w.identity.masterPubkey w'.server = w'.view) := by
  have hstart : w.InStep := by
    refine ⟨hview.trans ?_, ?_⟩
    · rw [expected, hanswered]
      rfl
    · rw [hasked]
      intro req hreq
      exact nomatch hreq
  have hkept : w'.InStep ∧ w'.identity = w.identity := by
    refine Machine.exec_invariant (I := fun v => v.InStep ∧ v.identity = w.identity) ?_ ⟨hstart, rfl⟩ hok hrun
    rintro v l v' ⟨hv, hidentity⟩ hl hstep
    exact ⟨hv.step hl hstep, (identity_step K config url hstep).trans hidentity⟩
  have hlisted := hkept.1.listed
  rw [hkept.2] at hlisted
  refine ⟨hlisted, fun hnone => hlisted.trans ?_⟩
  refine foldl_settle_of_none w'.view fun reply hreply hsettles => ?_
  obtain ⟨i, hi⟩ := List.mem_iff_getElem?.mp hreply
  exact hnone i ⟨reply, hi, hsettles⟩

end World

section Answers

variable {K : KeyCrates} {config : ServerConfig} {env : Server.Env} {srv : ServerState} {me : Identity} {url : String}
  {now : UInt64} {visibility : Visibility}

theorem verify_registrationRequest (hK : K.Lawful) (hme : me.delegation.signingPubkey = publicText K me.signingSecret)
    (action : Option String) :
    verifyRegistrationSignature K.toSignatureCrates (registrationRequest K me url now visibility action) = .ok () := by
  have hsig := Author.hexToSignature_signHex hK me.signingSecret
    (registrationSigningBytes (registrationRequest K me url now visibility action))
  have hkey : K.parsePublicKey me.delegation.signingPubkey = .ok (K.publicKey me.signingSecret) := by
    rw [hme]
    exact hK.parse_keyText _
  have hver := hK.verify_sign me.signingSecret
    (registrationSigningBytes (registrationRequest K me url now visibility action))
  simp only [verifyRegistrationSignature, Checks.bind_eq_ok, Checks.mapError_eq_ok, Checks.accept_eq_ok]
  exact ⟨_, hsig, _, hkey, hver⟩

/-- The conditions under which an honest registration is granted. -/
def Granted (config : ServerConfig) (env : Server.Env) (url : String) (now : UInt64) (visibility : Visibility) : Prop :=
  Server.absDiff now env.nowValidate ≤ Server.timestampToleranceMs ∧ url = config.publicUrl ∧ visibility ≠ .isPrivate ∧
    config.registrationOpen = true ∧ env.fails .registerUser = none

instance : Decidable (Granted config env url now visibility) := by
  unfold Granted
  infer_instance

theorem accepts_of_granted (hK : K.Lawful) (hme : me.delegation.signingPubkey = publicText K me.signingSecret)
    (h : Granted config env url now visibility) :
    accepts K.toSignatureCrates config env srv
      (.register (registrationRequest K me url now visibility none)) = true := by
  obtain ⟨hclock, hurl, hvisibility, hopen, hfails⟩ := h
  have hvalid : Server.validateRegistration K.toSignatureCrates config env
      (registrationRequest K me url now visibility none) = .ok () :=
    Server.validateRegistration_eq_ok.mpr ⟨verify_registrationRequest hK hme none, hclock, hurl, hvisibility, hopen⟩
  have hstored : (srv.storage.registerUser env me.masterPubkey visibility.toText none
      (some (transportNodeId K me.masterSecret 0)) (some me.delegation)).1 = .ok () := by
    simp [Server.Storage.registerUser, Server.Storage.run, hfails]
  have hregisters : (registrationRequest K me url now visibility none).action ≠ some "unregister" :=
    (Option.some_ne_none _).symm
  simp only [accepts]
  unfold Server.register
  rw [if_neg hregisters, hvalid]
  simp only [registrationRequest] at hstored ⊢
  rw [hstored]
  split <;> rfl

end Answers

section Examples

def config : ServerConfig := ⟨"https://server", true⟩

def calm : Server.Env := Server.Env.calm 0

def newcomer (K : KeyCrates) : World :=
  ⟨Author.buildIdentity K Author.zeroSecret none "" 0 0, none, ⟨⟨[], [], [], [], []⟩, []⟩, [], []⟩

def registers : List Label := [.addServer, .registerWithServer "listed" 0, .handle 0 calm, .receive 0 0]

theorem registers_orderly (K : KeyCrates) : Machine.Along (World.step K config "https://server")
    (World.Orderly K config) (newcomer K) registers := by
  refine ⟨trivial, fun w hw => ?_⟩
  cases hw
  refine ⟨trivial, fun w hw => ?_⟩
  cases hw
  refine ⟨fun update hupdate => (nomatch hupdate), fun w hw => ?_⟩
  cases hw
  exact ⟨fun _ => ⟨rfl, fun j hj => absurd hj j.not_lt_zero⟩, fun _ _ => trivial⟩

theorem exec_registers {K : KeyCrates} (hK : K.Lawful) : ∃ w, Machine.exec (World.step K config "https://server")
      (newcomer K) registers = some w ∧ w.answered = [] ∧ w.view = some "listed" := by
  have hgranted : Granted config calm "https://server" 0 .listed := by decide
  have haccepts : accepts K.toSignatureCrates config calm (newcomer K).server (.register
      (registrationRequest K (newcomer K).identity "https://server" 0 .listed none)) = true :=
    accepts_of_granted hK rfl hgranted
  refine ⟨_, rfl, rfl, ?_⟩
  refine (World.view_receive 0 rfl).trans ?_
  exact if_pos (Bool.and_eq_true_iff.mpr ⟨haccepts, rfl⟩)

/-- A user registers, and both sides say so. -/
theorem registration_in_step_newcomer : ∃ w, Machine.exec (World.step Author.plainKeys config "https://server")
      (newcomer Author.plainKeys) registers = some w ∧
    listing (newcomer Author.plainKeys).identity.masterPubkey w.server = some "listed" ∧ w.view = some "listed" := by
  obtain ⟨w, hrun, hanswered, hview⟩ := exec_registers Author.plainKeys_lawful
  refine ⟨w, hrun, ?_, hview⟩
  have hnone : ∀ i, ¬ w.SettlesAt i := by
    rintro i ⟨reply, hreply, -⟩
    rw [hanswered] at hreply
    exact nomatch hreply
  have hlisting := World.registration_in_step rfl rfl rfl (registers_orderly Author.plainKeys) hrun
  exact (hlisting.2 hnone).trans hview

end Examples

end Proscenium.Client.Registering
