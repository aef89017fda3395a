import Proscenium.Server.PublicService

/-! Which users the server listens to, and whose registrations are active and
public. Between two requests nothing is under way, so the endpoints and the
handler of a profile are taken whole. Only the first registration and the
unregistration touch the subscriptions. -/

namespace Proscenium.Server

open Proscenium.Types
open Machine

namespace Storage

variable (pubkey : String) (st : Storage)

def isActive : Bool := (Table.find Registration.pubkey pubkey st.registrations).any fun r => r.isActive = 1

def isIndexed : Bool :=
  (Table.find Registration.pubkey pubkey st.registrations).any fun r => r.isActive = 1 ∧ r.visibility = "public"

/-- A registration with this node leads to one that a feed can be joined through: to its own, if its delegation
is cached, and otherwise to the one of the delegation that is. -/
def FindsNode (env : Env) (nodeId : String) : Prop :=
  env.fails .delegatedNode = none ∧
    if env.fails .cachePeerDelegation = none then env.parsesNodeId nodeId = true
    else
      match (Table.find PeerDelegation.masterPubkey pubkey st.peerDelegations).bind PeerDelegation.transportNodeId with
      | some old => env.parsesNodeId old = true
      | none => env.fails .registeredNode = none ∧ env.parsesNodeId nodeId = true

def write (st : Storage) : Write → Storage
  | .deleteInteractions => st.deleteInteractions pubkey
  | .deletePosts => st.deletePosts pubkey
  | .deleteSyncState => st.deleteSyncState pubkey
  | .deactivate => st.deactivate pubkey
  | .setVisibility visibility =>
    { st with
      registrations := Table.updateWhere (fun r => r.pubkey = pubkey ∧ r.isActive = 1)
        (fun r => { r with visibility := visibility.toText }) st.registrations }

end Storage

namespace ServerState

inductive Operation where
  | request (req : Request) (env : Env)
  /-- A listener takes a profile; `ran` statements of the change of visibility run. -/
  | profileUpdate (owner : String) (profile : Profile) (env : Env) (keyFails : Bool) (ran : Nat)

variable (S : SignatureCrates) (config : ServerConfig) (srv : ServerState)

def empty : ServerState := ⟨⟨[], [], [], [], []⟩, []⟩

def acceptsProfile (keyFails : Bool) (owner : String) (profile : Profile) : Bool :=
  (Store.empty.withServer srv).acceptsProfile S keyFails owner profile

/-- `ProfileUpdate` in `process_gossip_message`. -/
def processProfileUpdate (owner : String) (profile : Profile) (env : Env) (keyFails : Bool) (ran : Nat) :
    ServerState :=
  if srv.acceptsProfile S keyFails owner profile ∧ env.fails .updateProfile = none then
    { srv with
      storage := ((handleVisibilityChange profile.visibility).take ran).foldl (Storage.write owner)
        (srv.storage.updateProfile env owner profile).2 }
  else srv

/-- The network lets every subscription succeed. -/
def step (srv : ServerState) : Operation → Option ServerState
  | .request req env => some (req.handle S config { env with subscribes := true } srv)
  | .profileUpdate owner profile env keyFails ran =>
    if owner ∈ srv.subscriptions then some (srv.processProfileUpdate S owner profile env keyFails ran) else none

def Matches : Prop := ∀ pubkey, pubkey ∈ srv.subscriptions ↔ srv.storage.isIndexed pubkey = true

/-- A public registration is of an indexed user, or it is not found and leads to a node; one that is not public is of a
user who is not indexed; a change of the profile does not make an active user public or not public any more; and an
unregistration of an indexed user runs to its end. -/
def Keeps : Operation → Prop
  | .request (.register req) env => req.action ≠ some "unregister" → validateRegistration S config env req = .ok () →
      env.fails .registerUser = none →
      if req.visibility = .isPublic then
        srv.storage.isIndexed req.masterPubkey = true ∨
          (∀ r, srv.storage.getRegistration env req.masterPubkey ≠ .ok (some r)) ∧
            srv.storage.FindsNode req.masterPubkey env req.transportNodeId
      else srv.storage.isIndexed req.masterPubkey = false
  | .request (.unregister req) env => req.action = some "unregister" → verifyRegistrationSignature S req = .ok () →
      srv.storage.isIndexed req.masterPubkey = true → env.fails .deleteInteractions = none ∧
        env.fails .deletePosts = none ∧ env.fails .deleteSyncState = none ∧ env.fails .deactivate = none
  | .request (.updateProfile req) env => ∀ visibility, Visibility.fromStr req.visibility = .ok visibility →
      verifyRegistrationSignature S (req.registration visibility) = .ok () → env.fails .updateProfile = none →
      srv.storage.isActive req.masterPubkey = true →
      (visibility = .isPublic ↔ srv.storage.isIndexed req.masterPubkey = true)
  | .profileUpdate owner profile env keyFails _ => owner ∈ srv.subscriptions →
      srv.acceptsProfile S keyFails owner profile = true → env.fails .updateProfile = none →
      profile.visibility = .isPublic

variable {S config} {srv} {srv' : ServerState} {env : Env} {pubkey : String}

theorem matches_empty : empty.Matches := fun _ => iff_of_false List.not_mem_nil Bool.false_ne_true

theorem matches_iff (h : srv.Matches)
    (hothers : ∀ u ≠ pubkey, (u ∈ srv'.subscriptions ↔ u ∈ srv.subscriptions) ∧
      srv'.storage.isIndexed u = srv.storage.isIndexed u) :
    srv'.Matches ↔ (pubkey ∈ srv'.subscriptions ↔ srv'.storage.isIndexed pubkey = true) := by
  constructor
  · intro h'
    exact h' pubkey
  · intro hself u
    by_cases hu : u = pubkey
    · exact hu ▸ hself
    · obtain ⟨hsubs, hrow⟩ := hothers u hu
      rw [hsubs, hrow]
      exact h u

theorem isIndexed_of_viewOf {st st' : Storage} (h : st'.viewOf pubkey = st.viewOf pubkey) :
    st'.isIndexed pubkey = st.isIndexed pubkey := by
  have hrow : Table.find Registration.pubkey pubkey st'.registrations =
      Table.find Registration.pubkey pubkey st.registrations := congrArg View.registration h
  unfold Storage.isIndexed
  rw [hrow]

section Rows

variable {st : Storage}

theorem isIndexed_registerUser {visibility : Visibility} {node : String} {d : SigningKeyDelegation}
    (hfails : env.fails .registerUser = none) :
    (st.registerUser env pubkey visibility.toText none (some node) (some d)).2.isIndexed pubkey =
      decide (visibility = .isPublic) := by
  unfold Storage.isIndexed
  rw [Store.registrations_registerUser, if_pos hfails]
  unfold Storage.upsertRegistration
  dsimp only
  rw [Table.find_upsert_self]
  · cases Table.find Registration.pubkey pubkey st.registrations with
    | none | some r =>
      refine decide_eq_decide.mpr ⟨fun h => Store.toText_eq_public.mp h.2, fun h => ⟨rfl, ?_⟩⟩
      exact Store.toText_eq_public.mpr h
  · exact fun _ => rfl
  · rfl

theorem nodeId_upsertRegistration {visibility node : String} {d : SigningKeyDelegation} :
    ((st.upsertRegistration env pubkey visibility none (some node) (some d)).registrations.find?
      fun r => r.pubkey = pubkey ∧ r.isActive = 1).bind Registration.transportNodeId = some node := by
  have hrows : ∀ r ∈ (st.upsertRegistration env pubkey visibility none (some node) (some d)).registrations,
      r.pubkey = pubkey → r.isActive = 1 ∧ r.transportNodeId = some node := by
    intro r hr hkey
    rcases Table.mem_upsert_iff.mp hr with ⟨-, hne⟩ | ⟨q, -, -, rfl⟩ | ⟨-, rfl⟩
    · exact absurd hkey hne
    · exact ⟨rfl, rfl⟩
    · exact ⟨rfl, rfl⟩
  have hany : (st.upsertRegistration env pubkey visibility none (some node) (some d)).registrations.any
      (fun r => r.pubkey = pubkey ∧ r.isActive = 1) = true := by
    refine Table.any_upsert_self ?_ (fun r hr => ?_) _
    · exact decide_eq_true ⟨rfl, rfl⟩
    · exact decide_eq_true ⟨hr, rfl⟩
  obtain ⟨r, hr⟩ := Option.isSome_iff_exists.mp (List.find?_isSome.mpr (List.any_eq_true.mp hany))
  have hkey : r.pubkey = pubkey := by
    have hfound := List.find?_some hr
    exact (of_decide_eq_true hfound).1
  rw [hr, Option.bind_some]
  exact (hrows r (List.mem_of_find?_eq_some hr) hkey).2

theorem delegatedNode_registerUser (hfails : env.fails .registerUser = none) {visibility node : String}
    {d : SigningKeyDelegation} :
    (Table.find PeerDelegation.masterPubkey pubkey
      (st.registerUser env pubkey visibility none (some node) (some d)).2.peerDelegations).bind
        PeerDelegation.transportNodeId =
      if env.fails .cachePeerDelegation = none then some node
      else (Table.find PeerDelegation.masterPubkey pubkey st.peerDelegations).bind PeerDelegation.transportNodeId := by
  unfold Storage.registerUser Storage.run
  rw [hfails]
  dsimp only
  unfold Storage.cachePeerDelegation Storage.run
  cases env.fails .cachePeerDelegation with
  | some e => rfl
  | none =>
    rw [if_pos rfl]
    dsimp only
    rw [Table.find_upsert_self]
    · cases Table.find PeerDelegation.masterPubkey pubkey (st.upsertRegistration env pubkey visibility none (some node)
        (some d)).peerDelegations <;> rfl
    · exact fun _ => rfl
    · rfl

theorem bootstrap_registerUser (hfails : env.fails .registerUser = none) {visibility node : String}
    {d : SigningKeyDelegation} :
    (st.registerUser env pubkey visibility none (some node) (some d)).2.bootstrap env pubkey ≠ [] ↔
      st.FindsNode pubkey env node := by
  have hparses : ∀ nodeId : String, (if env.parsesNodeId nodeId then [nodeId] else []) ≠ [] ↔
      env.parsesNodeId nodeId = true := by
    intro nodeId
    split <;> simp [*]
  unfold Storage.bootstrap Storage.getTransportNodeId Storage.FindsNode
  cases env.fails .delegatedNode with
  | some e => simp
  | none =>
    rw [delegatedNode_registerUser hfails, Store.registrations_registerUser, if_pos hfails,
      nodeId_upsertRegistration, and_iff_right rfl]
    by_cases hcached : env.fails .cachePeerDelegation = none
    · simp only [if_pos hcached]
      exact hparses node
    · simp only [if_neg hcached]
      cases (Table.find PeerDelegation.masterPubkey pubkey st.peerDelegations).bind PeerDelegation.transportNodeId with
      | some old => exact hparses old
      | none =>
        cases env.fails .registeredNode with
        | some e => simp
        | none => exact (hparses node).trans (and_iff_right rfl).symm

theorem any_updateWhere {g : Registration → Registration} (hkey : ∀ r, (g r).pubkey = r.pubkey)
    (hactive : ∀ r, (g r).isActive = r.isActive) (visibility : Visibility)
    (hvis : ∀ r, (g r).visibility = visibility.toText) (rows : List Registration) :
    ((Table.find Registration.pubkey pubkey
        (Table.updateWhere (fun r => r.pubkey = pubkey ∧ r.isActive = 1) g rows)).any
        fun r => r.isActive = 1 ∧ r.visibility = "public") =
      ((Table.find Registration.pubkey pubkey rows).any (fun r => r.isActive = 1) &&
        decide (visibility = .isPublic)) := by
  rw [Table.find_updateWhere hkey]
  cases hrow : Table.find Registration.pubkey pubkey rows with
  | none => rfl
  | some r =>
    have hpubkey := Table.key_of_find hrow
    by_cases hr : r.isActive = 1
    · simp [hpubkey, hr, hactive, hvis, Store.toText_eq_public]
    · simp [hr]

end Rows

section Endpoints

theorem registerUser_fst (env : Env) (pubkey visibility node : String) (d : SigningKeyDelegation) (st : Storage) :
    (st.registerUser env pubkey visibility none (some node) (some d)).1 =
      match env.fails .registerUser with
      | some e => .error e
      | none => .ok () := by
  unfold Storage.registerUser Storage.run
  cases env.fails .registerUser <;> rfl

theorem mem_subscribe (henv : env.subscribes = true) (pubkey u : String) (srv : ServerState) :
    u ∈ (subscribe env pubkey srv).subscriptions ↔
      u ∈ srv.subscriptions ∨ u = pubkey ∧ srv.storage.bootstrap env pubkey ≠ [] := by
  unfold subscribe
  split
  next hknown =>
    have hmem : pubkey ∈ srv.subscriptions := List.contains_iff_mem.mp hknown
    exact (or_iff_left_of_imp fun hu => hu.1 ▸ hmem).symm
  next =>
    split
    next hnone => exact (or_iff_left fun hu => hu.2 (List.isEmpty_iff.mp hnone)).symm
    next hnode =>
      have hfound : srv.storage.bootstrap env pubkey ≠ [] := fun h => hnode (List.isEmpty_iff.mpr h)
      rw [and_iff_left hfound]
      exact List.mem_cons.trans or_comm

theorem mem_register (henv : env.subscribes = true) (req : RegistrationRequest) (u : String) :
    u ∈ (register S config env req srv).2.subscriptions ↔ u ∈ srv.subscriptions ∨
      u = req.masterPubkey ∧ req.action ≠ some "unregister" ∧ validateRegistration S config env req = .ok () ∧
        env.fails .registerUser = none ∧ req.visibility = .isPublic ∧
        (∀ r, srv.storage.getRegistration env req.masterPubkey ≠ .ok (some r)) ∧
        srv.storage.FindsNode req.masterPubkey env req.transportNodeId := by
  have hstored := registerUser_fst env req.masterPubkey req.visibility.toText req.transportNodeId req.delegation
    srv.storage
  unfold register
  by_cases haction : req.action = some "unregister"
  · simp [haction]
  rw [if_neg haction]
  cases validateRegistration S config env req with
  | error e => simp
  | ok _ =>
    dsimp only
    rw [hstored]
    cases hfails : env.fails .registerUser with
    | some e => split <;> simp
    | none =>
      split
      next r hfound => exact (or_iff_left fun hnew => hnew.2.2.2.2.2.1 r hfound).symm
      next hnot =>
        dsimp only
        split
        next hpublic =>
          rw [mem_subscribe henv, bootstrap_registerUser hfails]
          simp only [haction, hpublic, ne_eq, not_false_eq_true, true_and]
          exact or_congr_right (and_congr_right fun _ => (and_iff_right fun r hr => hnot r hr).symm)
        next hlisted => exact (or_iff_left fun hnew => hlisted hnew.2.2.2.2.1).symm

theorem isIndexed_register (req : RegistrationRequest) :
    (register S config env req srv).2.storage.isIndexed req.masterPubkey =
      if req.action ≠ some "unregister" ∧ validateRegistration S config env req = .ok () ∧
          env.fails .registerUser = none then decide (req.visibility = .isPublic)
      else srv.storage.isIndexed req.masterPubkey := by
  rw [register_storage]
  by_cases hadmitted : req.action ≠ some "unregister" ∧ validateRegistration S config env req = .ok ()
  · rw [if_pos hadmitted]
    by_cases hfails : env.fails .registerUser = none
    · rw [if_pos ⟨hadmitted.1, hadmitted.2, hfails⟩, isIndexed_registerUser hfails]
    · rw [if_neg fun h => hfails h.2.2]
      unfold Storage.isIndexed
      rw [Store.registrations_registerUser, if_neg hfails]
  · rw [if_neg hadmitted, if_neg fun h => hadmitted ⟨h.1, h.2.1⟩]

theorem handle_matches_iff (h : srv.Matches) (req : Request)
    (hsubs : ∀ u ≠ req.masterPubkey, u ∈ (req.handle S config env srv).subscriptions ↔ u ∈ srv.subscriptions) :
    (req.handle S config env srv).Matches ↔
      (req.masterPubkey ∈ (req.handle S config env srv).subscriptions ↔
        (req.handle S config env srv).storage.isIndexed req.masterPubkey = true) :=
  matches_iff h fun u hu => ⟨hsubs u hu, isIndexed_of_viewOf (handle_viewOf_of_ne hu)⟩

theorem register_matches_iff (h : srv.Matches) (henv : env.subscribes = true) (req : RegistrationRequest) :
    ((Request.register req).handle S config env srv).Matches ↔ srv.Keeps S config (.request (.register req) env) := by
  rw [handle_matches_iff h (.register req) fun u hu => ?_]
  · show (req.masterPubkey ∈ (register S config env req srv).2.subscriptions ↔
        (register S config env req srv).2.storage.isIndexed req.masterPubkey = true) ↔
      (_ → _ → env.fails .registerUser = none → _)
    rw [mem_register henv, isIndexed_register, h req.masterPubkey]
    by_cases hstored : req.action ≠ some "unregister" ∧ validateRegistration S config env req = .ok () ∧
        env.fails .registerUser = none
    · obtain ⟨haction, hvalid, hfails⟩ := hstored
      rw [if_pos ⟨haction, hvalid, hfails⟩, imp_iff_right haction, imp_iff_right hvalid, imp_iff_right hfails]
      simp only [haction, hvalid, hfails, ne_eq, not_false_eq_true, true_and]
      split
      next hpublic =>
        simp only [hpublic, decide_true, iff_true, true_and]
      next hlisted => simp [hlisted]
    · rw [if_neg hstored]
      refine iff_of_true (or_iff_left fun hnew => ?_) fun haction hvalid hfails => ?_
      · exact hstored ⟨hnew.2.1, hnew.2.2.1, hnew.2.2.2.1⟩
      · exact absurd ⟨haction, hvalid, hfails⟩ hstored
  · show u ∈ (register S config env req srv).2.subscriptions ↔ _
    rw [mem_register henv]
    exact or_iff_left fun hnew => hu hnew.1

theorem updateProfile_subscriptions (req : ProfileUpdateRequest) :
    (updateProfile S env req srv).2.subscriptions = srv.subscriptions := by
  unfold updateProfile
  cases Visibility.fromStr req.visibility with
  | error e => rfl
  | ok visibility =>
    dsimp only
    split
    · rfl
    · split
      · rfl
      · split <;> rfl

theorem isIndexed_updateProfile (profile : Profile) (st : Storage) :
    (st.updateProfile env pubkey profile).2.isIndexed pubkey =
      if env.fails .updateProfile = none then st.isActive pubkey && decide (profile.visibility = .isPublic)
      else st.isIndexed pubkey := by
  unfold Storage.isIndexed Storage.isActive
  rw [Store.registrations_updateProfile]
  split
  · refine any_updateWhere ?_ ?_ profile.visibility ?_ _
    all_goals exact fun _ => rfl
  · rfl

theorem isActive_of_isIndexed {st : Storage} (h : st.isIndexed pubkey = true) : st.isActive pubkey = true := by
  unfold Storage.isIndexed at h
  unfold Storage.isActive
  obtain ⟨r, hr, hrow⟩ := (Option.any_eq_true ..).mp h
  exact (Option.any_eq_true ..).mpr ⟨r, hr, decide_eq_true (of_decide_eq_true hrow).1⟩

theorem updateProfile_matches_iff (h : srv.Matches) (req : ProfileUpdateRequest) :
    ((Request.updateProfile req).handle S config env srv).Matches ↔
      srv.Keeps S config (.request (.updateProfile req) env) := by
  rw [handle_matches_iff h (.updateProfile req) fun u _ => by
    rw [Request.handle, updateProfile_subscriptions]]
  show (req.masterPubkey ∈ (updateProfile S env req srv).2.subscriptions ↔
      (updateProfile S env req srv).2.storage.isIndexed req.masterPubkey = true) ↔
    ∀ visibility, Visibility.fromStr req.visibility = .ok visibility →
      verifyRegistrationSignature S (req.registration visibility) = .ok () → _
  rw [updateProfile_subscriptions, updateProfile_storage, h req.masterPubkey]
  cases hvis : Visibility.fromStr req.visibility with
  | error e => exact iff_of_true Iff.rfl fun visibility hv => absurd hv (by simp)
  | ok visibility =>
    dsimp only
    by_cases hput : verifyRegistrationSignature S (req.registration visibility) = .ok () ∧
        env.fails .updateProfile = none
    · obtain ⟨hsigned, hfails⟩ := hput
      rw [if_pos hsigned, isIndexed_updateProfile, if_pos hfails]
      constructor
      · intro hiff visibility' hvis' _ _ hactive
        obtain rfl := Except.ok.inj hvis'
        rw [hactive, Bool.true_and, decide_eq_true_iff] at hiff
        exact hiff.symm
      · intro hkeeps
        cases hactive : srv.storage.isActive req.masterPubkey with
        | true =>
          rw [Bool.true_and, decide_eq_true_iff]
          exact (hkeeps visibility rfl hsigned hfails hactive).symm
        | false =>
          refine iff_of_false (fun hindexed => ?_) Bool.false_ne_true
          exact Bool.false_ne_true (hactive.symm.trans (isActive_of_isIndexed hindexed))
    · refine iff_of_true ?_ fun visibility' hvis' hsigned hfails => ?_
      · split
        next hsigned => rw [isIndexed_updateProfile, if_neg fun hfails => hput ⟨hsigned, hfails⟩]
        next => exact Iff.rfl
      · obtain rfl := Except.ok.inj hvis'
        exact absurd ⟨hsigned, hfails⟩ hput

theorem mem_unregister (req : RegistrationRequest) (u : String) :
    u ∈ (unregister S env req srv).2.subscriptions ↔ u ∈ srv.subscriptions ∧
      ¬ (u = req.masterPubkey ∧ req.action = some "unregister" ∧ verifyRegistrationSignature S req = .ok ()) := by
  unfold unregister
  by_cases haction : req.action = some "unregister"
  · rw [if_neg (not_not_intro haction)]
    cases verifyRegistrationSignature S req with
    | error e => simp
    | ok _ =>
      have hremoved : u ∈ (unsubscribe req.masterPubkey srv).subscriptions ↔
          u ∈ srv.subscriptions ∧ u ≠ req.masterPubkey := by
        unfold unsubscribe
        rw [List.mem_filter, decide_eq_true_iff]
      simp only [haction, and_true]
      split <;> exact hremoved
  · simp [haction]

theorem isIndexed_deactivate (st : Storage) : (st.deactivate pubkey).isIndexed pubkey = false := by
  unfold Storage.isIndexed Storage.deactivate
  dsimp only
  rw [Table.find_updateWhere]
  · cases hrow : Table.find Registration.pubkey pubkey st.registrations with
    | none => rfl
    | some r => simp [Table.key_of_find hrow]
  · exact fun _ => rfl

theorem isIndexed_unregisterUser (st : Storage) :
    (st.unregisterUser env pubkey).2.isIndexed pubkey = (st.isIndexed pubkey &&
      !decide (env.fails .deleteInteractions = none ∧ env.fails .deletePosts = none ∧
        env.fails .deleteSyncState = none ∧ env.fails .deactivate = none)) := by
  unfold Storage.unregisterUser Storage.run
  cases env.fails .deleteInteractions with
  | some e => simp
  | none =>
    cases env.fails .deletePosts with
    | some e => simp [Storage.isIndexed, Storage.deleteInteractions]
    | none =>
      cases env.fails .deleteSyncState with
      | some e => simp [Storage.isIndexed, Storage.deleteInteractions, Storage.deletePosts]
      | none =>
        cases env.fails .deactivate with
        | some e =>
          simp [Storage.isIndexed, Storage.deleteInteractions, Storage.deletePosts, Storage.deleteSyncState]
        | none => simp [isIndexed_deactivate]

theorem unregister_matches_iff (h : srv.Matches) (req : RegistrationRequest) :
    ((Request.unregister req).handle S config env srv).Matches ↔
      srv.Keeps S config (.request (.unregister req) env) := by
  rw [handle_matches_iff h (.unregister req) fun u hu => ?_]
  · show (req.masterPubkey ∈ (unregister S env req srv).2.subscriptions ↔
        (unregister S env req srv).2.storage.isIndexed req.masterPubkey = true) ↔ (_ → _ → _ → _)
    rw [mem_unregister, unregister_storage, h req.masterPubkey]
    by_cases haccepted : req.action = some "unregister" ∧ verifyRegistrationSignature S req = .ok ()
    · rw [if_pos haccepted, imp_iff_right haccepted.1, imp_iff_right haccepted.2, isIndexed_unregisterUser]
      cases srv.storage.isIndexed req.masterPubkey <;> simp [haccepted]
    · rw [if_neg haccepted]
      refine iff_of_true (and_iff_left fun hnew => haccepted hnew.2) fun haction hsigned => ?_
      exact absurd ⟨haction, hsigned⟩ haccepted
  · show u ∈ (unregister S env req srv).2.subscriptions ↔ _
    rw [mem_unregister]
    exact and_iff_left fun hnew => hu hnew.1

end Endpoints

section Gossip

variable {st : Storage} {owner : String}

theorem isIndexed_write_of_ne {u : String} (hu : u ≠ owner) (w : Write) :
    (st.write owner w).isIndexed u = st.isIndexed u := by
  cases w with
  | deleteInteractions | deletePosts | deleteSyncState => rfl
  | deactivate => exact isIndexed_of_viewOf (viewOf_deactivate hu st)
  | setVisibility visibility =>
    unfold Storage.isIndexed Storage.write
    dsimp only
    rw [Table.find_updateWhere_of_ne]
    · exact fun _ => rfl
    · exact fun r hr => decide_eq_false fun h => hu (hr.symm.trans h.1)

theorem isIndexed_setVisibility (visibility : Visibility) :
    (st.write owner (.setVisibility visibility)).isIndexed owner =
      (st.isActive owner && decide (visibility = .isPublic)) := by
  unfold Storage.isIndexed Storage.isActive Storage.write
  refine any_updateWhere ?_ ?_ visibility ?_ _
  all_goals exact fun _ => rfl

theorem isIndexed_write (hno : st.isIndexed owner = false) {w : Write} (hw : w ≠ .setVisibility .isPublic) :
    (st.write owner w).isIndexed owner = false := by
  cases w with
  | deleteInteractions | deletePosts | deleteSyncState => exact hno
  | deactivate => exact isIndexed_deactivate st
  | setVisibility visibility =>
    rw [isIndexed_setVisibility]
    have hvisibility : visibility ≠ .isPublic := fun heq => hw (congrArg Write.setVisibility heq)
    rw [decide_eq_false hvisibility, Bool.and_false]

theorem isIndexed_writes_of_ne {u : String} (hu : u ≠ owner) (writes : List Write) :
    (writes.foldl (Storage.write owner) st).isIndexed u = st.isIndexed u := by
  induction writes generalizing st with
  | nil => rfl
  | cons w writes ih => rw [List.foldl_cons, ih, isIndexed_write_of_ne hu]

theorem isIndexed_writes (hno : st.isIndexed owner = false) {writes : List Write}
    (hwrites : Write.setVisibility .isPublic ∉ writes) :
    (writes.foldl (Storage.write owner) st).isIndexed owner = false := by
  induction writes generalizing st with
  | nil => exact hno
  | cons w writes ih =>
    obtain ⟨hw, hrest⟩ := not_or.mp fun h => hwrites (List.mem_cons.mpr h)
    exact ih (isIndexed_write hno (Ne.symm hw)) hrest

theorem setVisibility_notMem {visibility : Visibility} (h : visibility ≠ .isPublic) (n : Nat) :
    Write.setVisibility .isPublic ∉ (handleVisibilityChange visibility).take n := by
  intro hmem
  have hwrite := List.mem_of_mem_take hmem
  cases visibility with
  | isPublic => exact h rfl
  | listed | isPrivate => exact absurd hwrite (by decide)

theorem isActive_updateProfile (profile : Profile) (st : Storage) :
    (st.updateProfile env owner profile).2.isActive owner = st.isActive owner := by
  unfold Storage.isActive
  rw [Store.registrations_updateProfile]
  split
  · rw [Table.find_updateWhere]
    · cases hrow : Table.find Registration.pubkey owner st.registrations with
      | none => rfl
      | some r =>
        rw [Option.map_some, Option.any_some, Option.any_some]
        split <;> rfl
    · exact fun _ => rfl
  · rfl

theorem profileUpdate_matches_iff (h : srv.Matches) (hlistens : owner ∈ srv.subscriptions) (profile : Profile)
    (keyFails : Bool) (ran : Nat) : (srv.processProfileUpdate S owner profile env keyFails ran).Matches ↔
      srv.Keeps S config (.profileUpdate owner profile env keyFails ran) := by
  show _ ↔ (owner ∈ srv.subscriptions → srv.acceptsProfile S keyFails owner profile = true →
    env.fails .updateProfile = none → profile.visibility = .isPublic)
  rw [imp_iff_right hlistens]
  unfold processProfileUpdate
  by_cases haccepts : srv.acceptsProfile S keyFails owner profile = true ∧ env.fails .updateProfile = none
  · rw [if_pos haccepts, imp_iff_right haccepts.1, imp_iff_right haccepts.2]
    refine Iff.trans (b := (owner ∈ srv.subscriptions ↔ _)) (matches_iff h fun u hu => ⟨Iff.rfl, ?_⟩) ?_
    · show Storage.isIndexed u (List.foldl _ _ _) = _
      rw [isIndexed_writes_of_ne hu]
      exact isIndexed_of_viewOf (viewOf_updateProfile hu profile srv.storage)
    · have hindexed : srv.storage.isIndexed owner = true := (h owner).mp hlistens
      have hactive : (srv.storage.updateProfile env owner profile).2.isActive owner = true :=
        (isActive_updateProfile profile srv.storage).trans (isActive_of_isIndexed hindexed)
      have hupdated : (srv.storage.updateProfile env owner profile).2.isIndexed owner = _ :=
        isIndexed_updateProfile profile srv.storage
      rw [if_pos haccepts.2, isActive_of_isIndexed hindexed, Bool.true_and] at hupdated
      rw [iff_true_left hlistens]
      by_cases hpublic : profile.visibility = .isPublic
      · refine iff_of_true ?_ hpublic
        rw [hpublic]
        cases ran with
        | zero => exact hupdated.trans (decide_eq_true hpublic)
        | succ n =>
          have htake : (handleVisibilityChange .isPublic).take (n + 1) = [.setVisibility .isPublic] := by
            simp [handleVisibilityChange]
          rw [htake]
          show ((srv.storage.updateProfile env owner profile).2.write owner (.setVisibility .isPublic)).isIndexed
            owner = true
          rw [isIndexed_setVisibility, hactive]
          rfl
      · refine iff_of_false (fun hafter => ?_) hpublic
        rw [isIndexed_writes (hupdated.trans (decide_eq_false hpublic)) (setVisibility_notMem hpublic ran)] at hafter
        exact Bool.false_ne_true hafter
  · rw [if_neg haccepts]
    exact iff_of_true h fun haccepted hfails => absurd ⟨haccepted, hfails⟩ haccepts

end Gossip

/-- The subscriptions match after every step of a run exactly when every step keeps them so. -/
theorem matches_along_iff (S : SignatureCrates) (config : ServerConfig) (run : List Operation) :
    Along (step S config) (fun srv op => ∀ srv', step S config srv op = some srv' → srv'.Matches) empty run ↔
      Along (step S config) (Keeps S config) empty run := by
  refine along_iff (fun srv op h => ?_) (fun srv op srv' _ hok hstep => hok srv' hstep) matches_empty
  cases op with
  | request req env =>
    have hstep : (∀ srv', step S config srv (.request req env) = some srv' → srv'.Matches) ↔
        (req.handle S config { env with subscribes := true } srv).Matches := by
      constructor
      · intro hall
        exact hall _ rfl
      · rintro hafter srv' ⟨⟩
        exact hafter
    rw [hstep]
    cases req with
    | register req => exact register_matches_iff h rfl req
    | unregister req => exact unregister_matches_iff h req
    | updateProfile req => exact updateProfile_matches_iff h req
  | profileUpdate owner profile env keyFails ran =>
    by_cases hlistens : owner ∈ srv.subscriptions
    · rw [← profileUpdate_matches_iff h hlistens]
      constructor
      · intro hall
        exact hall _ (if_pos hlistens)
      · intro hafter srv' hstep
        rw [step, if_pos hlistens] at hstep
        exact Option.some.inj hstep ▸ hafter
    · refine iff_of_true (fun srv' hstep => ?_) fun hmem => absurd hmem hlistens
      rw [step, if_neg hlistens] at hstep
      exact absurd hstep.symm (Option.some_ne_none srv')

theorem step_register (S : SignatureCrates) (config : ServerConfig) (srv : ServerState)
    (req : RegistrationRequest) (env : Env) : step S config srv (.request (.register req) env) =
      some (register S config { env with subscribes := true } req srv).2 := rfl

/-- Alice registers as public, and registers again as listed. -/
theorem not_matches_listedAgain : ∃ srv, exec (step checksumCrates Store.aliceServer) empty
    [.request (.register (Store.aliceRegistration .isPublic)) (Env.calm 0),
      .request (.register (Store.aliceRegistration .listed)) (Env.calm 0)] = some srv ∧ ¬ srv.Matches := by
  have hvalid : ∀ {visibility : Visibility} {env : Env}, visibility ≠ .isPrivate → env.nowValidate = 0 →
      validateRegistration checksumCrates Store.aliceServer env (Store.aliceRegistration visibility) = .ok () := by
    intro visibility env hvisibility hnow
    refine validateRegistration_eq_ok.mpr ⟨Store.verify_aliceRegistration _, ?_, rfl, hvisibility, rfl⟩
    rw [hnow]
    show absDiff 0 0 ≤ _
    decide
  refine ⟨_, by rw [exec_cons, step_register, Option.bind_some, exec_cons, step_register, Option.bind_some,
    exec_nil], fun hmatches => ?_⟩
  have hfirst : "alice" ∈ (register checksumCrates Store.aliceServer { Env.calm 0 with subscribes := true }
      (Store.aliceRegistration .isPublic) empty).2.subscriptions := by
    refine (mem_register rfl _ _).mpr (.inr ⟨rfl, by decide, hvalid (by decide) rfl, rfl, rfl, fun r hr => ?_,
      rfl, rfl⟩)
    exact absurd (Except.ok.inj hr).symm (Option.some_ne_none r)
  have hindexed := (hmatches "alice").mp ((mem_register rfl _ _).mpr (.inl hfirst))
  have hlisted := hindexed.symm.trans (isIndexed_register (Store.aliceRegistration .listed))
  rw [if_pos ⟨by decide, hvalid (by decide) rfl, rfl⟩] at hlisted
  exact absurd hlisted (by decide)

end ServerState
end Proscenium.Server
