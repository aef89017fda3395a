import Proscenium.Client.IdentityDefs
import Proscenium.Client.OwnProfile
import Proscenium.Types.ChecksumScheme

/-! Are the cached delegations what their master keys signed? Every write of
the cache files an identity response, and all but those that come as responses
have been verified by then. The cache stays authentic in exactly the runs in
which every response that is cached stands for the master key it names. -/

namespace Proscenium.Client

open Proscenium.Types

variable (S : SignatureCrates)

/-- A row holds a delegation that its master key signed, and its columns are those of the
delegation. -/
structure PeerIdentityRow.Authentic (r : PeerIdentityRow) : Prop where
  verified : verifyDelegation S r.delegationJson = .ok ()
  master : r.delegationJson.masterPubkey = r.masterPubkey
  signing : r.signingPubkey = r.delegationJson.signingPubkey
  dm : r.dmPubkey = r.delegationJson.dmPubkey

def Storage.Authentic (st : Storage) : Prop := ∀ r ∈ st.peerDelegations, r.Authentic S

/-- The delegation in the response is one that the master key named in it has signed. -/
def IdentityResponse.Vouched (i : IdentityResponse) : Prop :=
  verifyDelegation S i.delegation = .ok () ∧ i.delegation.masterPubkey = i.masterPubkey

instance (i : IdentityResponse) : Decidable (i.Vouched S) := by
  unfold IdentityResponse.Vouched
  infer_instance

/-- The master key counts as delegated by itself; another key is one in a delegation that it signed. -/
def Delegated (signed : PublicKey → Bytes → Prop) (masterPubkey : String) (key : PublicKey) : Prop :=
  S.parsePublicKey masterPubkey = .ok key ∨
    ∃ (d : SigningKeyDelegation) (master : PublicKey), d.masterPubkey = masterPubkey ∧
      S.parsePublicKey d.signingPubkey = .ok key ∧ S.parsePublicKey masterPubkey = .ok master ∧
      signed master (delegationSigningBytes d)

/-- Whatever fails, `resolve_signer` returns a key that the master key delegated. -/
def Storage.ResolvesDelegated (signed : PublicKey → Bytes → Prop) (st : Storage) : Prop :=
  ∀ (fails : Fails) (masterPubkey : String) (key : PublicKey),
    resolveSigner S fails masterPubkey st = some key → Delegated S signed masterPubkey key

section Cache

variable {S : SignatureCrates} {signed : PublicKey → Bytes → Prop}

theorem Storage.Authentic.resolvesDelegated (hunf : ∀ k m σ, S.verify k m σ = true → signed k m)
    {st : Storage} (h : st.Authentic S) : st.ResolvesDelegated S signed := by
  intro fails masterPubkey key hkey
  unfold resolveSigner at hkey
  dsimp only at hkey
  split at hkey
  next signer hsigner =>
    obtain rfl : key = signer := (Option.some.inj hkey).symm
    obtain ⟨signingPubkey, hcached, hparse⟩ := Option.bind_eq_some_iff.mp hsigner
    have hrow : st.getPeerSigningPubkey masterPubkey = some signingPubkey := by
      split at hcached
      · exact nomatch hcached
      · exact hcached
    obtain ⟨r, hr, rfl⟩ := Option.map_eq_some_iff.mp hrow
    have hauth : r.Authentic S := h r (List.mem_of_find?_eq_some hr)
    have hmaster : r.delegationJson.masterPubkey = masterPubkey :=
      hauth.master.trans (Table.key_of_find hr)
    obtain ⟨sig, master, signing, -, hmk, hsk, hver⟩ := verifyDelegation_eq_ok.mp hauth.verified
    have hsame : signing = key := by
      rw [hauth.signing, hsk] at hparse
      exact Option.some.inj hparse
    rw [hmaster] at hmk
    exact Or.inr ⟨r.delegationJson, master, hmaster, hsame ▸ hsk, hmk, hunf _ _ _ hver⟩
  next =>
    cases hparse : S.parsePublicKey masterPubkey with
    | error e =>
      rw [hparse] at hkey
      exact nomatch hkey
    | ok master =>
      rw [hparse] at hkey
      exact Or.inl (hparse.trans (congrArg _ (Option.some.inj hkey)))

theorem authentic_cachePeerIdentity {st : Storage} (h : st.Authentic S) {i : IdentityResponse}
    (hi : i.Vouched S) (now : UInt64) : (st.cachePeerIdentity i now).Authentic S := by
  refine Table.all_upsert h ⟨hi.1, hi.2, rfl, rfl⟩ ?_
  intro r _ hkey
  exact ⟨hi.1, hi.2.trans hkey.symm, rfl, rfl⟩

theorem vouched_of_authentic {st : Storage} {i : IdentityResponse} {now : UInt64}
    (h : (st.cachePeerIdentity i now).Authentic S) : i.Vouched S := by
  have hmem := List.mem_of_find?_eq_some (Storage.find_cachePeerIdentity_self i now st)
  have hauth := h _ hmem
  exact ⟨hauth.verified, hauth.master⟩

/-- Being authentic is about the four columns that this keeps. -/
def PeerIdentityRow.keys (r : PeerIdentityRow) : String × String × String × SigningKeyDelegation :=
  (r.masterPubkey, r.signingPubkey, r.dmPubkey, r.delegationJson)

def Storage.keys (st : Storage) : List (String × String × String × SigningKeyDelegation) :=
  st.peerDelegations.map PeerIdentityRow.keys

theorem Storage.Authentic.of_keys {st st' : Storage} (h : st.Authentic S) (hkeys : st'.keys = st.keys) :
    st'.Authentic S := by
  intro r hr
  have hmem : r.keys ∈ st.keys := by
    rw [← hkeys]
    exact List.mem_map_of_mem hr
  obtain ⟨q, hq, hqr⟩ := List.mem_map.mp hmem
  simp only [PeerIdentityRow.keys, Prod.mk.injEq] at hqr
  obtain ⟨hmaster, hsigning, hdm, hdelegation⟩ := hqr
  have hauth := h q hq
  refine ⟨?_, ?_, ?_, ?_⟩
  · exact hdelegation ▸ hauth.verified
  · rw [← hdelegation, ← hmaster]
    exact hauth.master
  · rw [← hdelegation, ← hsigning]
    exact hauth.signing
  · rw [← hdelegation, ← hdm]
    exact hauth.dm

theorem checkFollowRequest_vouches {req : FollowRequest} (h : checkFollowRequest S req = .ok ())
    (remote : String) : (requesterIdentity remote req).Vouched S := by
  unfold checkFollowRequest at h
  simp only [Checks.bind_eq_ok, Checks.mapError_eq_ok, Checks.reject_eq_ok,
    Decidable.not_not] at h
  obtain ⟨⟨⟩, hdelegation, hmaster, -⟩ := h
  exact ⟨hdelegation, hmaster⟩

end Cache

section Writes

variable (S : SignatureCrates) (me : String)

/-- The identity that the handling of an event files in the cache. -/
def Event.identityOf : Event → Option IdentityResponse
  | .followResponse (.approved i) | .identity i => some i
  | .followRequest remote req =>
    if checkFollowRequest S req = .ok () then some (requesterIdentity remote req) else none
  | _ => none

def Task.identityOf : Task → Option IdentityResponse
  | .cacheRotation identity => some identity
  | _ => none

def Node.identityOf (w : Node) : Action → Option IdentityResponse
  | .event e => e.identityOf S
  | .task i => w.tasks[i]?.bind Task.identityOf
  | .restart | .edit .. => none

def Node.filed (w : Node) (l : Label) : Option IdentityResponse → Storage
  | some i => (w.cachePeerIdentity l i).store.storage
  | none => w.store.storage

variable {S : SignatureCrates} {me : String}

theorem keys_of_peerDelegations {st st' : Storage} (h : st'.peerDelegations = st.peerDelegations) :
    st'.keys = st.keys := congrArg (List.map PeerIdentityRow.keys) h

theorem keys_updateTransportNodeIds (masterPubkey : String) (ids : List String) (st : Storage) :
    (st.updateTransportNodeIds masterPubkey ids).keys = st.keys := by
  unfold Storage.keys Storage.updateTransportNodeIds Table.updateWhere
  rw [List.map_map]
  refine List.map_congr_left fun r _ => ?_
  show (if _ then _ else _ : PeerIdentityRow).keys = r.keys
  split <;> rfl

theorem peerDelegations_saveProfile (w : Node) (l : Label) (pubkey : String) (profile : Profile) :
    (w.saveProfile l pubkey profile).store.storage.peerDelegations =
      w.store.storage.peerDelegations := by
  refine Storage.peerDelegations_attempt ?_ _
  intro _
  rfl

theorem peerDelegations_handleProfileUpdate (fails : Fails) (pk : String) (p : Profile)
    (st : Storage) : (handleProfileUpdate S fails pk p st).peerDelegations = st.peerDelegations := by
  unfold handleProfileUpdate
  split
  · refine Storage.peerDelegations_attempt ?_ st
    intro _
    rfl
  · rfl

theorem peerDelegations_handlePush (fails : Fails) (remote : String) (msg : PushMessage)
    (st : Storage) : (handlePush S me fails remote msg st).peerDelegations = st.peerDelegations := by
  unfold handlePush
  split
  · refine Storage.peerDelegations_attempt ?_ st
    intro _
    rfl
  · rfl

namespace Node

theorem handle_followRequest {w : Node} {l : Label} {remote : String} {req : FollowRequest}
    (h : checkFollowRequest S req = .ok ()) : w.handle S me l (.followRequest remote req) =
      w.cachePeerIdentity l (requesterIdentity remote req) := by
  simp only [handle, h]

theorem peerDelegations_handle (w : Node) (l : Label) (e : Event) :
    (w.handle S me l e).store.storage.peerDelegations = (w.filed l (e.identityOf S)).peerDelegations := by
  cases e with
  | followResponse response => cases response <;> rfl
  | identity identity =>
    obtain ⟨master, delegation, ids, profile⟩ := identity
    cases profile <;> rfl
  | followRequest remote req =>
    simp only [handle, Event.identityOf]
    cases hcheck : checkFollowRequest S req with
    | error e => simp [filed]
    | ok u => simp [filed]
  | linkedDevices pk a =>
    simp only [handle]
    split <;> rfl
  | signingKeyRotation pk rotation =>
    simp only [handle]
    split <;> rfl
  | deviceAnnouncement author a =>
    simp only [handle]
    split <;> rfl
  | post sender p =>
    simp only [handle]
    split <;> rfl
  | profileUpdate pk profile => exact peerDelegations_handleProfileUpdate _ pk profile _
  | pushProfile remote msg => exact peerDelegations_handlePush _ remote msg _
  | syncProfile pubkey profile => exact peerDelegations_saveProfile w l pubkey profile
  | interaction | hiddenContent | deletePost | deleteInteraction => rfl

theorem keys_handle (w : Node) (l : Label) (e : Event) :
    (w.handle S me l e).store.storage.keys = (w.filed l (e.identityOf S)).keys :=
  keys_of_peerDelegations (peerDelegations_handle w l e)

theorem keys_runTask (w : Node) (l : Label) (t : Task) :
    (w.runTask l t).1.store.storage.keys = (w.filed l t.identityOf).keys := by
  cases t with
  | saveAnnouncement masterPubkey a =>
    simp only [runTask]
    split <;> rfl
  | updateTransportNodeIds masterPubkey a =>
    simp only [runTask]
    split
    · rfl
    · exact keys_updateTransportNodeIds masterPubkey _ w.store.storage
  | readTransportNodeIds pk rotation => rfl
  | cacheRotation identity => rfl
  | saveProfile masterPubkey profile =>
    exact keys_of_peerDelegations (peerDelegations_saveProfile w l masterPubkey profile)

theorem keys_step {w t : Node} {l : Label} (hstep : w.step S me l = some t) :
    t.store.storage.keys = (w.filed l (w.identityOf S l.action)).keys := by
  unfold step at hstep
  split at hstep
  next e haction =>
    obtain rfl := Option.some.inj hstep
    rw [haction]
    exact keys_handle w l e
  next i haction =>
    obtain ⟨task, htask, rfl⟩ := Option.map_eq_some_iff.mp hstep
    rw [haction, identityOf, htask]
    exact keys_runTask w l task
  next haction =>
    obtain rfl := Option.some.inj hstep
    rw [haction]
    rfl
  next haction =>
    obtain rfl := Option.some.inj hstep
    rw [haction]
    rfl

end Node
end Writes

section Tasks

variable (S : SignatureCrates)

def Task.Checked : Task → Prop
  | .readTransportNodeIds _ rotation => verifyRotation S rotation = .ok ()
  | .cacheRotation identity => identity.Vouched S
  | .saveAnnouncement .. | .updateTransportNodeIds .. | .saveProfile .. => True

def Node.Checked (w : Node) : Prop := ∀ t ∈ w.tasks, t.Checked S

/-- What holds of every task that saves, and of a rotation when it is taken over and when its node
ids have been read. -/
structure Task.KeptBy (p : Task → Prop) (w : Node) (l : Label) : Prop where
  saves : ∀ masterPubkey a, p (.saveAnnouncement masterPubkey a)
  updates : ∀ masterPubkey a, p (.updateTransportNodeIds masterPubkey a)
  profiles : ∀ masterPubkey profile, p (.saveProfile masterPubkey profile)
  takes : ∀ pk rotation, acceptsRotation S l.fails pk rotation w.store.storage = true →
    p (.readTransportNodeIds pk rotation)
  reads : ∀ {pk rotation ids}, p (.readTransportNodeIds pk rotation) →
    (∀ t ∈ ids, t ∈ w.store.storage.getPeerTransportNodeIds pk) → p (.cacheRotation (rotatedIdentity rotation ids))

variable {S : SignatureCrates} {me : String} {p : Task → Prop} {w : Node} {l : Label}

namespace Node

theorem tasks_spawn {t : Task} (h : ∀ u ∈ w.tasks, p u) (ht : p t) :
    ∀ u ∈ (w.spawn t).tasks, p u := by
  intro u hu
  rcases List.mem_append.mp hu with hu | hu
  · exact h u hu
  · obtain rfl := List.mem_singleton.mp hu
    exact ht

theorem tasks_handle (hkept : Task.KeptBy S p w l) (h : ∀ u ∈ w.tasks, p u) (e : Event) :
    ∀ u ∈ (w.handle S me l e).tasks, p u := by
  cases e with
  | followResponse response => cases response <;> exact h
  | identity identity =>
    obtain ⟨master, delegation, ids, profile⟩ := identity
    cases profile with
    | none => exact h
    | some profile => exact tasks_spawn (w := w.cachePeerIdentity l _) h (hkept.profiles ..)
  | followRequest remote req =>
    simp only [handle]
    split <;> exact h
  | linkedDevices pk a =>
    simp only [handle]
    split
    · exact tasks_spawn h (hkept.saves ..)
    · exact h
  | signingKeyRotation pk rotation =>
    simp only [handle]
    split
    next haccepts => exact tasks_spawn h (hkept.takes pk rotation haccepts)
    next => exact h
  | deviceAnnouncement author a =>
    simp only [handle]
    split
    · exact tasks_spawn h (hkept.saves ..)
    · exact h
  | post sender post =>
    simp only [handle]
    split <;> exact h
  | interaction | hiddenContent | deletePost | deleteInteraction => exact h
  | profileUpdate | pushProfile | syncProfile => exact h

theorem tasks_runTask (hkept : Task.KeptBy S p w l) {t : Task} (ht : p t) :
    (∀ u ∈ (w.runTask l t).2, p u) ∧ (w.runTask l t).1.tasks = w.tasks := by
  cases t with
  | saveAnnouncement masterPubkey a =>
    simp only [runTask]
    split
    · exact ⟨fun u hu => (Option.not_mem_none u hu).elim, rfl⟩
    · refine ⟨?_, rfl⟩
      rintro u ⟨⟩
      exact hkept.updates ..
  | updateTransportNodeIds masterPubkey a =>
    simp only [runTask]
    split <;> exact ⟨fun u hu => (Option.not_mem_none u hu).elim, rfl⟩
  | readTransportNodeIds pk rotation =>
    refine ⟨?_, rfl⟩
    rintro u ⟨⟩
    refine hkept.reads ht fun t hids => ?_
    split at hids
    · exact absurd hids List.not_mem_nil
    · exact hids
  | cacheRotation | saveProfile => exact ⟨fun u hu => (Option.not_mem_none u hu).elim, rfl⟩

theorem tasks_step (hkept : Task.KeptBy S p w l) (h : ∀ u ∈ w.tasks, p u) {w' : Node}
    (hstep : w.step S me l = some w') : ∀ u ∈ w'.tasks, p u := by
  unfold step at hstep
  split at hstep
  next e haction =>
    obtain rfl := Option.some.inj hstep
    exact tasks_handle hkept h e
  next i haction =>
    obtain ⟨task, htask, rfl⟩ := Option.map_eq_some_iff.mp hstep
    obtain ⟨hnext, htasks⟩ := tasks_runTask hkept (h task (List.mem_of_getElem? htask))
    intro u hu
    simp only [advance, htasks] at hu
    rcases (Tasks.mem_advance htask).mp hu with hu | hu
    · exact hnext u hu
    · exact h u (List.mem_of_mem_eraseIdx hu)
  next haction =>
    obtain rfl := Option.some.inj hstep
    exact fun u hu => absurd hu List.not_mem_nil
  next haction =>
    obtain rfl := Option.some.inj hstep
    exact h

theorem checked_step {w t : Node} {l : Label} (h : w.Checked S) (hstep : w.step S me l = some t) :
    t.Checked S := by
  refine tasks_step ⟨fun _ _ => trivial, fun _ _ => trivial, fun _ _ => trivial, ?_, ?_⟩ h hstep
  · intro pk rotation haccepts
    simp only [acceptsRotation, Bool.and_eq_true] at haccepts
    exact Checks.toBool_eq_true.mp haccepts.1.2
  · intro _ rotation _ hverified _
    obtain ⟨hdelegation, hmaster, -⟩ := verifyRotation_delegation S hverified
    exact ⟨hdelegation, hmaster⟩

end Node
end Tasks

section Runs

variable (S : SignatureCrates) (me : String)

/-- If the step files a response to the user's own request, the response is vouched for. -/
def Node.VouchedResponse (_ : Node) (l : Label) : Prop :=
  match l.action with
  | .event (.followResponse (.approved i)) | .event (.identity i) =>
    l.fails.table .cachePeerIdentity = false → i.Vouched S
  | _ => True

instance : ∀ (w : Node) (l : Label), Decidable (w.VouchedResponse S l) := by
  intro w l
  unfold Node.VouchedResponse
  split <;> infer_instance

variable {S : SignatureCrates} {me : String}

theorem Node.vouched_identityOf {w : Node} {l : Label} (h : w.Checked S)
    (hok : w.VouchedResponse S l) (hfails : l.fails.table .cachePeerIdentity = false)
    {i : IdentityResponse} (hi : w.identityOf S l.action = some i) : i.Vouched S := by
  obtain ⟨action, now, fails⟩ := l
  cases action with
  | event e =>
    cases e with
    | followResponse response =>
      cases response with
      | approved j =>
        obtain rfl := Option.some.inj hi
        exact hok hfails
      | denied | pending => exact nomatch hi
    | identity j =>
      obtain rfl := Option.some.inj hi
      exact hok hfails
    | followRequest remote req =>
      simp only [identityOf, Event.identityOf, Option.ite_none_right_eq_some] at hi
      obtain ⟨hcheck, hi⟩ := hi
      obtain rfl := Option.some.inj hi
      exact checkFollowRequest_vouches hcheck remote
    | _ => exact nomatch hi
  | task j =>
    obtain ⟨t, ht, hi⟩ := Option.bind_eq_some_iff.mp hi
    have hchecked : t.Checked S := h t (List.mem_of_getElem? ht)
    cases t with
    | cacheRotation k =>
      obtain rfl := Option.some.inj hi
      exact hchecked
    | _ => exact nomatch hi
  | restart | edit => exact nomatch hi

theorem Node.authentic_step_iff {w : Node} {l : Label} (h : w.Checked S)
    (hauth : w.store.storage.Authentic S) :
    (∀ t, w.step S me l = some t → t.store.storage.Authentic S) ↔ w.VouchedResponse S l := by
  have hfiled : ∀ i : IdentityResponse, l.fails.table .cachePeerIdentity = false →
      w.filed l (some i) = w.store.storage.cachePeerIdentity i l.now := by
    intro i hfails
    simp [filed, cachePeerIdentity, Storage.attempt, hfails]
  constructor
  · intro hall
    -- an identity that an event of the list files shows in the cache after the step
    have hseen : ∀ (e : Event) (i : IdentityResponse), l.action = .event e →
        e.identityOf S = some i → l.fails.table .cachePeerIdentity = false → i.Vouched S := by
      intro e i he hi hfails
      have hstep : w.step S me l = some (w.handle S me l e) := by
        rw [step, he]
      have hkeys := keys_step hstep
      rw [he, identityOf, hi, hfiled i hfails] at hkeys
      exact vouched_of_authentic ((hall _ hstep).of_keys hkeys.symm)
    unfold VouchedResponse
    split
    next i he => exact hseen _ i he rfl
    next i he => exact hseen _ i he rfl
    next => trivial
  · intro hok t hstep
    refine Storage.Authentic.of_keys ?_ (keys_step hstep)
    cases hi : w.identityOf S l.action with
    | none => exact hauth
    | some i =>
      cases hfails : l.fails.table .cachePeerIdentity with
      | true => simpa [filed, cachePeerIdentity, Storage.attempt, hfails] using hauth
      | false =>
        rw [hfiled i hfails]
        exact authentic_cachePeerIdentity hauth (vouched_identityOf h hok hfails hi) l.now

/-- In every state that a run goes through the cache is authentic, and with it every key it
resolves to is delegated, just if every response it files is vouched for. -/
theorem cache_authentic_iff {signed : PublicKey → Bytes → Prop}
    (hunf : ∀ k m σ, S.verify k m σ = true → signed k m) {store : PeerStore} {run : List Label}
    (hstore : store.storage.Authentic S) :
    (∀ init w, init <+: run → Machine.exec (Node.step S me) ⟨store, []⟩ init = some w →
      w.store.storage.Authentic S ∧ w.store.storage.ResolvesDelegated S signed) ↔
    Machine.Along (Node.step S me) (Node.VouchedResponse S) ⟨store, []⟩ run := by
  have hdrop : ∀ w : Node, w.store.storage.Authentic S ∧
      w.store.storage.ResolvesDelegated S signed ↔ w.store.storage.Authentic S :=
    fun w => and_iff_left_of_imp fun h => h.resolvesDelegated hunf
  simp only [hdrop]
  refine Machine.forall_prefix_iff_along (I := fun w => w.Checked S ∧ w.store.storage.Authentic S) ?_ ?_ ?_ hstore
  · intro w l hw
    exact Node.authentic_step_iff hw.1 hw.2
  · intro w l t hw _ hauthentic hstep
    exact ⟨Node.checked_step hw.1 hstep, hauthentic⟩
  · exact ⟨fun u hu => (nomatch hu), hstore⟩

end Runs

section Examples

def PeerStore.empty : PeerStore := ⟨Storage.empty, [], ⟨[], []⟩⟩

def Event.calm (e : Event) : Label := ⟨.event e, 0, fun _ => false⟩

/-- `master` asks to follow with a delegation of its own. -/
def followRequestOf (master signer : String) (keyIndex : UInt32) : FollowRequest :=
  let bytes := followRequestSigningBytes master 0
  ⟨master, 0, hexEncode (checksumSign signer bytes), checksumDelegation master signer "" keyIndex⟩

theorem checkFollowRequest_followRequestOf (master signer : String) (keyIndex : UInt32) :
    checkFollowRequest checksumCrates (followRequestOf master signer keyIndex) = .ok () := by
  unfold checkFollowRequest
  simp only [Checks.bind_eq_ok, Checks.mapError_eq_ok, Checks.reject_eq_ok, Decidable.not_not]
  refine ⟨(), verifyDelegation_checksumDelegation .., rfl, checksumKey signer, rfl, ?_⟩
  exact verifySigned_checksum "follow request" signer _

/-- The identity response of `master` with this delegation. -/
def responseOf (master : String) (delegation : SigningKeyDelegation) : IdentityResponse :=
  ⟨master, delegation, ["node"], none⟩

theorem vouched_responseOf (master signer dm : String) (keyIndex : UInt32) :
    (responseOf master (checksumDelegation master signer dm keyIndex)).Vouched checksumCrates :=
  ⟨verifyDelegation_checksumDelegation master signer dm keyIndex, rfl⟩

def bobAsks : Label := Event.calm (.followRequest "bob's node" (followRequestOf "bob" "b0" 0))

def carolAnswers : Label :=
  Event.calm (.identity (responseOf "carol" (checksumDelegation "carol" "c0" "" 0)))

theorem cache_authentic_honestRun :
    ∃ w, Machine.exec (Node.step checksumCrates "alice") ⟨PeerStore.empty, []⟩
        [bobAsks, carolAnswers] = some w ∧
      w.store.storage.getPeerSigningPubkey "bob" = some "b0" ∧
      w.store.storage.getPeerSigningPubkey "carol" = some "c0" ∧
      w.store.storage.Authentic checksumCrates ∧
      w.store.storage.ResolvesDelegated checksumCrates fun k m => ∃ σ, checksumCrates.verify k m σ := by
  let v : Node := Node.cachePeerIdentity bobAsks
    (requesterIdentity "bob's node" (followRequestOf "bob" "b0" 0)) ⟨PeerStore.empty, []⟩
  have hrequest : Node.step checksumCrates "alice" ⟨PeerStore.empty, []⟩ bobAsks = some v := by
    have hcheck := checkFollowRequest_followRequestOf "bob" "b0" 0
    exact congrArg some (Node.handle_followRequest hcheck)
  have hvouched : Machine.Along (Node.step checksumCrates "alice")
      (Node.VouchedResponse checksumCrates) ⟨PeerStore.empty, []⟩ [bobAsks, carolAnswers] :=
    (Machine.along_cons hrequest).mpr
      ⟨trivial, fun _ => vouched_responseOf "carol" "c0" "" 0, fun _ _ => trivial⟩
  have hrun : Machine.exec (Node.step checksumCrates "alice") ⟨PeerStore.empty, []⟩
      [bobAsks, carolAnswers] = some (v.cachePeerIdentity carolAnswers
        (responseOf "carol" (checksumDelegation "carol" "c0" "" 0))) :=
    Machine.exec_cons_eq_some.mpr ⟨v, hrequest, rfl⟩
  have hstore : PeerStore.empty.storage.Authentic checksumCrates := fun r hr => nomatch hr
  have hunf : ∀ k m σ, checksumCrates.verify k m σ = true → ∃ σ, checksumCrates.verify k m σ = true :=
    fun k m σ h => ⟨σ, h⟩
  have hall := (cache_authentic_iff hunf hstore).mpr hvouched
  exact ⟨_, hrun, rfl, rfl, hall _ _ (List.prefix_refl _) hrun⟩

def forgedRun : List Label :=
  [Event.calm (.followResponse (.approved
    (responseOf "alice" ⟨"alice", "mallory", 0, "", 0, 0, ""⟩)))]

/-- From then on mallory's key is taken for alice's. -/
example : (Machine.exec (Node.step checksumCrates "me") ⟨PeerStore.empty, []⟩ forgedRun).map
    (fun w => resolveSigner checksumCrates (fun _ => false) "alice" w.store.storage) =
      some (some (checksumKey "mallory")) := rfl

theorem not_cache_authentic_forged :
    ¬ ∀ signed : PublicKey → Bytes → Prop,
      (∀ k m σ, checksumCrates.verify k m σ = true → signed k m) → ∀ (run : List Label) (w : Node),
      Machine.exec (Node.step checksumCrates "me") ⟨PeerStore.empty, []⟩ run = some w →
      w.store.storage.Authentic checksumCrates ∧
        w.store.storage.ResolvesDelegated checksumCrates signed := by
  intro hall
  have hauth := (hall (fun _ _ => True) (fun _ _ _ _ => trivial) forgedRun _ rfl).1
  have hverified := (hauth _ List.mem_cons_self).verified
  exact absurd hverified (by decide +kernel)

end Examples
end Proscenium.Client
