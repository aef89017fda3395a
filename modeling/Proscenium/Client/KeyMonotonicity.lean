import Proscenium.Client.CacheAuthenticity

/-! Does a rotation revoke the older keys? The cached key index of a user goes
up and never down, and what is accepted from then on is signed with a key of at
least that index, in every run in which no stale identity is filed: one from a
follow request, a response, or a rotation that was overtaken. What is accepted
without looking at the cached key has to be current by itself. -/

namespace Proscenium.Client

open Proscenium.Types

inductive Item where
  | announcement (a : LinkedDevicesAnnouncement)
  | post (p : Post)
  | interaction (i : Interaction)
  | deletePost (id author signature : String)
  | deleteInteraction (id author signature : String)
  | profile (author : String) (p : Profile)
  deriving DecidableEq, Repr

namespace Item

def author : Item → String
  | .announcement a => a.masterPubkey
  | .post p => p.author
  | .interaction i => i.author
  | .deletePost _ author _ | .deleteInteraction _ author _ | .profile author _ => author

/-- The signature on the item. -/
def verify (S : SignatureCrates) : Item → PublicKey → Except String Unit
  | .announcement a =>
    verifySigned S "linked devices announcement" (linkedDevicesSigningBytes a) a.signature
  | .post p => verifyPostSignature S p
  | .interaction i => verifyInteractionSignature S i
  | .deletePost id author signature => verifyDeletePostSignature S id author signature
  | .deleteInteraction id author signature => verifyDeleteInteractionSignature S id author signature
  | .profile _ p => verifyProfileSignature S p

end Item

variable (S : SignatureCrates) (me : String)

/-- The master key signed a delegation of `key`. -/
def DelegatedBy (d : SigningKeyDelegation) (masterPubkey : String) (key : PublicKey) : Prop :=
  verifyDelegation S d = .ok () ∧ d.masterPubkey = masterPubkey ∧
    S.parsePublicKey d.signingPubkey = .ok key

/-- The item is signed with its author's master key, or with a key whose index is at least that
of the delegation cached for the author. -/
def Storage.Current (st : Storage) (item : Item) : Prop :=
  ∀ cached ∈ st.getPeerDelegation item.author, ∃ key, item.verify S key = .ok () ∧
    (S.parsePublicKey item.author = .ok key ∨ ∃ d : SigningKeyDelegation,
      DelegatedBy S d item.author key ∧ cached.keyIndex ≤ d.keyIndex)

/-- The delegation is not older than the one that is cached. -/
def Storage.NotStale (st : Storage) (masterPubkey : String) (d : SigningKeyDelegation) : Prop :=
  ∀ cached ∈ st.getPeerDelegation masterPubkey, cached.keyIndex ≤ d.keyIndex

/-- No cached delegation is replaced by one with a lower index. -/
def Storage.KeysGrow (st st' : Storage) : Prop :=
  ∀ (masterPubkey : String) (d : SigningKeyDelegation), st.getPeerDelegation masterPubkey = some d →
    ∃ d', st'.getPeerDelegation masterPubkey = some d' ∧ d.keyIndex ≤ d'.keyIndex

instance (st : Storage) (masterPubkey : String) (d : SigningKeyDelegation) :
    Decidable (st.NotStale masterPubkey d) := by
  unfold Storage.NotStale
  infer_instance

namespace Node

/-- A profile that a step stores without a look at the key cached for its author. -/
def unchecked (w : Node) (l : Label) : Option Item :=
  let st := w.store.storage
  match l.action with
  | .event (.syncProfile pubkey p) =>
    if l.fails.table .saveProfile then none else some (.profile pubkey p)
  | .event (.pushProfile remote msg) =>
    if l.fails.table .signingPubkey then
      (pushedProfile S me l.fails.table remote msg st).map
        (.profile (pushSender l.fails.table remote st))
    else none
  | .task i =>
    match w.tasks[i]? with
    | some (.saveProfile masterPubkey p) =>
      if l.fails.table .saveProfile then none else some (.profile masterPubkey p)
    | _ => none
  | _ => none

/-- What a step accepts. -/
def accepts (w : Node) (l : Label) : Option Item :=
  let st := w.store.storage
  match l.action with
  | .event (.linkedDevices pk a) =>
    if acceptsAnnouncement S l.fails pk a w.store then some (.announcement a) else none
  | .event (.deviceAnnouncement author a) =>
    if acceptsSyncAnnouncement S author a then some (.announcement a) else none
  | .event (.post _ p) => if acceptsPost S l.fails l.now p st then some (.post p) else none
  | .event (.interaction sender i) =>
    if acceptsInteraction S l.fails l.now i sender st then some (.interaction i) else none
  | .event (.deletePost pk id author signature) =>
    if author = pk ∧ deletionSigned S l.fails (verifyDeletePostSignature S id author signature) pk st
    then some (.deletePost id author signature) else none
  | .event (.deleteInteraction pk id author signature) =>
    if author = pk ∧
        deletionSigned S l.fails (verifyDeleteInteractionSignature S id author signature) pk st
    then some (.deleteInteraction id author signature) else none
  | .event (.profileUpdate pk p) =>
    if gossipAccepts S l.fails.table pk p st then some (.profile pk p) else none
  | .event (.pushProfile remote msg) =>
    (pushedProfile S me l.fails.table remote msg st).map
      (.profile (pushSender l.fails.table remote st))
  | _ => w.unchecked S me l

/-- The step does not file an older delegation than the one it replaces, nor does it accept an
announcement with an older one. -/
def NothingStale (w : Node) (l : Label) : Prop :=
  let st := w.store.storage
  match l.action with
  | .event (.followResponse (.approved i)) | .event (.identity i) =>
    l.fails.table .cachePeerIdentity = false → st.NotStale i.masterPubkey i.delegation
  | .event (.followRequest _ req) =>
    l.fails.table .cachePeerIdentity = false → checkFollowRequest S req = .ok () →
      st.NotStale req.requester req.delegation
  | .event (.linkedDevices pk a) =>
    acceptsAnnouncement S l.fails pk a w.store = true → st.NotStale a.masterPubkey a.delegation
  | .event (.deviceAnnouncement author a) =>
    acceptsSyncAnnouncement S author a = true → st.NotStale a.masterPubkey a.delegation
  | .task i =>
    -- another identity of the user may have been filed since the rotation was compared
    l.fails.table .cachePeerIdentity = false → ∀ identity ∈ w.tasks[i]?.bind Task.identityOf,
      st.NotStale identity.masterPubkey identity.delegation
  | _ => True

/-- A profile that nobody checks is current all the same. -/
def SignedProfile (w : Node) (l : Label) : Prop :=
  ∀ item ∈ w.unchecked S me l, w.store.storage.Current S item

instance : ∀ (w : Node) (l : Label), Decidable (w.NothingStale S l) := by
  rintro w ⟨action, now, fails⟩
  cases action with
  | event e =>
    cases e with
    | followResponse response => cases response <;> (dsimp only [NothingStale]; infer_instance)
    | _ => dsimp only [NothingStale]; infer_instance
  | _ => dsimp only [NothingStale]; infer_instance

end Node

section Cached

variable {S : SignatureCrates} {me : String}

theorem Storage.getPeerDelegation_of_keys {st st' : Storage} (h : st'.keys = st.keys) (M : String) :
    st'.getPeerDelegation M = st.getPeerDelegation M := by
  have hkeys : ∀ s : Storage, s.getPeerDelegation M =
      (s.keys.find? fun r => r.1 = M).map fun r => r.2.2.2 := by
    intro s
    unfold getPeerDelegation Storage.keys Table.find
    rw [List.find?_map, Option.map_map]
    rfl
  rw [hkeys, hkeys, h]

theorem Storage.keysGrow_of_keys {st st' : Storage} (h : st'.keys = st.keys) : st.KeysGrow st' := by
  intro M d hd
  exact ⟨d, (getPeerDelegation_of_keys h M).trans hd, UInt32.le_refl _⟩

theorem Storage.KeysGrow.trans {st st' st'' : Storage} (h : st.KeysGrow st')
    (h' : st'.KeysGrow st'') : st.KeysGrow st'' := by
  intro M d hd
  obtain ⟨d', hd', hle⟩ := h M d hd
  obtain ⟨d'', hd'', hle'⟩ := h' M d' hd'
  exact ⟨d'', hd'', UInt32.le_trans hle hle'⟩

theorem Storage.keysGrow_cachePeerIdentity {st : Storage} {i : IdentityResponse}
    (h : st.NotStale i.masterPubkey i.delegation) (now : UInt64) :
    st.KeysGrow (st.cachePeerIdentity i now) := by
  intro M d hd
  by_cases hM : M = i.masterPubkey
  · subst hM
    refine ⟨i.delegation, ?_, h d hd⟩
    unfold getPeerDelegation
    rw [find_cachePeerIdentity_self]
    rfl
  · refine ⟨d, ?_, UInt32.le_refl _⟩
    unfold getPeerDelegation
    rw [find_cachePeerIdentity_of_ne hM]
    exact hd

theorem Storage.Authentic.resolveSigner_eq {st : Storage} (h : st.Authentic S) {M : String}
    {cached : SigningKeyDelegation} (hcached : st.getPeerDelegation M = some cached) (fails : Fails) :
    ∃ key, resolveSigner S fails M st = some key ∧
      (S.parsePublicKey M = .ok key ∨ DelegatedBy S cached M key) := by
  obtain ⟨r, hr, rfl⟩ := Option.map_eq_some_iff.mp hcached
  have hauth : r.Authentic S := h r (List.mem_of_find?_eq_some hr)
  have hmaster : r.delegationJson.masterPubkey = M := hauth.master.trans (Table.key_of_find hr)
  obtain ⟨sig, master, signing, -, hmk, hsk, -⟩ := verifyDelegation_eq_ok.mp hauth.verified
  rw [hmaster] at hmk
  have hrow : st.getPeerSigningPubkey M = some r.delegationJson.signingPubkey := by
    rw [← hauth.signing]
    exact congrArg _ hr
  cases hfails : fails .signingPubkey with
  | true =>
    refine ⟨master, ?_, Or.inl hmk⟩
    simp [resolveSigner, hfails, hmk, Except.toOption]
  | false =>
    refine ⟨signing, ?_, Or.inr ⟨hauth.verified, hmaster, hsk⟩⟩
    simp [resolveSigner, hfails, hrow, hsk, Except.toOption]

theorem Node.keysGrow_step {w t : Node} {l : Label} (hok : w.NothingStale S l)
    (hstep : w.step S me l = some t) : w.store.storage.KeysGrow t.store.storage := by
  have hkeys := keys_step hstep
  -- filing an identity that is not stale
  have hfiled : ∀ i : IdentityResponse, (l.fails.table .cachePeerIdentity = false →
      w.store.storage.NotStale i.masterPubkey i.delegation) →
      w.store.storage.KeysGrow (w.filed l (some i)) := by
    intro i hi
    cases hfails : l.fails.table .cachePeerIdentity with
    | true =>
      have hsame : w.filed l (some i) = w.store.storage := by
        simp [filed, cachePeerIdentity, Storage.attempt, hfails]
      exact Storage.keysGrow_of_keys (congrArg _ hsame)
    | false =>
      have hnew : w.filed l (some i) = w.store.storage.cachePeerIdentity i l.now := by
        simp [filed, cachePeerIdentity, Storage.attempt, hfails]
      rw [hnew]
      exact Storage.keysGrow_cachePeerIdentity (hi hfails) l.now
  refine Storage.KeysGrow.trans ?_ (Storage.keysGrow_of_keys hkeys)
  obtain ⟨action, now, fails⟩ := l
  cases action with
  | event e =>
    cases e with
    | followResponse response =>
      cases response with
      | approved i => exact hfiled i hok
      | denied | pending => exact Storage.keysGrow_of_keys rfl
    | identity i => exact hfiled i hok
    | followRequest remote req =>
      simp only [identityOf, Event.identityOf]
      split
      next hcheck => exact hfiled _ fun hfails => hok hfails hcheck
      next => exact Storage.keysGrow_of_keys rfl
    | _ => exact Storage.keysGrow_of_keys rfl
  | task j =>
    cases hi : w.tasks[j]?.bind Task.identityOf with
    | none =>
      simp only [identityOf, hi]
      exact Storage.keysGrow_of_keys rfl
    | some i =>
      simp only [identityOf, hi]
      exact hfiled i fun hfails => hok hfails i hi
  | restart | edit => exact Storage.keysGrow_of_keys rfl

end Cached

section Acceptance

variable {S : SignatureCrates} {me : String}

theorem Storage.Authentic.current_of_signerAccepts {st : Storage} (h : st.Authentic S) (item : Item)
    {fails : PeerFails} (hacc : signerAccepts S fails (item.verify S) item.author st = true) :
    st.Current S item := by
  intro cached hcached
  obtain ⟨key, hkey, hwhose⟩ := h.resolveSigner_eq hcached fails.table
  simp only [signerAccepts, hkey] at hacc
  refine ⟨key, Checks.toBool_eq_true.mp hacc, hwhose.imp_right fun hdel => ?_⟩
  exact ⟨cached, hdel, UInt32.le_refl _⟩

theorem Storage.Authentic.current_of_deletionSigned {st : Storage} (h : st.Authentic S) (item : Item)
    {fails : PeerFails} (hacc : deletionSigned S fails (item.verify S) item.author st = true) :
    st.Current S item := by
  intro cached hcached
  obtain ⟨key, hkey, -⟩ := h.resolveSigner_eq hcached fails.table
  have hsigner : signerAccepts S fails (item.verify S) item.author st = true := by
    simpa only [signerAccepts, deletionSigned, hkey] using hacc
  exact h.current_of_signerAccepts item hsigner cached hcached

theorem Storage.Authentic.current_of_gossipAccepts {st : Storage} (h : st.Authentic S) {pk : String}
    {p : Profile} {fails : Fails} (hacc : gossipAccepts S fails pk p st = true) :
    st.Current S (.profile pk p) := by
  intro cached hcached
  have hrow : st.getPeerDelegation pk = some cached := hcached
  obtain ⟨key, hkey, hwhose⟩ := h.resolveSigner_eq hrow fails
  simp only [gossipAccepts, hkey, Bool.and_eq_true] at hacc
  refine ⟨key, Checks.toBool_eq_true.mp hacc.2, hwhose.imp_right fun hdel => ?_⟩
  exact ⟨cached, hdel, UInt32.le_refl _⟩

theorem Storage.Authentic.current_of_pushedProfile {st : Storage} (h : st.Authentic S)
    {fails : Fails} (hread : fails .signingPubkey = false) {remote : String} {msg : PushMessage}
    {p : Profile} (hp : pushedProfile S me fails remote msg st = some p) :
    st.Current S (.profile (pushSender fails remote st) p) := by
  intro cached hcached
  have hsigner : pushSignerOk S fails (pushSender fails remote st) p st = true := by
    simp only [pushedProfile] at hp
    split at hp
    · have hcheck := (Option.filter_eq_some_iff.mp hp).2
      exact (Bool.and_eq_true _ _ ▸ hcheck).2
    · exact nomatch hp
  obtain ⟨r, hr, rfl⟩ := Option.map_eq_some_iff.mp hcached
  have hauth : r.Authentic S := h r (List.mem_of_find?_eq_some hr)
  obtain ⟨sig, master, signing, -, -, hsk, -⟩ := verifyDelegation_eq_ok.mp hauth.verified
  have hrow : st.getPeerSigningPubkey (pushSender fails remote st) =
      some r.delegationJson.signingPubkey := by
    rw [← hauth.signing]
    exact congrArg _ hr
  simp only [pushSignerOk, hread, hrow, hsk, Bool.false_eq_true, if_false] at hsigner
  refine ⟨signing, Checks.toBool_eq_true.mp hsigner, Or.inr ⟨r.delegationJson, ?_, UInt32.le_refl _⟩⟩
  exact ⟨hauth.verified, hauth.master.trans (Table.key_of_find hr), hsk⟩

theorem Storage.current_of_announcement {st : Storage} {a : LinkedDevicesAnnouncement}
    (hverified : verifyLinkedDevicesAnnouncement S a = .ok ())
    (hfresh : st.NotStale a.masterPubkey a.delegation) : st.Current S (.announcement a) := by
  intro cached hcached
  obtain ⟨hdelegation, hmaster, signer, hsk, hsig⟩ :=
    (verifyLinkedDevicesAnnouncement_eq_ok S).mp hverified
  exact ⟨signer, hsig, Or.inr ⟨a.delegation, ⟨hdelegation, hmaster, hsk⟩, hfresh cached hcached⟩⟩

theorem Node.current_of_accepts {w : Node} {l : Label} (h : w.store.storage.Authentic S)
    (hok : w.NothingStale S l) (hprofile : w.SignedProfile S me l) {item : Item} (hacc : w.accepts S me l = some item) :
    w.store.storage.Current S item := by
  obtain ⟨action, now, fails⟩ := l
  cases action with
  | event e =>
    cases e with
    | linkedDevices pk a =>
      simp only [accepts, Option.ite_none_right_eq_some] at hacc
      obtain ⟨hcheck, hitem⟩ := hacc
      obtain rfl := Option.some.inj hitem
      have hfresh := hok hcheck
      simp only [acceptsAnnouncement, Bool.and_eq_true] at hcheck
      exact Storage.current_of_announcement (Checks.toBool_eq_true.mp hcheck.1.2) hfresh
    | deviceAnnouncement author a =>
      simp only [accepts, Option.ite_none_right_eq_some] at hacc
      obtain ⟨hcheck, hitem⟩ := hacc
      obtain rfl := Option.some.inj hitem
      have hfresh := hok hcheck
      simp only [acceptsSyncAnnouncement, Bool.and_eq_true] at hcheck
      exact Storage.current_of_announcement (Checks.toBool_eq_true.mp hcheck.2) hfresh
    | post sender p =>
      simp only [accepts, Option.ite_none_right_eq_some] at hacc
      obtain ⟨hcheck, hitem⟩ := hacc
      obtain rfl := Option.some.inj hitem
      simp only [acceptsPost, Bool.and_eq_true] at hcheck
      exact h.current_of_signerAccepts (.post p) hcheck.2
    | interaction sender i =>
      simp only [accepts, Option.ite_none_right_eq_some] at hacc
      obtain ⟨hcheck, hitem⟩ := hacc
      obtain rfl := Option.some.inj hitem
      simp only [acceptsInteraction, Bool.and_eq_true] at hcheck
      exact h.current_of_signerAccepts (.interaction i) hcheck.2
    | deletePost pk id author signature =>
      simp only [accepts, Option.ite_none_right_eq_some] at hacc
      obtain ⟨⟨rfl, hcheck⟩, hitem⟩ := hacc
      obtain rfl := Option.some.inj hitem
      exact h.current_of_deletionSigned (.deletePost id author signature) hcheck
    | deleteInteraction pk id author signature =>
      simp only [accepts, Option.ite_none_right_eq_some] at hacc
      obtain ⟨⟨rfl, hcheck⟩, hitem⟩ := hacc
      obtain rfl := Option.some.inj hitem
      exact h.current_of_deletionSigned (.deleteInteraction id author signature) hcheck
    | profileUpdate pk p =>
      simp only [accepts, Option.ite_none_right_eq_some] at hacc
      obtain ⟨hcheck, hitem⟩ := hacc
      obtain rfl := Option.some.inj hitem
      exact h.current_of_gossipAccepts hcheck
    | pushProfile remote msg =>
      cases hread : fails.table .signingPubkey with
      | true =>
        refine hprofile item ?_
        simp only [unchecked, hread, if_true]
        exact hacc
      | false =>
        obtain ⟨p, hp, rfl⟩ := Option.map_eq_some_iff.mp hacc
        exact h.current_of_pushedProfile hread hp
    | _ => exact hprofile item hacc
  | _ => exact hprofile item hacc

end Acceptance

section Runs

variable {S : SignatureCrates} {me : String}

/-- In a run of vouched-for identities that brings back no older key, the cached delegations go
from older to newer ones only, and what is accepted is signed with a key that is not older than
the cached one. -/
theorem rotation_revokes {store : PeerStore} {run : List Label}
    (hstore : store.storage.Authentic S)
    (hvouched : Machine.Along (Node.step S me) (Node.VouchedResponse S) ⟨store, []⟩ run)
    (hstale : Machine.Along (Node.step S me) (Node.NothingStale S) ⟨store, []⟩ run)
    (hprofiles : Machine.Along (Node.step S me) (Node.SignedProfile S me) ⟨store, []⟩ run) :
    (∀ before after u v, before ++ after <+: run →
      Machine.exec (Node.step S me) ⟨store, []⟩ before = some u →
      Machine.exec (Node.step S me) u after = some v →
      u.store.storage.KeysGrow v.store.storage) ∧
    Machine.Along (Node.step S me)
      (fun w l => ∀ item ∈ w.accepts S me l, w.store.storage.Current S item) ⟨store, []⟩ run := by
  constructor
  · rintro before after u v ⟨rest, rfl⟩ hbefore hafter
    have hsplit := hstale.of_append.1.of_append.2 u hbefore
    refine Machine.exec_invariant
      (I := fun w => u.store.storage.KeysGrow w.store.storage) ?_ ?_ hsplit hafter
    · intro w l t hw hok hstep
      exact hw.trans (Node.keysGrow_step hok hstep)
    · exact Storage.keysGrow_of_keys rfl
  · have hall := hvouched.and (hstale.and hprofiles)
    refine Machine.Along.mono_of_invariant
      (I := fun w => w.Checked S ∧ w.store.storage.Authentic S) ?_ ?_ ?_ hall
    · intro w l hw hok item hitem
      exact Node.current_of_accepts hw.2 hok.2.1 hok.2.2 hitem
    · intro w l t hw hok hstep
      exact ⟨Node.checked_step hw.1 hstep, (Node.authentic_step_iff hw.1 hw.2).mpr hok.1 t hstep⟩
    · exact ⟨fun t ht => (nomatch ht), hstore⟩

end Runs

section Examples

def bobFirst : Event := .identity (responseOf "bob" (checksumDelegation "bob" "b0" "" 0))

def bobRotates : Event := .signingKeyRotation "bob" (checksumRotation "bob" "b0" "b1" 1)

def taskLabel : Label := ⟨.task 0, 0, fun _ => false⟩

/-- The rotation of bob's key from its arrival to its write. -/
def rotationRun : List Label := [bobRotates.calm, taskLabel, taskLabel]

theorem exec_rotationRun : ∃ u u₁ u₂ v,
    Node.step checksumCrates "me" ⟨PeerStore.empty, []⟩ bobFirst.calm = some u ∧
    Node.step checksumCrates "me" u bobRotates.calm = some u₁ ∧
    Node.step checksumCrates "me" u₁ taskLabel = some u₂ ∧
    Node.step checksumCrates "me" u₂ taskLabel = some v ∧
    u.store.storage.getPeerDelegation "bob" = some (checksumDelegation "bob" "b0" "" 0) ∧
    u₂.store.storage = u.store.storage ∧ u₁.tasks = [.readTransportNodeIds "bob"
      (checksumRotation "bob" "b0" "b1" 1)] ∧
    u₂.tasks = [.cacheRotation (rotatedIdentity (checksumRotation "bob" "b0" "b1" 1) ["node"])] ∧
    v.store.storage.getPeerDelegation "bob" = some (checksumDelegation "bob" "b1" "" 1) := by
  let u : Node := Node.cachePeerIdentity bobFirst.calm
    (responseOf "bob" (checksumDelegation "bob" "b0" "" 0)) ⟨PeerStore.empty, []⟩
  have hacc : acceptsRotation checksumCrates (fun _ => false) "bob"
      (checksumRotation "bob" "b0" "b1" 1) u.store.storage = true := by
    simp only [acceptsRotation, verifyRotation_checksumRotation]
    rfl
  have hrotate : Node.step checksumCrates "me" u bobRotates.calm =
      some (u.spawn (.readTransportNodeIds "bob" (checksumRotation "bob" "b0" "b1" 1))) := by
    simp only [Node.step, bobRotates, Event.calm, Node.handle]
    exact congrArg some (if_pos hacc)
  exact ⟨u, _, _, _, rfl, hrotate, rfl, rfl, rfl, rfl, rfl, rfl, rfl⟩

theorem rotation_revokes_bob : ∃ u v,
    Machine.exec (Node.step checksumCrates "me") ⟨PeerStore.empty, []⟩ [bobFirst.calm] = some u ∧
    Machine.exec (Node.step checksumCrates "me") u rotationRun = some v ∧
    u.store.storage.getPeerDelegation "bob" = some (checksumDelegation "bob" "b0" "" 0) ∧
    v.store.storage.getPeerDelegation "bob" = some (checksumDelegation "bob" "b1" "" 1) ∧
    u.store.storage.KeysGrow v.store.storage := by
  obtain ⟨u, u₁, u₂, v, h, h₁, h₂, h₃, hu, hsame, ht₁, ht₂, hv⟩ := exec_rotationRun
  have hstore : PeerStore.empty.storage.Authentic checksumCrates := fun r hr => nomatch hr
  have hvouched : Machine.Along (Node.step checksumCrates "me") (Node.VouchedResponse checksumCrates)
      ⟨PeerStore.empty, []⟩ ([bobFirst.calm] ++ rotationRun) := by
    refine ⟨fun _ => vouched_responseOf "bob" "b0" "" 0, fun _ _ => ⟨trivial, fun _ _ => ?_⟩⟩
    exact ⟨trivial, fun _ _ => ⟨trivial, fun _ _ => trivial⟩⟩
  have hstale : Machine.Along (Node.step checksumCrates "me") (Node.NothingStale checksumCrates)
      ⟨PeerStore.empty, []⟩ ([bobFirst.calm] ++ rotationRun) := by
    refine (Machine.along_cons h).mpr ⟨fun _ cached hcached => (nomatch hcached), ?_⟩
    refine (Machine.along_cons h₁).mpr ⟨trivial, (Machine.along_cons h₂).mpr ⟨?_, ?_⟩⟩
    · simp [Node.NothingStale, taskLabel, ht₁, Task.identityOf]
    · refine (Machine.along_cons h₃).mpr ⟨?_, trivial⟩
      simp only [Node.NothingStale, taskLabel, ht₂, hsame]
      rintro - identity ⟨⟩ cached hcached
      obtain rfl := Option.some.inj (hu.symm.trans hcached)
      decide
  have hprofiles : Machine.Along (Node.step checksumCrates "me")
      (Node.SignedProfile checksumCrates "me") ⟨PeerStore.empty, []⟩
      ([bobFirst.calm] ++ rotationRun) := by
    refine (Machine.along_cons h).mpr ⟨fun item hitem => (nomatch hitem), ?_⟩
    refine (Machine.along_cons h₁).mpr ⟨fun item hitem => (nomatch hitem), ?_⟩
    refine (Machine.along_cons h₂).mpr ⟨?_, (Machine.along_cons h₃).mpr ⟨?_, trivial⟩⟩
    · simp [Node.SignedProfile, Node.unchecked, taskLabel, ht₁]
    · simp [Node.SignedProfile, Node.unchecked, taskLabel, ht₂]
  have hfirst : Machine.exec (Node.step checksumCrates "me") ⟨PeerStore.empty, []⟩ [bobFirst.calm] =
      some u := Machine.exec_cons_eq_some.mpr ⟨u, h, rfl⟩
  have hrest : Machine.exec (Node.step checksumCrates "me") u rotationRun = some v := by
    refine Machine.exec_cons_eq_some.mpr ⟨u₁, h₁, Machine.exec_cons_eq_some.mpr ⟨u₂, h₂, ?_⟩⟩
    exact Machine.exec_cons_eq_some.mpr ⟨v, h₃, rfl⟩
  have hgrow := (rotation_revokes hstore hvouched hstale hprofiles).1 _ _ u v (List.prefix_refl _)
    hfirst hrest
  exact ⟨u, v, hfirst, hrest, hu, hv, hgrow⟩

/-- After the rotation bob's first identity is sent once more, and brings his first key back. -/
theorem not_rotation_revokes_replayed :
    ¬ ∀ (before after : List Label) (u v : Node),
      Machine.Along (Node.step checksumCrates "me") (Node.VouchedResponse checksumCrates)
        ⟨PeerStore.empty, []⟩ (before ++ after) →
      Machine.exec (Node.step checksumCrates "me") ⟨PeerStore.empty, []⟩ before = some u →
      Machine.exec (Node.step checksumCrates "me") u after = some v →
      u.store.storage.KeysGrow v.store.storage := by
  intro hall
  obtain ⟨u, u₁, u₂, v, h, h₁, h₂, h₃, -, -, -, -, hv⟩ := exec_rotationRun
  let w : Node := v.cachePeerIdentity bobFirst.calm
    (responseOf "bob" (checksumDelegation "bob" "b0" "" 0))
  have hbefore : Machine.exec (Node.step checksumCrates "me") ⟨PeerStore.empty, []⟩
      (bobFirst.calm :: rotationRun) = some v := by
    refine Machine.exec_cons_eq_some.mpr ⟨u, h, Machine.exec_cons_eq_some.mpr ⟨u₁, h₁, ?_⟩⟩
    refine Machine.exec_cons_eq_some.mpr ⟨u₂, h₂, Machine.exec_cons_eq_some.mpr ⟨v, h₃, rfl⟩⟩
  have hvouched : Machine.Along (Node.step checksumCrates "me") (Node.VouchedResponse checksumCrates)
      ⟨PeerStore.empty, []⟩ (bobFirst.calm :: rotationRun ++ [bobFirst.calm]) := by
    refine ⟨fun _ => vouched_responseOf "bob" "b0" "" 0, fun _ _ => ⟨trivial, fun _ _ => ?_⟩⟩
    refine ⟨trivial, fun _ _ => ⟨trivial, fun _ _ => ⟨fun _ => ?_, fun _ _ => trivial⟩⟩⟩
    exact vouched_responseOf "bob" "b0" "" 0
  have hgrow : v.store.storage.KeysGrow w.store.storage :=
    hall (bobFirst.calm :: rotationRun) [bobFirst.calm] v w hvouched hbefore rfl
  obtain ⟨d, hd, hle⟩ := hgrow "bob" _ hv
  have hw : w.store.storage.getPeerDelegation "bob" = some (checksumDelegation "bob" "b0" "" 0) :=
    congrArg (Option.map PeerIdentityRow.delegationJson)
      (Storage.find_cachePeerIdentity_self (responseOf "bob" (checksumDelegation "bob" "b0" "" 0)) 0
        v.store.storage)
  obtain rfl := Option.some.inj (hw.symm.trans hd)
  exact absurd hle (by decide)

end Examples
end Proscenium.Client
