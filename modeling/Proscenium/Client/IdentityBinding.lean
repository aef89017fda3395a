import Proscenium.Client.CacheAuthenticity

/-! Whose node and whose DM key is it? The answers come from what peers said
about themselves, and from the connection a follow request came over. A
signature says who wrote it; nobody proves to hold the keys that are listed, and
a signed request can come from anywhere. -/

namespace Proscenium.Client

open Proscenium.Types

/-- Whose keys the keys are: of a master key, the transport nodes of its devices and its DM keys. -/
structure KeyOwners where
  node : String → String → Prop
  dmKey : String → String → Prop

namespace Storage

def getMasterPubkeyForDmPubkey (dmPubkey : String) (st : Storage) : Option String :=
  (st.peerDelegations.find? fun r => r.dmPubkey = dmPubkey).map PeerIdentityRow.masterPubkey

/-- The queries have no order: if several rows match, any of them may answer. -/
def AnswersTransport (transportId masterPubkey : String) (st : Storage) : Prop :=
  ∃ r ∈ st.peerDelegations, transportId ∈ r.transportNodeIds ∧ r.masterPubkey = masterPubkey

def AnswersDmPubkey (dmPubkey masterPubkey : String) (st : Storage) : Prop :=
  ∃ r ∈ st.peerDelegations, r.dmPubkey = dmPubkey ∧ r.masterPubkey = masterPubkey

/-- Nothing is attributed to anyone but the owner of the key it came under. -/
structure BindsOwners (o : KeyOwners) (st : Storage) : Prop where
  transport : ∀ t M, st.AnswersTransport t M → o.node M t
  dm : ∀ d M, st.AnswersDmPubkey d M → o.dmKey M d
  sender : ∀ fails remote, pushSender fails remote st = remote ∨
    o.node (pushSender fails remote st) remote
  dmSender : ∀ d M, st.getMasterPubkeyForDmPubkey d = some M → o.dmKey M d

def RowsOwn (o : KeyOwners) (st : Storage) : Prop :=
  ∀ r ∈ st.peerDelegations, (∀ t ∈ r.transportNodeIds, o.node r.masterPubkey t) ∧
    o.dmKey r.masterPubkey r.dmPubkey

end Storage

/-- The response lists keys of the master key it names. -/
def IdentityResponse.Own (o : KeyOwners) (i : IdentityResponse) : Prop :=
  (∀ t ∈ i.transportNodeIds, o.node i.masterPubkey t) ∧ o.dmKey i.masterPubkey i.delegation.dmPubkey

section Rows

variable {o : KeyOwners} {st : Storage}

theorem Storage.answersTransport_of_lookup {t M : String}
    (h : st.getMasterPubkeyForTransport t = some M) : st.AnswersTransport t M := by
  obtain ⟨r, hr, rfl⟩ := Option.map_eq_some_iff.mp h
  have hlisted : decide (t ∈ r.transportNodeIds) = true :=
    List.find?_some (p := fun q : PeerIdentityRow => decide (t ∈ q.transportNodeIds)) hr
  exact ⟨r, List.mem_of_find?_eq_some hr, of_decide_eq_true hlisted, rfl⟩

theorem Storage.answersDmPubkey_of_lookup {d M : String}
    (h : st.getMasterPubkeyForDmPubkey d = some M) : st.AnswersDmPubkey d M := by
  obtain ⟨r, hr, rfl⟩ := Option.map_eq_some_iff.mp h
  have hkey : decide (r.dmPubkey = d) = true :=
    List.find?_some (p := fun q : PeerIdentityRow => decide (q.dmPubkey = d)) hr
  exact ⟨r, List.mem_of_find?_eq_some hr, of_decide_eq_true hkey, rfl⟩

theorem Storage.bindsOwners_iff : st.BindsOwners o ↔ st.RowsOwn o := by
  constructor
  · intro h r hr
    exact ⟨fun t ht => h.transport t _ ⟨r, hr, ht, rfl⟩, h.dm _ _ ⟨r, hr, rfl, rfl⟩⟩
  · intro h
    have htransport : ∀ t M, st.AnswersTransport t M → o.node M t := by
      rintro t _ ⟨r, hr, ht, rfl⟩
      exact (h r hr).1 t ht
    have hdm : ∀ d M, st.AnswersDmPubkey d M → o.dmKey M d := by
      rintro _ _ ⟨r, hr, rfl, rfl⟩
      exact (h r hr).2
    refine ⟨htransport, hdm, fun fails remote => ?_, fun d M hlookup => ?_⟩
    · unfold pushSender
      split
      · exact Or.inl rfl
      · cases hlookup : st.getMasterPubkeyForTransport remote with
        | none => exact Or.inl rfl
        | some M => exact Or.inr (htransport _ _ (answersTransport_of_lookup hlookup))
    · exact hdm d M (answersDmPubkey_of_lookup hlookup)

theorem Storage.rowsOwn_cachePeerIdentity_iff (h : st.RowsOwn o) (i : IdentityResponse) (now : UInt64) :
    (st.cachePeerIdentity i now).RowsOwn o ↔ i.Own o := by
  constructor
  · intro hafter
    exact hafter _ (List.mem_of_find?_eq_some (find_cachePeerIdentity_self i now st))
  · intro hi
    refine Table.all_upsert h ⟨hi.1, hi.2⟩ ?_
    intro r _ hkey
    have hmaster : r.masterPubkey = i.masterPubkey := hkey
    constructor
    · intro t ht
      exact hmaster ▸ hi.1 t ht
    · exact hmaster ▸ hi.2

theorem Storage.rowsOwn_updateTransportNodeIds_iff (h : st.RowsOwn o) (M : String) (ids : List String) :
    (st.updateTransportNodeIds M ids).RowsOwn o ↔
      ((∃ r ∈ st.peerDelegations, r.masterPubkey = M) → ∀ t ∈ ids, o.node M t) := by
  constructor
  · rintro hafter ⟨r, hr, rfl⟩
    have hmem : { r with transportNodeIds := ids } ∈
        (st.updateTransportNodeIds r.masterPubkey ids).peerDelegations :=
      List.mem_map.mpr ⟨r, hr, if_pos (decide_eq_true rfl)⟩
    exact (hafter _ hmem).1
  · intro hids
    apply Table.all_updateWhere h
    intro q hq hkey
    have hmaster : q.masterPubkey = M := of_decide_eq_true hkey
    refine ⟨fun t ht => ?_, (h q hq).2⟩
    show o.node q.masterPubkey t
    rw [hmaster]
    exact hids ⟨q, hq, hmaster⟩ t ht

theorem Storage.RowsOwn.node_of_cached (h : st.RowsOwn o) {M t : String}
    (ht : t ∈ st.getPeerTransportNodeIds M) : o.node M t := by
  unfold getPeerTransportNodeIds at ht
  cases hrow : Table.find PeerIdentityRow.masterPubkey M st.peerDelegations with
  | none =>
    rw [hrow] at ht
    exact nomatch ht
  | some r =>
    rw [hrow] at ht
    have hmaster : r.masterPubkey = M := Table.key_of_find hrow
    have hnode := (h r (List.mem_of_find?_eq_some hrow)).1 t ht
    rwa [hmaster] at hnode

end Rows

variable (S : SignatureCrates) (me : String) (o : KeyOwners)

def Task.TakesOver : Task → Prop
  | .readTransportNodeIds pk rotation => rotation.masterPubkey = pk
  | .cacheRotation identity => ∀ t ∈ identity.transportNodeIds, o.node identity.masterPubkey t
  | .saveAnnouncement .. | .updateTransportNodeIds .. | .saveProfile .. => True

/-- What a task files for a master key is that key's own: of a rotation the DM key, of an
announcement the devices if there is a row to list them in. -/
def Task.FilesOwn (l : Label) (st : Storage) : Task → Prop
  | .cacheRotation i =>
    l.fails.table .cachePeerIdentity = false → o.dmKey i.masterPubkey i.delegation.dmPubkey
  | .updateTransportNodeIds M a =>
    l.fails .updateTransportNodeIds = false → (∃ r ∈ st.peerDelegations, r.masterPubkey = M) →
      ∀ t ∈ a.devices.map (·.nodeId), o.node M t
  | .saveAnnouncement .. | .readTransportNodeIds .. | .saveProfile .. => True

namespace Node

def TakesOver (w : Node) : Prop := ∀ t ∈ w.tasks, t.TakesOver o

/-- What the step files is its master key's own, and of a response or a follow request all of it. -/
def BindsOwn (w : Node) (l : Label) : Prop :=
  match l.action with
  | .event e => ∀ i ∈ e.identityOf S, l.fails.table .cachePeerIdentity = false → i.Own o
  | .task k => ∀ t ∈ w.tasks[k]?, t.FilesOwn o l w.store.storage
  | .restart | .edit .. => True

variable {S me o} {w : Node} {l : Label}

theorem takesOver_step {t : Node} (h : w.TakesOver o) (hrows : w.store.storage.RowsOwn o)
    (hstep : w.step S me l = some t) : t.TakesOver o := by
  refine tasks_step ⟨fun _ _ => trivial, fun _ _ => trivial, fun _ _ => trivial, ?_, ?_⟩ h hstep
  · intro pk rotation haccepts
    simp only [acceptsRotation, Bool.and_eq_true] at haccepts
    show rotation.masterPubkey = pk
    exact of_decide_eq_true haccepts.1.1
  · intro pk rotation ids (hpk : rotation.masterPubkey = pk) hids t ht
    show o.node rotation.masterPubkey t
    rw [hpk]
    exact hrows.node_of_cached (hids t ht)

theorem rowsOwn_filed_iff (hrows : w.store.storage.RowsOwn o) (i : IdentityResponse) :
    (w.filed l (some i)).RowsOwn o ↔ (l.fails.table .cachePeerIdentity = false → i.Own o) := by
  show (w.store.storage.attempt l.fails.table .cachePeerIdentity
    (Storage.cachePeerIdentity i l.now)).RowsOwn o ↔ _
  unfold Storage.attempt
  cases l.fails.table .cachePeerIdentity with
  | true => exact iff_of_true hrows fun hfails => absurd hfails Bool.noConfusion
  | false =>
    rw [forall_prop_of_true rfl]
    exact Storage.rowsOwn_cachePeerIdentity_iff hrows i l.now

theorem rowsOwn_of_peerDelegations {st st' : Storage} (h : st'.peerDelegations = st.peerDelegations) :
    st'.RowsOwn o ↔ st.RowsOwn o := by
  unfold Storage.RowsOwn
  rw [h]

theorem rowsOwn_runTask_iff (hrows : w.store.storage.RowsOwn o) {t : Task} (ht : t.TakesOver o) :
    (w.runTask l t).1.store.storage.RowsOwn o ↔ t.FilesOwn o l w.store.storage := by
  cases t with
  | saveAnnouncement masterPubkey a =>
    have hsame : (w.runTask l (.saveAnnouncement masterPubkey a)).1.store.storage = w.store.storage := by
      simp only [runTask]
      split <;> rfl
    rw [hsame]
    exact iff_of_true hrows trivial
  | updateTransportNodeIds M a =>
    simp only [runTask]
    unfold Task.FilesOwn
    cases l.fails .updateTransportNodeIds with
    | true => exact iff_of_true hrows fun hfails => absurd hfails Bool.noConfusion
    | false =>
      refine (Storage.rowsOwn_updateTransportNodeIds_iff hrows M _).trans ?_
      exact ⟨fun hids _ => hids, fun hids => hids rfl⟩
  | readTransportNodeIds pk rotation => exact iff_of_true hrows trivial
  | cacheRotation i =>
    refine (rowsOwn_filed_iff hrows i).trans (imp_congr_right fun _ => ?_)
    exact and_iff_right ht
  | saveProfile masterPubkey profile =>
    refine iff_of_true ?_ trivial
    exact (rowsOwn_of_peerDelegations (peerDelegations_saveProfile w l masterPubkey profile)).mpr hrows

theorem rowsOwn_step_iff (htasks : w.TakesOver o) (hrows : w.store.storage.RowsOwn o) :
    (∀ t, w.step S me l = some t → t.store.storage.RowsOwn o) ↔ w.BindsOwn S o l := by
  unfold step BindsOwn
  cases haction : l.action with
  | event e =>
    have htable : (w.handle S me l e).store.storage.peerDelegations =
        (w.filed l (e.identityOf S)).peerDelegations := peerDelegations_handle w l e
    have hhandle := rowsOwn_of_peerDelegations (o := o) htable
    simp only [Option.some.injEq, forall_eq']
    rw [hhandle]
    cases hi : e.identityOf S with
    | none => exact iff_of_true hrows fun i hi => nomatch hi
    | some i =>
      rw [rowsOwn_filed_iff hrows]
      simp
  | task k =>
    dsimp only
    cases htask : w.tasks[k]? with
    | none => exact iff_of_true (fun t h => nomatch h) (fun t h => nomatch h)
    | some t =>
      have hover := htasks t (List.mem_of_getElem? htask)
      rw [Option.map_some]
      simp only [Option.some.injEq, forall_eq', Option.mem_def]
      exact rowsOwn_runTask_iff hrows hover
  | restart =>
    simp only [Option.some.injEq, forall_eq']
    exact iff_of_true hrows trivial
  | edit profiles socialGraph content =>
    simp only [Option.some.injEq, forall_eq']
    exact iff_of_true hrows trivial

end Node

variable {S me o}

/-- In every state of a run every lookup answers with the owner of the key, and all that goes by it is
attributed to the owner, just if every step of the run files under a master key only keys that are
its own. -/
theorem identity_binding_sound_iff {store : PeerStore} {run : List Label}
    (hstore : store.storage.BindsOwners o) :
    (∀ init w, init <+: run → Machine.exec (Node.step S me) ⟨store, []⟩ init = some w →
      w.store.storage.BindsOwners o) ↔
    Machine.Along (Node.step S me) (Node.BindsOwn S o) ⟨store, []⟩ run := by
  simp only [Storage.bindsOwners_iff] at hstore ⊢
  refine Machine.forall_prefix_iff_along (I := fun w => w.TakesOver o ∧ w.store.storage.RowsOwn o) ?_ ?_ ?_ hstore
  · intro w l hw
    exact Node.rowsOwn_step_iff hw.1 hw.2
  · intro w l t hw _ hrows hstep
    exact ⟨Node.takesOver_step hw.1 hw.2 hstep, hrows⟩
  · exact ⟨fun u hu => absurd hu List.not_mem_nil, hstore⟩

section Examples

def oneNodeEach : KeyOwners := ⟨fun M t => t = M ++ "'s node", fun _ d => d = ""⟩

theorem bindsOwners_empty : PeerStore.empty.storage.BindsOwners oneNodeEach :=
  Storage.bindsOwners_iff.mpr fun _ hr => nomatch hr

theorem identityOf_followRequestOf (remote master signer : String) (keyIndex : UInt32) :
    (Event.followRequest remote (followRequestOf master signer keyIndex)).identityOf checksumCrates =
      some (requesterIdentity remote (followRequestOf master signer keyIndex)) :=
  if_pos (checkFollowRequest_followRequestOf master signer keyIndex)

/-- Bob asks from his own node. -/
theorem identity_binding_sound_bob : Node.BindsOwn checksumCrates oneNodeEach ⟨PeerStore.empty, []⟩ bobAsks ∧
    ∀ init w, init <+: [bobAsks] →
      Machine.exec (Node.step checksumCrates "alice") ⟨PeerStore.empty, []⟩ init = some w →
        w.store.storage.BindsOwners oneNodeEach := by
  have hown : Node.BindsOwn checksumCrates oneNodeEach ⟨PeerStore.empty, []⟩ bobAsks := by
    intro i hi _
    obtain rfl := Option.some.inj ((identityOf_followRequestOf "bob's node" "bob" "b0" 0).symm.trans hi)
    refine ⟨fun t ht => ?_, rfl⟩
    obtain rfl := List.mem_singleton.mp ht
    rfl
  exact ⟨hown, (identity_binding_sound_iff bindsOwners_empty).mpr ⟨hown, fun _ _ => trivial⟩⟩

/-- Mallory replays the request that Bob sent to somebody else. -/
def replayedRequest : Label :=
  Event.calm (.followRequest "mallory's node" (followRequestOf "bob" "b0" 0))

/-- From then on Mallory's node is taken for Bob's. -/
theorem not_identity_binding_sound_replayed : ¬ ∀ init w, init <+: [replayedRequest] →
    Machine.exec (Node.step checksumCrates "alice") ⟨PeerStore.empty, []⟩ init = some w →
      w.store.storage.BindsOwners oneNodeEach := by
  intro h
  have hstep : Node.step checksumCrates "alice" ⟨PeerStore.empty, []⟩ replayedRequest =
      some (Node.cachePeerIdentity replayedRequest
        (requesterIdentity "mallory's node" (followRequestOf "bob" "b0" 0)) ⟨PeerStore.empty, []⟩) :=
    congrArg some (Node.handle_followRequest (checkFollowRequest_followRequestOf "bob" "b0" 0))
  have hrun : Machine.exec (Node.step checksumCrates "alice") ⟨PeerStore.empty, []⟩ [replayedRequest] =
      some (Node.cachePeerIdentity replayedRequest
        (requesterIdentity "mallory's node" (followRequestOf "bob" "b0" 0)) ⟨PeerStore.empty, []⟩) :=
    Machine.exec_cons_eq_some.mpr ⟨_, hstep, rfl⟩
  have hnode := (h _ _ (List.prefix_refl _) hrun).transport "mallory's node" "bob"
    ⟨_, List.mem_cons_self, List.mem_cons_self, rfl⟩
  have hother : "mallory's node" = "bob" ++ "'s node" := hnode
  exact absurd hother (by decide)

end Examples
end Proscenium.Client
