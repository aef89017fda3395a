import Proscenium.Client.FollowerDefs
import Proscenium.Client.KeyMonotonicity
import Proscenium.Client.RotationContent

/-! Which key does a follower hold for the author? A rotation is only broadcast,
and of what an author sends to its followers two kinds carry a delegation: that
broadcast and identity responses, which are built and cached in one step here.
Pushes, syncs and other broadcasts leave the one it has. A follow request carries
one too, but goes to those whom the author wants to follow, and is left out. -/

namespace Proscenium.Client.Author

open Proscenium.Types Feed

section Rotations

variable (K : KeyCrates) (master : SecretKey)

structure Issued (r : SigningKeyRotation) : Prop where
  masterPubkey : r.masterPubkey = publicText K master
  verified : verifyRotation K.toSignatureCrates r = .ok ()
  signingPubkey : r.newDelegation.signingPubkey = publicText K (deriveSigningKey K master r.newKeyIndex)

/-- The keys go by their indices, and the rotations under way can be shown to others. -/
structure Device.Issues (w : Device) : Prop where
  keyIndex : w.identity.delegation.keyIndex = w.identity.signingKeyIndex
  issued : ∀ plan phase, Task.rotate plan phase ∈ w.tasks →
    Issued K master plan.rotation ∧ plan.newDelegation.keyIndex = plan.newIndex

variable {K} {master}

theorem parse_publicText (hK : K.Lawful) (secret : SecretKey) :
    K.parsePublicKey (publicText K secret) = .ok (K.publicKey secret) := hK.parse_keyText _

theorem verifyDelegation_signDelegation (hK : K.Lawful) (signing : SecretKey) (keyIndex dmKeyIndex : UInt32)
    (dmPubkey : String) (issuedAt : UInt64) : verifyDelegation K.toSignatureCrates
      (signDelegation K master (publicText K signing) keyIndex dmPubkey dmKeyIndex issuedAt) = .ok () := by
  refine verifyDelegation_eq_ok.mpr ⟨K.sign master (delegationSigningBytes (signDelegation K master
    (publicText K signing) keyIndex dmPubkey dmKeyIndex issuedAt)), K.publicKey master,
    K.publicKey signing, ?_, parse_publicText hK master, parse_publicText hK signing, ?_⟩
  · exact hexToSignature_signHex hK master _
  · exact hK.verify_sign master _

theorem issued_plan (hK : K.Lawful) {w : Device} (h : Device.Inv K master w) (now : UInt64) :
    Issued K master (w.plan K now).rotation := by
  have hmaster := h.identity.masterSecret
  refine ⟨?_, ?_, ?_⟩
  · show publicText K w.identity.masterSecret = _
    rw [hmaster]
  · unfold verifyRotation
    simp only [Checks.bind_eq_ok, Checks.mapError_eq_ok, Checks.reject_eq_ok, Decidable.not_not]
    refine ⟨_, hexToSignature_signHex hK _ _, _, parse_publicText hK _, ?_, (), ?_, rfl, rfl, rfl, trivial⟩
    · exact hK.verify_sign _ _
    · exact verifyDelegation_signDelegation hK _ _ _ _ _
  · show publicText K (deriveSigningKey K w.identity.masterSecret _) = _
    rw [hmaster]
    rfl

namespace Device

/-- A rotation under way was so before, or has just begun. -/
theorem rotate_mem_step {w t : Device} {l : Label} (hstep : w.step K l = some t) {plan : Plan}
    {phase : RotatePhase} (hmem : Task.rotate plan phase ∈ t.tasks) :
    (∃ phase', Task.rotate plan phase' ∈ w.tasks) ∨ ∃ now, plan = w.plan K now := by
  cases l with
  | createPost draft id now nowValidate =>
    obtain rfl := Option.some.inj hstep
    unfold createPost at hmem
    dsimp only at hmem
    split at hmem
    · exact Or.inl ⟨phase, hmem⟩
    · exact Or.inl ⟨phase, by simpa using hmem⟩
  | likePost target author id now =>
    obtain rfl := Option.some.inj hstep
    exact Or.inl ⟨phase, by simpa [likePost] using hmem⟩
  | deletePost id =>
    obtain rfl := Option.some.inj hstep
    unfold deletePost at hmem
    refine Or.inl ⟨phase, ?_⟩
    split at hmem
    · split at hmem <;> exact hmem
    · exact hmem
  | unlikePost target =>
    obtain rfl := Option.some.inj hstep
    unfold unlikePost at hmem
    refine Or.inl ⟨phase, ?_⟩
    split at hmem <;> exact hmem
  | rotateSigningKey now =>
    obtain rfl := Option.some.inj hstep
    rcases List.mem_append.mp hmem with hmem | hmem
    · exact Or.inl ⟨phase, hmem⟩
    · obtain ⟨rfl, -⟩ := Task.rotate.inj (List.mem_singleton.mp hmem)
      exact Or.inr ⟨now, rfl⟩
  | task i ok now =>
    obtain ⟨u, hu, rfl⟩ := Option.map_eq_some_iff.mp hstep
    refine Or.inl ?_
    rcases (Tasks.mem_advance hu).mp hmem with hnext | hrest
    · cases u with
      | insertPost p => exact nomatch hnext
      | saveInteraction x => exact nomatch hnext
      | rotate plan' phase' =>
        obtain ⟨_, -, hplan⟩ := Option.map_eq_some_iff.mp hnext
        obtain ⟨rfl, -⟩ := Task.rotate.inj hplan
        exact ⟨phase', List.mem_of_getElem? hu⟩
    · exact ⟨phase, List.mem_of_mem_eraseIdx hrest⟩
  | restart now =>
    obtain rfl := Option.some.inj hstep
    exact nomatch hmem

/-- The identity is the old one, the one of a rotation under way, or a new one after a restart. -/
theorem keyIndex_step {w t : Device} {l : Label} (h : w.Issues K master) (hstep : w.step K l = some t) :
    t.identity.delegation.keyIndex = t.identity.signingKeyIndex := by
  cases l with
  | createPost draft id now nowValidate =>
    obtain rfl := Option.some.inj hstep
    unfold createPost
    dsimp only
    split <;> exact h.keyIndex
  | likePost target author id now =>
    obtain rfl := Option.some.inj hstep
    exact h.keyIndex
  | deletePost id =>
    obtain rfl := Option.some.inj hstep
    unfold deletePost
    split
    · split <;> exact h.keyIndex
    · exact h.keyIndex
  | unlikePost target =>
    obtain rfl := Option.some.inj hstep
    unfold unlikePost
    split <;> exact h.keyIndex
  | rotateSigningKey now =>
    obtain rfl := Option.some.inj hstep
    exact h.keyIndex
  | task i ok now =>
    obtain ⟨u, hu, rfl⟩ := Option.map_eq_some_iff.mp hstep
    cases u with
    | insertPost p =>
      simp only [runTask]
      split <;> exact h.keyIndex
    | saveInteraction x =>
      simp only [runTask]
      split <;> exact h.keyIndex
    | rotate plan phase =>
      have hplan := (h.issued plan phase (List.mem_of_getElem? hu)).2
      cases phase with
      | setIdentity => exact hplan
      | broadcastRotation | getLinkedDevices | writeIndex =>
        simp only [runTask, runRotate]
        split <;> exact h.keyIndex
      | getVersion | cacheAnnouncement | broadcastLinkedDevices | registerAgain => exact h.keyIndex
  | restart now =>
    obtain rfl := Option.some.inj hstep
    rfl

theorem issues_step (hK : K.Lawful) {w t : Device} {l : Label} (hinv : Inv K master w)
    (h : w.Issues K master) (hstep : w.step K l = some t) : t.Issues K master := by
  refine ⟨keyIndex_step h hstep, ?_⟩
  intro plan phase hmem
  obtain ⟨phase', hmem⟩ | ⟨now, rfl⟩ := rotate_mem_step hstep hmem
  · exact h.issued plan phase' hmem
  · exact ⟨issued_plan hK hinv now, rfl⟩

theorem issued_broadcasts {w : Device} (h : w.Issues K master) {l : Label} {r : SigningKeyRotation}
    (hr : GossipMessage.signingKeyRotation r ∈ w.broadcasts l) : Issued K master r := by
  unfold broadcasts at hr
  split at hr
  next i now =>
    split at hr
    next plan htask =>
      obtain rfl := GossipMessage.signingKeyRotation.inj (List.mem_singleton.mp hr)
      exact (h.issued plan _ (List.mem_of_getElem? htask)).1
    next => exact nomatch List.mem_singleton.mp hr
    next => exact nomatch hr
  next => exact nomatch hr

end Device
end Rotations

section Receiving

variable {S : SignatureCrates} {you : String} {now : UInt64} {store : PeerStore}

/-- The event carries no delegation that would be filed. -/
def Quiet (S : SignatureCrates) (e : Event) : Prop :=
  e.identityOf S = none ∧ ∀ pk rotation, e ≠ .signingKeyRotation pk rotation

theorem keys_finish {l : Client.Label} {w : Node} {t : Client.Task} (hid : t.identityOf = none)
    (hnext : ∀ w' next, w.runTask l t = (w', some next) → next.identityOf = none) :
    (finish l w t).store.storage.keys = w.store.storage.keys := by
  have hrun := Node.keys_runTask w l t
  rw [hid] at hrun
  unfold finish
  split
  next w' heq =>
    rw [heq] at hrun
    exact hrun
  next w' next heq =>
    rw [heq] at hrun
    have hrun' := Node.keys_runTask w' l next
    rw [hnext w' next heq] at hrun'
    exact hrun'.trans hrun

theorem keys_finish_announcement {l : Client.Label} {w : Node} (masterPubkey : String)
    (a : LinkedDevicesAnnouncement) :
    (finish l w (.saveAnnouncement masterPubkey a)).store.storage.keys = w.store.storage.keys := by
  refine keys_finish rfl ?_
  intro w' next hrun
  unfold Node.runTask at hrun
  dsimp only at hrun
  split at hrun
  · exact nomatch (Prod.mk.inj hrun).2
  · obtain rfl := Option.some.inj (Prod.mk.inj hrun).2
    rfl

theorem keys_receive {e : Event} (he : Quiet S e) :
    (receive S you now store e).storage.keys = store.storage.keys := by
  have hhandle : (Node.handle S you ⟨.event e, now, noFails⟩ ⟨store, []⟩ e).store.storage.keys =
      store.storage.keys := by
    rw [Node.keys_handle, he.1]
    rfl
  have hdone : ∀ out : Node, out.tasks = [] →
      out.store.storage.keys = store.storage.keys →
      (out.tasks.foldl (finish ⟨.event e, now, noFails⟩) ⟨out.store, []⟩).store.storage.keys =
        store.storage.keys := by
    intro out hout hkeys
    rw [hout]
    exact hkeys
  unfold receive
  dsimp only
  cases e with
  | followResponse response =>
    cases response with
    | approved identity => exact nomatch he.1
    | denied => exact hdone _ rfl hhandle
    | pending => exact hdone _ rfl hhandle
  | identity identity => exact nomatch he.1
  | followRequest remote req =>
    refine hdone _ ?_ hhandle
    simp only [Node.handle]
    split <;> rfl
  | linkedDevices pk a =>
    revert hhandle
    simp only [Node.handle]
    split
    · intro _
      exact keys_finish_announcement (l := ⟨.event (.linkedDevices pk a), now, noFails⟩)
        (w := ⟨store, []⟩) pk a
    · exact hdone _ rfl
  | signingKeyRotation pk rotation => exact absurd rfl (he.2 pk rotation)
  | deviceAnnouncement author a =>
    revert hhandle
    simp only [Node.handle]
    split
    · intro _
      exact keys_finish_announcement (l := ⟨.event (.deviceAnnouncement author a), now, noFails⟩)
        (w := ⟨store, []⟩) author a
    · exact hdone _ rfl
  | post sender p =>
    refine hdone _ ?_ hhandle
    simp only [Node.handle]
    split <;> rfl
  | interaction sender i => exact hdone _ rfl hhandle
  | hiddenContent => exact hdone _ rfl hhandle
  | deletePost pk id author signature => exact hdone _ rfl hhandle
  | deleteInteraction pk id author signature => exact hdone _ rfl hhandle
  | profileUpdate pk profile => exact hdone _ rfl hhandle
  | pushProfile remote msg => exact hdone _ rfl hhandle
  | syncProfile pubkey profile => exact hdone _ rfl hhandle

theorem keys_receive_all {events : List Event} (h : ∀ e ∈ events, Quiet S e) :
    (events.foldl (receive S you now) store).storage.keys = store.storage.keys := by
  induction events generalizing store with
  | nil => rfl
  | cons e events ih =>
    rw [List.foldl_cons, ih fun x hx => h x (List.mem_cons_of_mem _ hx)]
    exact keys_receive (h e List.mem_cons_self)

theorem keys_receive_identity (i : IdentityResponse) :
    (receive S you now store (.identity i)).storage.keys = (store.storage.cachePeerIdentity i now).keys := by
  obtain ⟨master, delegation, ids, profile⟩ := i
  cases profile with
  | none => rfl
  | some profile =>
    have hsave : ∀ (l : Client.Label) (w : Node),
        (finish l w (.saveProfile master profile)).store.storage.keys = w.store.storage.keys := by
      intro l w
      refine keys_finish rfl fun w' next hrun => ?_
      have hend : none = some next := (Prod.mk.inj hrun).2
      exact nomatch hend
    exact hsave _ _

theorem keys_receive_rotation (pk : String) (r : SigningKeyRotation) :
    (receive S you now store (.signingKeyRotation pk r)).storage.keys =
      if acceptsRotation S noFails pk r store.storage then
        (store.storage.cachePeerIdentity
          (rotatedIdentity r (store.storage.getPeerTransportNodeIds pk)) now).keys
      else store.storage.keys := by
  unfold receive
  dsimp only [Node.handle]
  cases acceptsRotation S noFails pk r store.storage with
  | true => rfl
  | false => rfl

end Receiving

section Knowing

variable (K : KeyCrates) (master : SecretKey)

/-- What is cached for the author is the delegation of this index, or nothing. -/
def Knows (told : Option UInt32) (st : Storage) : Prop :=
  (Table.find PeerIdentityRow.masterPubkey (publicText K master) st.peerDelegations).map
      (fun r => (r.signingPubkey, r.delegationJson.signingPubkey, r.delegationJson.keyIndex)) =
    told.map fun i => let key := publicText K (deriveSigningKey K master i); (key, key, i)

variable {K} {master} {told : Option UInt32} {st st' : Storage}

theorem Knows.of_keys (h : Knows K master told st) (hkeys : st'.keys = st.keys) :
    Knows K master told st' := by
  have hread : ∀ s : Storage,
      (Table.find PeerIdentityRow.masterPubkey (publicText K master) s.peerDelegations).map
        (fun r => (r.signingPubkey, r.delegationJson.signingPubkey, r.delegationJson.keyIndex)) =
      (s.keys.find? fun r => r.1 = publicText K master).map
        fun r => (r.2.1, r.2.2.2.signingPubkey, r.2.2.2.keyIndex) := by
    intro s
    unfold Storage.keys Table.find
    rw [List.find?_map, Option.map_map]
    rfl
  unfold Knows at h ⊢
  rw [hread, hkeys, ← hread]
  exact h

theorem knows_cachePeerIdentity {i : IdentityResponse} (hmaster : i.masterPubkey = publicText K master)
    (hkey : i.delegation.signingPubkey = publicText K (deriveSigningKey K master i.delegation.keyIndex))
    (now : UInt64) : Knows K master (some i.delegation.keyIndex) (st.cachePeerIdentity i now) := by
  unfold Knows
  rw [← hmaster, Storage.find_cachePeerIdentity_self]
  simp only [Option.map_some, hkey]

theorem Knows.keyIndex (h : Knows K master told st) :
    (st.getPeerDelegation (publicText K master)).map SigningKeyDelegation.keyIndex = told := by
  have hindex := congrArg (Option.map fun r : String × String × UInt32 => r.2.2) h
  unfold Storage.getPeerDelegation
  simpa [Option.map_map, Function.comp_def] using hindex

theorem Knows.signingPubkey (h : Knows K master told st) :
    st.getPeerSigningPubkey (publicText K master) =
      told.map fun i => publicText K (deriveSigningKey K master i) := by
  have hkey := congrArg (Option.map fun r : String × String × UInt32 => r.1) h
  unfold Storage.getPeerSigningPubkey
  simpa [Option.map_map, Function.comp_def] using hkey

theorem Knows.delegated (h : Knows K master told st) :
    (st.getPeerDelegation (publicText K master)).map SigningKeyDelegation.signingPubkey =
      told.map fun i => publicText K (deriveSigningKey K master i) := by
  have hkey := congrArg (Option.map fun r : String × String × UInt32 => r.2.1) h
  unfold Storage.getPeerDelegation
  simpa [Option.map_map, Function.comp_def] using hkey

theorem Knows.acceptsRotation_iff (h : Knows K master told st) {r : SigningKeyRotation}
    (hr : Issued K master r) :
    acceptsRotation K.toSignatureCrates noFails (publicText K master) r st = true ↔
      ∀ i ∈ told, i < r.newKeyIndex := by
  have hindex := h.keyIndex
  unfold acceptsRotation
  rw [hr.verified, hr.masterPubkey]
  cases hcached : st.getPeerDelegation (publicText K master) with
  | none =>
    rw [hcached] at hindex
    rw [← hindex]
    simp [noFails, Except.toBool]
  | some d =>
    rw [hcached] at hindex
    rw [← hindex]
    simp [noFails, Except.toBool]

end Knowing

namespace World

variable (K : KeyCrates) (J : SerdeJson) (you : String) (master : SecretKey)

structure Honest (w : World) : Prop where
  author : Device.Inv K master w.author
  issues : w.author.Issues K master
  broadcasts : ∀ r, GossipMessage.signingKeyRotation r ∈ w.broadcasts → Issued K master r
  knows : Knows K master w.told w.follower.storage

/-- The cached delegation names the key the author signs with now, and what that key signs is
accepted. -/
structure Follows (w : World) : Prop where
  cached : ∃ d, w.follower.storage.getPeerDelegation w.masterPubkey = some d ∧
    d.signingPubkey = publicText K w.author.identity.signingSecret
  accepts : ∀ p clock, SignedPost K w.author.identity.masterSecret p w.author.identity.signingKeyIndex →
    p.timestamp.toNat ≤ clock.toNat + maxTimestampDriftMs →
      acceptsPost K.toSignatureCrates noFails clock p w.follower.storage = true

/-- Once a rotation has succeeded, the follower knows the key after whatever it receives. -/
def Reaches (w : World) : Label → Prop
  | .deliver d now => ∀ t, w.step K J you (.deliver d now) = some t → w.rotated = true → t.Follows K
  | _ => True

/-- The last delegation that came to the follower, with this delivery or before it, is the one
of the present index. -/
def Tells (w : World) : Label → Prop
  | .deliver d _ => (w.events J you d).isSome = true → w.rotated = true →
    w.heard d = some w.author.identity.signingKeyIndex
  | _ => True

instance (w : World) (l : Label) : Decidable (w.Tells J you l) := by
  unfold Tells
  split <;> infer_instance

variable {K J you master} {w t : World}

theorem Honest.masterPubkey (h : w.Honest K master) : w.masterPubkey = publicText K master :=
  h.author.identity.masterPubkey

theorem follows_iff (hK : K.Lawful) (h : w.Honest K master) :
    w.Follows K ↔ w.told = some w.author.identity.signingKeyIndex := by
  have hsecret := h.author.identity.signingSecret
  constructor
  · rintro ⟨⟨d, hd, hkey⟩, -⟩
    have hdelegated := h.knows.delegated
    rw [← h.masterPubkey, hd, Option.map_some, hkey, hsecret] at hdelegated
    obtain ⟨i, hi, hsame⟩ := Option.map_eq_some_iff.mp hdelegated.symm
    have hparsed := congrArg K.parsePublicKey hsame
    rw [parse_publicText hK, parse_publicText hK] at hparsed
    rw [hi, hK.publicKey_derive master i _ (Except.ok.inj hparsed)]
  · intro htold
    have hdelegated := h.knows.delegated
    have hsigning := h.knows.signingPubkey
    rw [htold, Option.map_some, ← hsecret, ← h.masterPubkey] at hdelegated hsigning
    obtain ⟨d, hd, hkey⟩ := Option.map_eq_some_iff.mp hdelegated
    refine ⟨⟨d, hd, hkey⟩, ?_⟩
    intro p clock hp hclock
    rw [h.author.identity.masterSecret] at hp
    have hcached : w.author.CachedBy w.follower.storage :=
      hsigning.trans (congrArg some h.author.identity.delegated.symm)
    exact (Device.acceptsPost_iff hK h.author.identity hp hcached rfl clock).mpr ⟨hclock, rfl⟩

theorem knows_quiet (h : Knows K master w.told w.follower.storage) {events : List Event}
    (hquiet : ∀ e ∈ events, Quiet K.toSignatureCrates e) (now : UInt64) :
    Knows K master w.told
      (events.foldl (receive K.toSignatureCrates you now) w.follower).storage :=
  h.of_keys (keys_receive_all hquiet)

theorem quiet_posts (sender : Option String) (posts : List Post) :
    ∀ e ∈ posts.map (Event.post sender), Quiet K.toSignatureCrates e := by
  intro e he
  obtain ⟨p, -, rfl⟩ := List.mem_map.mp he
  exact ⟨rfl, nofun⟩

theorem quiet_interactions (sender : String) (interactions : List Interaction) :
    ∀ e ∈ interactions.map (Event.interaction sender), Quiet K.toSignatureCrates e := by
  intro e he
  obtain ⟨i, -, rfl⟩ := List.mem_map.mp he
  exact ⟨rfl, nofun⟩

theorem quiet_append {xs ys : List Event} (hxs : ∀ e ∈ xs, Quiet K.toSignatureCrates e)
    (hys : ∀ e ∈ ys, Quiet K.toSignatureCrates e) : ∀ e ∈ xs ++ ys, Quiet K.toSignatureCrates e := by
  intro e he
  rcases List.mem_append.mp he with he | he
  · exact hxs e he
  · exact hys e he

theorem knows_gossip (h : w.Honest K master) {k : Nat} {msg : GossipMessage}
    (hmsg : w.broadcasts[k]? = some msg) (now : UInt64) : Knows K master (w.heard (.gossip k))
      ((eventsOf w.masterPubkey msg).foldl (receive K.toSignatureCrates you now) w.follower).storage := by
  have hknows := h.knows
  have hother : (∀ e ∈ eventsOf w.masterPubkey msg, Quiet K.toSignatureCrates e) →
      Knows K master w.told
        ((eventsOf w.masterPubkey msg).foldl (receive K.toSignatureCrates you now) w.follower).storage :=
    fun hquiet => knows_quiet hknows hquiet now
  unfold heard
  dsimp only
  rw [hmsg]
  cases msg with
  | signingKeyRotation r =>
    have hr := h.broadcasts r (List.mem_of_getElem? hmsg)
    have haccepts := hknows.acceptsRotation_iff hr
    show Knows K master (if ∀ i ∈ w.told, i < r.newKeyIndex then some r.newKeyIndex else w.told)
      (receive K.toSignatureCrates you now w.follower (.signingKeyRotation w.masterPubkey r)).storage
    rw [h.masterPubkey]
    by_cases hnew : ∀ i ∈ w.told, i < r.newKeyIndex
    · obtain ⟨-, -, hindex⟩ := verifyRotation_delegation K.toSignatureCrates hr.verified
      have hcached : Knows K master (some r.newDelegation.keyIndex)
          (w.follower.storage.cachePeerIdentity (rotatedIdentity r
            (w.follower.storage.getPeerTransportNodeIds (publicText K master))) now) :=
        knows_cachePeerIdentity hr.masterPubkey (hindex ▸ hr.signingPubkey) now
      rw [if_pos hnew, ← hindex]
      refine hcached.of_keys ((keys_receive_rotation _ r).trans ?_)
      rw [if_pos (haccepts.mpr hnew)]
    · rw [if_neg hnew]
      refine hknows.of_keys ((keys_receive_rotation _ r).trans ?_)
      rw [if_neg (mt haccepts.mp hnew)]
  | newPost | deletePost | newInteraction | deleteInteraction | profileUpdate | linkedDevices =>
    apply hother
    intro e he
    obtain rfl := List.mem_singleton.mp he
    exact ⟨rfl, nofun⟩
  | other => exact hother fun e he => nomatch he

/-- Identity responses and accepted rotations are what the follower gets to know. -/
theorem knows_deliver (h : w.Honest K master) {d : Delivery} {events : List Event}
    (hevents : w.events J you d = some events) (now : UInt64) : Knows K master (w.heard d)
      (events.foldl (receive K.toSignatureCrates you now) w.follower).storage := by
  cases d with
  | gossip k =>
    obtain ⟨msg, hmsg, rfl⟩ := Option.map_eq_some_iff.mp hevents
    exact knows_gossip h hmsg now
  | identityResponse ids profile =>
    obtain rfl := Option.some.inj hevents
    have hid := h.author.identity
    have hcached : Knows K master (some w.author.identity.delegation.keyIndex)
        (w.follower.storage.cachePeerIdentity
          ⟨w.masterPubkey, w.author.identity.delegation, ids, profile⟩ now) := by
      refine knows_cachePeerIdentity h.masterPubkey ?_ now
      rw [h.issues.keyIndex, ← hid.signingSecret]
      exact hid.delegated
    rw [h.issues.keyIndex] at hcached
    exact hcached.of_keys (keys_receive_identity _)
  | push remote posts interactions profile =>
    unfold World.events at hevents
    dsimp only at hevents
    split at hevents
    · obtain rfl := Option.some.inj hevents
      refine knows_quiet h.knows (quiet_append (quiet_append (quiet_posts _ posts)
        (quiet_interactions _ interactions)) ?_) now
      intro e he
      obtain rfl := List.mem_singleton.mp he
      exact ⟨rfl, nofun⟩
    · exact nomatch hevents
  | sync remote =>
    obtain ⟨result, -, rfl⟩ := Option.map_eq_some_iff.mp hevents
    refine knows_quiet h.knows (quiet_append (quiet_append (quiet_posts _ result.posts) ?_)
      (quiet_interactions _ result.interactions)) now
    intro e he
    obtain ⟨profile, -, rfl⟩ := List.mem_map.mp he
    exact ⟨rfl, nofun⟩

theorem mem_send {msgs : List GossipMessage} {msg : GossipMessage} (h : msg ∈ (w.send msgs).broadcasts) :
    msg ∈ w.broadcasts ∨ msg ∈ msgs := by
  unfold send at h
  split at h
  · exact List.mem_append.mp h
  · exact Or.inl h

theorem follower_send (msgs : List GossipMessage) :
    (w.send msgs).follower = w.follower ∧ (w.send msgs).told = w.told ∧
      (w.send msgs).author = w.author := by
  unfold send
  split <;> exact ⟨rfl, rfl, rfl⟩

theorem honest_step (hK : K.Lawful) {l : Label} (h : w.Honest K master)
    (hstep : w.step K J you l = some t) : t.Honest K master := by
  cases l with
  | author l =>
    obtain ⟨author, hauthor, rfl⟩ := Option.map_eq_some_iff.mp hstep
    obtain ⟨hfollower, htold, -⟩ := follower_send (w := w) (w.author.broadcasts l)
    refine ⟨Device.inv_step h.author hauthor, Device.issues_step hK h.author h.issues hauthor, ?_, ?_⟩
    · intro r hr
      rcases mem_send hr with hr | hr
      · exact h.broadcasts r hr
      · exact Device.issued_broadcasts h.issues hr
    · show Knows K master (w.send _).told (w.send _).follower.storage
      rw [hfollower, htold]
      exact h.knows
  | tables st =>
    obtain rfl := Option.some.inj hstep
    exact { h with }
  | ownFeed up =>
    obtain rfl := Option.some.inj hstep
    exact { h with }
  | broadcast msg =>
    have hsent : (∀ r, msg ≠ .signingKeyRotation r) → (w.send [msg]).Honest K master := by
      intro hmsg
      obtain ⟨hfollower, htold, hauthor⟩ := follower_send (w := w) [msg]
      refine ⟨hauthor ▸ h.author, hauthor ▸ h.issues, ?_, ?_⟩
      · intro r hr
        rcases mem_send hr with hr | hr
        · exact h.broadcasts r hr
        · exact absurd (List.mem_singleton.mp hr).symm (hmsg r)
      · rw [hfollower, htold]
        exact h.knows
    cases msg with
    | signingKeyRotation r => exact nomatch hstep
    | newPost | deletePost | newInteraction | deleteInteraction | profileUpdate | linkedDevices | other =>
      obtain rfl := Option.some.inj hstep
      exact hsent nofun
  | deliver d now =>
    obtain ⟨events, hevents, rfl⟩ := Option.map_eq_some_iff.mp hstep
    exact { h with knows := knows_deliver h hevents now }
  | follower profiles socialGraph content =>
    obtain rfl := Option.some.inj hstep
    exact { h with }

theorem reaches_iff_tells (hK : K.Lawful) (h : w.Honest K master) (l : Label) :
    w.Reaches K J you l ↔ w.Tells J you l := by
  cases l with
  | deliver d now =>
    have hfollows : ∀ t, w.step K J you (.deliver d now) = some t →
        (t.Follows K ↔ w.heard d = some w.author.identity.signingKeyIndex) := by
      intro t hstep
      have ht := follows_iff hK (honest_step hK h hstep)
      obtain ⟨events, -, rfl⟩ := Option.map_eq_some_iff.mp hstep
      exact ht
    constructor
    · intro hreaches hcomes hrotated
      obtain ⟨events, hevents⟩ := Option.isSome_iff_exists.mp hcomes
      have hstep : w.step K J you (.deliver d now) = some _ := Option.map_eq_some_iff.mpr ⟨events, hevents, rfl⟩
      exact (hfollows _ hstep).mp (hreaches _ hstep hrotated)
    · intro htells t hstep hrotated
      obtain ⟨events, hevents, -⟩ := Option.map_eq_some_iff.mp hstep
      exact (hfollows t hstep).mpr (htells (Option.isSome_iff_exists.mpr ⟨events, hevents⟩) hrotated)
  | author | tables | ownFeed | broadcast | follower => exact Iff.rfl

theorem along_reaches_iff (hK : K.Lawful) (h : w.Honest K master) (run : List Label) :
    Machine.Along (step K J you) (Reaches K J you) w run ↔
      Machine.Along (step K J you) (Tells J you) w run := by
  refine Machine.along_iff (I := Honest K master) ?_ ?_ h
  · intro u l hu
    exact reaches_iff_tells hK hu l
  · intro u l v hu _ hstep
    exact honest_step hK hu hstep

theorem honest_start (indexFile : Option UInt32) (dmPubkey : String) (dmKeyIndex : UInt32)
    (now : UInt64) (devices : List DeviceEntry) (tables : Storage) :
    (start (buildIdentity K master indexFile dmPubkey dmKeyIndex now) indexFile devices tables).Honest
      K master where
  author := Device.inv_start indexFile dmPubkey dmKeyIndex now devices
  issues := ⟨rfl, fun _ _ hmem => nomatch hmem⟩
  broadcasts _ hr := nomatch hr
  knows := rfl

/-- In every run, whatever the author's visibility is and however it changes, every delivery after a
rotation leaves the follower with the key the author signs with, just if the last delegation that
came with it or before it is the one of the present index. -/
theorem rotation_reaches_iff (hK : K.Lawful) (indexFile : Option UInt32) (dmPubkey : String)
    (dmKeyIndex : UInt32) (now : UInt64) (devices : List DeviceEntry) (tables : Storage)
    (run : List Label) :
    Machine.Along (step K J you) (Reaches K J you)
      (start (buildIdentity K master indexFile dmPubkey dmKeyIndex now) indexFile devices tables) run ↔
    Machine.Along (step K J you) (Tells J you)
      (start (buildIdentity K master indexFile dmPubkey dmKeyIndex now) indexFile devices tables) run :=
  along_reaches_iff hK (honest_start indexFile dmPubkey dmKeyIndex now devices tables) run

end World
section Examples

def listedTables : Storage :=
  let alice := publicText plainKeys zeroSecret
  ⟨[⟨alice, "", "", none, none, "listed", ""⟩], [], [⟨"bob", alice, "active", some 0⟩]⟩

def listedAuthor : World := .start (buildIdentity plainKeys zeroSecret none "" 0 0) none [] listedTables

def rotatingRun : List World.Label :=
  .deliver (.identityResponse [] none) 1 :: (rotateRun 2).map .author

theorem rotation_reaches_queried :
    Machine.Along (World.step plainKeys compactJson "bob") (World.Reaches plainKeys compactJson "bob")
      listedAuthor (rotatingRun ++ [.deliver (.identityResponse [] none) 3, .deliver (.sync "bob") 4]) :=
  (World.rotation_reaches_iff plainKeys_lawful none "" 0 0 [] listedTables _).mpr (by decide +kernel)

/-- Nothing is broadcast for a listed author, and a sync brings no delegation. -/
theorem not_rotation_reaches_synced :
    ¬ Machine.Along (World.step plainKeys compactJson "bob") (World.Reaches plainKeys compactJson "bob")
      listedAuthor (rotatingRun ++ [.deliver (.sync "bob") 3]) := by
  have hstart : listedAuthor.Honest plainKeys zeroSecret :=
    World.honest_start none "" 0 0 [] listedTables
  rw [World.along_reaches_iff plainKeys_lawful hstart]
  decide +kernel

end Examples
end Proscenium.Client.Author
