import Proscenium.Client.AnnouncementVersions

/-! A rotation that goes wrong. `rotate_signing_key` tells the followers first and
changes the device last, and between the two it can fail or the program can stop;
it does not keep the identity to itself while it runs. -/

namespace Proscenium.Client.Author

open Proscenium.Types Machine

variable (K : KeyCrates)

def RotatePhase.mayFail : RotatePhase → Bool
  | .getVersion _ | .cacheAnnouncement _ | .setIdentity => false
  | .broadcastRotation | .getLinkedDevices | .broadcastLinkedDevices _ | .registerAgain | .writeIndex =>
    true

def Plan.messages (plan : Plan) : RotatePhase → List GossipMessage
  | .broadcastRotation => [.signingKeyRotation plan.rotation]
  | .broadcastLinkedDevices a => [.linkedDevices a]
  | _ => []

/-- One call of `rotate_signing_key`, with what it has sent, and whether it has changed the
identity or the index file. -/
structure Invocation where
  plan : Plan
  phase : RotatePhase
  sent : List GossipMessage
  changed : Bool
  deriving DecidableEq, Repr

def Invocation.Apart (I J : Invocation) : Prop :=
  I.phase = .broadcastRotation ∨ J.phase = .broadcastRotation

theorem Invocation.Apart.symm {I J : Invocation} (h : I.Apart J) : J.Apart I := Or.symm h

/-- The tasks of the device are those of its other commands. -/
structure Rotating where
  device : Device
  invocations : List Invocation
  sent : List GossipMessage
  deriving DecidableEq, Repr

namespace Rotating

inductive Label where
  /-- A command, or a step of one; a restart is also what a crash leads to. -/
  | device (l : Author.Label)
  /-- Something else is signed: an announcement, a registration, a comment. -/
  | sign
  /-- `feed` says if the own feed has a sender, without which a broadcast succeeds and sends nothing. -/
  | await (i : Nat) (ok : Bool) (now : UInt64) (feed : Bool)
  /-- The write of the index file fails, or the program is killed in it. -/
  | tornWrite (i : Nat) (file : Option UInt32)
  deriving DecidableEq, Repr

def start (masterSecret : SecretKey) (indexFile : Option UInt32) (dmPubkey : String) (dmKeyIndex : UInt32)
    (now : UInt64) (linkedDevices : List DeviceEntry) : Rotating :=
  ⟨.start (buildIdentity K masterSecret indexFile dmPubkey dmKeyIndex now) indexFile linkedDevices, [], []⟩

section Await

variable (s : Rotating) (I : Invocation) (ok : Bool) (now : UInt64) (feed : Bool)

def messages : List GossipMessage := if ok && feed then I.plan.messages I.phase else []

def awaited : Invocation :=
  let w := (s.device.runRotate K ok now I.plan I.phase).1
  { I with
    sent := I.sent ++ messages I ok feed
    changed := I.changed || decide (w.identity ≠ s.device.identity ∨ w.indexFile ≠ s.device.indexFile) }

def await (i : Nat) : Rotating :=
  let out := s.device.runRotate K ok now I.plan I.phase
  { device := out.1
    invocations := Tasks.advance s.invocations i (out.2.map fun phase => { s.awaited K I ok now feed with phase })
    sent := s.sent ++ messages I ok feed }

end Await

def torn (s : Rotating) (I : Invocation) (file : Option UInt32) : Invocation :=
  { I with changed := I.changed || decide (file ≠ s.device.indexFile) }

def step (s : Rotating) : Label → Option Rotating
  | .device (.rotateSigningKey now) =>
    some { s with invocations := s.invocations ++ [⟨s.device.plan K now, .broadcastRotation, [], false⟩] }
  | .device (.restart now) => some ⟨s.device.restarted K now, [], s.sent⟩
  | .device l => (s.device.step K l).map fun device => { s with device }
  | .sign => some s
  | .await i ok now feed => s.invocations[i]?.map fun I => s.await K I ok now feed i
  | .tornWrite i file =>
    match s.invocations[i]? with
    | some I =>
      if I.phase = .writeIndex then
        some ⟨{ s.device with indexFile := file }, s.invocations.eraseIdx i, s.sent⟩
      else none
    | none => none

/-- The calls that end in this step, as they end. -/
def ended (s : Rotating) : Label → List Invocation
  | .device (.restart _) => s.invocations
  | .await i ok now feed =>
    match s.invocations[i]? with
    | some I =>
      if (s.device.runRotate K ok now I.plan I.phase).2 = none then [s.awaited K I ok now feed] else []
    | none => []
  | .tornWrite i file => (s.invocations[i]?.map fun I => s.torn I file).toList
  | .device _ | .sign => []

def signs (s : Rotating) : Label → Bool
  | .device (.createPost draft id now nowValidate) =>
    (validatePost nowValidate (s.device.draftPost draft id now)).toBool
  | .device (.likePost _ _ _ _) | .sign => true
  | _ => false

/-- The identity and the file are those that the rotation is to lead to. -/
structure RotatedTo (s : Rotating) (plan : Plan) : Prop where
  index : s.device.identity.signingKeyIndex = plan.newIndex
  secret : s.device.identity.signingSecret = plan.newSecret
  file : s.device.indexFile = some plan.newIndex

/-- A call that ends has sent nothing and changed nothing, or the device is on the new key; what
is signed is signed with a key that nobody was told to replace; and the rotations to one index
that are sent are all the same one. -/
structure AllOrNothing (s : Rotating) (l : Label) : Prop where
  ends : ∀ I ∈ s.ended K l, ∀ s', s.step K l = some s' → I.sent = [] ∧ I.changed = false ∨ s'.RotatedTo I.plan
  signs : s.signs l → ∀ r, .signingKeyRotation r ∈ s.sent → r.newKeyIndex ≤ s.device.identity.signingKeyIndex
  tells : ∀ s', s.step K l = some s' → ∀ r r', .signingKeyRotation r ∈ s'.sent →
    .signingKeyRotation r' ∈ s'.sent → r.newKeyIndex = r'.newKeyIndex → r = r'

/-- A call gets past its first broadcast only while no other one is, with an index one above that
of the identity. One that has sent something does not fail, nor does the program stop, before the
index is written; and nothing is signed while one that has sent its rotation is under way. -/
def Undisturbed (s : Rotating) : Label → Prop
  | .await i ok _ _ => ∀ I, s.invocations[i]? = some I →
    (I.phase = .broadcastRotation → ok = true → (∀ J ∈ s.invocations, J.phase = .broadcastRotation) ∧
      I.plan.newIndex.toNat = s.device.identity.signingKeyIndex.toNat + 1) ∧
    (ok = false → I.phase.mayFail = true → I.sent = [])
  | .tornWrite i file => ∀ I, s.invocations[i]? = some I → I.sent = [] ∧ file = s.device.indexFile
  | .device (.restart _) => ∀ I ∈ s.invocations, I.phase ≠ .setIdentity → I.sent = []
  | l => s.signs l → ∀ I ∈ s.invocations, ∀ r, .signingKeyRotation r ∉ I.sent

/-- What holds in an undisturbed run: of the calls at most one is past its first broadcast, it
moves on from the index of the identity, and what was told of other rotations is done. -/
structure Sound (s : Rotating) : Prop where
  posts : ∀ plan phase, Task.rotate plan phase ∉ s.device.tasks
  identity : s.device.identity.signingSecret =
    deriveSigningKey K s.device.identity.masterSecret s.device.identity.signingKeyIndex
  plans : ∀ I ∈ s.invocations, I.plan.newSecret =
      deriveSigningKey K s.device.identity.masterSecret I.plan.newIndex ∧
    I.plan.rotation.newKeyIndex = I.plan.newIndex
  waiting : ∀ I ∈ s.invocations, I.phase = .broadcastRotation → I.sent = []
  unchanged : ∀ I ∈ s.invocations, I.phase ≠ .setIdentity → I.changed = false
  alone : s.invocations.Pairwise Invocation.Apart
  next : ∀ I ∈ s.invocations, I.phase ≠ .broadcastRotation →
    I.plan.newIndex.toNat = s.device.identity.signingKeyIndex.toNat + 1
  written : ∀ I ∈ s.invocations, I.phase = .setIdentity → s.device.indexFile = some I.plan.newIndex
  stored : (∀ I ∈ s.invocations, I.phase ≠ .setIdentity) →
    s.device.indexFile.getD 0 = s.device.identity.signingKeyIndex
  told : ∀ r, .signingKeyRotation r ∈ s.sent → r.newKeyIndex ≤ s.device.identity.signingKeyIndex ∨
    ∃ I ∈ s.invocations, I.phase ≠ .broadcastRotation ∧ .signingKeyRotation r ∈ I.sent ∧ r = I.plan.rotation
  once : ∀ r r', .signingKeyRotation r ∈ s.sent → .signingKeyRotation r' ∈ s.sent →
    r.newKeyIndex = r'.newKeyIndex → r = r'

variable {K} {s s' : Rotating} {I : Invocation} {i : Nat} {w : Device}

/-- The device is as before in all that a rotation is about. -/
structure Kept (s : Rotating) (w : Device) : Prop where
  identity : w.identity = s.device.identity
  indexFile : w.indexFile = s.device.indexFile
  posts : ∀ plan phase, Task.rotate plan phase ∉ w.tasks

theorem get_ne_broadcast : RotatePhase.getLinkedDevices ≠ .broadcastRotation := by decide

theorem set_ne_broadcast : RotatePhase.setIdentity ≠ .broadcastRotation := by decide

theorem get_ne_set : RotatePhase.getLinkedDevices ≠ .setIdentity := by decide

theorem sound_kept (h : Sound K s) (hw : Kept s w) : Sound K { s with device := w } where
  posts := hw.posts
  identity := by
    rw [hw.identity]
    exact h.identity
  plans J hJ := by
    rw [hw.identity]
    exact h.plans J hJ
  waiting := h.waiting
  unchanged := h.unchanged
  alone := h.alone
  next J hJ hphase := by
    rw [hw.identity]
    exact h.next J hJ hphase
  written J hJ hphase := hw.indexFile.trans (h.written J hJ hphase)
  stored hnone := by
    rw [hw.identity, hw.indexFile]
    exact h.stored hnone
  told r hr := by
    rw [hw.identity]
    exact h.told r hr
  once := h.once

theorem sound_dropped (h : Sound K s) (hi : s.invocations[i]? = some I) (hphase : I.phase ≠ .setIdentity)
    (hsent : I.sent = []) : Sound K { s with invocations := s.invocations.eraseIdx i } := by
  have hmem : ∀ {J}, J ∈ s.invocations.eraseIdx i → J ∈ s.invocations := List.mem_of_mem_eraseIdx
  refine { h with
    plans := fun J hJ => h.plans J (hmem hJ)
    waiting := fun J hJ => h.waiting J (hmem hJ)
    unchanged := fun J hJ => h.unchanged J (hmem hJ)
    alone := h.alone.sublist (List.eraseIdx_sublist ..)
    next := fun J hJ => h.next J (hmem hJ)
    written := fun J hJ => h.written J (hmem hJ)
    stored := ?_
    told := ?_ }
  · intro hnone
    refine h.stored fun J hJ => ?_
    rcases List.mem_cons.mp ((Tasks.perm_others hi).mem_iff.mpr hJ) with rfl | hJ
    · exact hphase
    · exact hnone J hJ
  · intro r hr
    refine (h.told r hr).imp_right ?_
    rintro ⟨J, hJ, hbegun, hmessage, heq⟩
    rcases List.mem_cons.mp ((Tasks.perm_others hi).mem_iff.mpr hJ) with rfl | hJ
    · rw [hsent] at hmessage
      exact absurd hmessage List.not_mem_nil
    · exact ⟨J, hJ, hbegun, hmessage, heq⟩

section Begun

variable (h : Sound K s) (hi : s.invocations[i]? = some I) (hbegun : I.phase ≠ .broadcastRotation)
include h hi hbegun

theorem others_wait {L : Invocation} (hL : L ∈ s.invocations.eraseIdx i) : L.phase = .broadcastRotation :=
  (Tasks.related_others Invocation.Apart.symm h.alone hi L hL).resolve_left hbegun

theorem eq_of_begun {L : Invocation} (hL : L ∈ s.invocations) (hphase : L.phase ≠ .broadcastRotation) : L = I := by
  rcases List.mem_cons.mp ((Tasks.perm_others hi).mem_iff.mpr hL) with rfl | hL
  · rfl
  · exact absurd (others_wait h hi hbegun hL) hphase

theorem mem_advanced {J L : Invocation} (hL : L ∈ Tasks.advance s.invocations i (some J)) :
    L = J ∨ L ∈ s.invocations ∧ L.phase = .broadcastRotation := by
  rcases (Tasks.mem_advance hi).mp hL with hL | hL
  · exact .inl (Option.some.inj hL).symm
  · exact .inr ⟨List.mem_of_mem_eraseIdx hL, others_wait h hi hbegun hL⟩

theorem alone_advanced (J : Invocation) : (Tasks.advance s.invocations i (some J)).Pairwise Invocation.Apart := by
  refine Tasks.pairwise_advance Invocation.Apart.symm h.alone hi ?_
  intro _ _ L hL
  exact .inr (others_wait h hi hbegun hL)

end Begun

/-- A call that is past its first broadcast, and is not about to set the identity, goes on. -/
theorem sound_advanced (h : Sound K s) (hi : s.invocations[i]? = some I) (hbegun : I.phase ≠ .broadcastRotation)
    (hset : I.phase ≠ .setIdentity) {J : Invocation} (hplan : J.plan = I.plan)
    (hbegun' : J.phase ≠ .broadcastRotation) (hset' : J.phase ≠ .setIdentity) (hchanged : J.changed = false)
    {messages : List GossipMessage} (hsent : J.sent = I.sent ++ messages)
    (hmessages : ∀ r, GossipMessage.signingKeyRotation r ∉ messages) :
    Sound K { s with invocations := Tasks.advance s.invocations i (some J), sent := s.sent ++ messages } := by
  have hI : I ∈ s.invocations := List.mem_of_getElem? hi
  have hmem : ∀ {r}, GossipMessage.signingKeyRotation r ∈ s.sent ++ messages →
      GossipMessage.signingKeyRotation r ∈ s.sent := by
    intro r hr
    exact (List.mem_append.mp hr).resolve_right (hmessages r)
  refine { h with
    plans := ?_
    waiting := ?_
    unchanged := ?_
    alone := alone_advanced h hi hbegun J
    next := ?_
    written := ?_
    stored := ?_
    told := ?_
    once := fun r r' hr hr' => h.once r r' (hmem hr) (hmem hr') }
  · intro L hL
    rcases mem_advanced h hi hbegun hL with rfl | ⟨hL, -⟩
    · rw [hplan]
      exact h.plans I hI
    · exact h.plans L hL
  · intro L hL hphase
    rcases mem_advanced h hi hbegun hL with rfl | ⟨hL, -⟩
    · exact absurd hphase hbegun'
    · exact h.waiting L hL hphase
  · intro L hL hphase
    rcases mem_advanced h hi hbegun hL with rfl | ⟨hL, -⟩
    · exact hchanged
    · exact h.unchanged L hL hphase
  · intro L hL hphase
    rcases mem_advanced h hi hbegun hL with rfl | ⟨-, hwaits⟩
    · rw [hplan]
      exact h.next I hI hbegun
    · exact absurd hwaits hphase
  · intro L hL hphase
    rcases mem_advanced h hi hbegun hL with rfl | ⟨hL, -⟩
    · exact absurd hphase hset'
    · exact h.written L hL hphase
  · intro _
    refine h.stored fun L hL hphase => ?_
    have hphase' : L.phase ≠ .broadcastRotation := by
      rw [hphase]
      decide
    obtain rfl := eq_of_begun h hi hbegun hL hphase'
    exact hset hphase
  · intro r hr
    refine (h.told r (hmem hr)).imp_right ?_
    rintro ⟨L, hL, hphase, hmessage, heq⟩
    obtain rfl := eq_of_begun h hi hbegun hL hphase
    refine ⟨J, (Tasks.mem_advance hi).mpr (.inl rfl), hbegun', ?_, ?_⟩
    · rw [hsent]
      exact List.mem_append_left _ hmessage
    · rw [hplan]
      exact heq

/-- The only call that gets past its first broadcast does so from the index of the identity. -/
theorem sound_begun (h : Sound K s) (hi : s.invocations[i]? = some I)
    (halone : ∀ J ∈ s.invocations, J.phase = .broadcastRotation)
    (hnext : I.plan.newIndex.toNat = s.device.identity.signingKeyIndex.toNat + 1) {messages : List GossipMessage}
    (hmessages : ∀ r, GossipMessage.signingKeyRotation r ∈ messages → r = I.plan.rotation) :
    Sound K { s with
      invocations := Tasks.advance s.invocations i (some ⟨I.plan, .getLinkedDevices, messages, false⟩)
      sent := s.sent ++ messages } := by
  have hI : I ∈ s.invocations := List.mem_of_getElem? hi
  have hcases : ∀ {L}, L ∈ Tasks.advance s.invocations i (some ⟨I.plan, .getLinkedDevices, messages, false⟩) →
      L = ⟨I.plan, .getLinkedDevices, messages, false⟩ ∨ L ∈ s.invocations := by
    intro L hL
    exact ((Tasks.mem_advance hi).mp hL).imp (fun hL => (Option.some.inj hL).symm) List.mem_of_mem_eraseIdx
  have hold : ∀ r, GossipMessage.signingKeyRotation r ∈ s.sent →
      r.newKeyIndex ≤ s.device.identity.signingKeyIndex := by
    intro r hr
    rcases h.told r hr with hle | ⟨L, hL, hbegun, -⟩
    · exact hle
    · exact absurd (halone L hL) hbegun
  have hfresh : ∀ r, GossipMessage.signingKeyRotation r ∈ s.sent → r.newKeyIndex ≠ I.plan.rotation.newKeyIndex := by
    intro r hr heq
    have hle := UInt32.le_iff_toNat_le.mp (hold r hr)
    rw [heq, (h.plans I hI).2, hnext] at hle
    omega
  refine { h with
    plans := ?_
    waiting := ?_
    unchanged := ?_
    alone := ?_
    next := ?_
    written := ?_
    stored := ?_
    told := ?_
    once := ?_ }
  · intro L hL
    rcases hcases hL with rfl | hL
    · exact h.plans I hI
    · exact h.plans L hL
  · intro L hL hwaits
    rcases hcases hL with rfl | hL
    · exact absurd hwaits get_ne_broadcast
    · exact h.waiting L hL hwaits
  · intro L hL hset
    rcases hcases hL with rfl | hL
    · rfl
    · exact h.unchanged L hL hset
  · have hothers : ∀ x ∈ some (⟨I.plan, .getLinkedDevices, messages, false⟩ : Invocation),
        ∀ L ∈ s.invocations.eraseIdx i, Invocation.Apart x L := by
      intro _ _ L hL
      exact .inr (halone L (List.mem_of_mem_eraseIdx hL))
    exact Tasks.pairwise_advance Invocation.Apart.symm h.alone hi hothers
  · intro L hL hbegun
    rcases hcases hL with rfl | hL
    · exact hnext
    · exact absurd (halone L hL) hbegun
  · intro L hL hset
    rcases hcases hL with rfl | hL
    · exact absurd hset get_ne_set
    · exact h.written L hL hset
  · intro _
    refine h.stored fun L hL hset => ?_
    exact absurd ((halone L hL).symm.trans hset) (by decide)
  · intro r hr
    rcases List.mem_append.mp hr with hr | hr
    · exact .inl (hold r hr)
    · exact .inr ⟨_, (Tasks.mem_advance hi).mpr (.inl rfl), get_ne_broadcast, hr, hmessages r hr⟩
  · intro r r' hr hr' heq
    rcases List.mem_append.mp hr with hr | hr
    · rcases List.mem_append.mp hr' with hr' | hr'
      · exact h.once r r' hr hr' heq
      · exact absurd (heq.trans (congrArg _ (hmessages r' hr'))) (hfresh r hr)
    · rcases List.mem_append.mp hr' with hr' | hr'
      · exact absurd (heq.symm.trans (congrArg _ (hmessages r hr))) (hfresh r' hr')
      · exact (hmessages r hr).trans (hmessages r' hr').symm

theorem sound_written (h : Sound K s) (hi : s.invocations[i]? = some I) (hphase : I.phase = .writeIndex)
    (changed : Bool) :
    Sound K ⟨{ s.device with indexFile := some I.plan.newIndex },
      Tasks.advance s.invocations i (some { I with phase := .setIdentity, changed := changed }), s.sent⟩ := by
  have hI : I ∈ s.invocations := List.mem_of_getElem? hi
  have hbegun : I.phase ≠ .broadcastRotation := by
    rw [hphase]
    decide
  refine { h with
    posts := h.posts
    plans := ?_
    waiting := ?_
    unchanged := ?_
    alone := alone_advanced h hi hbegun _
    next := ?_
    written := ?_
    stored := ?_
    told := ?_ }
  · intro L hL
    rcases mem_advanced h hi hbegun hL with rfl | ⟨hL, -⟩
    · exact h.plans I hI
    · exact h.plans L hL
  · intro L hL hwaits
    rcases mem_advanced h hi hbegun hL with rfl | ⟨hL, -⟩
    · exact absurd hwaits set_ne_broadcast
    · exact h.waiting L hL hwaits
  · intro L hL hset
    rcases mem_advanced h hi hbegun hL with rfl | ⟨hL, -⟩
    · exact absurd rfl hset
    · exact h.unchanged L hL hset
  · intro L hL hlater
    rcases mem_advanced h hi hbegun hL with rfl | ⟨-, hwaits⟩
    · exact h.next I hI hbegun
    · exact absurd hwaits hlater
  · intro L hL hset
    rcases mem_advanced h hi hbegun hL with rfl | ⟨-, hwaits⟩
    · rfl
    · exact absurd (hwaits.symm.trans hset) (by decide)
  · intro hnone
    exact absurd rfl (hnone _ ((Tasks.mem_advance hi).mpr (.inl rfl)))
  · intro r hr
    refine (h.told r hr).imp_right ?_
    rintro ⟨L, hL, hlater, hmessage, heq⟩
    obtain rfl := eq_of_begun h hi hbegun hL hlater
    exact ⟨_, (Tasks.mem_advance hi).mpr (.inl rfl), set_ne_broadcast, hmessage, heq⟩

theorem told_le (h : Sound K s) (hI : I ∈ s.invocations) (hphase : I.phase = .setIdentity) (r : SigningKeyRotation)
    (hr : .signingKeyRotation r ∈ s.sent) : r.newKeyIndex ≤ I.plan.newIndex := by
  have hbegun : I.phase ≠ .broadcastRotation := by
    rw [hphase]
    decide
  have hnext := h.next I hI hbegun
  apply UInt32.le_iff_toNat_le.mpr
  rcases h.told r hr with hle | ⟨L, hL, hlater, -, rfl⟩
  · have hle := UInt32.le_iff_toNat_le.mp hle
    omega
  · rw [(h.plans L hL).2, h.next L hL hlater, hnext]

theorem sound_set (h : Sound K s) (hi : s.invocations[i]? = some I) (hphase : I.phase = .setIdentity) :
    Sound K ⟨{ s.device with identity := { s.device.identity with
        signingKeyIndex := I.plan.newIndex
        signingSecret := I.plan.newSecret
        delegation := I.plan.newDelegation } }, s.invocations.eraseIdx i, s.sent⟩ := by
  have hI : I ∈ s.invocations := List.mem_of_getElem? hi
  have hbegun : I.phase ≠ .broadcastRotation := by
    rw [hphase]
    decide
  have hmem : ∀ {L}, L ∈ s.invocations.eraseIdx i → L ∈ s.invocations ∧ L.phase = .broadcastRotation := by
    intro L hL
    exact ⟨List.mem_of_mem_eraseIdx hL, others_wait h hi hbegun hL⟩
  refine { h with
    posts := h.posts
    identity := (h.plans I hI).1
    plans := fun L hL => h.plans L (hmem hL).1
    waiting := fun L hL => h.waiting L (hmem hL).1
    unchanged := fun L hL => h.unchanged L (hmem hL).1
    alone := h.alone.sublist (List.eraseIdx_sublist ..)
    next := fun L hL hlater => absurd (hmem hL).2 hlater
    written := fun L hL => h.written L (hmem hL).1
    stored := fun _ => ?_
    told := fun r hr => .inl (told_le h hI hphase r hr) }
  exact congrArg (Option.getD · 0) (h.written I hI hphase)

theorem sound_of_idle {device : Device} {sent : List GossipMessage} (hposts : device.tasks = [])
    (hidentity : device.identity.signingSecret =
      deriveSigningKey K device.identity.masterSecret device.identity.signingKeyIndex)
    (hstored : device.indexFile.getD 0 = device.identity.signingKeyIndex)
    (htold : ∀ r, .signingKeyRotation r ∈ sent → r.newKeyIndex ≤ device.identity.signingKeyIndex)
    (honce : ∀ r r', .signingKeyRotation r ∈ sent → .signingKeyRotation r' ∈ sent →
      r.newKeyIndex = r'.newKeyIndex → r = r') : Sound K ⟨device, [], sent⟩ := by
  have hnone : ∀ {p : Invocation → Prop}, ∀ I ∈ ([] : List Invocation), p I := fun I hI => absurd hI List.not_mem_nil
  exact {
    posts := fun _ _ ht => absurd (hposts ▸ ht) List.not_mem_nil
    identity := hidentity
    plans := hnone
    waiting := hnone
    unchanged := hnone
    alone := List.Pairwise.nil
    next := hnone
    written := hnone
    stored := fun _ => hstored
    told := fun r hr => Or.inl (htold r hr)
    once := honce }

theorem sound_restart (h : Sound K s) (hkept : ∀ I ∈ s.invocations, I.phase ≠ .setIdentity → I.sent = [])
    (now : UInt64) : Sound K ⟨s.device.restarted K now, [], s.sent⟩ := by
  apply sound_of_idle rfl rfl rfl _ h.once
  intro r hr
  show r.newKeyIndex ≤ s.device.indexFile.getD 0
  by_cases hset : ∃ I ∈ s.invocations, I.phase = .setIdentity
  · obtain ⟨I, hI, hphase⟩ := hset
    rw [h.written I hI hphase]
    exact told_le h hI hphase r hr
  · have hunset : ∀ I ∈ s.invocations, I.phase ≠ .setIdentity := fun I hI hphase => hset ⟨I, hI, hphase⟩
    rw [h.stored hunset]
    rcases h.told r hr with hle | ⟨L, hL, -, hmessage, -⟩
    · exact hle
    · rw [hkept L hL (hunset L hL)] at hmessage
      exact absurd hmessage List.not_mem_nil

theorem runRotate_fails {phase : RotatePhase} (hfail : phase.mayFail = true) (plan : Plan) (now : UInt64) :
    w.runRotate K false now plan phase = (w, none) := by
  cases phase with
  | getVersion | cacheAnnouncement | setIdentity => exact absurd hfail Bool.false_ne_true
  | broadcastRotation | getLinkedDevices | broadcastLinkedDevices | registerAgain | writeIndex => rfl

theorem runRotate_ends {phase : RotatePhase} {ok : Bool} {now : UInt64} {plan : Plan}
    (hend : (w.runRotate K ok now plan phase).2 = none) :
    phase = .setIdentity ∨ ok = false ∧ phase.mayFail = true := by
  cases phase with
  | setIdentity => exact .inl rfl
  | getVersion | cacheAnnouncement => exact absurd hend (Option.some_ne_none _)
  | broadcastRotation | getLinkedDevices | broadcastLinkedDevices | registerAgain | writeIndex =>
    cases ok with
    | false => exact .inr ⟨rfl, rfl⟩
    | true => exact absurd hend (Option.some_ne_none _)

theorem awaited_fails {ok : Bool} (hok : ok = false) (hfail : I.phase.mayFail = true) (now : UInt64) (feed : Bool) :
    s.awaited K I ok now feed = I := by
  subst hok
  unfold awaited messages
  rw [runRotate_fails hfail]
  simp

theorem await_fails (hfail : I.phase.mayFail = true) (now : UInt64) (feed : Bool) :
    s.await K I false now feed i = { s with invocations := s.invocations.eraseIdx i } := by
  unfold await messages
  rw [runRotate_fails hfail]
  simp [Tasks.advance]

theorem runRotate_goes {phase : RotatePhase} {ok : Bool} (hbegun : phase ≠ .broadcastRotation)
    (hwrite : phase ≠ .writeIndex) (hset : phase ≠ .setIdentity) (hgoes : ¬ (ok = false ∧ phase.mayFail = true))
    (w : Device) (plan : Plan) (now : UInt64) :
    ∃ next, (w.runRotate K ok now plan phase).2 = some next ∧ next ≠ .broadcastRotation ∧ next ≠ .setIdentity ∧
      (w.runRotate K ok now plan phase).1.identity = w.identity ∧
      (w.runRotate K ok now plan phase).1.indexFile = w.indexFile := by
  have htrue : phase.mayFail = true → ok = true := by
    intro hfail
    cases ok with
    | true => rfl
    | false => exact absurd ⟨rfl, hfail⟩ hgoes
  cases phase with
  | broadcastRotation => exact absurd rfl hbegun
  | writeIndex => exact absurd rfl hwrite
  | setIdentity => exact absurd rfl hset
  | getVersion devices =>
    refine ⟨_, rfl, ?_, ?_, rfl, rfl⟩
    all_goals exact fun h => RotatePhase.noConfusion h
  | cacheAnnouncement a =>
    refine ⟨_, rfl, ?_, ?_, rfl, rfl⟩
    all_goals exact fun h => RotatePhase.noConfusion h
  | getLinkedDevices | broadcastLinkedDevices | registerAgain =>
    obtain rfl := htrue rfl
    refine ⟨_, rfl, ?_, ?_, rfl, rfl⟩
    all_goals exact fun h => RotatePhase.noConfusion h

theorem messages_later (hbegun : I.phase ≠ .broadcastRotation) (ok feed : Bool) (r : SigningKeyRotation) :
    GossipMessage.signingKeyRotation r ∉ messages I ok feed := by
  unfold messages
  split
  next =>
    unfold Plan.messages
    split
    next hphase => exact absurd hphase hbegun
    next =>
      intro hr
      exact GossipMessage.noConfusion (List.mem_singleton.mp hr)
    next => exact List.not_mem_nil
  next => exact List.not_mem_nil

theorem messages_first (hphase : I.phase = .broadcastRotation) (ok feed : Bool) (r : SigningKeyRotation)
    (hr : GossipMessage.signingKeyRotation r ∈ messages I ok feed) : r = I.plan.rotation := by
  unfold messages at hr
  rw [hphase] at hr
  split at hr
  next => exact GossipMessage.signingKeyRotation.inj (List.mem_singleton.mp hr)
  next => exact absurd hr List.not_mem_nil

theorem changed_awaited {ok : Bool} {now : UInt64} (feed : Bool)
    (hidentity : (s.device.runRotate K ok now I.plan I.phase).1.identity = s.device.identity)
    (hfile : (s.device.runRotate K ok now I.plan I.phase).1.indexFile = s.device.indexFile) :
    (s.awaited K I ok now feed).changed = I.changed := by
  unfold awaited
  simp [hidentity, hfile]

theorem kept_runRotate (h : Sound K s) {ok : Bool} {now : UInt64} {plan : Plan} {phase : RotatePhase}
    (hidentity : (s.device.runRotate K ok now plan phase).1.identity = s.device.identity)
    (hfile : (s.device.runRotate K ok now plan phase).1.indexFile = s.device.indexFile) :
    Kept s (s.device.runRotate K ok now plan phase).1 := by
  refine ⟨hidentity, hfile, ?_⟩
  rw [Device.tasks_runRotate]
  exact h.posts

theorem await_goes {ok : Bool} {now : UInt64} (feed : Bool) {w : Device} {next : RotatePhase}
    (hout : s.device.runRotate K ok now I.plan I.phase = (w, some next)) :
    s.await K I ok now feed i = ⟨w,
      Tasks.advance s.invocations i (some { s.awaited K I ok now feed with phase := next }),
      s.sent ++ messages I ok feed⟩ := by
  simp only [await, hout, Option.map_some]

theorem sound_await (h : Sound K s) (hi : s.invocations[i]? = some I) {ok : Bool} (now : UInt64) (feed : Bool)
    (hfirst : I.phase = .broadcastRotation → ok = true → (∀ J ∈ s.invocations, J.phase = .broadcastRotation) ∧
      I.plan.newIndex.toNat = s.device.identity.signingKeyIndex.toNat + 1)
    (hlater : ok = false → I.phase.mayFail = true → I.sent = []) :
    Sound K (s.await K I ok now feed i) := by
  have hI : I ∈ s.invocations := List.mem_of_getElem? hi
  have hold := h.unchanged I hI
  by_cases hfails : ok = false ∧ I.phase.mayFail = true
  · obtain ⟨rfl, hfail⟩ := hfails
    rw [await_fails hfail]
    refine sound_dropped h hi ?_ (hlater rfl hfail)
    intro hset
    rw [hset] at hfail
    exact absurd hfail Bool.false_ne_true
  have htrue : I.phase.mayFail = true → ok = true := by
    intro hfail
    cases ok with
    | true => rfl
    | false => exact absurd ⟨rfl, hfail⟩ hfails
  by_cases hbegun : I.phase = .broadcastRotation
  · obtain rfl := htrue (by rw [hbegun]; rfl)
    obtain ⟨halone, hnext⟩ := hfirst hbegun rfl
    have hgone := sound_begun h hi halone hnext (messages_first hbegun true feed)
    have hout : s.device.runRotate K true now I.plan I.phase =
        ({ s.device with rotations := s.device.rotations ++ [I.plan.rotation] }, some .getLinkedDevices) := by
      rw [hbegun]
      rfl
    have hcall : { s.awaited K I true now feed with phase := .getLinkedDevices } =
        (⟨I.plan, .getLinkedDevices, messages I true feed, false⟩ : Invocation) := by
      have hunset : I.phase ≠ .setIdentity := by
        rw [hbegun]
        decide
      simp only [awaited, hout, h.waiting I hI hbegun, hold hunset, List.nil_append, ne_eq, not_true,
        or_self, decide_false, Bool.or_false]
    rw [await_goes feed hout, hcall]
    exact sound_kept hgone ⟨rfl, rfl, h.posts⟩
  by_cases hwrite : I.phase = .writeIndex
  · obtain rfl := htrue (by rw [hwrite]; rfl)
    have hdone := sound_written h hi hwrite (s.awaited K I true now feed).changed
    have hout : s.device.runRotate K true now I.plan I.phase =
        ({ s.device with indexFile := some I.plan.newIndex }, some .setIdentity) := by
      rw [hwrite]
      rfl
    have hsilent : messages I true feed = [] := by
      unfold messages
      rw [hwrite]
      exact ite_self _
    have hcall : { s.awaited K I true now feed with phase := .setIdentity } =
        { I with phase := .setIdentity, changed := (s.awaited K I true now feed).changed } := by
      simp only [awaited, hsilent, List.append_nil]
    rw [await_goes feed hout, hcall, hsilent, List.append_nil]
    exact hdone
  by_cases hset : I.phase = .setIdentity
  · have hdone := sound_set h hi hset
    have hsilent : messages I ok feed = [] := by
      unfold messages
      rw [hset]
      exact ite_self _
    unfold await
    rw [hset, hsilent, List.append_nil]
    exact hdone
  · obtain ⟨next, hnext, hbegun', hset', hidentity, hfile⟩ :=
      runRotate_goes hbegun hwrite hset hfails s.device I.plan now
    have hgone := sound_advanced (sound_kept h (kept_runRotate h hidentity hfile)) hi hbegun hset
      (J := { s.awaited K I ok now feed with phase := next }) rfl hbegun' hset'
      ((changed_awaited feed hidentity hfile).trans (hold hset)) rfl (messages_later hbegun ok feed)
    rw [await_goes feed (Prod.ext rfl hnext)]
    exact hgone

theorem kept_device (h : Sound K s) {l : Author.Label} (hrotate : ∀ now, l ≠ .rotateSigningKey now)
    (hrestart : ∀ now, l ≠ .restart now) (hstep : s.device.step K l = some w) : Kept s w := by
  cases l with
  | rotateSigningKey now => exact absurd rfl (hrotate now)
  | restart now => exact absurd rfl (hrestart now)
  | createPost draft id now nowValidate =>
    obtain rfl := Option.some.inj hstep
    unfold Device.createPost
    dsimp only
    split
    next => exact ⟨rfl, rfl, h.posts⟩
    next =>
      refine ⟨rfl, rfl, fun plan phase hmem => h.posts plan phase ?_⟩
      exact (List.mem_append.mp hmem).resolve_right fun hlast =>
        Task.noConfusion (List.mem_singleton.mp hlast)
  | likePost target author id now =>
    obtain rfl := Option.some.inj hstep
    refine ⟨rfl, rfl, fun plan phase hmem => h.posts plan phase ?_⟩
    exact (List.mem_append.mp hmem).resolve_right fun hlast =>
      Task.noConfusion (List.mem_singleton.mp hlast)
  | deletePost id =>
    obtain rfl := Option.some.inj hstep
    unfold Device.deletePost
    split
    · split
      · exact ⟨rfl, rfl, h.posts⟩
      · exact ⟨rfl, rfl, h.posts⟩
    · exact ⟨rfl, rfl, h.posts⟩
  | unlikePost target =>
    obtain rfl := Option.some.inj hstep
    unfold Device.unlikePost
    split
    · exact ⟨rfl, rfl, h.posts⟩
    · exact ⟨rfl, rfl, h.posts⟩
  | task i ok now =>
    obtain ⟨t, ht, rfl⟩ := Option.map_eq_some_iff.mp hstep
    have hmem : t ∈ s.device.tasks := List.mem_of_getElem? ht
    have hothers : ∀ {plan phase}, Task.rotate plan phase ∈ s.device.tasks.eraseIdx i → False := by
      intro plan phase hlast
      exact h.posts plan phase (List.mem_of_mem_eraseIdx hlast)
    cases t with
    | rotate plan phase => exact absurd hmem (h.posts plan phase)
    | insertPost p => cases ok <;> exact ⟨rfl, rfl, fun _ _ => hothers⟩
    | saveInteraction x => cases ok <;> exact ⟨rfl, rfl, fun _ _ => hothers⟩

variable {l : Label}

theorem step_device {l : Author.Label} (hrotate : ∀ now, l ≠ .rotateSigningKey now)
    (hrestart : ∀ now, l ≠ .restart now) :
    s.step K (.device l) = (s.device.step K l).map fun device => { s with device } := by
  cases l with
  | rotateSigningKey now => exact absurd rfl (hrotate now)
  | restart now => exact absurd rfl (hrestart now)
  | createPost | likePost | deletePost | unlikePost | task => rfl

theorem sound_started (h : Sound K s) (now : UInt64) :
    Sound K { s with invocations := s.invocations ++ [⟨s.device.plan K now, .broadcastRotation, [], false⟩] } := by
  have hcases : ∀ {L}, L ∈ s.invocations ++ [⟨s.device.plan K now, .broadcastRotation, [], false⟩] →
      L ∈ s.invocations ∨ L = ⟨s.device.plan K now, .broadcastRotation, [], false⟩ :=
    fun hL => (List.mem_append.mp hL).imp_right List.mem_singleton.mp
  refine { h with
    plans := ?_
    waiting := ?_
    unchanged := ?_
    alone := ?_
    next := ?_
    written := ?_
    stored := fun hnone => h.stored fun L hL => hnone L (List.mem_append_left _ hL)
    told := fun r hr => (h.told r hr).imp_right ?_ }
  · intro L hL
    rcases hcases hL with hL | rfl
    · exact h.plans L hL
    · exact ⟨rfl, rfl⟩
  · intro L hL hwaits
    rcases hcases hL with hL | rfl
    · exact h.waiting L hL hwaits
    · rfl
  · intro L hL hset
    rcases hcases hL with hL | rfl
    · exact h.unchanged L hL hset
    · rfl
  · refine List.pairwise_append.mpr ⟨h.alone, List.pairwise_singleton _ _, ?_⟩
    intro L _ J hJ
    rw [List.mem_singleton.mp hJ]
    exact .inr rfl
  · intro L hL hbegun
    rcases hcases hL with hL | rfl
    · exact h.next L hL hbegun
    · exact absurd rfl hbegun
  · intro L hL hset
    rcases hcases hL with hL | rfl
    · exact h.written L hL hset
    · exact RotatePhase.noConfusion hset
  · rintro ⟨L, hL, hlater⟩
    exact ⟨L, List.mem_append_left _ hL, hlater⟩

theorem sound_step (h : Sound K s) (hok : s.Undisturbed l) (hstep : s.step K l = some s') : Sound K s' := by
  cases l with
  | sign =>
    obtain rfl := Option.some.inj hstep
    exact h
  | await i ok now feed =>
    obtain ⟨I, hi, rfl⟩ := Option.map_eq_some_iff.mp hstep
    obtain ⟨hfirst, hlater⟩ := hok I hi
    exact sound_await h hi now feed hfirst hlater
  | tornWrite i file =>
    simp only [step] at hstep
    split at hstep
    next I hi =>
      obtain ⟨hphase, hstep⟩ := Option.ite_none_right_eq_some.mp hstep
      obtain rfl := Option.some.inj hstep
      obtain ⟨hsent, rfl⟩ := hok I hi
      refine sound_dropped h hi ?_ hsent
      rw [hphase]
      decide
    next => exact absurd hstep.symm (Option.some_ne_none s')
  | device l =>
    by_cases hrotate : ∃ now, l = .rotateSigningKey now
    · obtain ⟨now, rfl⟩ := hrotate
      obtain rfl := Option.some.inj hstep
      exact sound_started h now
    by_cases hrestart : ∃ now, l = .restart now
    · obtain ⟨now, rfl⟩ := hrestart
      obtain rfl := Option.some.inj hstep
      exact sound_restart h hok now
    · rw [step_device (not_exists.mp hrotate) (not_exists.mp hrestart)] at hstep
      obtain ⟨w, hw, rfl⟩ := Option.map_eq_some_iff.mp hstep
      exact sound_kept h (kept_device h (not_exists.mp hrotate) (not_exists.mp hrestart) hw)

theorem rotatedTo_restart (h : Sound K s) {J : Invocation} (hJ : J ∈ s.invocations) (hphase : J.phase = .setIdentity)
    (now : UInt64) : RotatedTo ⟨s.device.restarted K now, [], s.sent⟩ J.plan := by
  have hfile := h.written J hJ hphase
  have hindex : s.device.indexFile.getD 0 = J.plan.newIndex := congrArg (Option.getD · 0) hfile
  refine ⟨hindex, ?_, hfile⟩
  rw [(h.plans J hJ).1, ← hindex]
  rfl

theorem ends_step (h : Sound K s) (hok : s.Undisturbed l) :
    ∀ I ∈ s.ended K l, ∀ s', s.step K l = some s' → I.sent = [] ∧ I.changed = false ∨ s'.RotatedTo I.plan := by
  intro I hI s' hstep
  cases l with
  | sign => exact absurd hI List.not_mem_nil
  | tornWrite i file =>
    obtain ⟨J, hJ, rfl⟩ := Option.map_eq_some_iff.mp (Option.mem_toList.mp hI)
    obtain ⟨hsent, rfl⟩ := hok J hJ
    simp only [step, hJ] at hstep
    obtain ⟨hphase, -⟩ := Option.ite_none_right_eq_some.mp hstep
    have hunset : J.phase ≠ .setIdentity := by
      rw [hphase]
      decide
    refine .inl ⟨hsent, ?_⟩
    simp only [torn, h.unchanged J (List.mem_of_getElem? hJ) hunset, ne_eq, not_true, decide_false, Bool.or_self]
  | await i ok now feed =>
    obtain ⟨J, hJ, rfl⟩ := Option.map_eq_some_iff.mp hstep
    simp only [ended, hJ] at hI
    split at hI
    next hend =>
      obtain rfl := List.mem_singleton.mp hI
      have hmem : J ∈ s.invocations := List.mem_of_getElem? hJ
      rcases runRotate_ends hend with hphase | ⟨hfalse, hfail⟩
      · refine .inr ⟨?_, ?_, ?_⟩
        · simp only [await, awaited, hphase, Device.runRotate]
        · simp only [await, awaited, hphase, Device.runRotate]
        · simp only [await, awaited, hphase, Device.runRotate]
          exact h.written J hmem hphase
      · have hunset : J.phase ≠ .setIdentity := by
          intro hphase
          rw [hphase] at hfail
          exact Bool.false_ne_true hfail
        rw [awaited_fails hfalse hfail]
        exact .inl ⟨(hok J hJ).2 hfalse hfail, h.unchanged J hmem hunset⟩
    next => exact absurd hI List.not_mem_nil
  | device l =>
    cases l with
    | restart now =>
      obtain rfl := Option.some.inj hstep
      by_cases hphase : I.phase = .setIdentity
      · exact .inr (rotatedTo_restart h hI hphase now)
      · exact .inl ⟨hok I hI hphase, h.unchanged I hI hphase⟩
    | createPost | likePost | deletePost | unlikePost | rotateSigningKey | task =>
      exact absurd hI List.not_mem_nil

theorem signs_step (h : Sound K s) (hok : s.Undisturbed l) (hsigns : s.signs l = true) :
    ∀ r, .signingKeyRotation r ∈ s.sent → r.newKeyIndex ≤ s.device.identity.signingKeyIndex := by
  intro r hr
  have hquiet : ∀ I ∈ s.invocations, ∀ r, .signingKeyRotation r ∉ I.sent := by
    cases l with
    | sign => exact hok hsigns
    | await | tornWrite => exact absurd hsigns Bool.false_ne_true
    | device l =>
      cases l with
      | createPost | likePost => exact hok hsigns
      | deletePost | unlikePost | rotateSigningKey | task | restart => exact absurd hsigns Bool.false_ne_true
  rcases h.told r hr with hle | ⟨I, hI, -, hmessage, -⟩
  · exact hle
  · exact absurd hmessage (hquiet I hI r)

theorem sound_start (masterSecret : SecretKey) (indexFile : Option UInt32) (dmPubkey : String)
    (dmKeyIndex : UInt32) (now : UInt64) (linkedDevices : List DeviceEntry) :
    Sound K (start K masterSecret indexFile dmPubkey dmKeyIndex now linkedDevices) := by
  apply sound_of_idle rfl rfl rfl
  · intro _ hr
    exact absurd hr List.not_mem_nil
  · intro _ _ hr
    exact absurd hr List.not_mem_nil

/-- In an undisturbed run every rotation is all or nothing. -/
theorem rotation_allOrNothing (masterSecret : SecretKey) (indexFile : Option UInt32) (dmPubkey : String)
    (dmKeyIndex : UInt32) (now : UInt64) (linkedDevices : List DeviceEntry) {run : List Label}
    (h : Along (step K) Undisturbed (start K masterSecret indexFile dmPubkey dmKeyIndex now linkedDevices) run) :
    Along (step K) (AllOrNothing K) (start K masterSecret indexFile dmPubkey dmKeyIndex now linkedDevices) run := by
  refine Along.mono_of_invariant (I := Sound K) ?_ (fun s l s' => sound_step) (sound_start ..) h
  intro s l hs hok
  refine ⟨ends_step hs hok, signs_step hs hok, ?_⟩
  intro s' hstep
  exact (sound_step hs hok hstep).once

section Examples

def isRotation : GossipMessage → Bool
  | .signingKeyRotation _ => true
  | _ => false

theorem noRotation_iff {l : Label} : (s.signs l = true → ∀ I ∈ s.invocations, ∀ m ∈ I.sent, isRotation m = false) ↔
    (s.signs l = true → ∀ I ∈ s.invocations, ∀ r, .signingKeyRotation r ∉ I.sent) := by
  refine imp_congr_right fun _ => forall₂_congr fun I _ => ⟨fun h r hr => ?_, fun h m hm => ?_⟩
  · exact Bool.false_ne_true (h _ hr).symm
  · cases m with
    | signingKeyRotation r => exact absurd hm (h r)
    | _ => rfl

instance decidableUndisturbed (s : Rotating) : ∀ l, Decidable (s.Undisturbed l)
  | .await i ok _ _ => inferInstanceAs (Decidable (∀ I ∈ s.invocations[i]?,
      (I.phase = .broadcastRotation → ok = true → (∀ J ∈ s.invocations, J.phase = .broadcastRotation) ∧
        I.plan.newIndex.toNat = s.device.identity.signingKeyIndex.toNat + 1) ∧
      (ok = false → I.phase.mayFail = true → I.sent = [])))
  | .tornWrite i file =>
    inferInstanceAs (Decidable (∀ I ∈ s.invocations[i]?, I.sent = [] ∧ file = s.device.indexFile))
  | .device (.restart _) =>
    inferInstanceAs (Decidable (∀ I ∈ s.invocations, I.phase ≠ .setIdentity → I.sent = []))
  | .sign | .device (.createPost ..) | .device (.likePost ..) | .device (.deletePost _) | .device (.unlikePost _) |
    .device (.rotateSigningKey _) | .device (.task ..) => decidable_of_iff _ noRotation_iff

/-- A rotation fails at its broadcast; of two that follow at once one succeeds at every await, the other is
too late, and the new key signs. -/
def rotatedOnce : List Label :=
  [.device (.rotateSigningKey 5), .await 0 false 6 true, .sign, .device (.rotateSigningKey 7),
    .device (.rotateSigningKey 8)] ++ List.replicate 8 (.await 0 true 9 true) ++ [.await 0 false 9 true, .sign]

theorem rotation_allOrNothing_once :
    Along (step plainKeys) (AllOrNothing plainKeys) (start plainKeys zeroSecret none "" 0 1 []) rotatedOnce :=
  rotation_allOrNothing zeroSecret none "" 0 1 [] (by decide +kernel)

/-- The rotation is sent, and then the devices cannot be listed: the device stays on its old key. -/
theorem not_allOrNothing_failsLater :
    ¬ Along (step plainKeys) (AllOrNothing plainKeys) (start plainKeys zeroSecret none "" 0 1 [])
      [.device (.rotateSigningKey 5), .await 0 true 6 true, .await 0 false 7 true] := by
  intro h
  have hlast := (((h.2 _ rfl).2 _ rfl).1.ends _ (List.mem_singleton.mpr rfl) _ rfl)
  rcases hlast with ⟨hsent, -⟩ | hrotated
  · exact List.cons_ne_nil _ _ hsent
  · exact absurd hrotated.index (by decide)

end Examples

end Rotating
end Proscenium.Client.Author
