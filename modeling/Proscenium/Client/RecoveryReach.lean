import Proscenium.Client.AnnouncementVersions
import Proscenium.Client.RotationReach

/-! An author who recovers the account from its seed phrase, and a follower. The
recovery forgets the index of the signing key along with everything else, so the
author signs with the first key again. A follower keeps the highest index it was
told, and what the recovered author signs reaches it again once the author has
rotated as far, or has answered an identity query. -/

namespace Proscenium.Client.Author

open Proscenium.Types Feed

namespace Device

/-- `recover_from_seed_phrase` with the phrase of this account up to the end of the wipe; an index file that
cannot be removed is passed over. The commands under way go on. -/
def forget (w : Device) (removed : Bool) : Device :=
  { w with
    indexFile := if removed then none else w.indexFile
    linkedDevices := []
    announcements := []
    content := ⟨[], []⟩ }

variable (K : KeyCrates)

/-- `rebuild_for_recovery`, or a start after the program was closed in the middle. The DM key is the one
that the files come to by then. -/
def rebuild (w : Device) (closed registers : Bool) (dmPubkey : String) (dmKeyIndex : UInt32) (now : UInt64) :
    Device :=
  let identity := buildIdentity K w.identity.masterSecret w.indexFile dmPubkey dmKeyIndex now
  let w := { w with
    identity
    tasks := if closed then [] else w.tasks }
  w.register (w.primaryEntry K now) registers

end Device

namespace Recovery

inductive Label where
  | world (l : World.Label)
  | forget (removed : Bool)
  | rebuild (closed registers : Bool) (dmPubkey : String) (dmKeyIndex : UInt32) (now : UInt64)
  deriving DecidableEq, Repr

def Label.isIdentityResponse : Label → Bool
  | .world (.deliver (.identityResponse _ _) _) => true
  | _ => false

section Defs

variable (K : KeyCrates) (J : SerdeJson) (you : String)

def step (w : World) : Label → Option World
  | .world l => w.step K J you l
  | .forget removed => some { w with
      author := w.author.forget removed
      tables := ⟨[], [], []⟩
      mySender := false }
  | .rebuild closed registers dmPubkey dmKeyIndex now => some { w with
      author := w.author.rebuild K closed registers dmPubkey dmKeyIndex now }

end Defs

/-- The index in the delegation that the follower has cached. -/
def cachedIndex (w : World) : Option UInt32 :=
  (w.follower.storage.getPeerDelegation w.masterPubkey).map SigningKeyDelegation.keyIndex

/-- The indices of the rotations that came to the follower, of those in the list. -/
def deliveredIndex (broadcasts : List GossipMessage) : Label → Option UInt32
  | .world (.deliver (.gossip k) _) =>
    match broadcasts[k]? with
    | some (.signingKeyRotation rotation) => some rotation.newKeyIndex
    | _ => none
  | _ => none

def deliveredIndices (w : World) (run : List Label) : List UInt32 := run.filterMap (deliveredIndex w.broadcasts)

def Highest (indices : List UInt32) (i : UInt32) : Prop := i ∈ indices ∧ ∀ j ∈ indices, j ≤ i

section Indices

def told (known : Option UInt32) (i : UInt32) : Option UInt32 := if ∀ j ∈ known, j < i then some i else known

theorem highest_singleton {i j : UInt32} : Highest [j] i ↔ j = i := by
  constructor
  · rintro ⟨hmem, -⟩
    exact (List.mem_singleton.mp hmem).symm
  · rintro rfl
    simp [Highest]

theorem highest_told {known : Option UInt32} {i m : UInt32} {rest : List UInt32} :
    Highest ((told known i).toList ++ rest) m ↔ Highest (known.toList ++ i :: rest) m := by
  unfold told
  cases known with
  | none => simp
  | some k =>
    have hreplace : ∀ {lo hi : UInt32}, lo ≤ hi →
        (Highest (hi :: rest) m ↔ Highest (lo :: hi :: rest) m) := by
      intro lo hi hle
      unfold Highest
      constructor
      · rintro ⟨hmem, hall⟩
        have htop : hi ≤ m := hall hi List.mem_cons_self
        exact ⟨List.mem_cons_of_mem _ hmem, List.forall_mem_cons.mpr ⟨UInt32.le_trans hle htop, hall⟩⟩
      · rintro ⟨hmem, hall⟩
        have htop : hi ≤ m := hall hi (by simp)
        refine ⟨?_, (List.forall_mem_cons.mp hall).2⟩
        rcases List.mem_cons.mp hmem with rfl | hmem
        · exact List.mem_cons.mpr (Or.inl (UInt32.le_antisymm hle htop))
        · exact hmem
    by_cases hlt : k < i
    · have hnew : ∀ j ∈ some k, j < i := by simpa using hlt
      rw [if_pos hnew]
      exact hreplace (UInt32.le_of_lt hlt)
    · have hold : ¬ ∀ j ∈ some k, j < i := by simpa using hlt
      have hle : i ≤ k := UInt32.not_lt.mp hlt
      have hswap : Highest (k :: i :: rest) m ↔ Highest (i :: k :: rest) m := by
        have hperm : List.Perm (k :: i :: rest) (i :: k :: rest) := List.Perm.swap i k rest
        exact and_congr hperm.mem_iff (forall_congr' fun j => imp_congr hperm.mem_iff Iff.rfl)
      rw [if_neg hold]
      exact (hreplace hle).trans hswap.symm

end Indices

section Invariant

variable {K : KeyCrates} {J : SerdeJson} {you : String} {master : SecretKey} {w t : World} {l : Label}

theorem inv_forget {d : Device} (h : Device.Inv K master d) (removed : Bool) :
    Device.Inv K master (d.forget removed) :=
  { h with
    posts := fun _ hp => nomatch hp
    interactions := fun _ hx => nomatch hx }

theorem tasks_rebuild {d : Device} {closed registers : Bool} {dmPubkey : String} {dmKeyIndex : UInt32}
    {now : UInt64} {task : Task} (h : task ∈ (d.rebuild K closed registers dmPubkey dmKeyIndex now).tasks) :
    task ∈ d.tasks := by
  cases closed with
  | true => cases registers <;> exact nomatch h
  | false => cases registers <;> exact h

theorem identity_rebuild {d : Device} (h : Device.Inv K master d) {closed registers : Bool} {dmPubkey : String}
    {dmKeyIndex : UInt32} {now : UInt64} :
    (d.rebuild K closed registers dmPubkey dmKeyIndex now).identity =
      buildIdentity K master d.indexFile dmPubkey dmKeyIndex now := by
  rw [← h.identity.masterSecret]
  cases registers <;> rfl

theorem inv_rebuild {d : Device} (h : Device.Inv K master d) (closed registers : Bool) (dmPubkey : String)
    (dmKeyIndex : UInt32) (now : UInt64) :
    Device.Inv K master (d.rebuild K closed registers dmPubkey dmKeyIndex now) := by
  have hsame : (d.rebuild K closed registers dmPubkey dmKeyIndex now).content = d.content ∧
      (d.rebuild K closed registers dmPubkey dmKeyIndex now).signedPosts = d.signedPosts ∧
      (d.rebuild K closed registers dmPubkey dmKeyIndex now).signedInteractions = d.signedInteractions := by
    cases registers <;> exact ⟨rfl, rfl, rfl⟩
  obtain ⟨hcontent, hposts, hinteractions⟩ := hsame
  refine ⟨?_, ?_, ?_, ?_, ?_, ?_, ?_, ?_⟩
  · rw [identity_rebuild h]
    exact Device.identityOf_buildIdentity _ _ _ _
  · intro plan phase hmem
    exact h.plans plan phase (tasks_rebuild hmem)
  · rw [hposts]
    exact h.signedPosts
  · rw [hinteractions]
    exact h.signedInteractions
  · rw [hcontent, hposts]
    exact h.posts
  · rw [hcontent, hinteractions]
    exact h.interactions
  · intro p hmem
    rw [hposts]
    exact h.insertPost p (tasks_rebuild hmem)
  · intro x hmem
    rw [hinteractions]
    exact h.saveInteraction x (tasks_rebuild hmem)

theorem honest_step (hK : K.Lawful) (h : w.Honest K master) (hstep : step K J you w l = some t) :
    t.Honest K master := by
  cases l with
  | world l => exact World.honest_step hK h hstep
  | forget removed =>
    obtain rfl := Option.some.inj hstep
    exact { h with
      author := inv_forget h.author removed
      issues := ⟨h.issues.keyIndex, h.issues.issued⟩ }
  | rebuild closed registers dmPubkey dmKeyIndex now =>
    obtain rfl := Option.some.inj hstep
    refine { h with
      author := inv_rebuild h.author closed registers dmPubkey dmKeyIndex now
      issues := ⟨?_, fun plan phase hmem => h.issues.issued plan phase (tasks_rebuild hmem)⟩ }
    show (w.author.rebuild K closed registers dmPubkey dmKeyIndex now).identity.delegation.keyIndex =
      (w.author.rebuild K closed registers dmPubkey dmKeyIndex now).identity.signingKeyIndex
    rw [identity_rebuild h.author]
    rfl

theorem honest_exec (hK : K.Lawful) (h : w.Honest K master) {run : List Label}
    (hrun : Machine.exec (step K J you) w run = some t) : t.Honest K master := by
  have hany : Machine.Along (step K J you) (fun _ _ => True) w run := Machine.Along.of_forall fun _ _ => trivial
  exact Machine.exec_invariant (fun _ _ _ hu _ hv => honest_step hK hu hv) h hany hrun

theorem cachedIndex_eq (h : w.Honest K master) : cachedIndex w = w.told := by
  have hindex := h.knows.keyIndex
  unfold cachedIndex
  rw [h.masterPubkey]
  exact hindex

end Invariant

section Runs

variable {K : KeyCrates} {J : SerdeJson} {you : String} {master : SecretKey} {w t : World} {l : Label}

theorem broadcasts_send {msgs : List GossipMessage} : w.broadcasts <+: (w.send msgs).broadcasts := by
  unfold World.send
  split
  · exact List.prefix_append _ _
  · exact List.prefix_refl _

theorem broadcasts_step (hstep : step K J you w l = some t) : w.broadcasts <+: t.broadcasts := by
  cases l with
  | world l =>
    cases l with
    | author l =>
      obtain ⟨author, -, rfl⟩ := Option.map_eq_some_iff.mp hstep
      exact broadcasts_send
    | tables st =>
      obtain rfl := Option.some.inj hstep
      exact List.prefix_refl _
    | ownFeed up =>
      obtain rfl := Option.some.inj hstep
      exact List.prefix_refl _
    | broadcast msg =>
      cases msg with
      | signingKeyRotation rotation => exact nomatch hstep
      | newPost | deletePost | newInteraction | deleteInteraction | profileUpdate | linkedDevices | other =>
        obtain rfl := Option.some.inj hstep
        exact broadcasts_send
    | deliver d now =>
      obtain ⟨events, -, rfl⟩ := Option.map_eq_some_iff.mp hstep
      exact List.prefix_refl _
    | follower profiles socialGraph content =>
      obtain rfl := Option.some.inj hstep
      exact List.prefix_refl _
  | forget removed =>
    obtain rfl := Option.some.inj hstep
    exact List.prefix_refl _
  | rebuild closed registers dmPubkey dmKeyIndex now =>
    obtain rfl := Option.some.inj hstep
    exact List.prefix_refl _

theorem broadcasts_exec {run : List Label} (hrun : Machine.exec (step K J you) w run = some t) :
    w.broadcasts <+: t.broadcasts := by
  have hany : Machine.Along (step K J you) (fun _ _ => True) w run := Machine.Along.of_forall fun _ _ => trivial
  have hstep : ∀ u l v, w.broadcasts <+: u.broadcasts → True → step K J you u l = some v →
      w.broadcasts <+: v.broadcasts := by
    intro u l v hu _ hv
    exact hu.trans (broadcasts_step hv)
  exact Machine.exec_invariant hstep (List.prefix_refl _) hany hrun

/-- Without an identity response the follower is told by rotations only. -/
theorem told_step (hquiet : l.isIdentityResponse = false) (hstep : step K J you w l = some t) :
    t.told = match deliveredIndex w.broadcasts l with
      | some i => told w.told i
      | none => w.told := by
  cases l with
  | world l =>
    cases l with
    | author l =>
      obtain ⟨author, -, rfl⟩ := Option.map_eq_some_iff.mp hstep
      exact (World.follower_send _).2.1
    | tables st =>
      obtain rfl := Option.some.inj hstep
      rfl
    | ownFeed up =>
      obtain rfl := Option.some.inj hstep
      rfl
    | broadcast msg =>
      cases msg with
      | signingKeyRotation rotation => exact nomatch hstep
      | newPost | deletePost | newInteraction | deleteInteraction | profileUpdate | linkedDevices | other =>
        obtain rfl := Option.some.inj hstep
        exact (World.follower_send _).2.1
    | deliver d now =>
      obtain ⟨events, -, rfl⟩ := Option.map_eq_some_iff.mp hstep
      cases d with
      | identityResponse => exact nomatch hquiet
      | push | sync => rfl
      | gossip k =>
        simp only [World.heard, deliveredIndex]
        cases w.broadcasts[k]? with
        | none => rfl
        | some msg => cases msg <;> rfl
    | follower profiles socialGraph content =>
      obtain rfl := Option.some.inj hstep
      rfl
  | forget removed =>
    obtain rfl := Option.some.inj hstep
    rfl
  | rebuild closed registers dmPubkey dmKeyIndex now =>
    obtain rfl := Option.some.inj hstep
    rfl

theorem deliveredIndex_of_prefix {broadcasts : List GossipMessage} (hstep : step K J you w l = some t)
    (hsent : w.broadcasts <+: broadcasts) : deliveredIndex broadcasts l = deliveredIndex w.broadcasts l := by
  cases l with
  | forget | rebuild => rfl
  | world l =>
    cases l with
    | author | tables | ownFeed | broadcast | follower => rfl
    | deliver d now =>
      cases d with
      | identityResponse | push | sync => rfl
      | gossip k =>
        obtain ⟨events, hevents, -⟩ := Option.map_eq_some_iff.mp hstep
        obtain ⟨msg, hmsg, -⟩ := Option.map_eq_some_iff.mp hevents
        obtain ⟨hk, hget⟩ := List.getElem?_eq_some_iff.mp hmsg
        have hlater : broadcasts[k]? = some msg := by
          rw [← hget, hsent.getElem hk]
          exact List.getElem?_eq_getElem _
        simp only [deliveredIndex, hmsg, hlater]

theorem told_exec {run : List Label} (hquiet : ∀ l ∈ run, l.isIdentityResponse = false)
    (hrun : Machine.exec (step K J you) w run = some t) (m : UInt32) :
    t.told = some m ↔ Highest (w.told.toList ++ deliveredIndices t run) m := by
  induction run generalizing w with
  | nil =>
    obtain rfl := Option.some.inj hrun
    cases htold : w.told with
    | none => simp [Highest, deliveredIndices]
    | some i =>
      have hone := highest_singleton (i := m) (j := i)
      simpa [deliveredIndices] using hone.symm
  | cons l run ih =>
    obtain ⟨u, hu, hrest⟩ := Machine.exec_cons_eq_some.mp hrun
    have hfirst := told_step (hquiet l List.mem_cons_self) hu
    have hlater := deliveredIndex_of_prefix hu ((broadcasts_step hu).trans (broadcasts_exec hrest))
    have hrun := ih (fun a ha => hquiet a (List.mem_cons_of_mem _ ha)) hrest
    unfold deliveredIndices at hrun ⊢
    rw [hrun, List.filterMap_cons, hlater]
    cases hindex : deliveredIndex w.broadcasts l with
    | none =>
      rw [hindex] at hfirst
      rw [hfirst]
    | some i =>
      rw [hindex] at hfirst
      rw [hfirst]
      exact highest_told

end Runs

section Results

variable {K : KeyCrates}

theorem follows_identityResponse {J : SerdeJson} {you : String} {master : SecretKey} {w t : World} (hK : K.Lawful)
    (h : w.Honest K master) {ids : List String}
    {profile : Option Profile} {now : UInt64}
    (hstep : step K J you w (.world (.deliver (.identityResponse ids profile) now)) = some t) : t.Follows K := by
  have ht : t.Honest K master := honest_step hK h hstep
  rw [World.follows_iff hK ht]
  obtain rfl : _ = t := Option.some.inj hstep
  rfl

/-- Whatever rotations and recoveries there are, and whenever the broadcasts of them come: without an
identity response the follower accepts what the author signs just if the author's index is the highest of
the one that the follower had cached and those of the rotations that came to it since. An identity response
brings it back at once. -/
theorem recovered_follows_iff (J : SerdeJson) (you : String) (hK : K.Lawful) (master : SecretKey)
    (indexFile : Option UInt32) (dmPubkey : String) (dmKeyIndex : UInt32) (now : UInt64)
    (devices : List DeviceEntry) (tables : Storage)
    (before after : List Label) (u t : World)
    (hbefore : Machine.exec (step K J you) (.start (buildIdentity K master indexFile dmPubkey dmKeyIndex now)
      indexFile devices tables) before = some u)
    (hafter : Machine.exec (step K J you) u after = some t)
    (hquiet : ∀ l ∈ after, l.isIdentityResponse = false) :
    (t.Follows K ↔
      Highest ((cachedIndex u).toList ++ deliveredIndices t after) t.author.identity.signingKeyIndex) ∧
    ∀ ids profile now v, step K J you t (.world (.deliver (.identityResponse ids profile) now)) = some v →
      v.Follows K := by
  have hu : u.Honest K master :=
    honest_exec hK (World.honest_start indexFile dmPubkey dmKeyIndex now devices tables) hbefore
  have ht : t.Honest K master := honest_exec hK hu hafter
  constructor
  · rw [World.follows_iff hK ht, cachedIndex_eq hu]
    exact told_exec hquiet hafter _
  · intro ids profile now v hstep
    exact follows_identityResponse hK ht hstep

end Results
end Recovery

section Examples

open Recovery (cachedIndex deliveredIndices)

def knownRun : List Recovery.Label :=
  rotatingRun.map .world ++ [.world (.deliver (.identityResponse [] none) 3)]

def recoverRun : List Recovery.Label := [.forget true, .rebuild false true "" 0 4]

def againRun : List Recovery.Label := recoverRun ++ (rotateRun 5).map fun l => .world (.author l)

abbrev execRecovery (w : World) (run : List Recovery.Label) : Option World :=
  Machine.exec (Recovery.step plainKeys compactJson "bob") w run

theorem cachedIndex_knownRun : (execRecovery listedAuthor knownRun).map cachedIndex = some (some 1) := by
  decide +kernel

theorem exec_after {u : World} (hu : execRecovery listedAuthor knownRun = some u) (after : List Recovery.Label)
    (i : UInt32) (h : (execRecovery listedAuthor (knownRun ++ after)).map
      (fun t => t.author.identity.signingKeyIndex) = some i) :
    ∃ t, execRecovery u after = some t ∧ t.author.identity.signingKeyIndex = i := by
  obtain ⟨t, ht, hindex⟩ := Option.map_eq_some_iff.mp h
  rw [execRecovery, Machine.exec_append] at ht
  obtain ⟨u', hu', ht⟩ := Option.bind_eq_some_iff.mp ht
  obtain rfl := Option.some.inj (hu.symm.trans hu')
  exact ⟨t, ht, hindex⟩

/-- Bob refuses what Alice signs after the recovery, until she has rotated as far as before. -/
theorem recovered_follows_again : ∃ u v t, execRecovery listedAuthor knownRun = some u ∧
    execRecovery u recoverRun = some v ∧ execRecovery u againRun = some t ∧
    ¬ v.Follows plainKeys ∧ t.Follows plainKeys := by
  obtain ⟨u, hu, hcached⟩ := Option.map_eq_some_iff.mp cachedIndex_knownRun
  obtain ⟨v, hv, hfirst⟩ := exec_after hu recoverRun 0 (by decide +kernel)
  obtain ⟨t, ht, hsecond⟩ := exec_after hu againRun 1 (by decide +kernel)
  have hfollows := Recovery.recovered_follows_iff compactJson "bob" plainKeys_lawful zeroSecret none "" 0 0 []
    listedTables knownRun
  refine ⟨u, v, t, hu, hv, ht, ?_, ?_⟩
  · have hnone : deliveredIndices v recoverRun = [] := rfl
    rw [(hfollows recoverRun u v hu hv (by decide)).1, hcached, hfirst, hnone]
    exact fun h => absurd (Recovery.highest_singleton.mp h) (by decide)
  · have hnone : deliveredIndices t againRun = [] := rfl
    rw [(hfollows againRun u t hu ht (by decide)).1, hcached, hsecond, hnone]
    exact Recovery.highest_singleton.mpr rfl

end Examples
end Proscenium.Client.Author
