import Proscenium.Client.ContentAuthenticity
import Proscenium.Server.PublicService

/-! Did the authors write what the server gives out? What is ingested is checked
with the key that is cached for its author, and the cache is filled by rotations,
which are checked, and by registrations, whose delegation is not. The keys stay
those that the authors delegated exactly if each registration brings a delegation
of the master key it names, and then all that is stored and all that a query
returns was signed by its author. -/

namespace Proscenium.Server

open Proscenium.Types
open Client (Delegated GenuinePost GenuineInteraction)

/-- The delegation is one that the master key of the row signed, and the row has its signing key. -/
structure PeerDelegation.Authentic (S : SignatureCrates) (r : PeerDelegation) : Prop where
  verified : verifyDelegation S r.delegationJson = .ok ()
  master : r.delegationJson.masterPubkey = r.masterPubkey
  signing : r.signingPubkey = r.delegationJson.signingPubkey

def KeysAuthentic (S : SignatureCrates) (rows : List PeerDelegation) : Prop := ∀ r ∈ rows, r.Authentic S

namespace Store

variable (S : SignatureCrates) (signed : PublicKey → Bytes → Prop) (config : ServerConfig)

structure ContentGenuine (s : Store) : Prop where
  posts : ∀ p ∈ s.posts, GenuinePost S signed p
  interactions : ∀ j ∈ s.interactions, GenuineInteraction S signed j

/-- The keys are those of the authors, and so is what is given out and what is counted. -/
structure ServesGenuine (s : Store) : Prop where
  keys : KeysAuthentic S s.peerDelegations
  served : ∀ q, ∀ p ∈ s.serve q, GenuinePost S signed p
  interactions : ∀ j ∈ s.interactions, GenuineInteraction S signed j

/-- A registration that is admitted and filed brings a delegation of the master key it names. -/
def VouchedRegistration (_ : Store) : Label → Prop
  | .register req env => req.action ≠ some "unregister" → validateRegistration S config env req = .ok () →
      env.fails .registerUser = none → env.fails .cachePeerDelegation = none →
      (Request.register req).Delegated S
  | _ => True

variable {S} {signed} {config} {s t : Store}

section Keys

variable {rows : List PeerDelegation} {masterPubkey : String} {d : SigningKeyDelegation}
  {node : Option String} {now : Int64}

theorem keysAuthentic_upsert_iff (h : KeysAuthentic S rows) {g : PeerDelegation → PeerDelegation}
    (hkey : ∀ r, (g r).masterPubkey = r.masterPubkey)
    (hg : ∀ r, (g r).signingPubkey = d.signingPubkey ∧ (g r).delegationJson = d) :
    KeysAuthentic S (Table.upsert PeerDelegation.masterPubkey masterPubkey
      ⟨masterPubkey, d.signingPubkey, d, node, now⟩ g rows) ↔
        verifyDelegation S d = .ok () ∧ d.masterPubkey = masterPubkey := by
  constructor
  · intro h'
    let new : PeerDelegation := ⟨masterPubkey, d.signingPubkey, d, node, now⟩
    have hnew : new.masterPubkey = masterPubkey := rfl
    have hrow := Table.find_upsert_self hkey hnew rows
    have hauthentic := h' _ (List.mem_of_find?_eq_some hrow)
    have hmaster := Table.key_of_find hrow
    have hdelegation : (((Table.find PeerDelegation.masterPubkey masterPubkey rows).map g).getD
        new).delegationJson = d := by
      cases Table.find PeerDelegation.masterPubkey masterPubkey rows with
      | none => rfl
      | some r => exact (hg r).2
    have hsigned := hauthentic.verified
    have hnamed := hauthentic.master.trans hmaster
    rw [hdelegation] at hsigned hnamed
    exact ⟨hsigned, hnamed⟩
  · rintro ⟨hverified, hmaster⟩
    refine Table.all_upsert h ⟨hverified, hmaster, rfl⟩ fun r _ hr => ?_
    obtain ⟨hsigning, hdelegation⟩ := hg r
    refine ⟨?_, ?_, ?_⟩
    · rw [hdelegation]
      exact hverified
    · rw [hdelegation, hkey, hr]
      exact hmaster
    · rw [hsigning, hdelegation]

theorem cachePeerDelegation_keysAuthentic_iff {env : Env} {st : Storage}
    (h : KeysAuthentic S st.peerDelegations) :
    KeysAuthentic S (st.cachePeerDelegation env masterPubkey d.signingPubkey d node).2.peerDelegations ↔
      (env.fails .cachePeerDelegation = none → verifyDelegation S d = .ok () ∧ d.masterPubkey = masterPubkey) := by
  unfold Storage.cachePeerDelegation Storage.run
  cases env.fails .cachePeerDelegation with
  | none =>
    rw [imp_iff_right rfl]
    exact keysAuthentic_upsert_iff h (fun _ => rfl) fun _ => ⟨rfl, rfl⟩
  | some e => exact iff_of_true h fun hnone => nomatch hnone

theorem registerUser_keysAuthentic_iff {env : Env} {st : Storage} {visibility node : String}
    (h : KeysAuthentic S st.peerDelegations) :
    KeysAuthentic S (st.registerUser env masterPubkey visibility none (some node) (some d)).2.peerDelegations ↔
      (env.fails .registerUser = none → env.fails .cachePeerDelegation = none →
        verifyDelegation S d = .ok () ∧ d.masterPubkey = masterPubkey) := by
  unfold Storage.registerUser Storage.run
  cases env.fails .registerUser with
  | none =>
    rw [imp_iff_right rfl]
    exact cachePeerDelegation_keysAuthentic_iff h
  | some e => exact iff_of_true h fun hnone => nomatch hnone

theorem delegated_signerOf (hunf : ∀ k m σ, S.verify k m σ = true → signed k m)
    (h : KeysAuthentic S s.peerDelegations) {fails : IngestFails} {author : String} {key : PublicKey}
    (hkey : signerOf S fails author s.index = .ok key) : Delegated S signed author key := by
  unfold signerOf at hkey
  split at hkey
  next signingPubkey hcached =>
    have hrow : s.index.getPeerSigningPubkey author = some signingPubkey := by
      split at hcached
      · exact nomatch hcached
      · exact hcached
    obtain ⟨r, hr, rfl⟩ := Option.map_eq_some_iff.mp hrow
    have hauthentic : r.Authentic S := h r (List.mem_of_find?_eq_some hr)
    have hmaster : r.delegationJson.masterPubkey = author := hauthentic.master.trans (Table.key_of_find hr)
    obtain ⟨sig, master, signing, -, hmk, hsk, hver⟩ := verifyDelegation_eq_ok.mp hauthentic.verified
    have hsame : signing = key := by
      rw [hauthentic.signing, hsk] at hkey
      exact Except.ok.inj hkey
    rw [hmaster] at hmk
    exact Or.inr ⟨r.delegationJson, master, hmaster, hsame ▸ hsk, hmk, hunf _ _ _ hver⟩
  next => exact Or.inl hkey

theorem signed_of_signerAccepts (hunf : ∀ k m σ, S.verify k m σ = true → signed k m)
    (h : KeysAuthentic S s.peerDelegations) {fails : IngestFails} {what author signature : String} {bytes : Bytes}
    (haccepts : signerAccepts S fails (verifySigned S what bytes signature) author s.index = true) :
    ∃ key, Delegated S signed author key ∧ signed key bytes := by
  unfold signerAccepts at haccepts
  split at haccepts
  next signer hsigner =>
    obtain ⟨sig, -, hverify⟩ := verifySigned_eq_ok.mp (Checks.toBool_eq_true.mp haccepts)
    exact ⟨signer, delegated_signerOf hunf h hsigner, hunf signer bytes sig hverify⟩
  next => exact nomatch haccepts

end Keys

section Content

@[simp] theorem advance_peerDelegations (s : Store) (i : Nat) (next : Option Task) :
    (s.advance i next).peerDelegations = s.peerDelegations := rfl

@[simp] theorem withIndex_peerDelegations (s : Store) (ix : Index) :
    (s.withIndex ix).peerDelegations = s.peerDelegations := rfl

theorem ContentGenuine.advance (h : s.ContentGenuine S signed) (i : Nat) (next : Option Task) :
    (s.advance i next).ContentGenuine S signed :=
  ⟨h.posts, h.interactions⟩

theorem ContentGenuine.subset (h : s.ContentGenuine S signed) (hposts : t.posts ⊆ s.posts)
    (hinteractions : t.interactions ⊆ s.interactions) : t.ContentGenuine S signed :=
  ⟨fun p hp => h.posts p (hposts hp), fun j hj => h.interactions j (hinteractions hj)⟩

theorem ContentGenuine.congr (h : s.ContentGenuine S signed) (hposts : t.posts = s.posts)
    (hinteractions : t.interactions = s.interactions) : t.ContentGenuine S signed := by
  have hposts' : t.posts ⊆ s.posts := fun p hp => hposts ▸ hp
  have hinteractions' : t.interactions ⊆ s.interactions := fun j hj => hinteractions ▸ hj
  exact h.subset hposts' hinteractions'

variable {fails : IngestFails} {now : UInt64}

theorem genuine_ingestPost (hunf : ∀ k m σ, S.verify k m σ = true → signed k m)
    (hkeys : KeysAuthentic S s.peerDelegations) (h : s.ContentGenuine S signed) (p : Post) :
    (s.withIndex (ingestPost S fails now p s.index)).ContentGenuine S signed := by
  unfold ingestPost
  split
  next hstored =>
    have haccepts := (Bool.and_eq_true_iff.mp hstored.1).2
    refine ⟨fun q hq => ?_, h.interactions⟩
    rcases Table.mem_of_mem_insertOrIgnore hq with hq | rfl
    · exact h.posts q hq
    · exact signed_of_signerAccepts hunf hkeys haccepts
  next => exact h

theorem genuine_ingestInteraction (hunf : ∀ k m σ, S.verify k m σ = true → signed k m)
    (hkeys : KeysAuthentic S s.peerDelegations) (h : s.ContentGenuine S signed) (j : Interaction) :
    (s.withIndex (ingestInteraction S fails now j s.index)).ContentGenuine S signed := by
  unfold ingestInteraction
  split
  next hstored =>
    have haccepts := (Bool.and_eq_true_iff.mp hstored.1).2
    refine ⟨h.posts, fun i hi => ?_⟩
    rcases Table.mem_of_mem_insertOrIgnore hi with hi | rfl
    · exact h.interactions i hi
    · exact signed_of_signerAccepts hunf hkeys haccepts
  next => exact h

theorem write_genuine (h : s.ContentGenuine S signed) (pubkey : String) (next : Write) :
    (s.write pubkey next).ContentGenuine S signed := by
  have hsub : (s.write pubkey next).posts ⊆ s.posts ∧
      (s.write pubkey next).interactions ⊆ s.interactions := by
    cases next with
    | deleteInteractions => exact ⟨List.Subset.refl _, List.filter_sublist.subset⟩
    | deletePosts => exact ⟨List.filter_sublist.subset, List.Subset.refl _⟩
    | deleteSyncState => exact ⟨List.Subset.refl _, List.Subset.refl _⟩
    | deactivate => exact ⟨List.Subset.refl _, List.Subset.refl _⟩
    | setVisibility visibility => exact ⟨List.Subset.refl _, List.Subset.refl _⟩
  exact h.subset hsub.1 hsub.2

end Content

section Endpoints

theorem register_content (s : Store) (req : RegistrationRequest) (env : Env) :
    (s.register S config req env).interactions = s.interactions ∧
      (s.register S config req env).peerDelegations =
        (Server.register S config { env with subscribes := false } req s.server).2.storage.peerDelegations := by
  have hsubscribe : ∀ (u : Store) (pubkey : String), (u.subscribe pubkey).interactions = u.interactions ∧
      (u.subscribe pubkey).peerDelegations = u.peerDelegations := by
    intro u pubkey
    unfold subscribe
    split <;> exact ⟨rfl, rfl⟩
  unfold register
  dsimp only
  split
  · split
    · exact hsubscribe _ _
    · exact ⟨rfl, rfl⟩
  · exact ⟨rfl, rfl⟩

theorem register_keysAuthentic_iff (h : KeysAuthentic S s.peerDelegations) (req : RegistrationRequest) (env : Env) :
    KeysAuthentic S (s.register S config req env).peerDelegations ↔
      s.VouchedRegistration S config (.register req env) := by
  rw [(register_content s req env).2, register_storage]
  show _ ↔ (_ → validateRegistration S config env req = .ok () → _)
  split
  next hok =>
    have hvalid : validateRegistration S config env req = .ok () := hok.2
    rw [imp_iff_right hok.1, imp_iff_right hvalid]
    exact registerUser_keysAuthentic_iff h
  next hnot => exact iff_of_true h fun haction hvalid => absurd ⟨haction, hvalid⟩ hnot

theorem keys_updateProfile (s : Store) (env : Env) (pubkey : String) (profile : Profile) :
    (s.updateProfile env pubkey profile).peerDelegations = s.peerDelegations := by
  show (s.server.storage.updateProfile env pubkey profile).2.peerDelegations = _
  unfold Storage.updateProfile
  cases env.fails .updateProfile <;> rfl

theorem keys_put (s : Store) (req : ProfileUpdateRequest) (env : Env) :
    (s.withServer (Server.updateProfile S env req s.server).2).peerDelegations = s.peerDelegations := by
  show (Server.updateProfile S env req s.server).2.storage.peerDelegations = _
  rw [updateProfile_storage]
  cases Visibility.fromStr req.visibility with
  | error e => rfl
  | ok visibility =>
    dsimp only
    split
    · exact keys_updateProfile s env _ _
    · rfl

theorem unregister_content (s : Store) (req : RegistrationRequest) :
    (s.unregister S req).posts = s.posts ∧ (s.unregister S req).interactions = s.interactions ∧
      (s.unregister S req).peerDelegations = s.peerDelegations := by
  have hunsubscribe : ∀ pubkey, (s.unsubscribe pubkey).posts = s.posts ∧
      (s.unsubscribe pubkey).interactions = s.interactions ∧
      (s.unsubscribe pubkey).peerDelegations = s.peerDelegations := by
    intro pubkey
    unfold unsubscribe
    split <;> exact ⟨rfl, rfl, rfl⟩
  unfold unregister
  split
  · exact hunsubscribe _
  · exact ⟨rfl, rfl, rfl⟩

end Endpoints

section Gossip

variable {i : Nat} {owner : String} {env : Env} {ingest : IngestFails}

theorem verifyRotation_signing {rotation : SigningKeyRotation} (h : verifyRotation S rotation = .ok ()) :
    rotation.newSigningPubkey = rotation.newDelegation.signingPubkey := by
  unfold verifyRotation at h
  simp only [Checks.bind_eq_ok, Checks.reject_eq_ok, Decidable.not_not] at h
  obtain ⟨sig, -, master, -, -, ⟨⟩, -, -, hsigning, -⟩ := h
  exact hsigning.symm

theorem processRotation_content (s : Store) (fails : Bool) (rotation : SigningKeyRotation) :
    (s.processRotation env fails owner rotation).posts = s.posts ∧
      (s.processRotation env fails owner rotation).interactions = s.interactions := by
  unfold processRotation
  extract_lets cached srv s₁
  split
  · exact ⟨rfl, rfl⟩
  · split <;> exact ⟨rfl, rfl⟩

theorem processRotation_keysAuthentic (h : KeysAuthentic S s.peerDelegations) {fails : Bool}
    {rotation : SigningKeyRotation} (howner : rotation.masterPubkey = owner)
    (hverified : verifyRotation S rotation = .ok ()) :
    KeysAuthentic S (s.processRotation env fails owner rotation).peerDelegations := by
  obtain ⟨hdelegation, hmaster, -⟩ := verifyRotation_delegation S hverified
  have hcached : KeysAuthentic S (s.server.storage.cachePeerDelegation env owner rotation.newSigningPubkey
      rotation.newDelegation none).2.peerDelegations := by
    rw [verifyRotation_signing hverified]
    exact (cachePeerDelegation_keysAuthentic_iff h).mpr fun _ => ⟨hdelegation, hmaster.trans howner⟩
  unfold processRotation
  extract_lets cached srv s₁
  split
  · exact h
  · split <;> exact hcached

theorem processGossipMessage_keysAuthentic (h : KeysAuthentic S s.peerDelegations) (msg : GossipMessage) :
    KeysAuthentic S (s.processGossipMessage S i owner env ingest msg).peerDelegations := by
  cases msg with
  | newPost | deletePost | newInteraction =>
    simp only [processGossipMessage]
    split
    · rw [withIndex_peerDelegations]
      exact h
    · exact h
  | deleteInteraction =>
    simp only [processGossipMessage]
    split <;> exact h
  | profileUpdate profile =>
    simp only [processGossipMessage]
    split
    · rw [advance_peerDelegations, keys_updateProfile]
      exact h
    · exact h
  | signingKeyRotation rotation =>
    simp only [processGossipMessage]
    split
    next hok => exact processRotation_keysAuthentic h hok.1 (Checks.toBool_eq_true.mp hok.2)
    next => exact h
  | linkedDevices | other => exact h

theorem processGossipMessage_genuine (hunf : ∀ k m σ, S.verify k m σ = true → signed k m)
    (hkeys : KeysAuthentic S s.peerDelegations) (h : s.ContentGenuine S signed) (msg : GossipMessage) :
    (s.processGossipMessage S i owner env ingest msg).ContentGenuine S signed := by
  cases msg with
  | newPost p =>
    simp only [processGossipMessage]
    split
    · exact genuine_ingestPost hunf hkeys h p
    · exact h
  | deletePost id author signature =>
    simp only [processGossipMessage, processDeletePost]
    split
    · split
      · exact h.subset List.filter_sublist.subset (List.Subset.refl _)
      · exact h
    · exact h
  | profileUpdate profile =>
    simp only [processGossipMessage]
    split
    · exact h.congr rfl rfl
    · exact h
  | newInteraction j =>
    simp only [processGossipMessage]
    split
    · exact genuine_ingestInteraction hunf hkeys h j
    · exact h
  | deleteInteraction id author signature =>
    simp only [processGossipMessage]
    split
    · exact h.subset (List.Subset.refl _) List.filter_sublist.subset
    · exact h
  | signingKeyRotation rotation =>
    simp only [processGossipMessage]
    split
    · obtain ⟨hposts, hinteractions⟩ := processRotation_content s (ingest .signingPubkey) rotation
      exact h.congr hposts hinteractions
    · exact h
  | linkedDevices | other => exact h

end Gossip

section Steps

theorem takeSummary_content (s : Store) (i : Nat) (pubkey : String) (summary : SyncSummary) (env : Env) :
    (s.takeSummary i pubkey summary env).posts = s.posts ∧
      (s.takeSummary i pubkey summary env).interactions = s.interactions ∧
      (s.takeSummary i pubkey summary env).peerDelegations = s.peerDelegations := by
  unfold takeSummary
  extract_lets s₁
  have hs₁ : s₁.posts = s.posts ∧ s₁.interactions = s.interactions ∧ s₁.peerDelegations = s.peerDelegations := by
    dsimp only [s₁]
    split
    · split
      · exact ⟨rfl, rfl, keys_updateProfile s env pubkey _⟩
      · exact ⟨rfl, rfl, rfl⟩
    · exact ⟨rfl, rfl, rfl⟩
  obtain ⟨hposts, hinteractions, hkeys⟩ := hs₁
  split
  · exact ⟨Index.updateSyncState_posts.trans hposts, Index.updateSyncState_interactions.trans hinteractions, hkeys⟩
  · exact ⟨hposts, hinteractions, hkeys⟩

/-- A step other than a registration leaves the cached keys alone, or files a rotation that it has verified. -/
theorem step_keysAuthentic (h : KeysAuthentic S s.peerDelegations) {l : Label}
    (hvouched : s.VouchedRegistration S config l) (hstep : step S config s l = some t) :
    KeysAuthentic S t.peerDelegations := by
  cases l with
  | register req env =>
    obtain rfl := Option.some.inj hstep
    exact (register_keysAuthentic_iff h req env).mpr hvouched
  | updateProfile req env =>
    obtain rfl := Option.some.inj hstep
    rw [keys_put]
    exact h
  | unregister req =>
    obtain rfl := Option.some.inj hstep
    rw [(unregister_content s req).2.2]
    exact h
  | gossip i msg env ingest =>
    dsimp only [step] at hstep
    split at hstep
    · obtain rfl := Option.some.inj hstep
      exact processGossipMessage_keysAuthentic h msg
    · exact nomatch hstep
  | summary i summary env =>
    dsimp only [step] at hstep
    split at hstep
    next pubkey htask =>
      obtain rfl := Option.some.inj hstep
      rw [(takeSummary_content s i pubkey summary env).2.2]
      exact h
    · exact nomatch hstep
  | post | interaction | finish =>
    dsimp only [step] at hstep
    split at hstep
    · obtain rfl := Option.some.inj hstep
      rw [advance_peerDelegations, withIndex_peerDelegations]
      exact h
    · exact nomatch hstep
  | proceed i =>
    have hwrite : ∀ owner next, KeysAuthentic S (s.write owner next).peerDelegations := by
      intro owner next
      cases next <;> exact h
    simp only [step, proceed] at hstep
    split at hstep
    next owner next todo _ =>
      obtain rfl := Option.some.inj hstep
      exact hwrite owner next
    next owner next todo _ =>
      obtain rfl := Option.some.inj hstep
      exact hwrite owner next
    · obtain rfl := Option.some.inj hstep
      exact h
    · obtain rfl := Option.some.inj hstep
      exact h
    · exact nomatch hstep
  | fail i =>
    simp only [step, fail] at hstep
    split at hstep
    · obtain rfl := Option.some.inj hstep
      exact h
    · obtain rfl := Option.some.inj hstep
      exact h
    · exact nomatch hstep
  | periodicSync | prune | restart =>
    obtain rfl := Option.some.inj hstep
    exact h

theorem step_keysAuthentic_iff (h : KeysAuthentic S s.peerDelegations) (l : Label) :
    (∀ t, step S config s l = some t → KeysAuthentic S t.peerDelegations) ↔ s.VouchedRegistration S config l := by
  constructor
  · intro hall
    cases l with
    | register req env =>
      have hkeys := hall _ rfl
      exact (register_keysAuthentic_iff h req env).mp hkeys
    | _ => trivial
  · intro hvouched t hstep
    exact step_keysAuthentic h hvouched hstep

theorem step_genuine (hunf : ∀ k m σ, S.verify k m σ = true → signed k m)
    (hkeys : KeysAuthentic S s.peerDelegations) (h : s.ContentGenuine S signed) {l : Label}
    (hstep : step S config s l = some t) : t.ContentGenuine S signed := by
  cases l with
  | register req env =>
    obtain rfl := Option.some.inj hstep
    exact h.congr (register_rows S config s req env).1 (register_content s req env).1
  | updateProfile req env =>
    obtain rfl := Option.some.inj hstep
    exact h.congr rfl rfl
  | unregister req =>
    obtain rfl := Option.some.inj hstep
    obtain ⟨hposts, hinteractions, -⟩ := unregister_content (S := S) s req
    exact h.congr hposts hinteractions
  | gossip i msg env ingest =>
    dsimp only [step] at hstep
    split at hstep
    · obtain rfl := Option.some.inj hstep
      exact processGossipMessage_genuine hunf hkeys h msg
    · exact nomatch hstep
  | summary i summary env =>
    dsimp only [step] at hstep
    split at hstep
    next pubkey _ =>
      obtain rfl := Option.some.inj hstep
      obtain ⟨hposts, hinteractions, -⟩ := takeSummary_content s i pubkey summary env
      exact h.congr hposts hinteractions
    · exact nomatch hstep
  | post i p fails now =>
    dsimp only [step] at hstep
    split at hstep
    · obtain rfl := Option.some.inj hstep
      exact (genuine_ingestPost hunf hkeys h p).advance _ _
    · exact nomatch hstep
  | interaction i j fails now =>
    dsimp only [step] at hstep
    split at hstep
    · obtain rfl := Option.some.inj hstep
      exact (genuine_ingestInteraction hunf hkeys h j).advance _ _
    · exact nomatch hstep
  | finish i now =>
    dsimp only [step] at hstep
    split at hstep
    · obtain rfl := Option.some.inj hstep
      exact h.congr Index.updateSyncState_posts Index.updateSyncState_interactions
    · exact nomatch hstep
  | proceed i =>
    simp only [step, proceed] at hstep
    split at hstep
    next owner next todo _ =>
      obtain rfl := Option.some.inj hstep
      exact (write_genuine h owner next).advance _ _
    next owner next todo _ =>
      obtain rfl := Option.some.inj hstep
      exact (write_genuine h owner next).advance _ _
    · obtain rfl := Option.some.inj hstep
      exact h.congr rfl rfl
    · obtain rfl := Option.some.inj hstep
      exact h.congr rfl rfl
    · exact nomatch hstep
  | fail i =>
    simp only [step, fail] at hstep
    split at hstep
    · obtain rfl := Option.some.inj hstep
      exact h.congr rfl rfl
    · obtain rfl := Option.some.inj hstep
      exact h.congr rfl rfl
    · exact nomatch hstep
  | periodicSync | restart =>
    obtain rfl := Option.some.inj hstep
    exact h.congr rfl rfl
  | prune before =>
    obtain rfl := Option.some.inj hstep
    exact h.subset List.filter_sublist.subset (List.Subset.refl _)

end Steps

theorem ContentGenuine.serves (hkeys : KeysAuthentic S s.peerDelegations) (h : s.ContentGenuine S signed) :
    s.ServesGenuine S signed :=
  ⟨hkeys, fun _ p hp => h.posts p (mem_posts_of_mem_serve hp), h.interactions⟩

/-- Whatever comes in, in whatever order, and whatever fails: in all states of a run the cached keys are those
that the authors delegated, and everything that is given out was signed, as it is, by its author, exactly if
every registration that is filed brings a delegation of the master key it names. -/
theorem serves_genuine_iff (hunf : ∀ k m σ, S.verify k m σ = true → signed k m) (run : List Label) :
    (∀ init s, init <+: run → Machine.exec (step S config) empty init = some s → s.ServesGenuine S signed) ↔
      Machine.Along (step S config) (VouchedRegistration S config) empty run := by
  have hkeys : KeysAuthentic S empty.peerDelegations := fun r hr => nomatch hr
  have hcontent : empty.ContentGenuine S signed := ⟨fun p hp => (nomatch hp), fun j hj => (nomatch hj)⟩
  refine Machine.forall_prefix_iff_along
    (I := fun s => KeysAuthentic S s.peerDelegations ∧ s.ContentGenuine S signed) ?_ ?_ ⟨hkeys, hcontent⟩
    (hcontent.serves hkeys)
  · rintro s l ⟨hs, hgenuine⟩
    rw [← step_keysAuthentic_iff hs l]
    constructor
    · exact fun hall t ht => (hall t ht).keys
    · intro hall t ht
      exact (step_genuine hunf hs hgenuine ht).serves (hall t ht)
  · rintro s l t ⟨hs, hgenuine⟩ _ hserves hstep
    exact ⟨hserves.keys, step_genuine hunf hs hgenuine hstep⟩

section Examples

/-- A public user registers with a delegation of her own, is subscribed to and posts. -/
def publicRun : List Label :=
  [.register (aliceRegistration .isPublic) (Env.calm 0), .proceed 0,
    .gossip 0 (.newPost (Watched.alicePost Watched.aliceSignature)) (Env.calm 20) fun _ => false]

theorem serves_genuine_alice : ∃ s, Machine.exec (step checksumCrates aliceServer) empty publicRun = some s ∧
    ∃ q, ∃ p ∈ s.serve q, p.author = "alice" ∧ GenuinePost checksumCrates Client.ChecksumSigned p := by
  let s : Store := aliceTables none "public" 0 [Watched.alicePost Watched.aliceSignature] ["alice"]
    [.listen "alice" []]
  have hrun : Machine.exec (step checksumCrates aliceServer) empty publicRun = some s := by
    unfold publicRun
    rw [Machine.exec_cons_eq_some]
    refine ⟨_, congrArg some register_alice, ?_⟩
    rw [Machine.exec_cons_eq_some]
    refine ⟨_, rfl, ?_⟩
    rw [Machine.exec_cons_eq_some]
    exact ⟨_, congrArg some gossip_alice, rfl⟩
  have hvouched : Machine.Along (step checksumCrates aliceServer)
      (VouchedRegistration checksumCrates aliceServer) empty publicRun := by
    have hdelegated : (Request.register (aliceRegistration .isPublic)).Delegated checksumCrates :=
      ⟨verifyDelegation_checksumDelegation "alice" "alice" "" 0, rfl⟩
    exact ⟨fun _ _ _ _ => hdelegated, fun _ _ => ⟨trivial, fun _ _ => ⟨trivial, fun _ _ => trivial⟩⟩⟩
  have hunf : ∀ k m σ, checksumCrates.verify k m σ = true → Client.ChecksumSigned k m := fun _ _ σ h => ⟨σ, h⟩
  have hserves := (serves_genuine_iff hunf publicRun).mpr hvouched publicRun s (List.prefix_refl _) hrun
  obtain ⟨q, p, hp, hauthor⟩ := exists_serve (s := s) (List.mem_singleton.mpr rfl)
  exact ⟨s, hrun, q, p, hp, hauthor, hserves.served q p hp⟩

end Examples

end Store
end Proscenium.Server
