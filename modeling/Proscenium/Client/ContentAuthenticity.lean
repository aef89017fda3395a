import Proscenium.Client.CacheAuthenticity

/-! Whose posts and likes does a client store? Items come on a feed, in a push and
in a sync, and each passes the check of its signature on its way into the tables;
the key it is checked with is the one that is cached for its author. As long as
the cache is filled from responses that are vouched for, everything stored in
another's name was signed for it. -/

namespace Proscenium.Client

open Proscenium.Types

variable (S : SignatureCrates) (signed : PublicKey → Bytes → Prop) (me : String)

/-- Somebody the author delegated to, or the author, signed the post as it is. -/
def GenuinePost (p : Post) : Prop := ∃ key, Delegated S signed p.author key ∧ signed key (postSigningBytes p)

def GenuineInteraction (i : Interaction) : Prop :=
  ∃ key, Delegated S signed i.author key ∧ signed key (interactionSigningBytes i)

/-- What is stored in the name of another is genuine. -/
structure ContentStore.Genuine (c : ContentStore) : Prop where
  posts : ∀ p ∈ c.posts, p.author ≠ me → GenuinePost S signed p
  interactions : ∀ i ∈ c.interactions, i.author ≠ me → GenuineInteraction S signed i

/-- The user writes nothing in the name of another. -/
def Node.OwnEdits (w : Node) (l : Label) : Prop :=
  match l.action with
  | .edit _ _ content =>
    (∀ p ∈ content.posts, p ∈ w.store.content.posts ∨ p.author = me) ∧
      ∀ i ∈ content.interactions, i ∈ w.store.content.interactions ∨ i.author = me
  | _ => True

variable {S} {signed} {me}

section Tables

variable {c : ContentStore} {st : Storage}

theorem ContentStore.Genuine.subset (h : c.Genuine S signed me) {c' : ContentStore}
    (hposts : c'.posts ⊆ c.posts) (hinteractions : c'.interactions ⊆ c.interactions) : c'.Genuine S signed me :=
  ⟨fun p hp => h.posts p (hposts hp), fun i hi => h.interactions i (hinteractions hi)⟩

theorem ContentStore.Genuine.insertPost (h : c.Genuine S signed me) {p : Post} (hp : GenuinePost S signed p) :
    (c.insertPost p).Genuine S signed me := by
  refine ⟨fun q hq hne => ?_, h.interactions⟩
  rcases Table.mem_of_mem_insertOrIgnore hq with hq | rfl
  · exact h.posts q hq hne
  · exact hp

theorem ContentStore.Genuine.saveInteraction (h : c.Genuine S signed me) {i : Interaction}
    (hi : GenuineInteraction S signed i) : (c.saveInteraction i).Genuine S signed me := by
  refine ⟨h.posts, fun j hj hne => ?_⟩
  rcases Table.mem_of_mem_insertOrIgnore hj with hj | rfl
  · exact h.interactions j hj hne
  · exact hi

theorem signed_of_signerAccepts (hunf : ∀ k m σ, S.verify k m σ = true → signed k m)
    (hst : st.ResolvesDelegated S signed) {fails : PeerFails} {what author signature : String} {bytes : Bytes}
    (h : signerAccepts S fails (verifySigned S what bytes signature) author st = true) :
    ∃ key, Delegated S signed author key ∧ signed key bytes := by
  unfold signerAccepts at h
  split at h
  next signer hsigner =>
    obtain ⟨sig, -, hverify⟩ := verifySigned_eq_ok.mp (Checks.toBool_eq_true.mp h)
    exact ⟨signer, hst fails.table author signer hsigner, hunf signer bytes sig hverify⟩
  next => exact nomatch h

end Tables

section Steps

variable {w t : Node} {l : Label} {fails : PeerFails} {now : UInt64} {c : ContentStore} {st : Storage}

theorem genuine_processIncomingPost (hunf : ∀ k m σ, S.verify k m σ = true → signed k m)
    (hst : st.ResolvesDelegated S signed) (hc : c.Genuine S signed me) (p : Post) :
    (processIncomingPost S fails now p st c).2.Genuine S signed me := by
  unfold processIncomingPost
  split
  next haccepts =>
    have hsigner := (Bool.and_eq_true_iff.mp haccepts.1).2
    exact hc.insertPost (signed_of_signerAccepts hunf hst hsigner)
  next => exact hc

theorem genuine_processIncomingInteraction (hunf : ∀ k m σ, S.verify k m σ = true → signed k m)
    (hst : st.ResolvesDelegated S signed) (hc : c.Genuine S signed me) (i : Interaction) (expectedAuthor : String) :
    (processIncomingInteraction S fails now i expectedAuthor st c).Genuine S signed me := by
  unfold processIncomingInteraction
  split
  next haccepts =>
    have hsigner := (Bool.and_eq_true_iff.mp haccepts.1).2
    exact hc.saveInteraction (signed_of_signerAccepts hunf hst hsigner)
  next => exact hc

theorem genuine_deletions (hc : c.Genuine S signed me) (pk id author signature : String) :
    (handleDeletePost S fails pk id author signature st c).Genuine S signed me ∧
      (handleDeleteInteraction S fails pk id author signature st c).Genuine S signed me := by
  have hpost : (c.deletePost id).Genuine S signed me := hc.subset List.filter_sublist.subset (List.Subset.refl _)
  have hinteraction : (c.deleteInteraction id author).Genuine S signed me :=
    hc.subset (List.Subset.refl _) List.filter_sublist.subset
  constructor
  · unfold handleDeletePost
    split
    · split
      · split
        · exact hpost
        · exact hc
      · exact hc
    · exact hc
  · unfold handleDeleteInteraction
    split
    · exact hinteraction
    · exact hc

theorem content_runTask (task : Task) : (w.runTask l task).1.store.content = w.store.content := by
  cases task with
  | saveAnnouncement | updateTransportNodeIds =>
    simp only [Node.runTask]
    split <;> rfl
  | readTransportNodeIds | cacheRotation | saveProfile => rfl

theorem genuine_handle (hunf : ∀ k m σ, S.verify k m σ = true → signed k m)
    (hst : w.store.storage.ResolvesDelegated S signed) (hw : w.store.content.Genuine S signed me) (e : Event) :
    (w.handle S me l e).store.content.Genuine S signed me := by
  cases e with
  | post sender p =>
    simp only [Node.handle]
    split
    · exact genuine_processIncomingPost hunf hst hw p
    · exact hw
  | interaction sender i => exact genuine_processIncomingInteraction hunf hst hw i sender
  | deletePost pk id author signature => exact (genuine_deletions hw pk id author signature).1
  | deleteInteraction pk id author signature => exact (genuine_deletions hw pk id author signature).2
  | followResponse response => cases response <;> exact hw
  | identity identity =>
    simp only [Node.handle]
    split <;> exact hw
  | followRequest | linkedDevices | signingKeyRotation | deviceAnnouncement =>
    simp only [Node.handle]
    split <;> exact hw
  | hiddenContent | profileUpdate | pushProfile | syncProfile => exact hw

theorem genuine_step (hunf : ∀ k m σ, S.verify k m σ = true → signed k m)
    (hst : w.store.storage.ResolvesDelegated S signed) (hw : w.store.content.Genuine S signed me)
    (hown : w.OwnEdits me l) (hstep : w.step S me l = some t) : t.store.content.Genuine S signed me := by
  obtain ⟨action, now, fails⟩ := l
  cases action with
  | event e =>
    obtain rfl := Option.some.inj hstep
    exact genuine_handle hunf hst hw e
  | task i =>
    obtain ⟨task, -, rfl⟩ := Option.map_eq_some_iff.mp hstep
    show (w.runTask ⟨.task i, now, fails⟩ task).1.store.content.Genuine S signed me
    rw [content_runTask]
    exact hw
  | restart =>
    obtain rfl := Option.some.inj hstep
    exact hw
  | edit profiles socialGraph content =>
    obtain rfl := Option.some.inj hstep
    -- the user's commands bring in rows of his own only
    refine ⟨fun p hp hne => ?_, fun i hi hne => ?_⟩
    · exact hw.posts p ((hown.1 p hp).resolve_right hne) hne
    · exact hw.interactions i ((hown.2 i hi).resolve_right hne) hne

end Steps

/-- Whatever comes in, in whatever order, and whatever fails: as long as the responses that are cached are
vouched for, every post and every like that is stored in another's name was signed, as it is, by this
author's master key or a key that it delegated. -/
theorem stored_content_genuine (signed : PublicKey → Bytes → Prop)
    (hunf : ∀ k m σ, S.verify k m σ = true → signed k m) {store : PeerStore}
    (hcache : store.storage.Authentic S) (hcontent : store.content.Genuine S signed me) {run : List Label}
    (hvouched : Machine.Along (Node.step S me) (Node.VouchedResponse S) ⟨store, []⟩ run)
    (hown : Machine.Along (Node.step S me) (Node.OwnEdits me) ⟨store, []⟩ run) {t : Node}
    (hrun : Machine.exec (Node.step S me) ⟨store, []⟩ run = some t) : t.store.content.Genuine S signed me := by
  have hinv : t.Checked S ∧ t.store.storage.Authentic S ∧ t.store.content.Genuine S signed me := by
    refine Machine.exec_invariant (I := fun w => w.Checked S ∧ w.store.storage.Authentic S ∧
      w.store.content.Genuine S signed me) ?_ ?_ (hvouched.and hown) hrun
    · rintro u l v ⟨hchecked, hauthentic, hgenuine⟩ ⟨hok, hedits⟩ hstep
      refine ⟨Node.checked_step hchecked hstep, (Node.authentic_step_iff hchecked hauthentic).mpr hok v hstep, ?_⟩
      exact genuine_step hunf (hauthentic.resolvesDelegated hunf) hgenuine hedits hstep
    · exact ⟨fun u hu => (nomatch hu), hcache, hcontent⟩
  exact hinv.2.2

section Examples

/-- What verifies under a key of the checksum scheme, its owner signed. -/
def ChecksumSigned (k : PublicKey) (m : Bytes) : Prop := ∃ σ, checksumCrates.verify k m σ = true

/-- A post of Bob's, signed with the key that he delegated to. -/
def bobsPost : Post :=
  let p : Post := ⟨"p", "bob", "hello", 0, [], none, none, none, none, ""⟩
  { p with signature := hexEncode (checksumSign "b0" (postSigningBytes p)) }

def bobAnswers : Label := Event.calm (.identity (responseOf "bob" (checksumDelegation "bob" "b0" "" 0)))

def bobPosts : Label := Event.calm (.post (some "bob") bobsPost)

theorem stored_content_genuine_bob : ∃ t, Machine.exec (Node.step checksumCrates "me") ⟨PeerStore.empty, []⟩
    [bobAnswers, bobPosts] = some t ∧ bobsPost ∈ t.store.content.posts ∧
      GenuinePost checksumCrates ChecksumSigned bobsPost := by
  let v : Node := Node.cachePeerIdentity bobAnswers (responseOf "bob" (checksumDelegation "bob" "b0" "" 0))
    ⟨PeerStore.empty, []⟩
  have hverified : verifyPostSignature checksumCrates bobsPost (checksumKey "b0") = .ok () :=
    verifySigned_checksum "post" "b0" (postSigningBytes bobsPost)
  have haccepts : acceptsPost checksumCrates (fun _ => false) 0 bobsPost v.store.storage = true := by
    have hresolve : resolveSigner checksumCrates (PeerFails.table fun _ => false) bobsPost.author v.store.storage =
        some (checksumKey "b0") := rfl
    have hvalid : (validatePost 0 bobsPost).toBool = true := rfl
    have hsigner : signerAccepts checksumCrates (fun _ => false) (verifyPostSignature checksumCrates bobsPost)
        bobsPost.author v.store.storage = true := by
      unfold signerAccepts
      rw [hresolve]
      exact Checks.toBool_eq_true.mpr hverified
    exact Bool.and_eq_true_iff.mpr ⟨hvalid, hsigner⟩
  have hstored : (processIncomingPost checksumCrates (fun _ => false) 0 bobsPost v.store.storage
      v.store.content).2 = v.store.content.insertPost bobsPost := by
    rw [processIncomingPost, if_pos ⟨haccepts, rfl⟩]
  have hpost : Node.step checksumCrates "me" v bobPosts =
      some (v.setContent (v.store.content.insertPost bobsPost)) := by
    have hfeed : ∀ pk ∈ some "bob", bobsPost.author = pk := by decide
    have hhandle : v.handle checksumCrates "me" bobPosts (.post (some "bob") bobsPost) =
        v.setContent (processIncomingPost checksumCrates (fun _ => false) 0 bobsPost v.store.storage
          v.store.content).2 := by
      show (if ∀ pk ∈ some "bob", bobsPost.author = pk then _ else v) = _
      exact if_pos hfeed
    rw [← hstored, ← hhandle]
    rfl
  have hrun : Machine.exec (Node.step checksumCrates "me") ⟨PeerStore.empty, []⟩ [bobAnswers, bobPosts] =
      some (v.setContent (v.store.content.insertPost bobsPost)) :=
    Machine.exec_cons_eq_some.mpr ⟨v, rfl, Machine.exec_cons_eq_some.mpr ⟨_, hpost, rfl⟩⟩
  have hvouched : Machine.Along (Node.step checksumCrates "me") (Node.VouchedResponse checksumCrates)
      ⟨PeerStore.empty, []⟩ [bobAnswers, bobPosts] :=
    ⟨fun _ => vouched_responseOf "bob" "b0" "" 0, fun _ _ => ⟨trivial, fun _ _ => trivial⟩⟩
  have hown : Machine.Along (Node.step checksumCrates "me") (Node.OwnEdits "me") ⟨PeerStore.empty, []⟩
      [bobAnswers, bobPosts] := ⟨trivial, fun _ _ => ⟨trivial, fun _ _ => trivial⟩⟩
  have hmem : bobsPost ∈ (v.setContent (v.store.content.insertPost bobsPost)).store.content.posts :=
    List.mem_singleton.mpr rfl
  have hcache : PeerStore.empty.storage.Authentic checksumCrates := fun r hr => absurd hr List.not_mem_nil
  have hcontent : PeerStore.empty.content.Genuine checksumCrates ChecksumSigned "me" :=
    ⟨fun p hp => absurd hp List.not_mem_nil, fun i hi => absurd hi List.not_mem_nil⟩
  have hgenuine := stored_content_genuine ChecksumSigned (fun k m σ h => ⟨σ, h⟩) hcache hcontent hvouched hown hrun
  exact ⟨_, hrun, hmem, hgenuine.posts bobsPost hmem (by decide)⟩

end Examples
end Proscenium.Client
