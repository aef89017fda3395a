import Proscenium.Lib.Machine
import Proscenium.Server.FrameIngestion
import Proscenium.Types.ChecksumScheme

/-! The watermark of an author over the runs of the server. It is the newest time
of all posts that arrived, stored or not and whoever wrote them, and a later
sync asks for nothing at or below it. A sync and a message are handled to their
end before the next one: handlers do not overlap. -/

namespace Proscenium.Server

open Proscenium.Types

def resolveSigner (S : SignatureCrates) (fails : Bool) (masterPubkey : String) (ix : Index) :
    Option PublicKey :=
  if fails then none
  else (ix.getPeerSigningPubkey masterPubkey).bind fun signingPubkey =>
    (S.parsePublicKey signingPubkey).toOption

namespace Index

def deletePost (id author : String) (ix : Index) : Index :=
  { ix with posts := Table.deleteWhere (fun p => p.id = id ∧ p.author = author) ix.posts }

def pruneOldPosts (before : Int64) (ix : Index) : Index :=
  { ix with posts := Table.deleteWhere (fun p => p.storedTimestamp < before) ix.posts }

/-- The statements that remove a user's content, as far as they get. -/
def purge (pubkey : String) (statements : Nat) (ix : Index) : Index where
  registered := ix.registered
  peerDelegations := ix.peerDelegations
  interactions :=
    if 0 < statements then Table.deleteWhere (·.author = pubkey) ix.interactions else ix.interactions
  posts := if 1 < statements then Table.deleteWhere (·.author = pubkey) ix.posts else ix.posts
  syncState := if 2 < statements then Table.deleteWhere (·.pubkey = pubkey) ix.syncState else ix.syncState

end Index

variable (S : SignatureCrates)

def acceptsDelete (fails : Bool) (id author signature : String) (ix : Index) : Bool :=
  match resolveSigner S fails author ix with
  | some signer => (verifyDeletePostSignature S id author signature signer).toBool
  | none => true

def processDeletePost (fails : Bool) (id author signature : String) (ix : Index) : Index :=
  if acceptsDelete S fails id author signature ix then ix.deletePost id author else ix

/-- The server, with what the device of one author held at the last sync that was recorded and was
valid then, and the posts that the author has deleted. -/
structure Watched where
  index : Index
  held : List Post
  deleted : List String

namespace Watched

/-- `content` is what the device of `pubkey` holds. A broken sync is not recorded, though some of
its frames may have been taken in. Registrations and rotations change the two tables of keys. -/
inductive Label where
  | sync (pubkey : String) (content : List Post) (answer : Option (SyncSummary × List SyncFrame))
      (env : IngestEnv) (now : UInt64)
  | brokenSync (frames : List SyncFrame) (env : IngestEnv)
  | gossipPost (p : Post) (fails : IngestFails) (now : UInt64)
  | authorDeletes (id : String)
  | deletePost (fails : Bool) (id author signature : String)
  | prune (before : Int64)
  | purge (pubkey : String) (statements : Nat)
  | rekey (registered : List String) (peerDelegations : List PeerDelegation)

def validHeld (me : String) (content : List Post) (now : UInt64) (ix : Index) : List Post :=
  content.filter fun p => p.author = me ∧ acceptsPost S (fun _ => false) now p ix = true

def next (me : String) (s : Watched) : Label → Watched
  | .sync pubkey content answer env now =>
    { s with
      index := (syncFromPeerInner S env now pubkey (fun _ => answer) s.index).2
      held :=
        if pubkey = me ∧ answer.isSome ∧ me ∈ s.index.registered then
          validHeld S me content now s.index
        else s.held }
  | .brokenSync frames env => { s with index := (takeFrames S env frames s.index).index }
  | .gossipPost p fails now => { s with index := ingestPost S fails now p s.index }
  | .authorDeletes id => { s with deleted := id :: s.deleted }
  | .deletePost fails id author signature =>
    { s with index := processDeletePost S fails id author signature s.index }
  | .prune before => { s with index := s.index.pruneOldPosts before }
  | .purge pubkey statements => { s with index := s.index.purge pubkey statements }
  | .rekey registered peerDelegations =>
    { s with
      index := { s.index with
        registered := registered
        peerDelegations := peerDelegations } }

def step (me : String) (s : Watched) (l : Label) : Option Watched := some (s.next S me l)

/-- What is at or below the watermark is stored, or was deleted. -/
def Sound (me : String) (s : Watched) : Prop :=
  ∀ mark, s.index.lastPostTimestamp me = some mark → ∀ p ∈ s.held, p.storedTimestamp ≤ mark →
    p ∈ s.index.posts ∨ p.id ∈ s.deleted

def arriving (summary : SyncSummary) (frames : List SyncFrame) : List Post :=
  if summary.mode = .upToDate then [] else frames.flatMap SyncFrame.posts?

def markAfter (old : Option Int64) (posts : List Post) : Option Int64 :=
  if posts = [] then old else some (Timeline.newest Post.storedTimestamp 0 posts)

/-- The first post under its key that passes the ingestion, with no other one stored. -/
def Arrives (env : IngestEnv) (ix : Index) (posts : List Post) (p : Post) : Prop :=
  (∀ q ∈ ix.posts, Index.postClash p q = false) ∧
    (posts.filter fun q => StoresPost S env ix q).find? (Index.postClash p) = some p

/-- Of the posts the author's device held, those at or below the watermark. -/
def Reached (me : String) (s : Watched) (p : Post) : Prop :=
  p ∈ s.held ∧ (∃ mark, s.index.lastPostTimestamp me = some mark ∧ p.storedTimestamp ≤ mark) ∧
    p.id ∉ s.deleted

/-- Every valid post that the device holds, up to the newest post that arrives, is stored or
arrives itself; and what the server removes was deleted by the author or is above the watermark. -/
def Covers (me : String) (s : Watched) : Label → Prop
  | .sync pubkey content (some (summary, frames)) env now =>
    pubkey = me → me ∈ s.index.registered → ∀ mark,
      markAfter (s.index.lastPostTimestamp me) (arriving summary frames) = some mark →
      ∀ p ∈ validHeld S me content now s.index, p.storedTimestamp ≤ mark →
        p ∈ s.index.posts ∨ Arrives S env s.index (arriving summary frames) p ∨ p.id ∈ s.deleted
  | .deletePost fails id author signature =>
    author = me → acceptsDelete S fails id author signature s.index = true →
      ∀ p, s.Reached me p → p.id ≠ id
  | .prune before => ∀ p, s.Reached me p → before ≤ p.storedTimestamp
  | .purge pubkey statements => pubkey = me → statements = 2 → ∀ p, ¬ s.Reached me p
  | _ => True

def fresh : Watched := ⟨⟨[], [], [], [], []⟩, [], []⟩

def Authored (me : String) (s : Watched) : Prop := ∀ p ∈ s.held, p.author = me

variable {S : SignatureCrates} {me : String} {s s' : Watched}

theorem Sound.grow (h : s.Sound me) (hheld : s'.held = s.held)
    (hmark : s'.index.lastPostTimestamp me = s.index.lastPostTimestamp me)
    (hposts : s.index.posts ⊆ s'.index.posts) (hdeleted : s.deleted ⊆ s'.deleted) : s'.Sound me := by
  intro mark hm p hp hts
  rw [hmark] at hm
  rw [hheld] at hp
  exact (h mark hm p hp hts).imp (fun hp => hposts hp) fun hp => hdeleted hp

theorem Sound.remove_iff (h : s.Sound me) (ix : Index) (gone : Post → Bool)
    (hmark : ix.lastPostTimestamp me = s.index.lastPostTimestamp me)
    (hposts : ix.posts = Table.deleteWhere gone s.index.posts) :
    Sound me { s with index := ix } ↔ ∀ p, s.Reached me p → gone p = false := by
  unfold Sound
  rw [hmark, hposts]
  constructor
  · rintro h' p ⟨hp, ⟨mark, hm, hts⟩, hnot⟩
    have hkept := (h' mark hm p hp hts).resolve_right hnot
    simpa using (List.mem_filter.mp hkept).2
  · intro h' mark hm p hp hts
    by_cases hdel : p.id ∈ s.deleted
    · exact Or.inr hdel
    · have hold := (h mark hm p hp hts).resolve_right hdel
      have hstay := h' p ⟨hp, ⟨mark, hm, hts⟩, hdel⟩
      exact Or.inl (List.mem_filter.mpr ⟨hold, by simp [hstay]⟩)

section Sync

variable {pubkey : String} {content : List Post} {answer : Option (SyncSummary × List SyncFrame)}
  {env : IngestEnv} {now : UInt64} {ix : Index}

theorem lastPostTimestamp_updateSyncState {lastPostTs lastInteractionTs : Option Int64} :
    (ix.updateSyncState pubkey now lastPostTs lastInteractionTs).lastPostTimestamp me =
      if pubkey = me ∧ me ∈ ix.registered then lastPostTs.or (ix.lastPostTimestamp me)
      else ix.lastPostTimestamp me := by
  unfold Index.updateSyncState Index.lastPostTimestamp Index.syncRow
  by_cases hreg : pubkey ∈ ix.registered
  · rw [if_pos hreg]
    by_cases hme : pubkey = me
    · obtain rfl := hme
      rw [if_pos ⟨rfl, hreg⟩]
      dsimp only
      rw [Table.find_upsert_self]
      · cases Table.find SyncRow.pubkey pubkey ix.syncState with
        | none => simp
        | some row => rfl
      · exact fun _ => rfl
      · rfl
    · rw [if_neg fun h => hme h.1]
      dsimp only
      rw [Table.find_upsert_of_ne]
      · exact fun _ => rfl
      · rfl
      · exact Ne.symm hme
  · rw [if_neg hreg, if_neg]
    rintro ⟨rfl, h⟩
    exact hreg h

theorem posts_sync : (syncFromPeerInner S env now pubkey (fun _ => answer) ix).2.posts =
    match answer with
    | none => ix.posts
    | some (summary, frames) =>
      if summary.mode = .upToDate then ix.posts else (takeFrames S env frames ix).index.posts := by
  unfold syncFromPeerInner
  cases answer with
  | none => rfl
  | some answer =>
    obtain ⟨summary, frames⟩ := answer
    by_cases hmode : summary.mode = .upToDate
    · simp only [if_pos hmode, Index.updateSyncState_posts]
    · simp only [if_neg hmode, Index.updateSyncState_posts]

theorem lastPostTimestamp_sync {summary : SyncSummary} {frames : List SyncFrame} :
    (syncFromPeerInner S env now pubkey (fun _ => some (summary, frames)) ix).2.lastPostTimestamp me =
      if pubkey = me ∧ me ∈ ix.registered then
        markAfter (ix.lastPostTimestamp me) (arriving summary frames)
      else ix.lastPostTimestamp me := by
  unfold syncFromPeerInner markAfter arriving
  by_cases hmode : summary.mode = .upToDate
  · simp only [if_pos hmode, lastPostTimestamp_updateSyncState, Option.none_or, if_true]
  · have htook := took_takeFrames S env frames ix
    have hlast : (takeFrames S env frames ix).lastPost =
        if frames.flatMap SyncFrame.posts? = [] then none
        else some (Timeline.newest Post.storedTimestamp 0 (frames.flatMap SyncFrame.posts?)) :=
      htook.lastPost.trans foldl_latest_none
    have hrow : (takeFrames S env frames ix).index.lastPostTimestamp me = ix.lastPostTimestamp me := by
      unfold Index.lastPostTimestamp Index.syncRow
      rw [htook.grows.syncState]
    simp only [if_neg hmode, lastPostTimestamp_updateSyncState, hlast, hrow, htook.grows.registered]
    refine if_congr Iff.rfl ?_ rfl
    split <;> rfl

theorem subset_posts_sync :
    ix.posts ⊆ (syncFromPeerInner S env now pubkey (fun _ => answer) ix).2.posts := by
  rw [posts_sync]
  cases answer with
  | none => exact List.Subset.refl _
  | some answer =>
    obtain ⟨summary, frames⟩ := answer
    show ix.posts ⊆ if summary.mode = .upToDate then ix.posts else _
    split
    · exact List.Subset.refl _
    · exact (took_takeFrames S env frames ix).grows.posts

theorem mem_posts_sync {summary : SyncSummary} {frames : List SyncFrame} {p : Post} :
    p ∈ (syncFromPeerInner S env now pubkey (fun _ => some (summary, frames)) ix).2.posts ↔
      p ∈ ix.posts ∨ Arrives S env ix (arriving summary frames) p := by
  rw [posts_sync]
  show p ∈ (if summary.mode = .upToDate then ix.posts else _) ↔ _
  unfold arriving Arrives
  split
  · exact (or_iff_left fun h => (nomatch h.2)).symm
  · exact mem_posts_takeFrames

theorem sound_sync_iff {summary : SyncSummary} {frames : List SyncFrame} (h : s.Sound me) :
    (s.next S me (.sync pubkey content (some (summary, frames)) env now)).Sound me ↔
      s.Covers S me (.sync pubkey content (some (summary, frames)) env now) := by
  by_cases hrec : pubkey = me ∧ me ∈ s.index.registered
  · have hheld : (s.next S me (.sync pubkey content (some (summary, frames)) env now)).held =
        validHeld S me content now s.index := if_pos ⟨hrec.1, rfl, hrec.2⟩
    have hmark : (s.next S me (.sync pubkey content (some (summary, frames)) env now)).index.lastPostTimestamp
        me = markAfter (s.index.lastPostTimestamp me) (arriving summary frames) :=
      lastPostTimestamp_sync.trans (if_pos hrec)
    have hposts : ∀ p, p ∈ (s.next S me
        (.sync pubkey content (some (summary, frames)) env now)).index.posts ↔
          p ∈ s.index.posts ∨ Arrives S env s.index (arriving summary frames) p := fun _ => mem_posts_sync
    unfold Sound
    rw [hheld, hmark]
    simp only [hposts, or_assoc]
    exact ⟨fun h' _ _ => h', fun h' => h' hrec.1 hrec.2⟩
  · refine iff_of_true (h.grow ?_ ?_ subset_posts_sync (List.Subset.refl _)) fun hme hreg => ?_
    · exact if_neg fun hall => hrec ⟨hall.1, hall.2.2⟩
    · exact lastPostTimestamp_sync.trans (if_neg hrec)
    · exact absurd ⟨hme, hreg⟩ hrec

end Sync

theorem lastPostTimestamp_of_syncState {ix ix' : Index} (h : ix'.syncState = ix.syncState) :
    ix'.lastPostTimestamp me = ix.lastPostTimestamp me := by
  unfold Index.lastPostTimestamp Index.syncRow
  rw [h]

theorem Sound.grows (h : s.Sound me) {ix : Index} (hgrows : s.index.Grows ix) :
    Sound me { s with index := ix } :=
  h.grow rfl (lastPostTimestamp_of_syncState hgrows.syncState) hgrows.posts (List.Subset.refl _)

theorem sound_deletePost_iff {fails : Bool} {id author signature : String} (hauthored : s.Authored me)
    (h : s.Sound me) : (s.next S me (.deletePost fails id author signature)).Sound me ↔
      s.Covers S me (.deletePost fails id author signature) := by
  show Sound me { s with index := processDeletePost S fails id author signature s.index } ↔
    (author = me → acceptsDelete S fails id author signature s.index = true → _)
  unfold processDeletePost
  split
  next haccepts =>
    have hremove : Sound me { s with index := s.index.deletePost id author } ↔
        ∀ p, s.Reached me p → decide (p.id = id ∧ p.author = author) = false :=
      h.remove_iff _ _ rfl rfl
    rw [hremove]
    constructor
    · rintro hkeep rfl - p hp hid
      exact of_decide_eq_false (hkeep p hp) ⟨hid, hauthored p hp.1⟩
    · intro hkeep p hp
      refine decide_eq_false fun hsame => ?_
      exact hkeep (hsame.2.symm.trans (hauthored p hp.1)) haccepts p hp hsame.1
  next haccepts => exact iff_of_true h fun _ hacc => absurd hacc haccepts

theorem sound_purge_iff {pubkey : String} {statements : Nat} (hauthored : s.Authored me)
    (h : s.Sound me) : (s.next S me (.purge pubkey statements)).Sound me ↔
      s.Covers S me (.purge pubkey statements) := by
  show Sound me { s with index := s.index.purge pubkey statements } ↔
    (pubkey = me → statements = 2 → ∀ p, ¬ s.Reached me p)
  rcases Nat.lt_trichotomy statements 2 with hlt | rfl | hgt
  · have hsame : (s.index.purge pubkey statements).posts = s.index.posts := if_neg (by omega)
    have hrow : (s.index.purge pubkey statements).syncState = s.index.syncState := if_neg (by omega)
    refine iff_of_true ?_ fun _ htwo => absurd htwo (by omega)
    refine h.grow rfl (lastPostTimestamp_of_syncState hrow) ?_ (List.Subset.refl _)
    show s.index.posts ⊆ (s.index.purge pubkey statements).posts
    rw [hsame]
    exact List.Subset.refl _
  · -- the posts are gone, and the watermark is not
    have hremove : Sound me { s with index := s.index.purge pubkey 2 } ↔
        ∀ p, s.Reached me p → decide (p.author = pubkey) = false := h.remove_iff _ _ rfl rfl
    rw [hremove]
    constructor
    · rintro hkeep rfl - p hp
      exact of_decide_eq_false (hkeep p hp) (hauthored p hp.1)
    · intro hkeep p hp
      refine decide_eq_false fun hsame => ?_
      exact hkeep (hsame.symm.trans (hauthored p hp.1)) rfl p hp
  · refine iff_of_true ?_ fun _ htwo => absurd htwo (by omega)
    have hrows : (s.index.purge pubkey statements).syncState =
        Table.deleteWhere (·.pubkey = pubkey) s.index.syncState := if_pos (by omega)
    have hposts : (s.index.purge pubkey statements).posts =
        Table.deleteWhere (·.author = pubkey) s.index.posts := if_pos (by omega)
    intro mark hmark p hp hts
    by_cases hme : pubkey = me
    · obtain rfl := hme
      have hnone : Table.find SyncRow.pubkey pubkey (s.index.purge pubkey statements).syncState = none := by
        rw [hrows]
        unfold Table.find Table.deleteWhere
        rw [List.find?_eq_none]
        intro r hr
        simpa using (List.mem_filter.mp hr).2
      unfold Index.lastPostTimestamp Index.syncRow at hmark
      rw [hnone] at hmark
      exact nomatch hmark
    · have hrow : (s.index.purge pubkey statements).lastPostTimestamp me =
          s.index.lastPostTimestamp me := by
        unfold Index.lastPostTimestamp Index.syncRow
        rw [hrows, Table.find_deleteWhere_of_ne]
        rintro r rfl
        exact decide_eq_false (Ne.symm hme)
      rw [hrow] at hmark
      refine (h mark hmark p hp hts).imp_left fun hold => ?_
      rw [hposts]
      refine List.mem_filter.mpr ⟨hold, ?_⟩
      have hauthor : p.author ≠ pubkey := fun hsame => hme (hsame.symm.trans (hauthored p hp))
      simpa using hauthor

theorem sound_next_iff {l : Label} (hauthored : s.Authored me) (h : s.Sound me) :
    (s.next S me l).Sound me ↔ s.Covers S me l := by
  cases l with
  | sync pubkey content answer env now =>
    cases answer with
    | none =>
      refine iff_of_true (h.grow (if_neg ?_) rfl (List.Subset.refl _) (List.Subset.refl _)) trivial
      exact fun hall => nomatch hall.2.1
    | some answer => exact sound_sync_iff h
  | brokenSync frames env => exact iff_of_true (h.grows (took_takeFrames S env frames s.index).grows) trivial
  | gossipPost p fails now => exact iff_of_true (h.grows (grows_ingestPost p s.index)) trivial
  | authorDeletes id =>
    exact iff_of_true (h.grow rfl rfl (List.Subset.refl _) (List.subset_cons_self _ _)) trivial
  | deletePost fails id author signature => exact sound_deletePost_iff hauthored h
  | prune before =>
    have hremove : Sound me { s with index := s.index.pruneOldPosts before } ↔
        ∀ p, s.Reached me p → decide (p.storedTimestamp < before) = false := h.remove_iff _ _ rfl rfl
    refine hremove.trans (forall_congr' fun p => imp_congr_right fun _ => ?_)
    rw [decide_eq_false_iff_not]
    exact not_lt
  | purge pubkey statements => exact sound_purge_iff hauthored h
  | rekey registered peerDelegations =>
    exact iff_of_true (h.grow rfl rfl (List.Subset.refl _) (List.Subset.refl _)) trivial

theorem Authored.next (h : s.Authored me) (l : Label) : (s.next S me l).Authored me := by
  cases l with
  | sync pubkey content answer env now =>
    intro p hp
    have hp : p ∈ if pubkey = me ∧ answer.isSome ∧ me ∈ s.index.registered then
        validHeld S me content now s.index else s.held := hp
    split at hp
    · exact (of_decide_eq_true (List.mem_filter.mp hp).2).1
    · exact h p hp
  | _ => exact h

/-- In all states of a run of the server, everything at or below the watermark is stored, exactly if
every step covers what the watermark passes. -/
theorem watermark_sound_iff (S : SignatureCrates) (me : String) (run : List Label) :
    (∀ init s, init <+: run → Machine.exec (step S me) fresh init = some s → s.Sound me) ↔
      Machine.Along (step S me) (Covers S me) fresh run := by
  have hstart : fresh.Authored me ∧ fresh.Sound me :=
    ⟨fun p hp => (nomatch hp), fun mark hmark => (nomatch hmark)⟩
  refine Machine.forall_prefix_iff_along (I := fun s => s.Authored me ∧ s.Sound me) ?_ ?_ hstart hstart.2
  · intro s l hs
    rw [← sound_next_iff hs.1 hs.2]
    exact ⟨fun h => h _ rfl, fun h t ht => Option.some.inj ht ▸ h⟩
  · intro s l t hs _ hsound hstep
    obtain rfl := Option.some.inj hstep
    exact ⟨hs.1.next l, hsound⟩

section Examples

/-- Nothing on the device fails, at time 20. -/
def calm : IngestEnv := ⟨fun _ => (fun _ => false, 20), fun _ => (fun _ => false, 20)⟩

def aliceSignature : String :=
  hexEncode (checksumSign "alice" (postSigningBytes ⟨"b", "alice", "", 2, [], none, none, none, none, ""⟩))

def alicePost (signature : String) : Post :=
  ⟨"b", "alice", "", 2, [], none, none, none, none, signature⟩

/-- A post of someone who is not registered. -/
def foreignPost : Post := ⟨"x", "mallory", "", 9, [], none, none, none, none, ""⟩

def foreignRun (signature : String) : List Label :=
  [.rekey ["alice"] [],
    .sync "alice" [alicePost signature]
      (some (⟨1, 0, 1, 0, .timestampCatchUp, none⟩, [.posts [foreignPost]])) calm 20]

theorem accepts_alicePost {ix : Index}
    (hsigner : signerOf checksumCrates (fun _ => false) "alice" ix = .ok (checksumKey "alice")) :
    acceptsPost checksumCrates (fun _ => false) 20 (alicePost aliceSignature) ix = true := by
  have hvalid : ∀ σ, (validatePost 20 (alicePost σ)).toBool = true := fun _ => rfl
  have hbytes : ∀ σ, postSigningBytes (alicePost σ) = postSigningBytes (alicePost "") := fun _ => rfl
  have hsigned : verifyPostSignature checksumCrates (alicePost aliceSignature) (checksumKey "alice") =
      .ok () := by
    unfold verifyPostSignature
    rw [hbytes]
    exact verifySigned_checksum "post" "alice" _
  have haccepts : signerAccepts checksumCrates (fun _ => false)
      (verifyPostSignature checksumCrates (alicePost aliceSignature)) "alice" ix = true := by
    unfold signerAccepts
    rw [hsigner]
    exact congrArg Except.toBool hsigned
  unfold acceptsPost
  rw [hvalid, Bool.true_and]
  exact haccepts

/-- A post of mallory's moves the watermark of alice beyond her own post. -/
theorem not_watermark_sound_foreign :
    ¬ ∀ (S : SignatureCrates) (me : String) (run : List Label) (s : Watched),
      Machine.exec (step S me) fresh run = some s → s.Sound me := by
  intro h
  have hsound := h checksumCrates "alice" (foreignRun aliceSignature) _ rfl
  have hheld : alicePost aliceSignature ∈ validHeld checksumCrates "alice" [alicePost aliceSignature]
      20 ⟨["alice"], [], [], [], []⟩ :=
    List.mem_filter.mpr ⟨List.mem_singleton.mpr rfl, decide_eq_true ⟨rfl, accepts_alicePost rfl⟩⟩
  have hstored := hsound 9 rfl (alicePost aliceSignature) hheld (by decide : (2 : Int64) ≤ 9)
  rcases hstored with hstored | hdeleted
  · exact nomatch hstored
  · exact nomatch hdeleted

end Examples

end Watched
end Proscenium.Server
