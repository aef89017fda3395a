import Proscenium.Server.SyncDefs

/-! What the loop over the frames of a sync does to the tables and the counters:
every item goes through its ingestion at tables with the same keys, and the
counters see all of them. -/

namespace Proscenium.Server

open Proscenium.Types

structure Index.Grows (ix ix' : Index) : Prop where
  registered : ix'.registered = ix.registered
  peerDelegations : ix'.peerDelegations = ix.peerDelegations
  syncState : ix'.syncState = ix.syncState
  posts : ix.posts ⊆ ix'.posts
  interactions : ix.interactions ⊆ ix'.interactions

namespace Index

def postClash (p q : Post) : Bool := q.author = p.author ∧ q.id = p.id

def interactionClash (i j : Interaction) : Bool := j.author = i.author ∧ j.id = i.id

@[simp] theorem postClash_iff {p q : Post} :
    postClash p q = true ↔ q.author = p.author ∧ q.id = p.id := decide_eq_true_iff

@[simp] theorem interactionClash_iff {i j : Interaction} :
    interactionClash i j = true ↔ j.author = i.author ∧ j.id = i.id := decide_eq_true_iff

theorem postClash_symm (p q : Post) (h : postClash p q = true) : postClash q p = true := by
  rw [postClash_iff] at h ⊢
  exact h.imp Eq.symm Eq.symm

theorem interactionClash_symm (i j : Interaction) (h : interactionClash i j = true) :
    interactionClash j i = true := by
  rw [interactionClash_iff] at h ⊢
  exact h.imp Eq.symm Eq.symm

theorem postClash_trans (p q r : Post) (h : postClash p q = true) (h' : postClash q r = true) :
    postClash p r = true := by
  rw [postClash_iff] at h h' ⊢
  exact ⟨h'.1.trans h.1, h'.2.trans h.2⟩

theorem interactionClash_trans (i j k : Interaction) (h : interactionClash i j = true)
    (h' : interactionClash j k = true) : interactionClash i k = true := by
  rw [interactionClash_iff] at h h' ⊢
  exact ⟨h'.1.trans h.1, h'.2.trans h.2⟩

variable {ix ix' ix'' : Index}

theorem Grows.refl (ix : Index) : ix.Grows ix := ⟨rfl, rfl, rfl, fun _ h => h, fun _ h => h⟩

theorem Grows.trans (h : ix.Grows ix') (h' : ix'.Grows ix'') : ix.Grows ix'' where
  registered := h'.registered.trans h.registered
  peerDelegations := h'.peerDelegations.trans h.peerDelegations
  syncState := h'.syncState.trans h.syncState
  posts := fun _ hp => h'.posts (h.posts hp)
  interactions := fun _ hi => h'.interactions (h.interactions hi)

theorem grows_insertPost (p : Post) (ix : Index) : ix.Grows (ix.insertPost p) :=
  ⟨rfl, rfl, rfl, fun _ hq => Table.mem_insertOrIgnore_of_mem hq, fun _ h => h⟩

theorem grows_insertInteraction (i : Interaction) (ix : Index) : ix.Grows (ix.insertInteraction i) :=
  ⟨rfl, rfl, rfl, fun _ h => h, fun _ hj => Table.mem_insertOrIgnore_of_mem hj⟩

section UpdateSyncState

variable {pubkey : String} {now : UInt64} {lastPostTs lastInteractionTs : Option Int64}

theorem updateSyncState_posts :
    (ix.updateSyncState pubkey now lastPostTs lastInteractionTs).posts = ix.posts := by
  unfold updateSyncState
  split <;> rfl

theorem updateSyncState_interactions :
    (ix.updateSyncState pubkey now lastPostTs lastInteractionTs).interactions = ix.interactions := by
  unfold updateSyncState
  split <;> rfl

end UpdateSyncState
end Index

variable {S : SignatureCrates} {env : IngestEnv} {ix ix' : Index}

section Accepts

variable {fails : IngestFails} {now : UInt64}

theorem Index.Grows.acceptsPost_eq (h : ix.Grows ix') (p : Post) :
    acceptsPost S fails now p ix' = acceptsPost S fails now p ix := by
  unfold acceptsPost signerAccepts signerOf Index.getPeerSigningPubkey
  rw [h.peerDelegations]

theorem Index.Grows.acceptsInteraction_eq (h : ix.Grows ix') (i : Interaction) :
    acceptsInteraction S fails now i ix' = acceptsInteraction S fails now i ix := by
  unfold acceptsInteraction signerAccepts signerOf Index.getPeerSigningPubkey
  rw [h.peerDelegations]

theorem grows_ingestPost (p : Post) (ix : Index) : ix.Grows (ingestPost S fails now p ix) := by
  unfold ingestPost
  split
  · exact ix.grows_insertPost p
  · exact Index.Grows.refl ix

theorem grows_ingestInteraction (i : Interaction) (ix : Index) :
    ix.Grows (ingestInteraction S fails now i ix) := by
  unfold ingestInteraction
  split
  · exact ix.grows_insertInteraction i
  · exact Index.Grows.refl ix

end Accepts

/-- A post that its ingestion stores, or finds stored. -/
structure StoresPost (S : SignatureCrates) (env : IngestEnv) (ix : Index) (p : Post) : Prop where
  accepts : acceptsPost S (env.post p).1 (env.post p).2 p ix = true
  inserts : (env.post p).1 .insertPost = false
  registered : p.author ∈ ix.registered

structure StoresInteraction (S : SignatureCrates) (env : IngestEnv) (ix : Index) (i : Interaction) :
    Prop where
  accepts : acceptsInteraction S (env.interaction i).1 (env.interaction i).2 i ix = true
  inserts : (env.interaction i).1 .insertInteraction = false
  registered : i.author ∈ ix.registered

theorem StoresPost.iff_and {p : Post} : StoresPost S env ix p ↔
    acceptsPost S (env.post p).1 (env.post p).2 p ix = true ∧
      (env.post p).1 .insertPost = false ∧ p.author ∈ ix.registered :=
  ⟨fun h => ⟨h.accepts, h.inserts, h.registered⟩, fun h => ⟨h.1, h.2.1, h.2.2⟩⟩

theorem StoresInteraction.iff_and {i : Interaction} : StoresInteraction S env ix i ↔
    acceptsInteraction S (env.interaction i).1 (env.interaction i).2 i ix = true ∧
      (env.interaction i).1 .insertInteraction = false ∧ i.author ∈ ix.registered :=
  ⟨fun h => ⟨h.accepts, h.inserts, h.registered⟩, fun h => ⟨h.1, h.2.1, h.2.2⟩⟩

instance (p : Post) : Decidable (StoresPost S env ix p) := decidable_of_iff _ StoresPost.iff_and.symm

instance (i : Interaction) : Decidable (StoresInteraction S env ix i) :=
  decidable_of_iff _ StoresInteraction.iff_and.symm

theorem Index.Grows.storesPost_iff (h : ix.Grows ix') (p : Post) :
    StoresPost S env ix' p ↔ StoresPost S env ix p := by
  rw [StoresPost.iff_and, StoresPost.iff_and, h.acceptsPost_eq, h.registered]

theorem Index.Grows.storesInteraction_iff (h : ix.Grows ix') (i : Interaction) :
    StoresInteraction S env ix' i ↔ StoresInteraction S env ix i := by
  rw [StoresInteraction.iff_and, StoresInteraction.iff_and, h.acceptsInteraction_eq, h.registered]

theorem foldl_latest_some {times : List Int64} {last : Int64} : ∃ m, times.foldl latest (some last) = some m ∧
    (m = last ∨ m ∈ times) ∧ last ≤ m ∧ ∀ ts ∈ times, ts ≤ m := by
  induction times generalizing last with
  | nil => exact ⟨last, rfl, Or.inl rfl, le_rfl, by simp⟩
  | cons ts times ih =>
    by_cases hlt : last < ts
    · have hstep : latest (some last) ts = some ts := by simp [latest, hlt]
      obtain ⟨m, hm, hmem, hle, hall⟩ := @ih ts
      refine ⟨m, ?_, ?_, hlt.le.trans hle, List.forall_mem_cons.mpr ⟨hle, hall⟩⟩
      · rw [List.foldl_cons, hstep, hm]
      · rcases hmem with rfl | hmem
        · exact Or.inr List.mem_cons_self
        · exact Or.inr (List.mem_cons_of_mem ts hmem)
    · have hstep : latest (some last) ts = some last := by simp [latest, hlt]
      obtain ⟨m, hm, hmem, hle, hall⟩ := @ih last
      refine ⟨m, ?_, hmem.imp_right (List.mem_cons_of_mem ts), hle,
        List.forall_mem_cons.mpr ⟨(not_lt.mp hlt).trans hle, hall⟩⟩
      rw [List.foldl_cons, hstep, hm]

theorem foldl_latest_none {ρ : Type} {time : ρ → Int64} {zero : Int64} {t : List ρ} :
    (t.map time).foldl latest none = if t = [] then none else some (Timeline.newest time zero t) := by
  cases t with
  | nil => rfl
  | cons r t =>
    rw [if_neg (List.cons_ne_nil r t)]
    obtain ⟨m, hm, hmem, hle, hall⟩ := @foldl_latest_some (t.map time) (time r)
    have hfirst : latest none (time r) = some (time r) := rfl
    rw [List.map_cons, List.foldl_cons, hfirst, hm]
    obtain ⟨q, hq, hnewest⟩ : ∃ q ∈ r :: t, time q = Timeline.newest time zero (r :: t) :=
      Timeline.newest_mem (List.cons_ne_nil r t)
    refine congrArg some (le_antisymm ?_ ?_)
    · rcases hmem with rfl | hmem
      · exact Timeline.le_newest List.mem_cons_self
      · obtain ⟨q, hq, rfl⟩ := List.mem_map.mp hmem
        exact Timeline.le_newest (List.mem_cons_of_mem r hq)
    · rw [← hnewest]
      rcases List.mem_cons.mp hq with rfl | hq
      · exact hle
      · exact hall _ (List.mem_map_of_mem hq)

theorem ingestPost_posts (p : Post) (ix : Index) :
    (ingestPost S (env.post p).1 (env.post p).2 p ix).posts =
      Table.insertAll Index.postClash ([p].filter fun p => StoresPost S env ix p) ix.posts := by
  unfold ingestPost
  rw [List.filter_singleton]
  by_cases h : StoresPost S env ix p
  · rw [if_pos (StoresPost.iff_and.mp h), decide_eq_true h]
    rfl
  · rw [if_neg fun hp => h (StoresPost.iff_and.mpr hp), decide_eq_false h]
    rfl

theorem ingestInteraction_interactions (i : Interaction) (ix : Index) :
    (ingestInteraction S (env.interaction i).1 (env.interaction i).2 i ix).interactions =
      Table.insertAll Index.interactionClash ([i].filter fun i => StoresInteraction S env ix i)
        ix.interactions := by
  unfold ingestInteraction
  rw [List.filter_singleton]
  by_cases h : StoresInteraction S env ix i
  · rw [if_pos (StoresInteraction.iff_and.mp h), decide_eq_true h]
    rfl
  · rw [if_neg fun hi => h (StoresInteraction.iff_and.mpr hi), decide_eq_false h]
    rfl

/-- The loop went over these posts and interactions on the way. -/
structure Progress.Took (S : SignatureCrates) (env : IngestEnv) (ps : List Post)
    (is : List Interaction) (s s' : Progress) : Prop where
  grows : s.index.Grows s'.index
  posts : s'.index.posts = Table.insertAll Index.postClash
    (ps.filter fun p => StoresPost S env s.index p) s.index.posts
  interactions : s'.index.interactions = Table.insertAll Index.interactionClash
    (is.filter fun i => StoresInteraction S env s.index i) s.index.interactions
  lastPost : s'.lastPost = (ps.map Post.storedTimestamp).foldl latest s.lastPost
  lastInt : s'.lastInt = (is.map Interaction.storedTimestamp).foldl latest s.lastInt

namespace Progress

variable {s s' s'' : Progress} {posts posts' : List Post} {interactions interactions' : List Interaction}

theorem Took.nil (s : Progress) : Took S env [] [] s s :=
  ⟨Index.Grows.refl s.index, rfl, rfl, rfl, rfl⟩

theorem Took.append (h : Took S env posts interactions s s')
    (h' : Took S env posts' interactions' s' s'') :
    Took S env (posts ++ posts') (interactions ++ interactions') s s'' where
  grows := h.grows.trans h'.grows
  posts := by
    rw [h'.posts, h.posts, List.filter_append, Table.insertAll_append]
    simp only [h.grows.storesPost_iff]
  interactions := by
    rw [h'.interactions, h.interactions, List.filter_append, Table.insertAll_append]
    simp only [h.grows.storesInteraction_iff]
  lastPost := by rw [h'.lastPost, h.lastPost, List.map_append, List.foldl_append]
  lastInt := by rw [h'.lastInt, h.lastInt, List.map_append, List.foldl_append]

theorem took_takePost (p : Post) (s : Progress) : Took S env [p] [] s (s.takePost S env p) where
  grows := grows_ingestPost p s.index
  posts := ingestPost_posts p s.index
  interactions := by
    unfold takePost ingestPost
    split <;> rfl
  lastPost := rfl
  lastInt := rfl

theorem took_takeInteraction (i : Interaction) (s : Progress) :
    Took S env [] [i] s (s.takeInteraction S env i) where
  grows := grows_ingestInteraction i s.index
  posts := by
    unfold takeInteraction ingestInteraction
    split <;> rfl
  interactions := ingestInteraction_interactions i s.index
  lastPost := rfl
  lastInt := rfl

theorem took_takeFrame (frame : SyncFrame) (s : Progress) :
    Took S env frame.posts? frame.interactions? s (s.takeFrame S env frame) := by
  cases frame with
  | posts ps =>
    show Took S env ps [] s (ps.foldl (takePost S env) s)
    induction ps generalizing s with
    | nil => exact Took.nil s
    | cons p ps ih => exact (took_takePost p s).append (ih (s.takePost S env p))
  | interactions is =>
    show Took S env [] is s (is.foldl (takeInteraction S env) s)
    induction is generalizing s with
    | nil => exact Took.nil s
    | cons i is ih => exact (took_takeInteraction i s).append (ih (s.takeInteraction S env i))
  | deviceAnnouncements _ => exact Took.nil s

theorem took_foldl (frames : List SyncFrame) (s : Progress) :
    Took S env (frames.flatMap SyncFrame.posts?) (frames.flatMap SyncFrame.interactions?) s
      (frames.foldl (takeFrame S env) s) := by
  induction frames generalizing s with
  | nil => exact Took.nil s
  | cons frame frames ih => exact (took_takeFrame frame s).append (ih (s.takeFrame S env frame))

end Progress

theorem took_takeFrames (S : SignatureCrates) (env : IngestEnv) (frames : List SyncFrame) (ix : Index) :
    Progress.Took S env (frames.flatMap SyncFrame.posts?) (frames.flatMap SyncFrame.interactions?)
      ⟨ix, 0, 0, none, none⟩ (takeFrames S env frames ix) :=
  Progress.took_foldl frames ⟨ix, 0, 0, none, none⟩

theorem mem_posts_takeFrames {frames : List SyncFrame} {q : Post} :
    q ∈ (takeFrames S env frames ix).index.posts ↔
      q ∈ ix.posts ∨ (∀ r ∈ ix.posts, Index.postClash q r = false) ∧
        ((frames.flatMap SyncFrame.posts?).filter fun p => StoresPost S env ix p).find?
          (Index.postClash q) = some q := by
  rw [(took_takeFrames S env frames ix).posts]
  exact Table.mem_insertAll_iff (fun _ => Index.postClash_iff.mpr ⟨rfl, rfl⟩) Index.postClash_symm
    Index.postClash_trans

theorem mem_interactions_takeFrames {frames : List SyncFrame} {j : Interaction} :
    j ∈ (takeFrames S env frames ix).index.interactions ↔
      j ∈ ix.interactions ∨ (∀ r ∈ ix.interactions, Index.interactionClash j r = false) ∧
        ((frames.flatMap SyncFrame.interactions?).filter fun i => StoresInteraction S env ix i).find?
          (Index.interactionClash j) = some j := by
  rw [(took_takeFrames S env frames ix).interactions]
  exact Table.mem_insertAll_iff (fun _ => Index.interactionClash_iff.mpr ⟨rfl, rfl⟩)
    Index.interactionClash_symm Index.interactionClash_trans

end Proscenium.Server
