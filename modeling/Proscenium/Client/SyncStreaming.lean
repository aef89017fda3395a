import Proscenium.Client.SyncDefs
import Proscenium.Lib.Machine

/-! The batches of a sync when the serving device writes between them. Every
batch is a query of its own, and its offset counts the rows that were sent: rows
that come in move the others back, and are at worst in two batches; where a row
goes that was sent already, the ones behind it move up, and the first of them is
passed over. -/

namespace Proscenium.Client

open Proscenium.Types
open Machine

namespace ContentStore

def deletePostsByAuthor (author : String) (c : ContentStore) : ContentStore :=
  { c with posts := Table.deleteWhere (·.author = author) c.posts }

end ContentStore

/-- A sync once its mode is decided. `stayed` are the posts that were there when the
streaming began and have been since. -/
structure PostStream where
  req : SyncRequest
  mode : SyncMode
  knownIds : List String
  content : ContentStore
  offset : Nat
  sent : List Post
  ended : Bool
  stayed : List Post

namespace PostStream

inductive PostDeletion where
  | byId (id : String)
  | byAuthor (author : String)
  deriving DecidableEq, Repr

def PostDeletion.keeps : PostDeletion → Post → Bool
  | .byId id, p => p.id ≠ id
  | .byAuthor author, p => p.author ≠ author

inductive Label where
  | insertPost (p : Post)
  | delete (d : PostDeletion)
  | batch
  deriving DecidableEq, Repr

def start (req : SyncRequest) (mode : SyncMode) (knownIds : List String) (content : ContentStore) : PostStream :=
  ⟨req, mode, knownIds, content, 0, [], false, content.posts⟩

variable (s : PostStream)

def selection : List Post :=
  match s.mode with
  | .timestampCatchUp => s.content.getPostsAfter s.req.author s.req.newestTimestamp
  | .needIdDiff => s.content.getPostsNotIn s.req.author s.knownIds
  | .upToDate => []

def PostDeletion.apply (c : ContentStore) : PostDeletion → ContentStore
  | .byId id => c.deletePost id
  | .byAuthor author => c.deletePostsByAuthor author

def nextBatch : PostStream :=
  let batch := Timeline.page batchSize s.offset s.selection
  if batch.isEmpty then { s with ended := true }
  else { s with offset := s.offset + batch.length, sent := s.sent ++ batch }

def step (s : PostStream) (l : Label) : Option PostStream :=
  if s.ended then none
  else
    match l with
    | .insertPost p => some { s with content := s.content.insertPost p }
    | .delete d => some { s with content := d.apply s.content, stayed := s.stayed.filter d.keeps }
    | .batch => some s.nextBatch

def qualifies (p : Post) : Bool :=
  decide (p.author = s.req.author) && match s.mode with
    | .timestampCatchUp => decide (s.req.newestTimestamp.toInt64 < p.storedTimestamp)
    | .needIdDiff => decide (p.id ∉ s.knownIds)
    | .upToDate => false

def movedUp (d : PostDeletion) : List Post :=
  ((s.selection.drop s.offset).filter d.keeps).take
    (s.offset - ((s.selection.take s.offset).filter d.keeps).length)

/-- No post that was there from the start comes to stand before the offset unsent. -/
def Guarded : Label → Prop
  | .delete d => ∀ p ∈ s.movedUp d, p ∈ s.stayed → p ∈ s.sent
  | _ => True

structure Inv : Prop where
  present : s.stayed ⊆ s.content.posts
  ahead : ∀ p ∈ s.stayed, s.qualifies p → p ∈ s.sent ∨ p ∈ s.selection.drop s.offset
  complete : s.ended → ∀ p ∈ s.stayed, s.qualifies p → p ∈ s.sent

variable {s} {s' : PostStream}

theorem selection_eq : s.selection = Timeline.ordered Post.storedTimestamp (s.content.posts.filter s.qualifies) := by
  obtain ⟨req, mode, knownIds, content, offset, sent, ended, stayed⟩ := s
  have hfilter : ∀ f : Post → Bool, (content.postsBy req.author).filter f =
      content.posts.filter fun p => decide (p.author = req.author) && f p := by
    intro f
    unfold ContentStore.postsBy
    rw [List.filter_filter]
    exact congrArg (List.filter · content.posts) (funext fun p => Bool.and_comm ..)
  cases mode with
  | timestampCatchUp =>
    refine congrArg (Timeline.ordered _) ((hfilter _).trans (List.filter_congr fun p _ => ?_))
    exact congrArg (decide (p.author = req.author) && ·) (decide_eq_decide.mpr Iff.rfl)
  | needIdDiff =>
    show content.getPostsNotIn req.author knownIds = _
    unfold ContentStore.getPostsNotIn
    cases knownIds with
    | nil =>
      refine congrArg (Timeline.ordered _) (Eq.trans ?_ (hfilter fun p => decide (p.id ∉ ([] : List String))))
      exact (List.filter_eq_self.mpr fun p _ => decide_eq_true List.not_mem_nil).symm
    | cons id ids => exact congrArg (Timeline.ordered _) (hfilter fun p => decide (p.id ∉ id :: ids))
  | upToDate =>
    show [] = _
    have hnone : content.posts.filter
        (qualifies ⟨req, .upToDate, knownIds, content, offset, sent, ended, stayed⟩) = [] :=
      List.filter_eq_nil_iff.mpr fun p _ => by simp [qualifies]
    rw [hnone]
    rfl

theorem mem_selection {p : Post} : p ∈ s.selection ↔ p ∈ s.content.posts ∧ s.qualifies p := by
  rw [selection_eq, Timeline.mem_ordered, List.mem_filter]

theorem inv_start (req : SyncRequest) (mode : SyncMode) (knownIds : List String) (content : ContentStore) :
    (start req mode knownIds content).Inv where
  present := List.Subset.refl _
  ahead _ hp hq := .inr (mem_selection.mpr ⟨hp, hq⟩)
  complete h := absurd h Bool.false_ne_true

theorem inv_insertPost (h : s.Inv) (p : Post) : Inv { s with content := s.content.insertPost p } := by
  unfold ContentStore.insertPost Table.insertOrIgnore
  split
  · exact h
  · have hsub : s.selection.Sublist
        (selection { s with content := { s.content with posts := s.content.posts ++ [p] } }) := by
      rw [selection_eq, selection_eq]
      show (Timeline.ordered _ (s.content.posts.filter s.qualifies)).Sublist
        (Timeline.ordered _ ((s.content.posts ++ [p]).filter s.qualifies))
      rw [List.filter_append, List.filter_singleton]
      cases s.qualifies p with
      | false => exact (List.append_nil _).symm ▸ List.Sublist.refl _
      | true => exact Timeline.ordered_sublist_append _ p
    exact ⟨fun q hq => List.mem_append_left [p] (h.present hq),
      fun q hq hqual => (h.ahead q hq hqual).imp_right ((hsub.drop s.offset).subset ·), h.complete⟩

theorem posts_apply (d : PostDeletion) (c : ContentStore) : (d.apply c).posts = c.posts.filter d.keeps := by
  cases d with
  | byId id | byAuthor author =>
    exact congrArg (List.filter · c.posts) (funext fun p => (decide_not ..).symm)

theorem selection_delete (d : PostDeletion) (stayed : List Post) :
    selection { s with content := d.apply s.content, stayed } = s.selection.filter d.keeps := by
  rw [selection_eq, selection_eq, Timeline.filter_ordered, posts_apply, List.filter_filter, List.filter_filter]
  exact congrArg (fun f => Timeline.ordered _ (List.filter f s.content.posts)) (funext fun p => Bool.and_comm ..)

theorem inv_delete (h : s.Inv) (hended : s.ended = false) {d : PostDeletion} (hguard : s.Guarded (.delete d)) :
    Inv { s with content := d.apply s.content, stayed := s.stayed.filter d.keeps } where
  present p hp := by
    obtain ⟨hstayed, hkept⟩ := List.mem_filter.mp hp
    rw [posts_apply]
    exact List.mem_filter.mpr ⟨h.present hstayed, hkept⟩
  ahead p hp hqual := by
    obtain ⟨hstayed, hkept⟩ := List.mem_filter.mp hp
    refine (h.ahead p hstayed hqual).elim .inl fun hahead => ?_
    by_cases hup : p ∈ s.movedUp d
    · exact .inl (hguard p hup hstayed)
    · refine .inr ?_
      rw [selection_delete]
      have hleft : p ∈ (s.selection.drop s.offset).filter d.keeps := List.mem_filter.mpr ⟨hahead, hkept⟩
      -- behind those that move up it stays behind the offset
      rw [← List.take_append_drop s.offset s.selection, List.filter_append, List.drop_append]
      refine List.mem_append_right _ ?_
      rw [← List.take_append_drop (s.offset - ((s.selection.take s.offset).filter d.keeps).length)
        ((s.selection.drop s.offset).filter d.keeps)] at hleft
      exact (List.mem_append.mp hleft).resolve_left hup
  complete hend := absurd (hended.symm.trans hend) Bool.false_ne_true

theorem inv_nextBatch (h : s.Inv) : s.nextBatch.Inv := by
  have hsplit := Timeline.page_append_drop batchSize s.offset s.selection
  simp only [nextBatch]
  split
  · rename_i hempty
    have hdrop := Timeline.drop_eq_nil_of_page (by decide) (List.isEmpty_iff.mp hempty)
    refine ⟨h.present, h.ahead, fun _ p hp hqual => (h.ahead p hp hqual).resolve_right ?_⟩
    rw [hdrop]
    exact List.not_mem_nil
  · refine ⟨h.present, fun p hp hqual => ?_, fun hended p hp hqual => ?_⟩
    · rcases h.ahead p hp hqual with hsent | hahead
      · exact .inl (List.mem_append_left _ hsent)
      · rw [← hsplit] at hahead
        exact (List.mem_append.mp hahead).imp (List.mem_append_right _) fun hlater => hlater
    · exact List.mem_append_left _ (h.complete hended p hp hqual)

theorem inv_step (h : s.Inv) {l : Label} (hguard : s.Guarded l) (hstep : step s l = some s') : s'.Inv := by
  obtain ⟨hended, hstep⟩ := Option.ite_none_left_eq_some.mp hstep
  cases l with
  | insertPost p =>
    obtain rfl := Option.some.inj hstep
    exact inv_insertPost h p
  | delete d =>
    obtain rfl := Option.some.inj hstep
    exact inv_delete h (Bool.eq_false_iff.mpr hended) hguard
  | batch =>
    obtain rfl := Option.some.inj hstep
    exact inv_nextBatch h

/-- A session whose deletions are guarded sends every post that qualifies and stays. -/
theorem sent_of_guarded (req : SyncRequest) (mode : SyncMode) (knownIds : List String) (content : ContentStore)
    (run : List Label) (hguard : Along step Guarded (start req mode knownIds content) run)
    (hrun : exec step (start req mode knownIds content) run = some s) (hended : s.ended = true) :
    ∀ p ∈ s.stayed, s.qualifies p → p ∈ s.sent :=
  (exec_invariant (fun _ _ _ h hok hstep => inv_step h hok hstep) (inv_start req mode knownIds content)
    hguard hrun).complete hended

def numbered (n : Nat) : Post :=
  ⟨String.singleton (Char.ofNat n), "a", "", (n + 1).toUInt64, [], none, none, none, none, ""⟩

/-- A client that has nothing of "a" asks a device with so many posts. -/
def asked (count : Nat) : PostStream :=
  start ⟨"a", 0, 0, 0, 0⟩ .timestampCatchUp [] ⟨(List.range count).map numbered, []⟩

instance decidableGuarded (s : PostStream) : ∀ l, Decidable (s.Guarded l)
  | .delete d => inferInstanceAs (Decidable (∀ p ∈ s.movedUp d, p ∈ s.stayed → p ∈ s.sent))
  | .insertPost _ | .batch => isTrue trivial

/-- Between two batches a post comes in and one that is still to be sent goes. -/
def writtenBetween : List Label :=
  [.batch, .insertPost (numbered 300), .delete (.byId (numbered 201).id), .batch, .batch]

theorem sent_of_guarded_once : ∃ s, exec step (asked 202) writtenBetween = some s ∧ s.ended = true ∧
    numbered 0 ∈ s.sent ∧ numbered 200 ∈ s.sent ∧ numbered 201 ∉ s.sent := by
  have hguard : Along step Guarded (asked 202) writtenBetween := by decide +kernel
  have hends : (exec step (asked 202) writtenBetween).any fun s => decide (s.ended = true ∧
      (numbered 0 ∈ s.stayed ∧ s.qualifies (numbered 0) = true) ∧
      (numbered 200 ∈ s.stayed ∧ s.qualifies (numbered 200) = true) ∧ numbered 201 ∉ s.sent) := by
    decide +kernel
  obtain ⟨s, hs, hdone⟩ := (Option.any_eq_true ..).mp hends
  obtain ⟨hended, hfirst, hlast, hgone⟩ := of_decide_eq_true hdone
  have hsent := sent_of_guarded _ _ _ _ _ hguard hs hended
  exact ⟨s, hs, hended, hsent _ hfirst.1 hfirst.2, hsent _ hlast.1 hlast.2, hgone⟩

/-- The first post goes when the first batch is sent, and the last one is passed over. -/
theorem not_sent_passedOver : ∃ s, exec step (asked 201) [.batch, .delete (.byId (numbered 0).id), .batch] = some s ∧
    s.ended = true ∧ numbered 200 ∈ s.stayed ∧ s.qualifies (numbered 200) = true ∧ numbered 200 ∉ s.sent := by
  have hrun : (exec step (asked 201) [.batch, .delete (.byId (numbered 0).id), .batch]).any fun s =>
      decide (s.ended = true ∧ numbered 200 ∈ s.stayed ∧ s.qualifies (numbered 200) = true ∧
        numbered 200 ∉ s.sent) := by
    decide +kernel
  obtain ⟨s, hs, hmissed⟩ := (Option.any_eq_true ..).mp hrun
  exact ⟨s, hs, of_decide_eq_true hmissed⟩

end PostStream
end Proscenium.Client
