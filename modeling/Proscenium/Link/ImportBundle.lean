import Proscenium.Link.FailedLinks

/-! What the import of a bundle makes of the lists of a device that has some
already. Follows, blocks, mutes are written over what is there; a bookmark is
toggled, and a ratchet session replaces the one that is there, be it newer or
not. -/

namespace Proscenium.Link

open Proscenium.Types Client DeviceSync
open Client.Author (zeroSecret)

namespace LinkStore

def isBookmarked (postId : String) (st : LinkStore) : Bool := st.bookmarks.any (·.postId = postId)

def getRatchetSession (peerPubkey : String) (st : LinkStore) : Option String :=
  (Table.find RatchetSessionRow.peerPubkey peerPubkey st.sessions).map RatchetSessionRow.stateJson

/-- The comparison of `merge_ratchet_sessions_lww`, with the sides exchanged. -/
def holdsNewer (session : RatchetSessionExport) (st : LinkStore) : Bool :=
  (Table.find RatchetSessionRow.peerPubkey session.peerPubkey st.sessions).any fun r =>
    session.updatedAt.toInt64 < r.updatedAt.getD 0

end LinkStore

/-- All of the bundle is there; of two ratchet sessions the newer one. -/
structure Imported (me : String) (bundle : LinkBundleData) (before after : LinkStore) : Prop where
  bookmarks : ∀ id ∈ bundle.bookmarks, after.isBookmarked id = true
  follows : ∀ entry ∈ bundle.follows, after.graph.isFollowing me entry.pubkey = true
  blocked : ∀ pubkey ∈ bundle.blockedUsers, after.moderation.isBlocked pubkey = true
  muted : ∀ pubkey ∈ bundle.mutedUsers, after.moderation.isMuted pubkey = true
  sessions : ∀ session ∈ bundle.ratchetSessions, after.getRatchetSession session.peerPubkey =
    if before.holdsNewer session then before.getRatchetSession session.peerPubkey else some session.stateJson

structure KeepsLocal (me : String) (bundle : LinkBundleData) (before after : LinkStore) : Prop where
  bookmarks : ∀ id ∉ bundle.bookmarks, before.isBookmarked id = true → after.isBookmarked id = true
  follows : ∀ pubkey, (∀ entry ∈ bundle.follows, entry.pubkey ≠ pubkey) →
    before.graph.isFollowing me pubkey = true → after.graph.isFollowing me pubkey = true
  blocked : ∀ pubkey ∉ bundle.blockedUsers,
    before.moderation.isBlocked pubkey = true → after.moderation.isBlocked pubkey = true
  muted : ∀ pubkey ∉ bundle.mutedUsers,
    before.moderation.isMuted pubkey = true → after.moderation.isMuted pubkey = true

structure SameSets (me : String) (before after : LinkStore) : Prop where
  bookmarks : ∀ id, after.isBookmarked id = before.isBookmarked id
  follows : ∀ pubkey, after.graph.isFollowing me pubkey = before.graph.isFollowing me pubkey
  blocked : ∀ pubkey, after.moderation.isBlocked pubkey = before.moderation.isBlocked pubkey
  muted : ∀ pubkey, after.moderation.isMuted pubkey = before.moderation.isMuted pubkey
  sessions : ∀ peerPubkey, after.getRatchetSession peerPubkey = before.getRatchetSession peerPubkey

namespace ImportStatement

def follows (pubkey : String) : ImportStatement → Bool
  | .follow entry => entry.pubkey = pubkey
  | _ => false

def blocks (pubkey : String) : ImportStatement → Bool
  | .blockUser other => other = pubkey
  | _ => false

def mutes (pubkey : String) : ImportStatement → Bool
  | .muteUser other => other = pubkey
  | _ => false

def stateFor (peerPubkey : String) : ImportStatement → Option String
  | .saveRatchetSession session => if session.peerPubkey = peerPubkey then some session.stateJson else none
  | _ => none

end ImportStatement

def toggles (postId : String) (outcome : Outcomes) (bundle : LinkBundleData) : Nat :=
  (executed outcome bundle.statements).countP fun s => s.1 = .toggleBookmark postId

def LinkBundleData.lastState (peerPubkey : String) (bundle : LinkBundleData) : Option String :=
  (bundle.ratchetSessions.reverse.find? (·.peerPubkey = peerPubkey)).map RatchetSessionExport.stateJson

/-- Each bookmark is there after the first import and is toggled an even number of times by the
second; no session of the bundle is older than the one it meets, unless both have one state. -/
structure Importable (bundle : LinkBundleData) (before : LinkStore) (first second : Outcomes) : Prop where
  added : ∀ id ∈ bundle.bookmarks,
    (before.isBookmarked id ^^ (toggles id first bundle % 2 = 1)) = true
  kept : ∀ id ∈ bundle.bookmarks, toggles id second bundle % 2 = 0
  sessions : ∀ session ∈ bundle.ratchetSessions, bundle.lastState session.peerPubkey =
    if before.holdsNewer session then before.getRatchetSession session.peerPubkey else some session.stateJson

section Views

variable {me : String} {V : Type} (view : LinkStore → V) (act : ImportStatement → V → V)

theorem view_executeAll (hstep : ∀ st now s, view (st.execute me now s) = act s (view st))
    (done : List (ImportStatement × UInt64)) (st : LinkStore) :
    view (st.executeAll me done) = done.foldl (fun v s => act s.1 v) (view st) :=
  (List.foldl_hom view fun st s => (hstep st s.2 s.1).symm).symm

theorem view_executed (hstep : ∀ st now s, view (st.execute me now s) = act s (view st))
    (htoggle : ∀ id v, act (.toggleBookmark id) v = v) (outcome : Outcomes) {statements : List ImportStatement}
    (hpasses : passes outcome statements = true) (st : LinkStore) :
    view (st.executeAll me (executed outcome statements)) =
      statements.foldl (fun v s => act s v) (view st) := by
  induction statements generalizing outcome st with
  | nil => rfl
  | cons s rest ih =>
    rw [passes] at hpasses
    obtain ⟨hhead, hrest⟩ := Bool.and_eq_true_iff.mp hpasses
    have hnext := fun st => ih (fun n => outcome (n + 1)) hrest st
    rw [executed]
    by_cases hok : (outcome 0).1 = true
    · rw [if_pos hok, List.foldl_cons, ← hstep st (outcome 0).2 s]
      exact hnext _
    · -- only a toggle may fail
      have hunchecked : s.checked = false := by simpa [hok] using hhead
      rw [if_neg hok, hunchecked, List.foldl_cons]
      cases s with
      | toggleBookmark id =>
        rw [htoggle]
        exact hnext st
      | _ => cases hunchecked

end Views

section Steps

variable {me : String}

theorem isBookmarked_execute (id : String) (st : LinkStore) (now : UInt64) (s : ImportStatement) :
    (st.execute me now s).isBookmarked id =
      (st.isBookmarked id ^^ decide (s = .toggleBookmark id)) := by
  cases s with
  | toggleBookmark other =>
    change (st.toggleBookmark now other).isBookmarked id = _
    rw [LinkStore.toggleBookmark]
    by_cases hid : other = id
    · subst hid
      rw [decide_eq_true rfl, Bool.xor_true]
      split
      next hany =>
        have hthere : st.isBookmarked other = true := hany
        rw [hthere, LinkStore.isBookmarked, Table.deleteWhere, List.any_filter]
        simp
      next hany =>
        have hmissing : st.isBookmarked other = false := by simpa [LinkStore.isBookmarked] using hany
        rw [hmissing, LinkStore.isBookmarked, List.any_append]
        simp
    · -- a toggle of another post is not seen
      have hne : ImportStatement.toggleBookmark other ≠ .toggleBookmark id := by simpa using hid
      rw [decide_eq_false hne, Bool.xor_false]
      split
      next =>
        rw [LinkStore.isBookmarked, LinkStore.isBookmarked, Table.deleteWhere, List.any_filter]
        refine congrArg (List.any st.bookmarks) (funext fun b => ?_)
        by_cases hb : b.postId = id
        · have hother : b.postId ≠ other := hb ▸ Ne.symm hid
          simp [hb, Ne.symm hid]
        · simp [hb]
      next =>
        rw [LinkStore.isBookmarked, List.any_append]
        simp [LinkStore.isBookmarked, hid]
  | _ =>
    rw [decide_eq_false (by simp), Bool.xor_false]
    rfl

theorem isFollowing_execute (pubkey : String) (st : LinkStore) (now : UInt64) (s : ImportStatement) :
    (st.execute me now s).graph.isFollowing me pubkey =
      (st.graph.isFollowing me pubkey || s.follows pubkey) := by
  cases s with
  | follow entry =>
    change (st.graph.follow me entry now).isFollowing me pubkey =
      (st.graph.isFollowing me pubkey || decide (entry.pubkey = pubkey))
    by_cases hkey : entry.pubkey = pubkey
    · rw [decide_eq_true hkey, Bool.or_true]
      refine Table.any_upsert_self (by simp [hkey]) (fun r hr => ?_) _
      obtain ⟨hfollower, hfollowee⟩ := Prod.mk.inj hr
      simp [hfollower, hfollowee, hkey]
    · rw [decide_eq_false hkey, Bool.or_false]
      refine Table.any_upsert_of_ne (by simp [hkey]) (fun r hr => ?_) _
      obtain ⟨-, hfollowee⟩ := Prod.mk.inj hr
      simp [hfollowee, hkey]
  | toggleBookmark id =>
    have hgraph := (toggleBookmark_rest id st now).1
    exact (congrArg (SocialGraph.isFollowing me pubkey) hgraph).trans (Bool.or_false _).symm
  | _ => exact (Bool.or_false _).symm

def activeRow (kind pubkey : String) (m : Moderation) : Bool :=
  m.rows.any fun r => r.pubkey = pubkey ∧ r.kind = kind ∧ r.state = "active"

theorem activeRow_activate {kind other : String} (pubkey' pubkey : String) (now : UInt64) (m : Moderation) :
    activeRow kind pubkey (m.activate other pubkey' now) =
      (activeRow kind pubkey m || decide (other = kind ∧ pubkey' = pubkey)) := by
  by_cases hkey : other = kind ∧ pubkey' = pubkey
  · rw [decide_eq_true hkey, Bool.or_true]
    refine Table.any_upsert_self (by simp [hkey.1, hkey.2]) (fun r hr => ?_) _
    obtain ⟨hpubkey, hkind⟩ := Prod.mk.inj hr
    simp [hpubkey, hkind, hkey.1, hkey.2]
  · rw [decide_eq_false hkey, Bool.or_false]
    refine Table.any_upsert_of_ne ?_ (fun r hr => ?_) _
    · simp only [decide_eq_false_iff_not]
      rintro ⟨hpubkey, hkind, -⟩
      exact hkey ⟨hkind, hpubkey⟩
    · obtain ⟨hpubkey, hkind⟩ := Prod.mk.inj hr
      have hno : ¬ (pubkey' = pubkey ∧ other = kind) := fun h => hkey h.symm
      simp only [hpubkey, hkind, ← and_assoc, hno, false_and]

theorem isBlocked_execute (pubkey : String) (st : LinkStore) (now : UInt64) (s : ImportStatement) :
    (st.execute me now s).moderation.isBlocked pubkey =
      (st.moderation.isBlocked pubkey || s.blocks pubkey) := by
  cases s with
  | blockUser other =>
    refine (activeRow_activate other pubkey now st.moderation).trans ?_
    rw [decide_eq_decide.mpr (and_iff_right rfl)]
    rfl
  | muteUser other =>
    refine (activeRow_activate other pubkey now st.moderation).trans ?_
    rw [decide_eq_false fun h => absurd h.1 (by decide)]
    rfl
  | toggleBookmark id =>
    have hmoderation := (toggleBookmark_rest id st now).2.1
    exact (congrArg (Moderation.isBlocked pubkey) hmoderation).trans (Bool.or_false _).symm
  | _ => exact (Bool.or_false _).symm

theorem isMuted_execute (pubkey : String) (st : LinkStore) (now : UInt64) (s : ImportStatement) :
    (st.execute me now s).moderation.isMuted pubkey =
      (st.moderation.isMuted pubkey || s.mutes pubkey) := by
  cases s with
  | muteUser other =>
    refine (activeRow_activate other pubkey now st.moderation).trans ?_
    rw [decide_eq_decide.mpr (and_iff_right rfl)]
    rfl
  | blockUser other =>
    refine (activeRow_activate other pubkey now st.moderation).trans ?_
    rw [decide_eq_false fun h => absurd h.1 (by decide)]
    rfl
  | toggleBookmark id =>
    have hmoderation := (toggleBookmark_rest id st now).2.1
    exact (congrArg (Moderation.isMuted pubkey) hmoderation).trans (Bool.or_false _).symm
  | _ => exact (Bool.or_false _).symm

theorem getRatchetSession_execute (peerPubkey : String) (st : LinkStore) (now : UInt64) (s : ImportStatement) :
    (st.execute me now s).getRatchetSession peerPubkey =
      (s.stateFor peerPubkey).or (st.getRatchetSession peerPubkey) := by
  cases s with
  | saveRatchetSession session =>
    have hkey : ∀ r : RatchetSessionRow,
        ({ r with stateJson := session.stateJson, updatedAt := some now.toInt64 } : RatchetSessionRow).peerPubkey =
          r.peerPubkey := fun _ => rfl
    have hnew : (⟨session.peerPubkey, session.stateJson, some now.toInt64⟩ : RatchetSessionRow).peerPubkey =
        session.peerPubkey := rfl
    change Option.map _ (Table.find _ peerPubkey (Table.upsert _ session.peerPubkey _ _ st.sessions)) = _
    rw [ImportStatement.stateFor]
    by_cases hpeer : session.peerPubkey = peerPubkey
    · subst hpeer
      rw [if_pos rfl, Table.find_upsert_self hkey hnew]
      cases Table.find RatchetSessionRow.peerPubkey session.peerPubkey st.sessions with
      | none => rfl
      | some r => rfl
    · rw [if_neg hpeer, Table.find_upsert_of_ne hkey hnew (Ne.symm hpeer)]
      rfl
  | toggleBookmark id =>
    have hsessions := (toggleBookmark_rest id st now).2.2.1
    change Option.map _ (Table.find _ peerPubkey (st.toggleBookmark now id).sessions) = _
    rw [hsessions]
    rfl
  | _ => rfl

end Steps

section Statements

variable (bundle : LinkBundleData)

theorem follows_iff (pubkey : String) : bundle.statements.any (·.follows pubkey) = true ↔
    ∃ entry ∈ bundle.follows, entry.pubkey = pubkey := by
  simp [LinkBundleData.statements, ImportStatement.follows]

theorem blocks_iff (pubkey : String) :
    bundle.statements.any (·.blocks pubkey) = true ↔ pubkey ∈ bundle.blockedUsers := by
  simp [LinkBundleData.statements, ImportStatement.blocks]

theorem mutes_iff (pubkey : String) :
    bundle.statements.any (·.mutes pubkey) = true ↔ pubkey ∈ bundle.mutedUsers := by
  simp [LinkBundleData.statements, ImportStatement.mutes]

theorem findSome?_stateFor (peerPubkey : String) :
    bundle.statements.reverse.findSome? (·.stateFor peerPubkey) = bundle.lastState peerPubkey := by
  have hsession : ∀ sessions : List RatchetSessionExport,
      (sessions.map ImportStatement.saveRatchetSession).findSome? (·.stateFor peerPubkey) =
        (sessions.find? (·.peerPubkey = peerPubkey)).map RatchetSessionExport.stateJson := by
    intro sessions
    induction sessions with
    | nil => rfl
    | cons session rest ih =>
      rw [List.map_cons, List.findSome?_cons, List.find?_cons, ImportStatement.stateFor, ih]
      by_cases hpeer : session.peerPubkey = peerPubkey
      · simp [hpeer]
      · simp [hpeer]
  have hother : ∀ {α : Type} (f : α → ImportStatement) (l : List α), (∀ a, (f a).stateFor peerPubkey = none) →
      (l.map f).reverse.findSome? (·.stateFor peerPubkey) = none := by
    intro α f l hf
    refine List.findSome?_eq_none_iff.mpr fun s hs => ?_
    obtain ⟨a, -, rfl⟩ := List.mem_map.mp (List.mem_reverse.mp hs)
    exact hf a
  -- the sessions come last, so that they are the first to be found from the end
  rw [LinkBundleData.statements, List.reverse_append, List.findSome?_append, ← List.map_reverse, hsession,
    List.reverse_append, List.reverse_append, List.reverse_append, List.reverse_append]
  simp only [List.findSome?_append]
  rw [hother, hother, hother, hother, hother]
  · exact Option.or_none
  all_goals exact fun _ => rfl

end Statements

section Folds

variable {α β : Type}

theorem foldl_or (p : α → Bool) (l : List α) (b : Bool) :
    l.foldl (fun b a => b || p a) b = (b || l.any p) := by
  induction l generalizing b with
  | nil => exact (Bool.or_false b).symm
  | cons a l ih => rw [List.foldl_cons, ih, List.any_cons, Bool.or_assoc]

theorem foldl_xor (p : α → Bool) (l : List α) (b : Bool) :
    l.foldl (fun b a => b ^^ p a) b = (b ^^ decide (l.countP p % 2 = 1)) := by
  induction l generalizing b with
  | nil => exact (Bool.xor_false b).symm
  | cons a l ih =>
    rw [List.foldl_cons, ih, List.countP_cons, Bool.xor_assoc]
    congr 1
    cases p a with
    | false => rw [Bool.false_xor]; rfl
    | true =>
      rw [Bool.true_xor, ← decide_not]
      apply decide_eq_decide.mpr
      simp only [if_true]
      omega

theorem foldl_last (f : α → Option β) (l : List α) (v : Option β) :
    l.foldl (fun v a => (f a).or v) v = (l.reverse.findSome? f).or v := by
  induction l generalizing v with
  | nil => rfl
  | cons a l ih =>
    rw [List.foldl_cons, ih, List.reverse_cons, List.findSome?_append, Option.or_assoc]
    congr 2
    cases hfa : f a with
    | none => simp [hfa]
    | some b => simp [hfa]

end Folds

section Import

variable {me : String} {bundle : LinkBundleData} {outcome : Outcomes}

def importedStore (me : String) (outcome : Outcomes) (bundle : LinkBundleData) (st : LinkStore) : LinkStore :=
  (importStatements me outcome bundle.statements st).1

theorem importedStore_eq (st : LinkStore) : importedStore me outcome bundle st =
    st.executeAll me (executed outcome bundle.statements) := by
  rw [importedStore, importStatements_eq]

theorem isBookmarked_imported (st : LinkStore) (id : String) : (importedStore me outcome bundle st).isBookmarked id =
    (st.isBookmarked id ^^ decide (toggles id outcome bundle % 2 = 1)) := by
  rw [importedStore_eq, view_executeAll (fun st => st.isBookmarked id) (fun s b => b ^^ decide (s = .toggleBookmark id))
    (isBookmarked_execute id), toggles]
  exact foldl_xor (fun s : ImportStatement × UInt64 => decide (s.1 = .toggleBookmark id)) _ _

variable (hpasses : passes outcome bundle.statements = true)

include hpasses

theorem isFollowing_imported (st : LinkStore) (pubkey : String) :
    (importedStore me outcome bundle st).graph.isFollowing me pubkey =
      (st.graph.isFollowing me pubkey || bundle.statements.any (·.follows pubkey)) := by
  rw [importedStore_eq, view_executed (fun st => st.graph.isFollowing me pubkey) (fun s b => b || s.follows pubkey)
    (isFollowing_execute pubkey) (fun _ b => Bool.or_false b) outcome hpasses]
  exact foldl_or _ _ _

theorem isBlocked_imported (st : LinkStore) (pubkey : String) :
    (importedStore me outcome bundle st).moderation.isBlocked pubkey =
      (st.moderation.isBlocked pubkey || bundle.statements.any (·.blocks pubkey)) := by
  rw [importedStore_eq, view_executed (fun st => st.moderation.isBlocked pubkey) (fun s b => b || s.blocks pubkey)
    (isBlocked_execute pubkey) (fun _ b => Bool.or_false b) outcome hpasses]
  exact foldl_or _ _ _

theorem isMuted_imported (st : LinkStore) (pubkey : String) :
    (importedStore me outcome bundle st).moderation.isMuted pubkey =
      (st.moderation.isMuted pubkey || bundle.statements.any (·.mutes pubkey)) := by
  rw [importedStore_eq, view_executed (fun st => st.moderation.isMuted pubkey) (fun s b => b || s.mutes pubkey)
    (isMuted_execute pubkey) (fun _ b => Bool.or_false b) outcome hpasses]
  exact foldl_or _ _ _

theorem getRatchetSession_imported (st : LinkStore) (peerPubkey : String) :
    (importedStore me outcome bundle st).getRatchetSession peerPubkey =
      (bundle.lastState peerPubkey).or (st.getRatchetSession peerPubkey) := by
  rw [importedStore_eq, view_executed (fun st => st.getRatchetSession peerPubkey)
    (fun s v => (s.stateFor peerPubkey).or v) (getRatchetSession_execute peerPubkey) (fun _ _ => Option.none_or)
    outcome hpasses, foldl_last, findSome?_stateFor]

end Import

section Main

variable {me : String} {bundle : LinkBundleData} {outcome first second : Outcomes} {before : LinkStore}

theorem toggles_of_not_mem {id : String} (hid : id ∉ bundle.bookmarks) : toggles id outcome bundle = 0 := by
  have hexecuted : ∀ (outcome : Outcomes) (l : List ImportStatement), ∀ s ∈ executed outcome l, s.1 ∈ l := by
    intro outcome l
    induction l generalizing outcome with
    | nil => exact fun _ hs => absurd hs List.not_mem_nil
    | cons s rest ih =>
      intro x hx
      rw [executed] at hx
      split at hx
      · rcases List.mem_cons.mp hx with rfl | hx
        · exact List.mem_cons_self
        · exact List.mem_cons_of_mem _ (ih _ x hx)
      · split at hx
        · exact absurd hx List.not_mem_nil
        · exact List.mem_cons_of_mem _ (ih _ x hx)
  refine List.countP_eq_zero.mpr fun s hs htoggle => hid ?_
  have hmem := hexecuted outcome _ s hs
  rw [of_decide_eq_true htoggle] at hmem
  simpa [LinkBundleData.statements] using hmem

theorem imported_iff (hpasses : passes first bundle.statements = true) :
    Imported me bundle before (importedStore me first bundle before) ↔
      (∀ id ∈ bundle.bookmarks, (before.isBookmarked id ^^ (toggles id first bundle % 2 = 1)) = true) ∧
      ∀ session ∈ bundle.ratchetSessions, bundle.lastState session.peerPubkey =
        if before.holdsNewer session then before.getRatchetSession session.peerPubkey
        else some session.stateJson := by
  -- of several sessions with one peer the last is kept, whatever was there before
  have hlast : ∀ session ∈ bundle.ratchetSessions,
      (importedStore me first bundle before).getRatchetSession session.peerPubkey =
        bundle.lastState session.peerPubkey := by
    intro session hsession
    rw [getRatchetSession_imported hpasses]
    have hfound : (bundle.ratchetSessions.reverse.find? (·.peerPubkey = session.peerPubkey)).isSome = true := by
      apply List.find?_isSome.mpr
      exact ⟨session, List.mem_reverse.mpr hsession, decide_eq_true rfl⟩
    obtain ⟨last, hlast⟩ := Option.isSome_iff_exists.mp hfound
    rw [LinkBundleData.lastState, hlast]
    rfl
  constructor
  · intro h
    refine ⟨fun id hid => ?_, fun session hsession => ?_⟩
    · have hthere := h.bookmarks id hid
      rwa [isBookmarked_imported] at hthere
    · rw [← hlast session hsession]
      exact h.sessions session hsession
  · rintro ⟨hbookmarks, hsessions⟩
    refine ⟨fun id hid => ?_, fun entry hentry => ?_, fun pubkey hpubkey => ?_, fun pubkey hpubkey => ?_,
      fun session hsession => ?_⟩
    · rw [isBookmarked_imported]
      exact hbookmarks id hid
    · rw [isFollowing_imported hpasses, (follows_iff bundle _).mpr ⟨entry, hentry, rfl⟩, Bool.or_true]
    · rw [isBlocked_imported hpasses, (blocks_iff bundle _).mpr hpubkey, Bool.or_true]
    · rw [isMuted_imported hpasses, (mutes_iff bundle _).mpr hpubkey, Bool.or_true]
    · rw [hlast session hsession]
      exact hsessions session hsession

theorem keepsLocal_imported (hpasses : passes first bundle.statements = true) :
    KeepsLocal me bundle before (importedStore me first bundle before) where
  bookmarks id hid hthere := by
    rw [isBookmarked_imported, toggles_of_not_mem hid, hthere]
    rfl
  follows pubkey _ hthere := by rw [isFollowing_imported hpasses, hthere, Bool.true_or]
  blocked pubkey _ hthere := by rw [isBlocked_imported hpasses, hthere, Bool.true_or]
  muted pubkey _ hthere := by rw [isMuted_imported hpasses, hthere, Bool.true_or]

theorem sameSets_iff (hfirst : passes first bundle.statements = true)
    (hsecond : passes second bundle.statements = true) :
    SameSets me (importedStore me first bundle before)
        (importedStore me second bundle (importedStore me first bundle before)) ↔
      ∀ id ∈ bundle.bookmarks, toggles id second bundle % 2 = 0 := by
  have hxor : ∀ (b : Bool) (n : Nat), (b ^^ decide (n % 2 = 1)) = b ↔ n % 2 = 0 := by
    intro b n
    rcases Nat.mod_two_eq_zero_or_one n with hn | hn
    · simp [hn]
    · cases b <;> simp [hn]
  constructor
  · intro h id _
    have hsame := h.bookmarks id
    rw [isBookmarked_imported] at hsame
    exact (hxor _ _).mp hsame
  · -- all but the bookmarks are unions, and those of the second import add nothing
    intro heven
    refine ⟨fun id => ?_, fun pubkey => ?_, fun pubkey => ?_, fun pubkey => ?_, fun peerPubkey => ?_⟩
    · rw [isBookmarked_imported]
      apply (hxor _ _).mpr
      by_cases hid : id ∈ bundle.bookmarks
      · exact heven id hid
      · rw [toggles_of_not_mem hid]
    · rw [isFollowing_imported hsecond, isFollowing_imported hfirst, Bool.or_assoc, Bool.or_self]
    · rw [isBlocked_imported hsecond, isBlocked_imported hfirst, Bool.or_assoc, Bool.or_self]
    · rw [isMuted_imported hsecond, isMuted_imported hfirst, Bool.or_assoc, Bool.or_self]
    · rw [getRatchetSession_imported hsecond, getRatchetSession_imported hfirst, ← Option.or_assoc,
        Option.or_self]

/-- An import does what it is for, and a second one changes nothing, exactly when no toggle goes the
wrong way and no session that is replaced is newer. -/
theorem importLinkBundle_iff (hfirst : (importStatements me first bundle.statements before).2 = true)
    (hsecond : (importStatements me second bundle.statements
      (importStatements me first bundle.statements before).1).2 = true) :
    (Imported me bundle before (importedStore me first bundle before) ∧
      KeepsLocal me bundle before (importedStore me first bundle before) ∧
      SameSets me (importedStore me first bundle before)
        (importedStore me second bundle (importedStore me first bundle before))) ↔
      Importable bundle before first second := by
  rw [importStatements_eq] at hfirst hsecond
  rw [imported_iff hfirst, sameSets_iff hfirst hsecond]
  constructor
  · rintro ⟨⟨hadded, hsessions⟩, -, hkept⟩
    exact ⟨hadded, hkept, hsessions⟩
  · intro h
    exact ⟨⟨h.added, h.sessions⟩, keepsLocal_imported hfirst, h.kept⟩

end Main

section Examples

def succeeds (now : UInt64) : Outcomes := fun _ => (true, now)

/-- A follow, a block, and a session that is newer than the one that is there. -/
def plainBundle : LinkBundleData :=
  { emptyBundle zeroSecret with
    follows := [⟨"bob", 7, 0, 0, false⟩]
    blockedUsers := ["mallory"]
    ratchetSessions := [⟨"bob", "new state", 5⟩] }

def sessionStore (updatedAt : Int64) : LinkStore :=
  { emptyStore with sessions := [⟨"bob", "old state", some updatedAt⟩] }

theorem importLinkBundle_iff_plain :
    (Imported "alice" plainBundle (sessionStore 4)
        (importedStore "alice" (succeeds 9) plainBundle (sessionStore 4)) ∧
      KeepsLocal "alice" plainBundle (sessionStore 4)
        (importedStore "alice" (succeeds 9) plainBundle (sessionStore 4)) ∧
      SameSets "alice" (importedStore "alice" (succeeds 9) plainBundle (sessionStore 4))
        (importedStore "alice" (succeeds 10) plainBundle
          (importedStore "alice" (succeeds 9) plainBundle (sessionStore 4)))) ↔
      Importable plainBundle (sessionStore 4) (succeeds 9) (succeeds 10) :=
  importLinkBundle_iff rfl rfl

def bookmarkBundle : LinkBundleData := { emptyBundle zeroSecret with bookmarks := ["post"] }

def bookmarkStore : LinkStore := { emptyStore with bookmarks := [⟨"post", 3⟩] }

/-- The bookmark that both have is gone, and so is the session that was the newer one. -/
theorem not_imported_bookmark :
    (importStatements "alice" (succeeds 9) bookmarkBundle.statements bookmarkStore).2 = true ∧
      ¬ Imported "alice" bookmarkBundle bookmarkStore
        (importStatements "alice" (succeeds 9) bookmarkBundle.statements bookmarkStore).1 ∧
    (importStatements "alice" (succeeds 9) plainBundle.statements (sessionStore 6)).2 = true ∧
      ¬ Imported "alice" plainBundle (sessionStore 6)
        (importStatements "alice" (succeeds 9) plainBundle.statements (sessionStore 6)).1 := by
  refine ⟨rfl, fun h => ?_, rfl, fun h => ?_⟩
  · exact absurd (h.bookmarks "post" (by decide)) (by decide)
  · exact absurd (h.sessions ⟨"bob", "new state", 5⟩ List.mem_cons_self) (by decide)

end Examples

end Proscenium.Link
