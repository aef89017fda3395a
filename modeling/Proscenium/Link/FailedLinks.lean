import Proscenium.Lib.Upserts
import Proscenium.Link.LinkDefs

/-! A link that fails. The existing device writes its keys in Base64 with padding
and the new one reads them without, so that every key is refused; and by then the
lists of the bundle are imported, which nothing undoes. A link leaves the tables as
they were only if what is imported is there already, with the times of the import. -/

namespace Proscenium.Link

open Proscenium.Types Client
open DeviceSync (Bookmark)
open Client.Author (SecretKey zeroSecret)

/-- No key of an exported bundle can be decoded where the bundle is received. -/
theorem link_keys_unread (st : LinkStore) (reads : LinkQuery → Bool) (masterPubkey : String)
    (signingSecret dmSecret : SecretKey) (delegation : SigningKeyDelegation) (transportSecret : SecretKey)
    (deviceIndex : UInt32) (masterSecret : Option SecretKey) :
    let bundle := st.exportLinkBundle reads masterPubkey signingSecret dmSecret delegation transportSecret
      deviceIndex masterSecret
    let decode := Base64.Engine.urlSafeNoPad.decode
    decode bundle.signingSecretKey = none ∧ decode bundle.dmSecretKey = none ∧
      decode bundle.transportSecretKey = none ∧ bundle.masterSecretKey.bind decode = none := by
  have hkey : ∀ key : SecretKey,
      Base64.Engine.urlSafeNoPad.decode (Base64.Engine.standard.encode key.toList) = none := by
    intro key
    refine Base64.Engine.decode_encode_of_pads rfl rfl ?_
    rw [Vector.length_toList]
    decide
  refine ⟨hkey signingSecret, hkey dmSecret, hkey transportSecret, ?_⟩
  cases masterSecret with
  | none => rfl
  | some key => exact hkey key

/-- The padding is what is refused, also in a key without special symbols. -/
theorem not_decoded_zero :
    Base64.Engine.urlSafeNoPad.decode (Base64.Engine.standard.encode zeroSecret.toList) ≠ some zeroSecret.toList := by
  rw [Base64.Engine.decode_encode_of_pads rfl rfl (by decide)]
  exact (Option.some_ne_none _).symm

section Import

variable (masterPubkey : String)

/-- The statements of an import that are executed, up to the first error that is passed on. -/
def executed : Outcomes → List ImportStatement → List (ImportStatement × UInt64)
  | _, [] => []
  | outcome, s :: rest =>
    if (outcome 0).1 then (s, (outcome 0).2) :: executed (fun n => outcome (n + 1)) rest
    else if s.checked then []
    else executed (fun n => outcome (n + 1)) rest

def passes : Outcomes → List ImportStatement → Bool
  | _, [] => true
  | outcome, s :: rest => ((outcome 0).1 || !s.checked) && passes (fun n => outcome (n + 1)) rest

def LinkStore.executeAll (st : LinkStore) (statements : List (ImportStatement × UInt64)) : LinkStore :=
  statements.foldl (fun st s => st.execute masterPubkey s.2 s.1) st

theorem importStatements_eq (outcome : Outcomes) (statements : List ImportStatement) (st : LinkStore) :
    importStatements masterPubkey outcome statements st =
      (st.executeAll masterPubkey (executed outcome statements), passes outcome statements) := by
  induction statements generalizing outcome st with
  | nil => rfl
  | cons s rest ih =>
    have hnext := ih (fun n => outcome (n + 1))
    unfold importStatements executed passes
    dsimp only
    cases (outcome 0).1 with
    | true => exact hnext _
    | false =>
      cases s.checked with
      | true => rfl
      | false => exact hnext _

end Import

section Tables

inductive ImportTarget where
  | profile
  | follow (pubkey : String)
  | bookmark (postId : String)
  | moderation (pubkey kind : String)
  | session (peerPubkey : String)
  deriving DecidableEq, Repr

namespace ImportStatement

def target : ImportStatement → ImportTarget
  | .saveProfile _ => .profile
  | .follow entry => .follow entry.pubkey
  | .toggleBookmark postId => .bookmark postId
  | .blockUser pubkey => .moderation pubkey "block"
  | .muteUser pubkey => .moderation pubkey "mute"
  | .saveRatchetSession session => .session session.peerPubkey

/-- The row that the statement writes is there, with what is written now; of a bookmark, which the
last toggle inserts, only that it has no other time. -/
def AlreadyIn (me : String) (now : UInt64) (st : LinkStore) : ImportStatement → Prop
  | .saveProfile p => (∃ r ∈ st.profiles, r.pubkey = me) ∧ ∀ r ∈ st.profiles, r.pubkey = me →
      r = ⟨me, p.displayName, p.bio, p.avatarHash, p.avatarTicket, p.visibility.toText, p.signature⟩
  | .follow entry => (∃ r ∈ st.graph.rows, r.key = (me, entry.pubkey)) ∧
      ∀ r ∈ st.graph.rows, r.key = (me, entry.pubkey) →
        r.followedAt = some entry.followedAt.toInt64 ∧ r.state = "active" ∧ r.lastChangedAt = now.toInt64
  | .toggleBookmark postId => ∀ r ∈ st.bookmarks, r.postId = postId → r.createdAt = now.toInt64
  | .blockUser pubkey => HasActive "block" pubkey
  | .muteUser pubkey => HasActive "mute" pubkey
  | .saveRatchetSession session => (∃ r ∈ st.sessions, r.peerPubkey = session.peerPubkey) ∧
      ∀ r ∈ st.sessions, r.peerPubkey = session.peerPubkey →
        r.stateJson = session.stateJson ∧ r.updatedAt = some now.toInt64
where
  HasActive (kind pubkey : String) : Prop := (∃ r ∈ st.moderation.rows, r.key = (pubkey, kind)) ∧
    ∀ r ∈ st.moderation.rows, r.key = (pubkey, kind) → r.state = "active" ∧ r.lastChangedAt = now.toInt64

end ImportStatement

/-- What is executed leaves the tables as they are: each bookmark is toggled an even number of
times, and the last statement for each row writes what is there. -/
structure LeavesTables (me : String) (done : List (ImportStatement × UInt64)) (st : LinkStore) : Prop where
  toggled : ∀ postId, done.countP (fun s => s.1 = .toggleBookmark postId) % 2 = 0
  written : ∀ s, Table.LastOf (fun s => s.1.target) done s → s.1.AlreadyIn me s.2 st

structure LinkStore.SameRows (st st' : LinkStore) : Prop where
  profiles : Table.SameRows st.profiles st'.profiles
  graph : Table.SameRows st.graph.rows st'.graph.rows
  bookmarks : Table.SameRows st.bookmarks st'.bookmarks
  moderation : Table.SameRows st.moderation.rows st'.moderation.rows
  sessions : Table.SameRows st.sessions st'.sessions

/-! What a statement writes to each table. -/

def profileWrite (me : String) : ImportStatement × UInt64 → Option (Table.Write ProfileRow.pubkey)
  | (.saveProfile p, _) => some
    { new := ⟨me, p.displayName, p.bio, p.avatarHash, p.avatarTicket, p.visibility.toText, p.signature⟩
      revise := fun r => ⟨r.pubkey, p.displayName, p.bio, p.avatarHash, p.avatarTicket, p.visibility.toText,
        p.signature⟩
      key_revise := fun _ => rfl }
  | _ => none

def followWrite (me : String) : ImportStatement × UInt64 → Option (Table.Write SocialGraphRow.key)
  | (.follow entry, now) => some
    { new := ⟨me, entry.pubkey, some entry.followedAt.toInt64, "active", now.toInt64, none, none, false⟩
      revise := fun r => { r with
        followedAt := some entry.followedAt.toInt64, state := "active", lastChangedAt := now.toInt64 }
      key_revise := fun _ => rfl }
  | _ => none

def bookmarkToggled : ImportStatement × UInt64 → Option Bookmark
  | (.toggleBookmark postId, now) => some ⟨postId, now.toInt64⟩
  | _ => none

def activation (kind pubkey : String) (now : UInt64) : Table.Write ModerationRow.key where
  new := ⟨pubkey, kind, now.toInt64, "active", now.toInt64⟩
  revise r := { r with state := "active", lastChangedAt := now.toInt64 }
  key_revise _ := rfl

def moderationWrite : ImportStatement × UInt64 → Option (Table.Write ModerationRow.key)
  | (.blockUser pubkey, now) => some (activation "block" pubkey now)
  | (.muteUser pubkey, now) => some (activation "mute" pubkey now)
  | _ => none

def sessionWrite : ImportStatement × UInt64 → Option (Table.Write RatchetSessionRow.peerPubkey)
  | (.saveRatchetSession session, now) => some
    { new := ⟨session.peerPubkey, session.stateJson, some now.toInt64⟩
      revise := fun r => { r with stateJson := session.stateJson, updatedAt := some now.toInt64 }
      key_revise := fun _ => rfl }
  | _ => none

theorem toggleBookmark_rest (postId : String) (st : LinkStore) (now : UInt64) :
    (st.toggleBookmark now postId).graph = st.graph ∧
      (st.toggleBookmark now postId).moderation = st.moderation ∧
      (st.toggleBookmark now postId).sessions = st.sessions ∧
      (st.toggleBookmark now postId).profiles = st.profiles := by
  unfold LinkStore.toggleBookmark
  split
  · exact ⟨rfl, rfl, rfl, rfl⟩
  · exact ⟨rfl, rfl, rfl, rfl⟩

theorem bookmarks_toggleBookmark (postId : String) (st : LinkStore) (now : UInt64) :
    (st.toggleBookmark now postId).bookmarks = Table.toggle Bookmark.postId st.bookmarks ⟨postId, now.toInt64⟩ := by
  unfold LinkStore.toggleBookmark Table.toggle
  split
  · rfl
  · rfl

variable {me : String}

theorem table_executeAll {ρ ω : Type} (table : LinkStore → List ρ) (g : ImportStatement × UInt64 → Option ω)
    (write : List ρ → ω → List ρ)
    (hstep : ∀ st s, table (st.execute me s.2 s.1) = (g s).elim (table st) (write (table st)))
    (done : List (ImportStatement × UInt64)) (st : LinkStore) :
    table (st.executeAll me done) = (done.filterMap g).foldl write (table st) := by
  rw [List.foldl_filterMap]
  refine (List.foldl_hom table fun st s => ?_).symm
  rw [hstep]
  cases g s with
  | none => rfl
  | some w => rfl

theorem profiles_executeAll (done : List (ImportStatement × UInt64)) (st : LinkStore) :
    (st.executeAll me done).profiles =
      (done.filterMap (profileWrite me)).foldl (fun t w => w.apply t) st.profiles := by
  refine table_executeAll LinkStore.profiles (profileWrite me) _ ?_ done st
  rintro st ⟨s, now⟩
  cases s with
  | toggleBookmark id => exact (toggleBookmark_rest id st now).2.2.2
  | _ => rfl

theorem graph_executeAll (done : List (ImportStatement × UInt64)) (st : LinkStore) :
    (st.executeAll me done).graph.rows =
      (done.filterMap (followWrite me)).foldl (fun t w => w.apply t) st.graph.rows := by
  refine table_executeAll (fun st => st.graph.rows) (followWrite me) _ ?_ done st
  rintro st ⟨s, now⟩
  cases s with
  | toggleBookmark id => exact congrArg SocialGraph.rows (toggleBookmark_rest id st now).1
  | _ => rfl

theorem bookmarks_executeAll (done : List (ImportStatement × UInt64)) (st : LinkStore) :
    (st.executeAll me done).bookmarks =
      (done.filterMap bookmarkToggled).foldl (Table.toggle Bookmark.postId) st.bookmarks := by
  refine table_executeAll LinkStore.bookmarks bookmarkToggled _ ?_ done st
  rintro st ⟨s, now⟩
  cases s with
  | toggleBookmark id => exact bookmarks_toggleBookmark id st now
  | _ => rfl

theorem moderation_executeAll (done : List (ImportStatement × UInt64)) (st : LinkStore) :
    (st.executeAll me done).moderation.rows =
      (done.filterMap moderationWrite).foldl (fun t w => w.apply t) st.moderation.rows := by
  refine table_executeAll (fun st => st.moderation.rows) moderationWrite _ ?_ done st
  rintro st ⟨s, now⟩
  cases s with
  | toggleBookmark id => exact congrArg Moderation.rows (toggleBookmark_rest id st now).2.1
  | _ => rfl

theorem sessions_executeAll (done : List (ImportStatement × UInt64)) (st : LinkStore) :
    (st.executeAll me done).sessions =
      (done.filterMap sessionWrite).foldl (fun t w => w.apply t) st.sessions := by
  refine table_executeAll LinkStore.sessions sessionWrite _ ?_ done st
  rintro st ⟨s, now⟩
  cases s with
  | toggleBookmark id => exact (toggleBookmark_rest id st now).2.2.1
  | _ => rfl

section Rows

variable (done : List (ImportStatement × UInt64)) (st : LinkStore)

theorem sameRows_profiles_iff : Table.SameRows st.profiles (st.executeAll me done).profiles ↔
    ∀ s, Table.LastOf (fun s => s.1.target) done s → ∀ w, profileWrite me s = some w → w.Idle st.profiles := by
  rw [profiles_executeAll]
  refine Table.Write.sameRows_foldl_filterMap_iff ?_ ?_ ?_
  · rintro ⟨s, now⟩ ⟨s', now'⟩ w w' hw hw'
    cases s <;> cases hw
    cases s' <;> cases hw'
    exact iff_of_true rfl rfl
  · rintro ⟨s, now⟩ ⟨s', now'⟩ w hw hw'
    cases s <;> cases hw
    cases s' <;> cases hw' <;> exact fun h => nomatch h
  · rintro ⟨s, now⟩ ⟨s', now'⟩ w w' hw hw' r
    cases s <;> cases hw
    cases s' <;> cases hw'
    rfl

theorem sameRows_graph_iff : Table.SameRows st.graph.rows (st.executeAll me done).graph.rows ↔
    ∀ s, Table.LastOf (fun s => s.1.target) done s → ∀ w, followWrite me s = some w → w.Idle st.graph.rows := by
  rw [graph_executeAll]
  refine Table.Write.sameRows_foldl_filterMap_iff ?_ ?_ ?_
  · rintro ⟨s, now⟩ ⟨s', now'⟩ w w' hw hw'
    cases s <;> cases hw
    cases s' <;> cases hw'
    simp [ImportStatement.target, Table.Write.target, SocialGraphRow.key]
  · rintro ⟨s, now⟩ ⟨s', now'⟩ w hw hw'
    cases s <;> cases hw
    cases s' <;> cases hw' <;> exact fun h => nomatch h
  · rintro ⟨s, now⟩ ⟨s', now'⟩ w w' hw hw' r
    cases s <;> cases hw
    cases s' <;> cases hw'
    rfl

theorem sameRows_sessions_iff : Table.SameRows st.sessions (st.executeAll me done).sessions ↔
    ∀ s, Table.LastOf (fun s => s.1.target) done s → ∀ w, sessionWrite s = some w → w.Idle st.sessions := by
  rw [sessions_executeAll]
  refine Table.Write.sameRows_foldl_filterMap_iff ?_ ?_ ?_
  · rintro ⟨s, now⟩ ⟨s', now'⟩ w w' hw hw'
    cases s <;> cases hw
    cases s' <;> cases hw'
    simp [ImportStatement.target, Table.Write.target]
  · rintro ⟨s, now⟩ ⟨s', now'⟩ w hw hw'
    cases s <;> cases hw
    cases s' <;> cases hw' <;> exact fun h => nomatch h
  · rintro ⟨s, now⟩ ⟨s', now'⟩ w w' hw hw' r
    cases s <;> cases hw
    cases s' <;> cases hw'
    rfl

theorem sameRows_moderation_iff : Table.SameRows st.moderation.rows (st.executeAll me done).moderation.rows ↔
    ∀ s, Table.LastOf (fun s => s.1.target) done s → ∀ w, moderationWrite s = some w → w.Idle st.moderation.rows := by
  rw [moderation_executeAll]
  refine Table.Write.sameRows_foldl_filterMap_iff ?_ ?_ ?_
  · rintro ⟨s, now⟩ ⟨s', now'⟩ w w' hw hw'
    cases s <;> cases hw <;> cases s' <;> cases hw' <;>
      simp [ImportStatement.target, Table.Write.target, activation, ModerationRow.key]
  · rintro ⟨s, now⟩ ⟨s', now'⟩ w hw hw'
    cases s <;> cases hw <;> cases s' <;> cases hw' <;> exact fun h => nomatch h
  · rintro ⟨s, now⟩ ⟨s', now'⟩ w w' hw hw' r
    cases s <;> cases hw <;> cases s' <;> cases hw' <;> rfl

theorem sameRows_bookmarks_iff : Table.SameRows st.bookmarks (st.executeAll me done).bookmarks ↔
    (∀ postId, done.countP (fun s => s.1 = .toggleBookmark postId) % 2 = 0) ∧
      ∀ s, Table.LastOf (fun s => s.1.target) done s → ∀ b, bookmarkToggled s = some b →
        ∀ r ∈ st.bookmarks, r.postId = b.postId → r = b := by
  rw [bookmarks_executeAll, Table.sameRows_foldl_toggle_iff]
  refine and_congr (forall_congr' fun postId => ?_) ?_
  · rw [List.countP_filterMap]
    have hsame : ∀ s : ImportStatement × UInt64,
        ((bookmarkToggled s).map fun b => decide (b.postId = postId)).getD false =
          decide (s.1 = .toggleBookmark postId) := by
      rintro ⟨s, now⟩
      cases s <;> simp [bookmarkToggled]
    simp only [hsame]
  · have hlast : ∀ b, Table.LastOf Bookmark.postId (done.filterMap bookmarkToggled) b ↔
        ∃ s, bookmarkToggled s = some b ∧ Table.LastOf (fun s => s.1.target) done s := by
      intro b
      refine Table.lastOf_filterMap ?_ ?_
      · rintro ⟨s, now⟩ ⟨s', now'⟩ b b' hb hb'
        cases s <;> cases hb
        cases s' <;> cases hb'
        simp [ImportStatement.target]
      · rintro ⟨s, now⟩ ⟨s', now'⟩ b hb hb'
        cases s <;> cases hb
        cases s' <;> cases hb' <;> exact fun h => nomatch h
    constructor
    · intro h s hs b hb
      exact h b ((hlast b).mpr ⟨s, hb, hs⟩)
    · intro h b hb
      obtain ⟨s, hs, hlast⟩ := (hlast b).mp hb
      exact h s hlast b hs

end Rows

theorem alreadyIn_iff (s : ImportStatement) (now : UInt64) (st : LinkStore) : s.AlreadyIn me now st ↔
    (∀ w, profileWrite me (s, now) = some w → w.Idle st.profiles) ∧
    (∀ w, followWrite me (s, now) = some w → w.Idle st.graph.rows) ∧
    (∀ b, bookmarkToggled (s, now) = some b → ∀ r ∈ st.bookmarks, r.postId = b.postId → r = b) ∧
    (∀ w, moderationWrite (s, now) = some w → w.Idle st.moderation.rows) ∧
    ∀ w, sessionWrite (s, now) = some w → w.Idle st.sessions := by
  have hone : ∀ {α : Type} {a : α} {p : α → Prop}, (∀ w, some a = some w → p w) ↔ p a := by
    intro α a p
    refine ⟨fun h => h a rfl, ?_⟩
    rintro h _ ⟨⟩
    exact h
  have hnone : ∀ {α : Type} {p : α → Prop}, (∀ w, none = some w → p w) ↔ True :=
    iff_true_intro fun _ h => nomatch h
  have hactivation : ∀ kind pubkey, (activation kind pubkey now).Idle st.moderation.rows ↔
      ImportStatement.AlreadyIn.HasActive now st kind pubkey := by
    intro kind pubkey
    refine and_congr Iff.rfl (forall₂_congr fun r _ => forall_congr' fun _ => ?_)
    cases r
    simp only [activation, ModerationRow.mk.injEq, true_and]
    exact and_congr eq_comm eq_comm
  cases s with
  | saveProfile p =>
    simp only [profileWrite, followWrite, bookmarkToggled, moderationWrite, sessionWrite, hone, hnone, and_true]
    refine and_congr Iff.rfl (forall₂_congr fun r _ => forall_congr' fun hkey => ?_)
    subst hkey
    exact eq_comm
  | follow entry =>
    simp only [profileWrite, followWrite, bookmarkToggled, moderationWrite, sessionWrite, hone, hnone, and_true,
      true_and]
    refine and_congr Iff.rfl (forall₂_congr fun r _ => forall_congr' fun _ => ?_)
    cases r
    simp only [SocialGraphRow.mk.injEq, true_and, and_true]
    exact and_congr eq_comm (and_congr eq_comm eq_comm)
  | toggleBookmark postId =>
    simp only [profileWrite, followWrite, bookmarkToggled, moderationWrite, sessionWrite, hone, hnone, and_true,
      true_and]
    refine forall₂_congr fun r _ => forall_congr' fun hkey => ?_
    cases r
    simp only [Bookmark.mk.injEq]
    exact (and_iff_right hkey).symm
  | blockUser pubkey =>
    simp only [profileWrite, followWrite, bookmarkToggled, moderationWrite, sessionWrite, hone, hnone, and_true,
      true_and]
    exact (hactivation "block" pubkey).symm
  | muteUser pubkey =>
    simp only [profileWrite, followWrite, bookmarkToggled, moderationWrite, sessionWrite, hone, hnone, and_true,
      true_and]
    exact (hactivation "mute" pubkey).symm
  | saveRatchetSession session =>
    simp only [profileWrite, followWrite, bookmarkToggled, moderationWrite, sessionWrite, hone, hnone, true_and]
    refine and_congr Iff.rfl (forall₂_congr fun r _ => forall_congr' fun _ => ?_)
    cases r
    simp only [RatchetSessionRow.mk.injEq, true_and]
    exact and_congr eq_comm eq_comm

/-- What an import executes leaves the tables as they are exactly when the last statement for each
row writes what is there. -/
theorem sameRows_executeAll_iff (done : List (ImportStatement × UInt64)) (st : LinkStore) :
    st.SameRows (st.executeAll me done) ↔ LeavesTables me done st := by
  constructor
  · rintro ⟨hprofiles, hgraph, hbookmarks, hmoderation, hsessions⟩
    obtain ⟨htoggled, hbookmarks⟩ := (sameRows_bookmarks_iff done st).mp hbookmarks
    refine ⟨htoggled, fun s hs => (alreadyIn_iff s.1 s.2 st).mpr ⟨?_, ?_, hbookmarks s hs, ?_, ?_⟩⟩
    · exact (sameRows_profiles_iff done st).mp hprofiles s hs
    · exact (sameRows_graph_iff done st).mp hgraph s hs
    · exact (sameRows_moderation_iff done st).mp hmoderation s hs
    · exact (sameRows_sessions_iff done st).mp hsessions s hs
  · rintro ⟨htoggled, hwritten⟩
    have hidle := fun s hs => (alreadyIn_iff s.1 s.2 st).mp (hwritten s hs)
    exact ⟨(sameRows_profiles_iff done st).mpr fun s hs => (hidle s hs).1,
      (sameRows_graph_iff done st).mpr fun s hs => (hidle s hs).2.1,
      (sameRows_bookmarks_iff done st).mpr ⟨htoggled, fun s hs => (hidle s hs).2.2.1⟩,
      (sameRows_moderation_iff done st).mpr fun s hs => (hidle s hs).2.2.2.1,
      (sameRows_sessions_iff done st).mpr fun s hs => (hidle s hs).2.2.2.2⟩

end Tables

section Files

/-- The writes up to the first key that cannot be decoded or write that fails. -/
def performed : List FileStep → List FileWrite
  | [] => []
  | none :: _ => []
  | some (x, ok) :: rest => if ok then x :: performed rest else [x]

def FileWrite.Holds (f : DataDir) (x : FileWrite) : Prop := f.write x = f

theorem runSteps_eq (steps : List FileStep) (f : DataDir) :
    (runSteps steps f).1 = (performed steps).foldl DataDir.write f := by
  induction steps generalizing f with
  | nil => rfl
  | cons s rest ih =>
    rcases s with _ | ⟨x, _ | _⟩
    · rfl
    · rfl
    · exact ih _

/-- Which file a write is to. -/
def FileWrite.file : FileWrite → Fin 6
  | .signingKey _ => 0
  | .signingKeyIndex _ => 1
  | .dmKeyIndex _ => 2
  | .transportKey _ => 3
  | .deviceIndex _ => 4
  | .masterKey _ => 5

theorem write_comm {x y : FileWrite} (hne : x.file ≠ y.file) (f : DataDir) :
    (f.write x).write y = (f.write y).write x := by
  cases x <;> cases y <;> first
    | rfl
    | exact absurd rfl hne

theorem write_again (f : DataDir) (x : FileWrite) : (f.write x).write x = f.write x := by
  cases x <;> rfl

theorem foldl_write_comm {l : List FileWrite} {x : FileWrite} (hne : ∀ y ∈ l, x.file ≠ y.file) (f : DataDir) :
    l.foldl DataDir.write (f.write x) = (l.foldl DataDir.write f).write x := by
  induction l generalizing f with
  | nil => rfl
  | cons y l ih =>
    obtain ⟨hy, hl⟩ := List.forall_mem_cons.mp hne
    rw [List.foldl_cons, write_comm hy, ih hl]
    rfl

theorem foldl_write_iff {l : List FileWrite} (hdistinct : l.Pairwise fun x y => x.file ≠ y.file) (f : DataDir) :
    l.foldl DataDir.write f = f ↔ ∀ x ∈ l, x.Holds f := by
  induction l generalizing f with
  | nil => exact iff_of_true rfl fun x hx => absurd hx List.not_mem_nil
  | cons x l ih =>
    obtain ⟨hx, hl⟩ := List.pairwise_cons.mp hdistinct
    rw [List.foldl_cons, List.forall_mem_cons]
    constructor
    · intro hsame
      have hholds : f.write x = f := by
        calc f.write x = ((l.foldl DataDir.write f).write x).write x := by rw [← foldl_write_comm hx, hsame]
          _ = (l.foldl DataDir.write f).write x := write_again _ x
          _ = f := by rw [← foldl_write_comm hx, hsame]
      rw [hholds] at hsame
      exact ⟨hholds, (ih hl f).mp hsame⟩
    · rintro ⟨hholds, hrest⟩
      rw [show f.write x = f from hholds]
      exact (ih hl f).mpr hrest

theorem mem_performed {steps : List FileStep} {x : FileWrite} (hx : x ∈ performed steps) :
    ∃ ok, some (x, ok) ∈ steps := by
  induction steps with
  | nil => exact absurd hx List.not_mem_nil
  | cons s rest ih =>
    rcases s with _ | ⟨y, _ | _⟩
    · exact absurd hx List.not_mem_nil
    · rw [List.mem_singleton.mp hx]
      exact ⟨false, List.mem_cons_self⟩
    · rcases List.mem_cons.mp hx with rfl | hx
      · exact ⟨true, List.mem_cons_self⟩
      · obtain ⟨ok, hmem⟩ := ih hx
        exact ⟨ok, List.mem_cons_of_mem _ hmem⟩

def Distinct (s s' : FileStep) : Prop := ∀ x ∈ s, ∀ y ∈ s', x.1.file ≠ y.1.file

theorem pairwise_performed {steps : List FileStep} (h : steps.Pairwise Distinct) :
    (performed steps).Pairwise fun x y => x.file ≠ y.file := by
  induction steps with
  | nil => exact List.Pairwise.nil
  | cons s rest ih =>
    obtain ⟨hs, hrest⟩ := List.pairwise_cons.mp h
    rcases s with _ | ⟨x, _ | _⟩
    · exact List.Pairwise.nil
    · exact List.pairwise_singleton _ _
    · refine List.pairwise_cons.mpr ⟨?_, ih hrest⟩
      intro y hy
      obtain ⟨ok, hmem⟩ := mem_performed hy
      exact hs _ hmem _ rfl _ rfl

/-- Every step writes the file of its place in the list. -/
theorem file_of_step (bundle : LinkBundleData) (w : FileWrites) {i : Nat} {s : FileStep}
    (hs : (fileSteps bundle w)[i]? = some s) : ∀ x ∈ s, x.1.file.val = i := by
  have hkey : ∀ {text : String} {outcome : Except (Option Bytes) Unit} {file : Option Bytes → FileWrite} {n : Nat},
      (∀ k, (file k).file.val = n) → ∀ x ∈ writeKey text outcome file, x.1.file.val = n := by
    rintro text outcome file n hfile x hx
    obtain ⟨bytes, -, rfl⟩ := Option.map_eq_some_iff.mp hx
    exact hfile _
  have hindex : ∀ {index : UInt32} {outcome : Except (Option UInt32) Unit} {file : Option UInt32 → FileWrite}
      {n : Nat}, (∀ k, (file k).file.val = n) → ∀ x ∈ writeIndex index outcome file, x.1.file.val = n := by
    rintro index outcome file n hfile x ⟨⟩
    exact hfile _
  match i with
  | 0 =>
    obtain rfl := Option.some.inj hs
    apply hkey
    intro _
    rfl
  | 1 =>
    obtain rfl := Option.some.inj hs
    apply hindex
    intro _
    rfl
  | 2 =>
    obtain rfl := Option.some.inj hs
    apply hindex
    intro _
    rfl
  | 3 =>
    obtain rfl := Option.some.inj hs
    apply hkey
    intro _
    rfl
  | 4 =>
    obtain rfl := Option.some.inj hs
    apply hindex
    intro _
    rfl
  | n + 5 =>
    cases hmaster : bundle.masterSecretKey with
    | none =>
      simp only [fileSteps, hmaster] at hs
      exact absurd hs (by simp)
    | some text =>
      match n with
      | 0 =>
        simp only [fileSteps, hmaster] at hs
        obtain rfl := Option.some.inj hs
        apply hkey
        intro _
        rfl
      | n + 1 =>
        simp only [fileSteps, hmaster] at hs
        exact absurd hs (by simp)

theorem pairwise_fileSteps (bundle : LinkBundleData) (w : FileWrites) : (fileSteps bundle w).Pairwise Distinct := by
  refine List.pairwise_iff_getElem.mpr fun i j hi hj hlt x hx y hy heq => ?_
  have hfirst := file_of_step bundle w (List.getElem?_eq_getElem hi) x hx
  have hsecond := file_of_step bundle w (List.getElem?_eq_getElem hj) y hy
  rw [heq] at hfirst
  omega

end Files

variable (C : LinkCrates)

/-- If a bundle is received at all, what is executed of its import writes what is in the tables, and
if the import is done, the files that are written have that content already. -/
def Harmless (d : NewDevice) (masterPubkey : String) (hs : C.Handshake) (respBytes : Bytes) (outcome : Outcomes)
    (w : FileWrites) : Prop :=
  ∀ bundle, receiveBundle C hs respBytes = .ok bundle →
    LeavesTables masterPubkey (executed outcome bundle.statements) d.store ∧
    (passes outcome bundle.statements = true → ∀ x ∈ performed (fileSteps bundle w), x.Holds d.files)

def NewDevice.Unchanged (d d' : NewDevice) : Prop := d.store.SameRows d'.store ∧ d'.files = d.files

theorem NewDevice.unchanged_refl (d : NewDevice) : d.Unchanged d :=
  ⟨⟨fun _ => Iff.rfl, fun _ => Iff.rfl, fun _ => Iff.rfl, fun _ => Iff.rfl, fun _ => Iff.rfl⟩, rfl⟩

/-- A link, be it one that fails, leaves the device as it was exactly when all that it writes is
there already. -/
theorem failed_link_iff (d : NewDevice) (masterPubkey : String) (hs : C.Handshake) (respBytes : Bytes)
    (outcome : Outcomes) (w : FileWrites) :
    d.Unchanged (d.linkWithDevice C masterPubkey hs respBytes outcome w).1 ↔
      Harmless C d masterPubkey hs respBytes outcome w := by
  unfold NewDevice.linkWithDevice Harmless
  cases hreceive : receiveBundle C hs respBytes with
  | error e => exact iff_of_true d.unchanged_refl fun bundle hbundle => absurd hbundle (by simp)
  | ok bundle =>
    have hone : ∀ {p : LinkBundleData → Prop}, (∀ b, Except.ok (ε := String) bundle = .ok b → p b) ↔ p bundle := by
      intro p
      refine ⟨fun h => h bundle rfl, ?_⟩
      rintro h _ ⟨⟩
      exact h
    rw [hone, ← sameRows_executeAll_iff]
    simp only [importStatements_eq]
    cases hpasses : passes outcome bundle.statements with
    | false =>
      simp only [Bool.false_eq_true, if_false, false_implies, and_true]
      exact and_iff_left rfl
    | true =>
      simp only [if_true, forall_const]
      rw [← foldl_write_iff (pairwise_performed (pairwise_fileSteps bundle w)), ← runSteps_eq]
      exact Iff.rfl

/-- The bundle of an installation that follows bob, with keys as `export_link_bundle` writes them. -/
def followingBundle : LinkBundleData :=
  { emptyBundle zeroSecret with
    signingSecretKey := Base64.Engine.standard.encode zeroSecret.toList
    follows := [⟨"bob", 7, 0, 0, false⟩] }

def noFiles : DataDir := ⟨none, none, none, none, none, none⟩

def goodWrites : FileWrites := ⟨.ok (), .ok (), .ok (), .ok (), .ok (), .ok ()⟩

def linkResponse : Bytes := List.replicate 32 7 ++ zeroSecret.toList ++ [123]

/-- Bob is followed, and then the first key cannot be decoded. -/
theorem not_unchanged_following :
    let out := (⟨emptyStore, noFiles⟩ : NewDevice).linkWithDevice (plainLinks followingBundle) "alice" zeroSecret
      linkResponse (fun _ => (true, 9)) goodWrites
    out.2 = false ∧ ¬ (⟨emptyStore, noFiles⟩ : NewDevice).Unchanged out.1 := by
  have hunread : Base64.Engine.urlSafeNoPad.decode followingBundle.signingSecretKey = none :=
    Base64.Engine.decode_encode_of_pads rfl rfl (by decide)
  have hsteps : ∃ rest, fileSteps followingBundle goodWrites = none :: rest := by
    unfold fileSteps writeKey
    rw [hunread]
    exact ⟨_, rfl⟩
  obtain ⟨rest, hsteps⟩ := hsteps
  have hreceive : receiveBundle (plainLinks followingBundle) zeroSecret linkResponse = .ok followingBundle := rfl
  refine ⟨?_, ?_⟩
  · simp only [NewDevice.linkWithDevice, hreceive, hsteps]
    rfl
  · rintro ⟨hrows, -⟩
    -- the store before has no rows, the one after has bob's
    exact absurd ((hrows.graph ⟨"alice", "bob", some 7, "active", 9, none, none, false⟩).mp (by decide)) (by decide)

end Proscenium.Link
