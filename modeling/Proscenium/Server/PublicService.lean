import Proscenium.Server.VisibilityDefs

/-! Whose posts the server gives out. A query does not ask if the author is
public, apart from the feed, so it is the tables that have to be right: every
post that is stored is one of an active public user. -/

namespace Proscenium.Server

open Proscenium.Types

namespace Store

def PublicUser (s : Store) (pubkey : String) : Prop := pubkey ∈ s.getActivePublicPubkeys

/-- What is given out is of public users, and nothing is left of a user who is not one any more. -/
structure ServesPublic (s : Store) : Prop where
  active : ∀ q, ∀ p ∈ s.serve q, s.PublicUser p.author
  gone : ∀ pubkey, ¬ s.PublicUser pubkey → ∀ q, ∀ p ∈ s.serve q, p.author ≠ pubkey

def PostsPublic (s : Store) : Prop := ∀ p ∈ s.posts, s.PublicUser p.author

def NoPosts (s : Store) (pubkey : String) : Prop := ∀ p ∈ s.posts, p.author ≠ pubkey

section Conditions

variable (S : SignatureCrates) (config : ServerConfig) (s : Store)

def SafeWrite (pubkey : String) : Write → Prop
  | .deactivate => s.NoPosts pubkey
  | .setVisibility visibility => visibility ≠ .isPublic → s.NoPosts pubkey
  | _ => True

def SafeProfile (env : Env) (pubkey : String) (profile : Profile) : Prop :=
  env.fails .updateProfile = none → profile.visibility ≠ .isPublic → s.NoPosts pubkey

def SafePost (fails : IngestFails) (now : UInt64) (p : Post) : Prop :=
  acceptsPost S fails now p s.index = true → fails .insertPost = false → p.author ∈ s.index.registered →
    s.PublicUser p.author

def SafeMessage (owner : String) (env : Env) (ingest : IngestFails) : GossipMessage → Prop
  | .profileUpdate profile => s.acceptsProfile S (ingest .signingPubkey) owner profile = true →
      s.SafeProfile env owner profile
  | .newPost p => p.author = owner → s.SafePost S ingest env.nowValidate p
  | _ => True

/-- A user who stops being public has no posts stored, and a post is stored only if its author is
public at that time. -/
def Safe : Label → Prop
  | .register req env => req.action ≠ some "unregister" → validateRegistration S config env req = .ok () →
      env.fails .registerUser = none → req.visibility ≠ .isPublic → s.NoPosts req.masterPubkey
  | .updateProfile req env => ∀ visibility, Visibility.fromStr req.visibility = .ok visibility →
      verifyRegistrationSignature S (req.registration visibility) = .ok () →
      env.fails .updateProfile = none → visibility ≠ .isPublic → s.NoPosts req.masterPubkey
  | .gossip i msg env ingest =>
      ∀ owner, s.tasks[i]? = some (.listen owner []) → s.SafeMessage S owner env ingest msg
  | .summary i summary env => ∀ pubkey profile, s.tasks[i]? = some (.connect pubkey) →
      summary.profile = some profile → (validateProfile profile).toBool = true →
      s.SafeProfile env pubkey profile
  | .post i p fails now => ∀ pubkey lastPost lastInt, s.tasks[i]? = some (.frames pubkey lastPost lastInt) →
      s.SafePost S fails now p
  | .proceed i => ∀ pubkey next todo, s.tasks[i]? = some (.listen pubkey (next :: todo)) ∨
      s.tasks[i]? = some (.unregister pubkey (next :: todo)) → s.SafeWrite pubkey next
  | _ => True

end Conditions

variable {S : SignatureCrates} {config : ServerConfig} {s s' : Store} {pubkey : String}

theorem publicUser_iff : s.PublicUser pubkey ↔
    ∃ r ∈ s.registrations, r.pubkey = pubkey ∧ r.isActive = 1 ∧ r.visibility = "public" := by
  unfold PublicUser getActivePublicPubkeys
  simp only [List.mem_map, List.mem_filter, decide_eq_true_eq]
  constructor
  · rintro ⟨r, ⟨hr, hpublic⟩, hkey⟩
    exact ⟨r, hr, hkey, hpublic⟩
  · rintro ⟨r, hr, hkey, hpublic⟩
    exact ⟨r, ⟨hr, hpublic⟩, hkey⟩

section Queries

theorem mem_newestFirst {rows : List Post} {p : Post} : p ∈ newestFirst rows ↔ p ∈ rows :=
  Timeline.mem_ordered

theorem mem_of_mem_limitRows {limit : Int64} {rows : List Post} {p : Post}
    (h : p ∈ limitRows limit rows) : p ∈ rows := by
  unfold limitRows at h
  split at h
  · exact h
  · exact List.mem_of_mem_take h

theorem mem_getUserPosts {limit before : Option Int64} {lookupFails : Bool} {p : Post}
    (h : p ∈ s.getUserPosts pubkey limit before lookupFails) : p ∈ s.posts ∧ p.author = pubkey := by
  unfold getUserPosts at h
  split at h
  · exact nomatch h
  · have hrow := List.mem_filter.mp (mem_newestFirst.mp (mem_of_mem_limitRows h))
    exact ⟨hrow.1, (of_decide_eq_true hrow.2).1⟩

theorem mem_getFeed {limit before : Option Int64} {authors : Option String} {p : Post}
    (h : p ∈ s.getFeed limit before authors) : p ∈ s.posts :=
  List.mem_of_mem_filter (mem_newestFirst.mp (mem_of_mem_limitRows h))

theorem mem_posts_of_mem_serve {q : Query} {p : Post} (h : p ∈ s.serve q) : p ∈ s.posts := by
  cases q with
  | userPosts pubkey limit before lookupFails => exact (mem_getUserPosts h).1
  | feed limit before authors => exact mem_getFeed h

theorem exists_serve {p : Post} (h : p ∈ s.posts) :
    ∃ q, ∃ p' ∈ s.serve q, p'.author = p.author := by
  have hmine : p ∈ s.posts.filter fun p' =>
      p'.author = p.author ∧ (none : Option Int64).all (p'.storedTimestamp < ·) :=
    List.mem_filter.mpr ⟨h, by simp⟩
  have hrows := List.ne_nil_of_mem (mem_newestFirst.mpr hmine)
  have hnonempty : s.getUserPosts p.author none none true ≠ [] := by
    intro hnil
    rcases List.take_eq_nil_iff.mp hnil with hzero | hrows'
    · exact absurd hzero (by decide)
    · exact hrows hrows'
  obtain ⟨p', hp'⟩ := List.exists_mem_of_ne_nil _ hnonempty
  exact ⟨.userPosts p.author none none true, p', hp', (mem_getUserPosts hp').2⟩

theorem servesPublic_iff : s.ServesPublic ↔ s.PostsPublic := by
  constructor
  · intro h p hp
    obtain ⟨q, p', hp', hauthor⟩ := exists_serve hp
    exact hauthor ▸ h.active q p' hp'
  · intro h
    have hactive : ∀ q, ∀ p ∈ s.serve q, s.PublicUser p.author :=
      fun q p hp => h p (mem_posts_of_mem_serve hp)
    refine ⟨hactive, ?_⟩
    rintro pubkey hnot q p hp rfl
    exact hnot (hactive q p hp)

end Queries

section Rows

/-- Nothing but the user stops being public, and no posts are removed. -/
structure Hides (pubkey : String) (s s' : Store) : Prop where
  posts : s'.posts = s.posts
  publicUser : ∀ u, s'.PublicUser u ↔ s.PublicUser u ∧ u ≠ pubkey

theorem PostsPublic.shrink (h : s.PostsPublic) (hposts : s'.posts ⊆ s.posts)
    (hpublic : ∀ u, s.PublicUser u → s'.PublicUser u) : s'.PostsPublic :=
  fun p hp => hpublic _ (h p (hposts hp))

theorem PostsPublic.congr (h : s.PostsPublic) (hposts : s'.posts = s.posts)
    (hregs : s'.registrations = s.registrations) : s'.PostsPublic := by
  refine h.shrink (fun p hp => hposts ▸ hp) fun u hu => ?_
  unfold PublicUser getActivePublicPubkeys
  rw [hregs]
  exact hu

theorem PostsPublic.withIndex (h : s.PostsPublic) {ix : Index} (hposts : ix.posts = s.posts) :
    (s.withIndex ix).PostsPublic :=
  h.congr hposts rfl

theorem advance_postsPublic {i : Nat} {next : Option Task} :
    (s.advance i next).PostsPublic ↔ s.PostsPublic := Iff.rfl

theorem PostsPublic.hides_iff (h : s.PostsPublic) (hhides : Hides pubkey s s') :
    s'.PostsPublic ↔ s.NoPosts pubkey := by
  unfold PostsPublic NoPosts
  rw [hhides.posts]
  refine forall₂_congr fun p hp => ?_
  rw [hhides.publicUser]
  exact and_iff_right (h p hp)

variable {f : Registration → Registration}

theorem publicUser_map (hregs : s'.registrations = s.registrations.map f)
    (hkey : ∀ r, (f r).pubkey = r.pubkey) {u : String} : s'.PublicUser u ↔
      ∃ r ∈ s.registrations, r.pubkey = u ∧ (f r).isActive = 1 ∧ (f r).visibility = "public" := by
  rw [publicUser_iff, hregs]
  constructor
  · rintro ⟨r', hr', hu, hpublic⟩
    obtain ⟨r, hr, rfl⟩ := List.mem_map.mp hr'
    exact ⟨r, hr, (hkey r).symm.trans hu, hpublic⟩
  · rintro ⟨r, hr, hu, hpublic⟩
    exact ⟨f r, List.mem_map_of_mem hr, (hkey r).trans hu, hpublic⟩

theorem hides_map (hposts : s'.posts = s.posts) (hregs : s'.registrations = s.registrations.map f)
    (hkey : ∀ r, (f r).pubkey = r.pubkey)
    (hself : ∀ r, r.pubkey = pubkey → (f r).isActive = 1 → (f r).visibility ≠ "public")
    (hother : ∀ r, r.pubkey ≠ pubkey → f r = r) : Hides pubkey s s' := by
  refine ⟨hposts, fun u => ?_⟩
  rw [publicUser_map hregs hkey, publicUser_iff]
  constructor
  · rintro ⟨r, hr, rfl, hactive, hpublic⟩
    have hne : r.pubkey ≠ pubkey := fun heq => hself r heq hactive hpublic
    rw [hother r hne] at hactive hpublic
    exact ⟨⟨r, hr, rfl, hactive, hpublic⟩, hne⟩
  · rintro ⟨⟨r, hr, rfl, hpublic⟩, hne⟩
    refine ⟨r, hr, rfl, ?_⟩
    rw [hother r hne]
    exact hpublic

theorem publicUser_map_of (hregs : s'.registrations = s.registrations.map f)
    (hkey : ∀ r, (f r).pubkey = r.pubkey)
    (hpublic : ∀ r, r.isActive = 1 → r.visibility = "public" →
      (f r).isActive = 1 ∧ (f r).visibility = "public") {u : String} (h : s.PublicUser u) :
    s'.PublicUser u := by
  obtain ⟨r, hr, hu, hactive, hvis⟩ := publicUser_iff.mp h
  exact (publicUser_map hregs hkey).mpr ⟨r, hr, hu, hpublic r hactive hvis⟩

section UpdateWhere

variable {p : Registration → Bool} {g : Registration → Registration}

theorem pubkey_update (hkey : ∀ r, (g r).pubkey = r.pubkey) (r : Registration) :
    (if p r then g r else r).pubkey = r.pubkey := by
  split
  · exact hkey r
  · rfl

theorem hides_updateWhere (hposts : s'.posts = s.posts)
    (hregs : s'.registrations = Table.updateWhere p g s.registrations)
    (hkey : ∀ r, (g r).pubkey = r.pubkey) (hp : ∀ r, p r = true → r.pubkey = pubkey)
    (hself : ∀ r, (g r).isActive = 1 → (g r).visibility ≠ "public")
    (hrest : ∀ r, r.pubkey = pubkey → r.isActive = 1 → p r = true) : Hides pubkey s s' := by
  refine hides_map hposts hregs (pubkey_update hkey) ?_ ?_
  · intro r hr
    split
    next => exact hself r
    next hnot => exact fun hactive => absurd (hrest r hr hactive) hnot
  · intro r hr
    exact if_neg fun hpr => hr (hp r hpr)

theorem publicUser_updateWhere (hregs : s'.registrations = Table.updateWhere p g s.registrations)
    (hkey : ∀ r, (g r).pubkey = r.pubkey)
    (hg : ∀ r, r.isActive = 1 → r.visibility = "public" → (g r).isActive = 1 ∧ (g r).visibility = "public")
    {u : String} (h : s.PublicUser u) : s'.PublicUser u := by
  refine publicUser_map_of hregs (pubkey_update hkey) ?_ h
  intro r hactive hpublic
  split
  · exact hg r hactive hpublic
  · exact ⟨hactive, hpublic⟩

end UpdateWhere

section Upsert

variable {new : Registration} {g : Registration → Registration}

theorem hides_upsert (hposts : s'.posts = s.posts)
    (hregs : s'.registrations = Table.upsert Registration.pubkey pubkey new g s.registrations)
    (hkey : ∀ r, (g r).pubkey = r.pubkey) (hnew : new.visibility ≠ "public")
    (hg : ∀ r, (g r).visibility ≠ "public") : Hides pubkey s s' := by
  unfold Table.upsert at hregs
  split at hregs
  · refine hides_map hposts hregs ?_ ?_ ?_
    · intro r
      split
      · exact hkey r
      · rfl
    · rintro r rfl -
      rw [if_pos rfl]
      exact hg r
    · intro r hr
      exact if_neg hr
  next hany =>
    refine ⟨hposts, fun u => ?_⟩
    have hnone : ∀ r ∈ s.registrations, r.pubkey ≠ pubkey := by simpa using hany
    rw [publicUser_iff, hregs, publicUser_iff]
    constructor
    · rintro ⟨r, hr, rfl, hactive, hpublic⟩
      rcases List.mem_append.mp hr with hr | hr
      · exact ⟨⟨r, hr, rfl, hactive, hpublic⟩, hnone r hr⟩
      · obtain rfl := List.mem_singleton.mp hr
        exact absurd hpublic hnew
    · rintro ⟨⟨r, hr, hpublic⟩, -⟩
      exact ⟨r, List.mem_append_left _ hr, hpublic⟩

theorem publicUser_upsert
    (hregs : s'.registrations = Table.upsert Registration.pubkey pubkey new g s.registrations)
    (hkey : ∀ r, (g r).pubkey = r.pubkey)
    (hg : ∀ r, (g r).isActive = 1 ∧ (g r).visibility = "public") {u : String} (h : s.PublicUser u) :
    s'.PublicUser u := by
  unfold Table.upsert at hregs
  split at hregs
  · refine publicUser_map_of hregs ?_ ?_ h
    · intro r
      split
      · exact hkey r
      · rfl
    · intro r hactive hpublic
      split
      · exact hg r
      · exact ⟨hactive, hpublic⟩
  · obtain ⟨r, hr, hpublic⟩ := publicUser_iff.mp h
    refine publicUser_iff.mpr ⟨r, ?_, hpublic⟩
    rw [hregs]
    exact List.mem_append_left _ hr

end Upsert

end Rows

theorem toText_eq_public {visibility : Visibility} :
    visibility.toText = "public" ↔ visibility = .isPublic := by
  cases visibility <;> decide

section Writes

theorem visibility_postsPublic_iff (h : s.PostsPublic) {visibility : Visibility}
    {g : Registration → Registration} (hposts : s'.posts = s.posts)
    (hregs : s'.registrations =
      Table.updateWhere (fun r => r.pubkey = pubkey ∧ r.isActive = 1) g s.registrations)
    (hkey : ∀ r, (g r).pubkey = r.pubkey) (hactive : ∀ r, (g r).isActive = r.isActive)
    (hvis : ∀ r, (g r).visibility = visibility.toText) :
    s'.PostsPublic ↔ (visibility ≠ .isPublic → s.NoPosts pubkey) := by
  by_cases hpublic : visibility = .isPublic
  · have hg : ∀ r, r.isActive = 1 → r.visibility = "public" →
        (g r).isActive = 1 ∧ (g r).visibility = "public" := by
      intro r hr _
      rw [hactive, hvis]
      exact ⟨hr, toText_eq_public.mpr hpublic⟩
    have hkeep : s'.PostsPublic :=
      h.shrink (fun p hp => hposts ▸ hp) fun u hu => publicUser_updateWhere hregs hkey hg hu
    exact iff_of_true hkeep fun hne => absurd hpublic hne
  · have hhides : Hides pubkey s s' := by
      refine hides_updateWhere hposts hregs hkey ?_ ?_ ?_
      · exact fun r hr => (of_decide_eq_true hr).1
      · intro r _ hr
        exact hpublic (toText_eq_public.mp ((hvis r).symm.trans hr))
      · exact fun r hr hr' => decide_eq_true ⟨hr, hr'⟩
    exact (h.hides_iff hhides).trans (imp_iff_right hpublic).symm

theorem write_postsPublic_iff (h : s.PostsPublic) (next : Write) :
    (s.write pubkey next).PostsPublic ↔ s.SafeWrite pubkey next := by
  cases next with
  | deleteInteractions => exact iff_of_true (h.congr rfl rfl) trivial
  | deletePosts =>
    refine iff_of_true (h.shrink ?_ fun _ hu => hu) trivial
    exact fun p hp => List.mem_of_mem_filter hp
  | deleteSyncState => exact iff_of_true (h.congr rfl rfl) trivial
  | deactivate =>
    refine h.hides_iff (hides_updateWhere rfl rfl (fun _ => rfl) ?_ ?_ ?_)
    · exact fun r hr => of_decide_eq_true hr
    · exact fun r hactive => absurd hactive (by decide : (0 : Int) ≠ 1)
    · exact fun r hr _ => decide_eq_true hr
  | setVisibility visibility =>
    have hregs : (s.write pubkey (.setVisibility visibility)).registrations =
        Table.updateWhere (fun r => r.pubkey = pubkey ∧ r.isActive = 1)
          (fun r => { r with visibility := visibility.toText }) s.registrations := rfl
    exact visibility_postsPublic_iff h rfl hregs (fun _ => rfl) (fun _ => rfl) fun _ => rfl

theorem registrations_updateProfile (env : Env) (profile : Profile) (st : Storage) :
    (st.updateProfile env pubkey profile).2.registrations =
      if env.fails .updateProfile = none then
        Table.updateWhere (fun r => r.pubkey = pubkey ∧ r.isActive = 1)
          (fun r => { r with
            displayName := some profile.displayName
            bio := some profile.bio
            avatarHash := profile.avatarHash
            visibility := profile.visibility.toText
            lastSeen := env.nowStore.toInt64 }) st.registrations
      else st.registrations := by
  unfold Storage.updateProfile
  cases env.fails .updateProfile with
  | none => rfl
  | some e => rfl

theorem profile_postsPublic_iff (h : s.PostsPublic) {env : Env} {profile : Profile}
    (hposts : s'.posts = s.posts)
    (hregs : s'.registrations = (s.server.storage.updateProfile env pubkey profile).2.registrations) :
    s'.PostsPublic ↔ s.SafeProfile env pubkey profile := by
  rw [registrations_updateProfile] at hregs
  unfold SafeProfile
  split at hregs
  next hfails =>
    rw [imp_iff_right hfails]
    exact visibility_postsPublic_iff h hposts hregs (fun _ => rfl) (fun _ => rfl) fun _ => rfl
  next hfails => exact iff_of_true (h.congr hposts hregs) fun hnone => absurd hnone hfails

theorem registrations_cachePeerDelegation {env : Env} {signing : String} {d : SigningKeyDelegation}
    {node : Option String} {st : Storage} :
    (st.cachePeerDelegation env pubkey signing d node).2.registrations = st.registrations := by
  unfold Storage.cachePeerDelegation Storage.run
  cases env.fails .cachePeerDelegation with
  | none => rfl
  | some e => rfl

theorem registrations_registerUser {env : Env} {visibility node : String} {d : SigningKeyDelegation}
    {st : Storage} :
    (st.registerUser env pubkey visibility none (some node) (some d)).2.registrations =
      if env.fails .registerUser = none then
        (st.upsertRegistration env pubkey visibility none (some node) (some d)).registrations
      else st.registrations := by
  unfold Storage.registerUser Storage.run
  cases env.fails .registerUser with
  | none => exact registrations_cachePeerDelegation
  | some e => rfl

theorem ingestPost_postsPublic_iff (h : s.PostsPublic) (fails : IngestFails) (now : UInt64) (p : Post) :
    (s.withIndex (ingestPost S fails now p s.index)).PostsPublic ↔ s.SafePost S fails now p := by
  unfold SafePost ingestPost
  split
  next hstored =>
    obtain ⟨haccepts, hfails, hregistered⟩ := hstored
    rw [imp_iff_right haccepts, imp_iff_right hfails, imp_iff_right hregistered]
    constructor
    · intro h'
      by_cases hany : s.posts.any (fun q => q.author = p.author ∧ q.id = p.id) = true
      · -- the row that is in the way is of the same author
        obtain ⟨q, hq, hsame⟩ := List.any_eq_true.mp hany
        exact (of_decide_eq_true hsame).1 ▸ h q hq
      · refine h' p ?_
        show p ∈ Table.insertOrIgnore _ p s.posts
        unfold Table.insertOrIgnore
        rw [if_neg hany]
        exact List.mem_append_right _ (List.mem_singleton.mpr rfl)
    · intro hpublic q hq
      rcases Table.mem_of_mem_insertOrIgnore hq with hq | rfl
      · exact h q hq
      · exact hpublic
  next hnot =>
    exact iff_of_true (h.congr rfl rfl) fun haccepts hfails hregistered =>
      absurd ⟨haccepts, hfails, hregistered⟩ hnot

end Writes

section Endpoints

theorem subscribe_rows : (s.subscribe pubkey).posts = s.posts ∧
    (s.subscribe pubkey).registrations = s.registrations := by
  unfold subscribe
  split <;> exact ⟨rfl, rfl⟩

theorem unsubscribe_rows : (s.unsubscribe pubkey).posts = s.posts ∧
    (s.unsubscribe pubkey).registrations = s.registrations := by
  unfold unsubscribe
  split <;> exact ⟨rfl, rfl⟩

theorem register_rows (S : SignatureCrates) (config : ServerConfig) (s : Store)
    (req : RegistrationRequest) (env : Env) :
    (s.register S config req env).posts = s.posts ∧ (s.register S config req env).registrations =
      (Server.register S config { env with subscribes := false } req s.server).2.storage.registrations := by
  unfold register
  dsimp only
  split
  · split
    · exact subscribe_rows
    · exact ⟨rfl, rfl⟩
  · exact ⟨rfl, rfl⟩

theorem register_postsPublic_iff (h : s.PostsPublic) (req : RegistrationRequest) (env : Env) :
    (s.register S config req env).PostsPublic ↔ s.Safe S config (.register req env) := by
  obtain ⟨hposts, hregs⟩ := register_rows S config s req env
  rw [register_storage] at hregs
  split at hregs
  next hok =>
    rw [registrations_registerUser] at hregs
    have hvalid : validateRegistration S config env req = .ok () := hok.2
    show _ ↔ (_ → validateRegistration S config env req = .ok () → _)
    rw [imp_iff_right hok.1, imp_iff_right hvalid]
    split at hregs
    next hfails =>
      rw [imp_iff_right hfails]
      by_cases hvis : req.visibility = .isPublic
      · have hkeep : (s.register S config req env).PostsPublic := by
          refine h.shrink (fun p hp => hposts ▸ hp) fun u hu => ?_
          refine publicUser_upsert hregs (fun _ => rfl) ?_ hu
          exact fun _ => ⟨rfl, toText_eq_public.mpr hvis⟩
        exact iff_of_true hkeep fun hne => absurd hvis hne
      · have hhides : Hides req.masterPubkey s (s.register S config req env) := by
          refine hides_upsert hposts hregs (fun _ => rfl) ?_ ?_
          · exact fun hpublic => hvis (toText_eq_public.mp hpublic)
          · exact fun _ hpublic => hvis (toText_eq_public.mp hpublic)
        exact (h.hides_iff hhides).trans (imp_iff_right hvis).symm
    next hfails => exact iff_of_true (h.congr hposts hregs) fun hnone => absurd hnone hfails
  next hnot =>
    exact iff_of_true (h.congr hposts hregs) fun haction hvalid => absurd ⟨haction, hvalid⟩ hnot

theorem register_created {req : RegistrationRequest} {env : Env} {r : RegisterResponse} {srv : ServerState}
    (hcreated : Server.register S config { env with subscribes := false } req s.server =
      (.ok (.created, r), srv)) (hvis : req.visibility = .isPublic) :
    s.register S config req env = (s.withServer srv).subscribe req.masterPubkey := by
  unfold register
  rw [hcreated]
  dsimp only
  rw [if_pos hvis]

theorem put_signed {req : ProfileUpdateRequest} {env : Env} {visibility : Visibility}
    (hvis : Visibility.fromStr req.visibility = .ok visibility)
    (hsig : verifyRegistrationSignature S (req.registration visibility) = .ok ()) :
    s.withServer (Server.updateProfile S env req s.server).2 = s.updateProfile env req.masterPubkey
      ⟨req.displayName.getD "", req.bio.getD "", req.avatarHash, none, visibility, ""⟩ := by
  unfold Server.updateProfile
  rw [hvis]
  dsimp only
  rw [hsig]
  dsimp only
  split
  · rfl
  · split <;> rfl

theorem updateProfile_postsPublic_iff (h : s.PostsPublic) (req : ProfileUpdateRequest) (env : Env) :
    (s.withServer (Server.updateProfile S env req s.server).2).PostsPublic ↔
      s.Safe S config (.updateProfile req env) := by
  show _ ↔ ∀ visibility, Visibility.fromStr req.visibility = .ok visibility →
    verifyRegistrationSignature S (req.registration visibility) = .ok () → _
  by_cases hput : ∃ visibility, Visibility.fromStr req.visibility = .ok visibility ∧
      verifyRegistrationSignature S (req.registration visibility) = .ok ()
  · obtain ⟨visibility, hvis, hsig⟩ := hput
    have hiff : (s.withServer (Server.updateProfile S env req s.server).2).PostsPublic ↔
        s.SafeProfile env req.masterPubkey
          ⟨req.displayName.getD "", req.bio.getD "", req.avatarHash, none, visibility, ""⟩ := by
      rw [put_signed hvis hsig]
      exact profile_postsPublic_iff h rfl rfl
    refine hiff.trans ⟨fun hsafe visibility' hvis' _ => ?_, fun hsafe => hsafe visibility hvis hsig⟩
    obtain rfl := Except.ok.inj (hvis.symm.trans hvis')
    exact hsafe
  · have hregs : (Server.updateProfile S env req s.server).2.storage = s.server.storage := by
      rw [updateProfile_storage]
      cases hvis : Visibility.fromStr req.visibility with
      | error e => rfl
      | ok visibility => exact if_neg fun hsig => hput ⟨visibility, hvis, hsig⟩
    refine iff_of_true (h.congr rfl (congrArg Storage.registrations hregs)) fun visibility hvis hsig => ?_
    exact absurd ⟨visibility, hvis, hsig⟩ hput

theorem unregister_rows {req : RegistrationRequest} : (s.unregister S req).posts = s.posts ∧
    (s.unregister S req).registrations = s.registrations := by
  unfold unregister
  split
  · exact unsubscribe_rows
  · exact ⟨rfl, rfl⟩

end Endpoints

section Gossip

variable {i : Nat} {owner : String} {env : Env} {ingest : IngestFails}

theorem processRotation_postsPublic (h : s.PostsPublic) {fails : Bool} {rotation : SigningKeyRotation} :
    (s.processRotation env fails owner rotation).PostsPublic := by
  unfold processRotation
  extract_lets cached srv s₁
  have hcached : s₁.PostsPublic := h.congr rfl registrations_cachePeerDelegation
  split
  · exact h
  · split
    · exact hcached
    · refine hcached.shrink (List.Subset.refl _) fun u hu => ?_
      obtain ⟨r, hr, hpublic⟩ := publicUser_iff.mp hu
      rw [publicUser_iff]
      refine ⟨_, List.mem_map_of_mem hr, ?_⟩
      split <;> exact hpublic

theorem processGossipMessage_postsPublic_iff (h : s.PostsPublic) (msg : GossipMessage) :
    (s.processGossipMessage S i owner env ingest msg).PostsPublic ↔
      s.SafeMessage S owner env ingest msg := by
  cases msg with
  | newPost p =>
    show (if p.author = owner then _ else s).PostsPublic ↔ (p.author = owner → _)
    split
    next howner => rw [imp_iff_right howner, ingestPost_postsPublic_iff h]
    next howner => exact iff_of_true h fun heq => absurd heq howner
  | deletePost id author signature =>
    refine iff_of_true ?_ trivial
    show (if author = owner then s.withIndex (processDeletePost S _ id author signature s.index)
      else s).PostsPublic
    unfold processDeletePost
    split
    · split
      · exact h.shrink List.filter_sublist.subset fun _ hu => hu
      · exact h.congr rfl rfl
    · exact h
  | profileUpdate profile =>
    show (if _ then _ else s).PostsPublic ↔ (_ → env.fails .updateProfile = none → _)
    split
    next hok =>
      rw [imp_iff_right hok.1]
      exact profile_postsPublic_iff h rfl rfl
    next hnot => exact iff_of_true h fun haccepts hfails => absurd ⟨haccepts, hfails⟩ hnot
  | newInteraction j =>
    refine iff_of_true ?_ trivial
    show (if j.author = owner then s.withIndex (ingestInteraction S ingest _ j s.index)
      else s).PostsPublic
    unfold ingestInteraction
    split
    · split <;> exact h.congr rfl rfl
    · exact h
  | deleteInteraction id author signature =>
    refine iff_of_true ?_ trivial
    show (if _ then _ else s).PostsPublic
    split
    · exact h.congr rfl rfl
    · exact h
  | signingKeyRotation rotation =>
    refine iff_of_true ?_ trivial
    show (if _ then _ else s).PostsPublic
    split
    · exact processRotation_postsPublic h
    · exact h
  | linkedDevices a => exact iff_of_true h trivial
  | other => exact iff_of_true h trivial

end Gossip

section Tasks

theorem takeSummary_postsPublic_iff (h : s.PostsPublic) {i : Nat} {summary : SyncSummary} {env : Env} :
    (s.takeSummary i pubkey summary env).PostsPublic ↔ ∀ profile, summary.profile = some profile →
      (validateProfile profile).toBool = true → s.SafeProfile env pubkey profile := by
  unfold takeSummary
  extract_lets s₁
  have hrest : ∀ t : Store, (if summary.mode = .upToDate then
      (t.withIndex (t.index.updateSyncState pubkey env.nowCache none none)).advance i none
    else t.advance i (some (.frames pubkey none none))).PostsPublic ↔ t.PostsPublic := by
    intro t
    split
    · have hposts : (t.index.updateSyncState pubkey env.nowCache none none).posts = t.posts :=
        Index.updateSyncState_posts
      exact ⟨fun ht => ht.congr hposts.symm rfl, fun ht => ht.congr hposts rfl⟩
    · exact Iff.rfl
  rw [hrest]
  cases hprofile : summary.profile with
  | none =>
    have hsame : s₁ = s := by
      dsimp only [s₁]
      rw [hprofile]
    rw [hsame]
    exact iff_of_true h fun _ hsome => nomatch hsome
  | some profile =>
    have hnext : s₁ = if (validateProfile profile).toBool then s.updateProfile env pubkey profile else s := by
      dsimp only [s₁]
      rw [hprofile]
    rw [hnext]
    split
    next hvalid =>
      have hiff : (s.updateProfile env pubkey profile).PostsPublic ↔ s.SafeProfile env pubkey profile :=
        profile_postsPublic_iff h rfl rfl
      refine hiff.trans ?_
      constructor
      · rintro hsafe _ ⟨⟩ _
        exact hsafe
      · intro hsafe
        exact hsafe profile rfl hvalid
    next hvalid =>
      refine iff_of_true h ?_
      rintro _ ⟨⟩ hok
      exact absurd hok hvalid

theorem proceed_postsPublic_iff (h : s.PostsPublic) {i : Nat} :
    (∀ t, s.proceed i = some t → t.PostsPublic) ↔ s.Safe S config (.proceed i) := by
  show _ ↔ ∀ pubkey next todo, s.tasks[i]? = some (.listen pubkey (next :: todo)) ∨
    s.tasks[i]? = some (.unregister pubkey (next :: todo)) → s.SafeWrite pubkey next
  have hwrites : ∀ owner next task, (∀ t, some ((s.write owner next).advance i task) = some t → t.PostsPublic) ↔
      s.SafeWrite owner next := by
    intro owner next task
    constructor
    · intro hall
      have hwritten := hall _ rfl
      exact (write_postsPublic_iff h next).mp hwritten
    · rintro hsafe _ ⟨⟩
      exact (write_postsPublic_iff h next).mpr hsafe
  -- a task that is at none of its writes leaves the rows as they are
  have hquiet : (∀ pubkey next todo, ¬ (s.tasks[i]? = some (.listen pubkey (next :: todo)) ∨
      s.tasks[i]? = some (.unregister pubkey (next :: todo)))) → ∀ out : Option Store,
      (∀ t, out = some t → t.PostsPublic) → ((∀ t, out = some t → t.PostsPublic) ↔
        ∀ pubkey next todo, s.tasks[i]? = some (.listen pubkey (next :: todo)) ∨
          s.tasks[i]? = some (.unregister pubkey (next :: todo)) → s.SafeWrite pubkey next) :=
    fun hnot _ hout => iff_of_true hout fun pubkey next todo htask => absurd htask (hnot pubkey next todo)
  unfold proceed
  split
  next owner next todo htask =>
    rw [hwrites, htask]
    constructor
    · rintro hsafe _ _ _ (⟨⟨⟩⟩ | ⟨⟨⟩⟩)
      exact hsafe
    · intro hsafe
      exact hsafe owner next todo (Or.inl rfl)
  next owner next todo htask =>
    rw [hwrites, htask]
    constructor
    · rintro hsafe _ _ _ (⟨⟨⟩⟩ | ⟨⟨⟩⟩)
      exact hsafe
    · intro hsafe
      exact hsafe owner next todo (Or.inr rfl)
  next owner htask =>
    apply hquiet
    · rw [htask]
      simp
    · rintro _ ⟨⟩
      exact h
  next owner htask =>
    apply hquiet
    · rw [htask]
      simp
    · rintro _ ⟨⟩
      exact h
  next hlisten hunregister _ _ =>
    apply hquiet
    · rintro pubkey next todo (hother | hother)
      · exact hlisten pubkey next todo hother
      · exact hunregister pubkey next todo hother
    · intro _ hnone
      exact absurd hnone.symm (Option.some_ne_none _)

theorem fail_postsPublic (h : s.PostsPublic) {i : Nat} {t : Store} (ht : s.fail i = some t) :
    t.PostsPublic := by
  unfold fail at ht
  split at ht
  · obtain rfl := Option.some.inj ht
    exact h
  · obtain rfl := Option.some.inj ht
    exact h
  · exact nomatch ht

end Tasks

section Steps

theorem forall_some_iff {t : Store} : (∀ u, some t = some u → u.PostsPublic) ↔ t.PostsPublic :=
  ⟨fun hall => hall t rfl, fun ht _ hu => Option.some.inj hu ▸ ht⟩

theorem gossip_postsPublic_iff (h : s.PostsPublic) {i : Nat} {msg : GossipMessage} {env : Env}
    {ingest : IngestFails} :
    (∀ t, step S config s (.gossip i msg env ingest) = some t → t.PostsPublic) ↔
      ∀ owner, s.tasks[i]? = some (.listen owner []) → s.SafeMessage S owner env ingest msg := by
  dsimp only [step]
  split
  next owner htask =>
    rw [forall_some_iff, processGossipMessage_postsPublic_iff h, htask]
    constructor
    · rintro hsafe _ ⟨⟩
      exact hsafe
    · intro hsafe
      exact hsafe owner rfl
  next hnot =>
    refine iff_of_true (fun _ hnone => nomatch hnone) fun owner htask => ?_
    exact (hnot owner htask).elim

theorem summary_postsPublic_iff (h : s.PostsPublic) {i : Nat} {summary : SyncSummary} {env : Env} :
    (∀ t, step S config s (.summary i summary env) = some t → t.PostsPublic) ↔
      ∀ pubkey profile, s.tasks[i]? = some (.connect pubkey) → summary.profile = some profile →
        (validateProfile profile).toBool = true → s.SafeProfile env pubkey profile := by
  dsimp only [step]
  split
  next pubkey htask =>
    rw [forall_some_iff, takeSummary_postsPublic_iff h, htask]
    constructor
    · rintro hsafe _ profile ⟨⟩
      exact hsafe profile
    · intro hsafe profile
      exact hsafe pubkey profile rfl
  next hnot =>
    refine iff_of_true (fun _ hnone => nomatch hnone) fun pubkey _ htask => ?_
    exact (hnot pubkey htask).elim

theorem post_postsPublic_iff (h : s.PostsPublic) {i : Nat} {p : Post} {fails : IngestFails}
    {now : UInt64} :
    (∀ t, step S config s (.post i p fails now) = some t → t.PostsPublic) ↔
      ∀ pubkey lastPost lastInt, s.tasks[i]? = some (.frames pubkey lastPost lastInt) →
        s.SafePost S fails now p := by
  dsimp only [step]
  split
  next pubkey lastPost lastInt htask =>
    refine forall_some_iff.trans ((ingestPost_postsPublic_iff h fails now p).trans ?_)
    constructor
    · exact fun hsafe _ _ _ _ => hsafe
    · intro hsafe
      exact hsafe pubkey lastPost lastInt htask
  next hnot =>
    refine iff_of_true (fun _ hnone => nomatch hnone) fun pubkey lastPost lastInt htask => ?_
    exact (hnot pubkey lastPost lastInt htask).elim

theorem posts_ingestInteraction {fails : IngestFails} {now : UInt64} {j : Interaction} {ix : Index} :
    (ingestInteraction S fails now j ix).posts = ix.posts := by
  unfold ingestInteraction
  split <;> rfl

theorem interaction_postsPublic (h : s.PostsPublic) {i : Nat} {j : Interaction} {fails : IngestFails}
    {now : UInt64} : ∀ t, step S config s (.interaction i j fails now) = some t → t.PostsPublic := by
  have hposts : (ingestInteraction S fails now j s.index).posts = s.index.posts := posts_ingestInteraction
  dsimp only [step]
  split
  · exact forall_some_iff.mpr (advance_postsPublic.mpr (h.withIndex hposts))
  · exact fun _ hnone => nomatch hnone

theorem finish_postsPublic (h : s.PostsPublic) {i : Nat} {now : UInt64} {t : Store}
    (ht : step S config s (.finish i now) = some t) : t.PostsPublic := by
  dsimp only [step] at ht
  split at ht
  · obtain rfl := Option.some.inj ht
    exact h.congr Index.updateSyncState_posts rfl
  · exact nomatch ht

theorem step_postsPublic_iff (h : s.PostsPublic) (l : Label) :
    (∀ t, step S config s l = some t → t.PostsPublic) ↔ s.Safe S config l := by
  cases l with
  | register req env => exact forall_some_iff.trans (register_postsPublic_iff h req env)
  | updateProfile req env => exact forall_some_iff.trans (updateProfile_postsPublic_iff h req env)
  | unregister req =>
    exact iff_of_true (forall_some_iff.mpr (h.congr unregister_rows.1 unregister_rows.2)) trivial
  | gossip i msg env ingest => exact gossip_postsPublic_iff h
  | summary i summary env => exact summary_postsPublic_iff h
  | post i p fails now => exact post_postsPublic_iff h
  | interaction i j fails now => exact iff_of_true (interaction_postsPublic h) trivial
  | finish i now => exact iff_of_true (fun _ ht => finish_postsPublic h ht) trivial
  | proceed i => exact proceed_postsPublic_iff h
  | fail i => exact iff_of_true (fun _ ht => fail_postsPublic h ht) trivial
  | periodicSync => exact iff_of_true (forall_some_iff.mpr (h.congr rfl rfl)) trivial
  | prune before =>
    have hpruned : (s.withIndex (s.index.pruneOldPosts before)).PostsPublic :=
      h.shrink List.filter_sublist.subset fun _ hu => hu
    exact iff_of_true (forall_some_iff.mpr hpruned) trivial
  | restart startupSync subscribes => exact iff_of_true (forall_some_iff.mpr (h.congr rfl rfl)) trivial

/-- The server gives out posts of active public users alone, in all states of a run, exactly if no
step leaves a stored post to a user who is not public. -/
theorem serves_public_iff (S : SignatureCrates) (config : ServerConfig) (run : List Label) :
    (∀ init s, init <+: run → Machine.exec (step S config) empty init = some s → s.ServesPublic) ↔
      Machine.Along (step S config) (Safe S config) empty run := by
  have hstart : empty.PostsPublic := fun p hp => nomatch hp
  refine Machine.forall_prefix_iff_along (I := PostsPublic) ?_ ?_ hstart (servesPublic_iff.mpr hstart)
  · intro s l hs
    simp only [servesPublic_iff]
    exact step_postsPublic_iff hs l
  · intro s l t _ _ hserves _
    exact servesPublic_iff.mp hserves

end Steps

section Examples

def aliceRequest (visibility : Visibility) (signature : String) : RegistrationRequest :=
  ⟨"alice", "node", "https://server", 0, visibility, none, signature,
    checksumDelegation "alice" "alice" "" 0⟩

def aliceRegistration (visibility : Visibility) : RegistrationRequest :=
  aliceRequest visibility
    (hexEncode (checksumSign "alice" (registrationSigningBytes (aliceRequest visibility ""))))

def privateProfile : ProfileUpdateRequest :=
  let req := aliceRegistration .isPrivate
  ⟨"alice", "node", "https://server", 0, "private", none, none, none, req.signature, req.delegation⟩

def privateRun : List Label :=
  [.register (aliceRegistration .isPublic) (Env.calm 0), .proceed 0,
    .gossip 0 (.newPost (Watched.alicePost Watched.aliceSignature)) (Env.calm 20) fun _ => false,
    .updateProfile privateProfile (Env.calm 20)]

theorem verify_aliceRegistration (visibility : Visibility) :
    verifyRegistrationSignature checksumCrates (aliceRegistration visibility) = .ok () := by
  have hbytes : ∀ σ, registrationSigningBytes (aliceRequest visibility σ) =
      registrationSigningBytes (aliceRequest visibility "") := fun _ => rfl
  unfold verifyRegistrationSignature aliceRegistration
  simp only [Checks.bind_eq_ok, Checks.mapError_eq_ok, Checks.accept_eq_ok]
  refine ⟨_, hexToSignature_hexEncode (length_checksumSign ..), checksumKey "alice", rfl, ?_⟩
  rw [hbytes]
  exact verify_checksumSign "alice" _

def aliceServer : ServerConfig := ⟨"https://server", true⟩

/-- The tables after the registration, with the row of alice at a visibility. -/
def aliceTables (profile : Option String) (visibility : String) (lastSeen : Int64) (posts : List Post)
    (subscriptions : List String) (tasks : List Task) : Store where
  registrations := [⟨"alice", 0, lastSeen, profile, profile, none, visibility, 1, some "node",
    some (checksumDelegation "alice" "alice" "" 0)⟩]
  peerDelegations := [⟨"alice", "alice", checksumDelegation "alice" "alice" "" 0, some "node", 0⟩]
  posts := posts
  interactions := []
  syncState := []
  subscriptions := subscriptions
  tasks := tasks

theorem register_alice : empty.register checksumCrates aliceServer (aliceRegistration .isPublic)
    (Env.calm 0) = aliceTables none "public" 0 [] [] [.subscribe "alice"] := by
  have hvalid : validateRegistration checksumCrates aliceServer (Env.calm 0) (aliceRegistration .isPublic) =
      .ok () :=
    validateRegistration_eq_ok.mpr ⟨verify_aliceRegistration _, by decide, rfl, by decide, rfl⟩
  have hcreated : Server.register checksumCrates aliceServer { Env.calm 0 with subscribes := false }
      (aliceRegistration .isPublic) empty.server =
        (.ok (.created, ⟨"alice", 0, "registered successfully"⟩),
          (aliceTables none "public" 0 [] [] []).server) := by
    show Server.register checksumCrates aliceServer (Env.calm 0) _ _ = _
    unfold Server.register
    rw [if_neg (by decide), hvalid]
    rfl
  exact register_created hcreated rfl

theorem gossip_alice : (aliceTables none "public" 0 [] ["alice"] [.listen "alice" []]).processGossipMessage
    checksumCrates 0 "alice" (Env.calm 20) (fun _ => false)
      (.newPost (Watched.alicePost Watched.aliceSignature)) =
        aliceTables none "public" 0 [Watched.alicePost Watched.aliceSignature] ["alice"]
          [.listen "alice" []] := by
  have haccepts := Watched.accepts_alicePost
    (show signerOf checksumCrates (fun _ => false) "alice"
      (aliceTables none "public" 0 [] ["alice"] [.listen "alice" []]).index = .ok (checksumKey "alice") from rfl)
  have hauthor : (Watched.alicePost Watched.aliceSignature).author = "alice" := rfl
  unfold processGossipMessage ingestPost
  dsimp only
  rw [if_pos hauthor, if_pos ⟨haccepts, rfl, List.mem_singleton.mpr rfl⟩]
  rfl

theorem put_alice {posts : List Post} {subscriptions : List String} {tasks : List Task} :
    (aliceTables none "public" 0 posts subscriptions tasks).withServer
      (Server.updateProfile checksumCrates (Env.calm 20) privateProfile
        (aliceTables none "public" 0 posts subscriptions tasks).server).2 =
      aliceTables (some "") "private" 20 posts subscriptions tasks := by
  have hsigned : verifyRegistrationSignature checksumCrates (privateProfile.registration .isPrivate) =
      .ok () := verify_aliceRegistration .isPrivate
  exact put_signed (by decide) hsigned

theorem not_serves_public_private :
    ¬ ∀ (S : SignatureCrates) (config : ServerConfig) (run : List Label) (s : Store),
      Machine.exec (step S config) empty run = some s → s.ServesPublic := by
  intro hall
  have hserves := hall checksumCrates aliceServer privateRun
    (aliceTables (some "") "private" 20 [Watched.alicePost Watched.aliceSignature] ["alice"]
      [.listen "alice" []]) ?_
  · have hpublic := servesPublic_iff.mp hserves _ (List.mem_singleton.mpr rfl)
    have hnobody : "alice" ∈ ([] : List String) := hpublic
    exact nomatch hnobody
  · unfold privateRun
    rw [Machine.exec_cons_eq_some]
    refine ⟨_, congrArg some register_alice, ?_⟩
    rw [Machine.exec_cons_eq_some]
    refine ⟨_, rfl, ?_⟩
    rw [Machine.exec_cons_eq_some]
    refine ⟨_, congrArg some gossip_alice, ?_⟩
    rw [Machine.exec_cons_eq_some]
    exact ⟨_, congrArg some put_alice, rfl⟩

end Examples

end Store
end Proscenium.Server
