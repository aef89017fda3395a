import Proscenium.Client.SocialDefs

/-! What a peer's answer to a list request does to the user's own relationships.
A list is filed under the peer's name, next to the user's own rows: the row in
which the peer follows the user, and the one in which the user follows the
peer, are both the user's own and part of the peer's lists. Only these two can
be disturbed, and the table and the list say exactly when. -/

namespace Proscenium.Client.SocialGraph

open Timeline

variable {me R : String} {g g' : SocialGraph}

/-- What the query of the follows may answer, which does not say in what order it lists those of one time. -/
def FollowsAnswer (me : String) (g : SocialGraph) (l : List SocialGraphEntry) : Prop :=
  Answers followTime readFollow (g.followColumns me) l

def FollowersAnswer (me : String) (g : SocialGraph) (l : List SocialGraphEntry) : Prop :=
  Answers followerTime readFollower (g.followerColumns me) l

/-- Both graphs answer the same about the user's own relationships. -/
structure SameOwn (me : String) (g g' : SocialGraph) : Prop where
  isFollower : ∀ x, g'.isFollower me x = g.isFollower me x
  isFollowing : ∀ x, g'.isFollowing me x = g.isFollowing me x
  isMutual : ∀ x, g'.isMutual me x = g.isMutual me x
  getFollows : ∀ l, g'.FollowsAnswer me l ↔ g.FollowsAnswer me l
  getFollowers : ∀ l, g'.FollowersAnswer me l ↔ g.FollowersAnswer me l

theorem row_eq_some_iff {x y : String} {r : SocialGraphRow} :
    g.row x y = some r ↔ r ∈ g.rows ∧ r.follower = x ∧ r.followee = y := by
  unfold row
  rw [Table.find_eq_some_iff g.nodup_keys]
  simp [SocialGraphRow.key]

theorem isFollower_eq {x : String} : g.isFollower me x = (g.row x me).isSome := by
  rw [Bool.eq_iff_iff]
  unfold isFollower
  simp only [List.any_eq_true, decide_eq_true_eq, Option.isSome_iff_exists, row_eq_some_iff]

theorem isFollowing_iff {x : String} :
    g.isFollowing me x = true ↔ ∃ r, g.row me x = some r ∧ r.state = "active" := by
  unfold isFollowing
  simp only [List.any_eq_true, decide_eq_true_eq, row_eq_some_iff, and_assoc]

theorem followsAnswer_getFollows : g.FollowsAnswer me (g.getFollows me) := ⟨_, (stable followTime).lists _, rfl⟩

theorem followersAnswer_getFollowers : g.FollowersAnswer me (g.getFollowers me) :=
  ⟨_, (stable followerTime).lists _, rfl⟩

theorem FollowsAnswer.mem_iff {l : List SocialGraphEntry} (h : g.FollowsAnswer me l) {x : String} :
    x ∈ l.map SocialGraphEntry.pubkey ↔ ∃ r, g.row me x = some r ∧ r.state = "active" := by
  obtain ⟨rows, hrows, rfl⟩ := h
  simp only [List.map_map, List.mem_map, hrows.perm.mem_iff, followColumns, List.mem_filter, decide_eq_true_eq,
    row_eq_some_iff]
  constructor
  · rintro ⟨_, ⟨r, ⟨hr, hme, hstate⟩, rfl⟩, rfl⟩
    exact ⟨r, ⟨hr, hme, rfl⟩, hstate⟩
  · rintro ⟨r, ⟨hr, hme, rfl⟩, hstate⟩
    exact ⟨_, ⟨r, ⟨hr, hme, hstate⟩, rfl⟩, rfl⟩

theorem FollowersAnswer.mem_iff {l : List SocialGraphEntry} (h : g.FollowersAnswer me l) {x : String} :
    x ∈ l.map SocialGraphEntry.pubkey ↔ ∃ r, g.row x me = some r ∧ r.firstSeen.isSome := by
  obtain ⟨rows, hrows, rfl⟩ := h
  simp only [List.map_map, List.mem_map, hrows.perm.mem_iff, followerColumns, List.mem_filter, decide_eq_true_eq,
    row_eq_some_iff]
  constructor
  · rintro ⟨_, ⟨r, ⟨hr, hme, hseen⟩, rfl⟩, rfl⟩
    exact ⟨r, ⟨hr, rfl, hme⟩, hseen⟩
  · rintro ⟨r, ⟨hr, rfl, hme⟩, hseen⟩
    exact ⟨_, ⟨r, ⟨hr, hme, hseen⟩, rfl⟩, rfl⟩

theorem followsAnswer_of_columns {l : List SocialGraphEntry} (h : g'.followColumns me = g.followColumns me) :
    g'.FollowsAnswer me l ↔ g.FollowsAnswer me l := by
  unfold FollowsAnswer
  rw [h]

theorem followersAnswer_of_columns {l : List SocialGraphEntry} (h : g'.followerColumns me = g.followerColumns me) :
    g'.FollowersAnswer me l ↔ g.FollowersAnswer me l := by
  unfold FollowersAnswer
  rw [h]

theorem followerRows_of_unseen {x : String}
    (h : ∀ r, g.row x me = some r → r.firstSeen = none) :
    (g.rows.filter fun r => r.followee = me ∧ r.firstSeen.isSome) =
      g.rows.filter fun r => r.follower ≠ x ∧ r.followee = me ∧ r.firstSeen.isSome := by
  refine List.filter_congr fun r hr => ?_
  rw [decide_eq_decide]
  refine (and_iff_right_of_imp ?_).symm
  rintro ⟨hme, hseen⟩ hx
  have hnone := h r (row_eq_some_iff.mpr ⟨hr, hx, hme⟩)
  simp [hnone] at hseen

theorem followRows_of_inactive {x : String}
    (h : ∀ r, g.row me x = some r → r.state ≠ "active") :
    (g.rows.filter fun r => r.follower = me ∧ r.state = "active") =
      g.rows.filter fun r => r.followee ≠ x ∧ r.follower = me ∧ r.state = "active" := by
  refine List.filter_congr fun r hr => ?_
  rw [decide_eq_decide]
  refine (and_iff_right_of_imp ?_).symm
  rintro ⟨hme, hactive⟩ hx
  exact h r (row_eq_some_iff.mpr ⟨hr, hme, hx⟩) hactive

/-! The peer's follows: of the user's own rows only the one in which the peer follows the user. -/

section Follows

variable {follows : List SocialGraphEntry}

theorem row_cacheRemoteFollows_of_ne {x y : String} (hne : x ≠ R) :
    (g.cacheRemoteFollows R follows).row x y = g.row x y := by
  apply Table.Filing.find_refresh_of_disjoint g.nodup_keys
  · intro f _ heq
    exact hne (congrArg Prod.fst heq).symm
  · intro r hr
    have hfollower : r.follower = x := congrArg Prod.fst hr
    simp [remoteFollows, hfollower, hne]

def keptFollower (g : SocialGraph) (R me : String) : Option SocialGraphRow :=
  (g.row R me).filter fun r => r.followedAt.isNone

theorem keptFollower_eq :
    ((g.row R me).filter fun r => !(remoteFollows R).stale r) = g.keptFollower R me := by
  unfold keptFollower
  cases hrow : g.row R me with
  | none => rfl
  | some r =>
    have hfollower : r.follower = R := (row_eq_some_iff.mp hrow).2.1
    simp [Option.filter_some, remoteFollows, hfollower]

theorem row_cacheRemoteFollows_of_not_mem (hme : ∀ f ∈ follows, f.pubkey ≠ me) :
    (g.cacheRemoteFollows R follows).row R me = g.keptFollower R me := by
  have hkey : ∀ f ∈ follows, (remoteFollows R).keyOf f ≠ (R, me) := by
    intro f hf heq
    exact hme f hf (congrArg Prod.snd heq)
  exact (Table.Filing.find_refresh_of_ne g.nodup_keys hkey).trans keptFollower_eq

theorem row_cacheRemoteFollows_of_mem (hme : ∃ f ∈ follows, f.pubkey = me) :
    ∃ r', (g.cacheRemoteFollows R follows).row R me = some r' ∧
      r'.firstSeen = (g.keptFollower R me).bind SocialGraphRow.firstSeen := by
  have hmem : ∃ f ∈ follows, (remoteFollows R).keyOf f = (R, me) := by
    obtain ⟨f, hf, rfl⟩ := hme
    exact ⟨f, hf, rfl⟩
  have hview : ((g.cacheRemoteFollows R follows).row R me).map SocialGraphRow.firstSeen =
      some (((g.keptFollower R me).map SocialGraphRow.firstSeen).getD none) := by
    rw [← keptFollower_eq]
    exact Table.Filing.view_refresh_of_mem (fun _ _ _ _ => rfl) g.nodup_keys (fun _ _ _ => rfl) hmem
  obtain ⟨r', hr', hseen⟩ := Option.map_eq_some_iff.mp hview
  refine ⟨r', hr', hseen.trans ?_⟩
  cases g.keptFollower R me with
  | none => rfl
  | some r => rfl

theorem followColumns_cacheRemoteFollows (hne : R ≠ me) :
    (g.cacheRemoteFollows R follows).followColumns me = g.followColumns me := by
  refine congrArg (List.map _) (Table.Filing.filter_refresh ?_ ?_)
  · intro r _ hr
    have hfollower : r.follower = me := (of_decide_eq_true hr).1
    simp [remoteFollows, hfollower, hne.symm]
  · intro f _ r hr
    have hfollower : r.follower = R := congrArg Prod.fst hr
    simp [hfollower, hne]

theorem followerColumns_cacheRemoteFollows_of_unseen
    (hbefore : ∀ r, g.row R me = some r → r.firstSeen = none)
    (hafter : ∀ r, (g.cacheRemoteFollows R follows).row R me = some r → r.firstSeen = none) :
    (g.cacheRemoteFollows R follows).followerColumns me = g.followerColumns me := by
  unfold followerColumns
  rw [followerRows_of_unseen hbefore, followerRows_of_unseen hafter]
  refine congrArg (List.map _) (Table.Filing.filter_refresh ?_ ?_)
  · intro r _ hr
    have hfollower : r.follower ≠ R := (of_decide_eq_true hr).1
    simp [remoteFollows, hfollower]
  · intro f _ r hr
    have hfollower : r.follower = R := congrArg Prod.fst hr
    simp [hfollower]

theorem followerColumns_cacheRemoteFollows_of_kept {r : SocialGraphRow} (hrow : g.row R me = some r)
    (hat : r.followedAt = none) :
    (g.cacheRemoteFollows R follows).followerColumns me = g.followerColumns me := by
  obtain ⟨hr, hfollower, hfollowee⟩ := row_eq_some_iff.mp hrow
  apply Table.Filing.map_filter_refresh (k := (R, me))
  · intro q hq hsel
    have hme : q.followee = me := (of_decide_eq_true hsel).1
    by_cases hqR : q.follower = R
    · have hqrow : g.row R me = some q := row_eq_some_iff.mpr ⟨hq, hqR, hme⟩
      obtain rfl : r = q := Option.some.inj (hrow.symm.trans hqrow)
      simp [remoteFollows, hat]
    · simp [remoteFollows, hqR]
  · intro f _ hkey q hq
    have hfollowee : q.followee = f.pubkey := congrArg Prod.snd hq
    have hother : f.pubkey ≠ me := by
      rintro rfl
      exact hkey rfl
    simp [hfollowee, hother]
  · intro f _ _ q _
    exact ⟨rfl, rfl⟩
  · refine ⟨r, hr, ?_, by simp [remoteFollows, hat]⟩
    rw [SocialGraphRow.key, hfollower, hfollowee]

theorem sameOwn_cacheRemoteFollows_iff (hne : R ≠ me) :
    SameOwn me g (g.cacheRemoteFollows R follows) ↔
      (g.cacheRemoteFollows R follows).isFollower me R = g.isFollower me R ∧
        ∀ l, (g.cacheRemoteFollows R follows).FollowersAnswer me l ↔ g.FollowersAnswer me l := by
  constructor
  · intro h
    exact ⟨h.isFollower R, h.getFollowers⟩
  · rintro ⟨hR, hfollowers⟩
    have hfollower : ∀ x, (g.cacheRemoteFollows R follows).isFollower me x = g.isFollower me x := by
      intro x
      by_cases hx : x = R
      · rw [hx, hR]
      · rw [isFollower_eq, isFollower_eq, row_cacheRemoteFollows_of_ne hx]
    have hfollowing : ∀ x, (g.cacheRemoteFollows R follows).isFollowing me x = g.isFollowing me x := by
      intro x
      rw [Bool.eq_iff_iff, isFollowing_iff, isFollowing_iff, row_cacheRemoteFollows_of_ne hne.symm]
    have hmutual : ∀ x, (g.cacheRemoteFollows R follows).isMutual me x = g.isMutual me x := by
      intro x
      unfold isMutual
      rw [hfollower, hfollowing]
    have hfollows : ∀ l, (g.cacheRemoteFollows R follows).FollowsAnswer me l ↔ g.FollowsAnswer me l :=
      fun l => followsAnswer_of_columns (followColumns_cacheRemoteFollows hne)
    exact ⟨hfollower, hfollowing, hmutual, hfollows, hfollowers⟩

/-- The user's own rows that a list of the peer's follows leaves as they are: there is no row in
which the peer follows the user, and the list has none either; there is one and it is not taken for
an entry of an earlier list; or it is replaced by one that says as much. -/
def FollowsHarmless (me R : String) (follows : List SocialGraphEntry) (g : SocialGraph) : Prop :=
  match g.row R me with
  | none => ∀ f ∈ follows, f.pubkey ≠ me
  | some r => r.followedAt = none ∨ (∃ f ∈ follows, f.pubkey = me) ∧ r.firstSeen = none

theorem keptFollower_of_row {r : SocialGraphRow} (hrow : g.row R me = some r) :
    g.keptFollower R me = if r.followedAt.isNone then some r else none := by
  unfold keptFollower
  rw [hrow, Option.filter_some]

theorem followersAnswer_cacheRemoteFollows_of_replaced {r : SocialGraphRow}
    (hrow : g.row R me = some r) (hat : r.followedAt.isSome = true) (hme : ∃ f ∈ follows, f.pubkey = me) :
    (∀ l, (g.cacheRemoteFollows R follows).FollowersAnswer me l ↔ g.FollowersAnswer me l) ↔ r.firstSeen = none := by
  obtain ⟨r', hrow', hseen'⟩ := row_cacheRemoteFollows_of_mem (g := g) (R := R) hme
  have hnone : r'.firstSeen = none := by
    have hkept : g.keptFollower R me = none := by
      rw [keptFollower_of_row hrow, if_neg (by simpa [Option.isSome_iff_ne_none] using hat)]
    rw [hseen', hkept]
    rfl
  have hunseen : ∀ q, (g.cacheRemoteFollows R follows).row R me = some q → q.firstSeen = none := by
    intro q hq
    rw [← Option.some.inj (hrow'.symm.trans hq), hnone]
  constructor
  · intro hall
    by_contra hseen
    have hafter := (hall _).mpr followersAnswer_getFollowers
    have hlisted := followersAnswer_getFollowers.mem_iff.mpr ⟨r, hrow, Option.isSome_iff_ne_none.mpr hseen⟩
    obtain ⟨q, hq, hqseen⟩ := hafter.mem_iff.mp hlisted
    simp [hunseen q hq] at hqseen
  · intro hseen l
    have hbefore : ∀ q, g.row R me = some q → q.firstSeen = none := by
      intro q hq
      rw [← Option.some.inj (hrow.symm.trans hq), hseen]
    exact followersAnswer_of_columns (followerColumns_cacheRemoteFollows_of_unseen hbefore hunseen)

theorem sameOwn_cacheRemoteFollows_iff_harmless (hne : R ≠ me) :
    SameOwn me g (g.cacheRemoteFollows R follows) ↔ FollowsHarmless me R follows g := by
  rw [sameOwn_cacheRemoteFollows_iff hne, isFollower_eq, isFollower_eq]
  unfold FollowsHarmless
  by_cases hme : ∃ f ∈ follows, f.pubkey = me
  · obtain ⟨r', hrow', hseen'⟩ := row_cacheRemoteFollows_of_mem (g := g) (R := R) hme
    cases hrow : g.row R me with
    | none =>
      obtain ⟨f, hf, hfme⟩ := hme
      refine iff_of_false (fun h => ?_) fun h => h f hf hfme
      rw [hrow'] at h
      exact nomatch h.1
    | some r =>
      have hsome : (some r' : Option SocialGraphRow).isSome = (some r).isSome := rfl
      rw [hrow', and_iff_right hsome]
      cases hat : r.followedAt with
      | none =>
        refine iff_of_true (fun l => ?_) (Or.inl hat)
        exact followersAnswer_of_columns (followerColumns_cacheRemoteFollows_of_kept hrow hat)
      | some t =>
        have hreplaced := followersAnswer_cacheRemoteFollows_of_replaced hrow (by simp [hat]) hme
        simp only [hreplaced, hat, hme, true_and, reduceCtorEq, false_or]
  · have hno : ∀ f ∈ follows, f.pubkey ≠ me := fun f hf hfme => hme ⟨f, hf, hfme⟩
    have hrow' := row_cacheRemoteFollows_of_not_mem (g := g) (R := R) hno
    cases hrow : g.row R me with
    | none =>
      have hgone : (g.cacheRemoteFollows R follows).row R me = none := by
        rw [hrow']
        unfold keptFollower
        rw [hrow]
        rfl
      refine iff_of_true ⟨by rw [hgone], fun l => followersAnswer_of_columns ?_⟩ hno
      apply followerColumns_cacheRemoteFollows_of_unseen
      · intro q hq
        exact nomatch hrow.symm.trans hq
      · intro q hq
        exact nomatch hgone.symm.trans hq
    | some r =>
      cases hat : r.followedAt with
      | none =>
        refine iff_of_true ⟨?_, ?_⟩ (Or.inl hat)
        · rw [hrow', keptFollower_of_row hrow, hat]
          rfl
        · intro l
          exact followersAnswer_of_columns (followerColumns_cacheRemoteFollows_of_kept hrow hat)
      | some t =>
        refine iff_of_false (fun h => ?_) fun h => ?_
        · rw [hrow', keptFollower_of_row hrow, hat] at h
          exact nomatch h.1
        · rcases h with h | h
          · exact nomatch hat.symm.trans h
          · exact hme h.1

end Follows

/-! The peer's followers: of the user's own rows only the one in which the user follows the peer. -/

section Followers

variable {followers : List SocialGraphEntry}

theorem row_cacheRemoteFollowers_of_ne {x y : String} (hne : y ≠ R) :
    (g.cacheRemoteFollowers R followers).row x y = g.row x y := by
  apply Table.Filing.find_refresh_of_disjoint g.nodup_keys
  · intro f _ heq
    exact hne (congrArg Prod.snd heq).symm
  · intro r hr
    have hfollowee : r.followee = y := congrArg Prod.snd hr
    simp [remoteFollowers, hfollowee, hne]

def keptFollowing (g : SocialGraph) (me R : String) : Option SocialGraphRow :=
  (g.row me R).filter fun r => r.firstSeen.isNone

theorem keptFollowing_eq :
    ((g.row me R).filter fun r => !(remoteFollowers R).stale r) = g.keptFollowing me R := by
  unfold keptFollowing
  cases hrow : g.row me R with
  | none => rfl
  | some r =>
    have hfollowee : r.followee = R := (row_eq_some_iff.mp hrow).2.2
    simp [Option.filter_some, remoteFollowers, hfollowee]

theorem keptFollowing_of_row {r : SocialGraphRow} (hrow : g.row me R = some r) :
    g.keptFollowing me R = if r.firstSeen.isNone then some r else none := by
  unfold keptFollowing
  rw [hrow, Option.filter_some]

theorem row_cacheRemoteFollowers_of_not_mem (hme : ∀ f ∈ followers, f.pubkey ≠ me) :
    (g.cacheRemoteFollowers R followers).row me R = g.keptFollowing me R := by
  have hkey : ∀ f ∈ followers, (remoteFollowers R).keyOf f ≠ (me, R) := by
    intro f hf heq
    exact hme f hf (congrArg Prod.fst heq)
  exact (Table.Filing.find_refresh_of_ne g.nodup_keys hkey).trans keptFollowing_eq

theorem row_cacheRemoteFollowers_of_mem (hme : ∃ f ∈ followers, f.pubkey = me) :
    ∃ r', (g.cacheRemoteFollowers R followers).row me R = some r' ∧
      (r'.state, r'.followedAt) =
        ((g.keptFollowing me R).map fun r => (r.state, r.followedAt)).getD ("active", none) := by
  have hmem : ∃ f ∈ followers, (remoteFollowers R).keyOf f = (me, R) := by
    obtain ⟨f, hf, rfl⟩ := hme
    exact ⟨f, hf, rfl⟩
  have hview : ((g.cacheRemoteFollowers R followers).row me R).map (fun r => (r.state, r.followedAt)) =
      some (((g.keptFollowing me R).map fun r => (r.state, r.followedAt)).getD ("active", none)) := by
    rw [← keptFollowing_eq]
    exact Table.Filing.view_refresh_of_mem (fun _ _ _ _ => rfl) g.nodup_keys (fun _ _ _ => rfl) hmem
  exact Option.map_eq_some_iff.mp hview

theorem followerColumns_cacheRemoteFollowers (hne : R ≠ me) :
    (g.cacheRemoteFollowers R followers).followerColumns me = g.followerColumns me := by
  refine congrArg (List.map _) (Table.Filing.filter_refresh ?_ ?_)
  · intro r _ hr
    have hfollowee : r.followee = me := (of_decide_eq_true hr).1
    simp [remoteFollowers, hfollowee, hne.symm]
  · intro f _ r hr
    have hfollowee : r.followee = R := congrArg Prod.snd hr
    simp [hfollowee, hne]

def otherFollows (me R : String) (g : SocialGraph) : List (String × Option Int64) :=
  (g.rows.filter fun r => r.followee ≠ R ∧ r.follower = me ∧ r.state = "active").map fun r =>
    (r.followee, r.followedAt)

theorem otherFollows_cacheRemoteFollowers :
    (g.cacheRemoteFollowers R followers).otherFollows me R = g.otherFollows me R := by
  refine congrArg (List.map _) (Table.Filing.filter_refresh ?_ ?_)
  · intro r _ hr
    have hfollowee : r.followee ≠ R := (of_decide_eq_true hr).1
    simp [remoteFollowers, hfollowee]
  · intro f _ r hr
    have hfollowee : r.followee = R := congrArg Prod.snd hr
    simp [hfollowee]

theorem followColumns_of_inactive (h : ∀ r, g.row me R = some r → r.state ≠ "active") :
    g.followColumns me = g.otherFollows me R := congrArg (List.map _) (followRows_of_inactive h)

theorem perm_followColumns {r : SocialGraphRow} (hrow : g.row me R = some r) (hactive : r.state = "active") :
    (g.followColumns me).Perm ((R, r.followedAt) :: g.otherFollows me R) := by
  obtain ⟨hmem, hfollower, hfollowee⟩ := row_eq_some_iff.mp hrow
  have hnodup : g.rows.Nodup := g.nodup_keys.of_map
  have hrows : (g.rows.filter fun q => q.follower = me ∧ q.state = "active").Perm
      (r :: g.rows.filter fun q => q.followee ≠ R ∧ q.follower = me ∧ q.state = "active") := by
    refine (List.perm_ext_iff_of_nodup (hnodup.filter _) ?_).mpr fun q => ?_
    · refine List.nodup_cons.mpr ⟨fun hr => ?_, hnodup.filter _⟩
      exact (of_decide_eq_true (List.mem_filter.mp hr).2).1 hfollowee
    · simp only [List.mem_filter, List.mem_cons, decide_eq_true_eq]
      constructor
      · rintro ⟨hq, hme, hstate⟩
        by_cases hR : q.followee = R
        · exact Or.inl (Option.some.inj ((row_eq_some_iff.mpr ⟨hq, hme, hR⟩).symm.trans hrow))
        · exact Or.inr ⟨hq, hR, hme, hstate⟩
      · rintro (rfl | ⟨hq, -, hme, hstate⟩)
        · exact ⟨hmem, hfollower, hactive⟩
        · exact ⟨hq, hme, hstate⟩
  have hcolumns := hrows.map fun q => (q.followee, q.followedAt)
  rw [List.map_cons, hfollowee] at hcolumns
  exact hcolumns

theorem followColumns_cacheRemoteFollowers_of_kept {r : SocialGraphRow} (hrow : g.row me R = some r)
    (hseen : r.firstSeen = none) :
    (g.cacheRemoteFollowers R followers).followColumns me = g.followColumns me := by
  obtain ⟨hr, hfollower, hfollowee⟩ := row_eq_some_iff.mp hrow
  apply Table.Filing.map_filter_refresh (k := (me, R))
  · intro q hq hsel
    have hme : q.follower = me := (of_decide_eq_true hsel).1
    by_cases hqR : q.followee = R
    · have hqrow : g.row me R = some q := row_eq_some_iff.mpr ⟨hq, hme, hqR⟩
      obtain rfl : r = q := Option.some.inj (hrow.symm.trans hqrow)
      simp [remoteFollowers, hseen]
    · simp [remoteFollowers, hqR]
  · intro f _ hkey q hq
    have hfollower : q.follower = f.pubkey := congrArg Prod.fst hq
    have hother : f.pubkey ≠ me := by
      rintro rfl
      exact hkey rfl
    simp [hfollower, hother]
  · intro f _ _ q _
    exact ⟨rfl, rfl⟩
  · refine ⟨r, hr, ?_, by simp [remoteFollowers, hseen]⟩
    rw [SocialGraphRow.key, hfollower, hfollowee]

theorem sameOwn_cacheRemoteFollowers_iff (hne : R ≠ me) :
    SameOwn me g (g.cacheRemoteFollowers R followers) ↔
      (g.cacheRemoteFollowers R followers).isFollowing me R = g.isFollowing me R ∧
        ∀ l, (g.cacheRemoteFollowers R followers).FollowsAnswer me l ↔ g.FollowsAnswer me l := by
  constructor
  · intro h
    exact ⟨h.isFollowing R, h.getFollows⟩
  · rintro ⟨hR, hfollows⟩
    have hfollower : ∀ x, (g.cacheRemoteFollowers R followers).isFollower me x = g.isFollower me x := by
      intro x
      rw [isFollower_eq, isFollower_eq, row_cacheRemoteFollowers_of_ne hne.symm]
    have hfollowing : ∀ x,
        (g.cacheRemoteFollowers R followers).isFollowing me x = g.isFollowing me x := by
      intro x
      by_cases hx : x = R
      · rw [hx, hR]
      · rw [Bool.eq_iff_iff, isFollowing_iff, isFollowing_iff, row_cacheRemoteFollowers_of_ne hx]
    have hmutual : ∀ x, (g.cacheRemoteFollowers R followers).isMutual me x = g.isMutual me x := by
      intro x
      unfold isMutual
      rw [hfollower, hfollowing]
    have hfollowers : ∀ l, (g.cacheRemoteFollowers R followers).FollowersAnswer me l ↔ g.FollowersAnswer me l :=
      fun l => followersAnswer_of_columns (followerColumns_cacheRemoteFollowers hne)
    exact ⟨hfollower, hfollowing, hmutual, hfollows, hfollowers⟩

/-- The follow reads as if it had no time, and if it has one it comes last in any case. -/
def Timeless (me R : String) (r : SocialGraphRow) (g : SocialGraph) : Prop :=
  r.followedAt = none ∨ r.followedAt = some 0 ∧
    ∀ q ∈ g.rows, q.followee ≠ R → q.follower = me → q.state = "active" → ∃ t, q.followedAt = some t ∧ 0 < t

/-- The user's own rows that a list of the peer's followers leaves as they are: there is no row in
which the user follows the peer, and the list has none either; there is one and it is not taken for
an entry of an earlier list; it is deleted and was no follow any more; or it is replaced by a follow
without a time, and was one that reads alike. -/
def FollowersHarmless (me R : String) (followers : List SocialGraphEntry) (g : SocialGraph) : Prop :=
  match g.row me R with
  | none => ∀ f ∈ followers, f.pubkey ≠ me
  | some r => r.firstSeen = none ∨ (∀ f ∈ followers, f.pubkey ≠ me) ∧ r.state ≠ "active" ∨
      (∃ f ∈ followers, f.pubkey = me) ∧ r.state = "active" ∧ g.Timeless me R r

theorem isFollowing_eq_iff (g' : SocialGraph) : g'.isFollowing me R = g.isFollowing me R ↔
    ((∃ r, g'.row me R = some r ∧ r.state = "active") ↔ ∃ r, g.row me R = some r ∧ r.state = "active") := by
  rw [Bool.eq_iff_iff, isFollowing_iff, isFollowing_iff]

theorem answers_cacheRemoteFollowers_of_kept {r : SocialGraphRow} (hrow : g.row me R = some r)
    (hseen : r.firstSeen = none) :
    (g.cacheRemoteFollowers R followers).isFollowing me R = g.isFollowing me R ∧
      ∀ l, (g.cacheRemoteFollowers R followers).FollowsAnswer me l ↔ g.FollowsAnswer me l := by
  have hkept : g.keptFollowing me R = some r := by
    rw [keptFollowing_of_row hrow, hseen]
    rfl
  constructor
  · rw [isFollowing_eq_iff, hrow]
    by_cases hme : ∃ f ∈ followers, f.pubkey = me
    · obtain ⟨r', hrow', hsays⟩ := row_cacheRemoteFollowers_of_mem (g := g) (R := R) hme
      rw [hkept] at hsays
      have hstate : r'.state = r.state := congrArg Prod.fst hsays
      simp [hrow', hstate]
    · have hno : ∀ f ∈ followers, f.pubkey ≠ me := fun f hf hfme => hme ⟨f, hf, hfme⟩
      rw [row_cacheRemoteFollowers_of_not_mem hno, hkept]
  · intro l
    exact followsAnswer_of_columns (followColumns_cacheRemoteFollowers_of_kept hrow hseen)

theorem answers_cacheRemoteFollowers_of_gone (hkept : g.keptFollowing me R = none)
    (hno : ∀ f ∈ followers, f.pubkey ≠ me) :
    ((g.cacheRemoteFollowers R followers).isFollowing me R = g.isFollowing me R ∧
      ∀ l, (g.cacheRemoteFollowers R followers).FollowsAnswer me l ↔ g.FollowsAnswer me l) ↔
    ∀ r, g.row me R = some r → r.state ≠ "active" := by
  have hgone : (g.cacheRemoteFollowers R followers).row me R = none :=
    (row_cacheRemoteFollowers_of_not_mem hno).trans hkept
  rw [isFollowing_eq_iff, hgone]
  constructor
  · rintro ⟨hfollowing, -⟩ r hr hactive
    obtain ⟨_, hnone, -⟩ := hfollowing.mpr ⟨r, hr, hactive⟩
    exact nomatch hnone
  · intro hidle
    constructor
    · constructor
      · rintro ⟨_, hnone, -⟩
        exact nomatch hnone
      · rintro ⟨r, hr, hactive⟩
        exact absurd hactive (hidle r hr)
    · have hafter : ∀ r, (g.cacheRemoteFollowers R followers).row me R = some r → r.state ≠ "active" := by
        intro r hr
        exact nomatch hgone.symm.trans hr
      intro l
      apply followsAnswer_of_columns
      rw [followColumns_of_inactive hidle, followColumns_of_inactive hafter, otherFollows_cacheRemoteFollowers]

theorem mem_otherFollows {c : String × Option Int64} : c ∈ g.otherFollows me R ↔
    ∃ q, g.row me c.1 = some q ∧ c.1 ≠ R ∧ q.state = "active" ∧ q.followedAt = c.2 := by
  simp only [otherFollows, List.mem_map, List.mem_filter, decide_eq_true_eq, row_eq_some_iff]
  constructor
  · rintro ⟨q, ⟨hq, hne, hme, hstate⟩, rfl⟩
    exact ⟨q, ⟨hq, hme, rfl⟩, hne, hstate, rfl⟩
  · rintro ⟨q, ⟨hq, hme, hfollowee⟩, hne, hstate, hat⟩
    exact ⟨q, ⟨hq, hfollowee ▸ hne, hme, hstate⟩, Prod.ext hfollowee hat⟩

theorem eq_of_mem_otherFollows {c d : String × Option Int64} (hc : c ∈ g.otherFollows me R)
    (hd : d ∈ g.otherFollows me R) (hkey : c.1 = d.1) : c = d := by
  obtain ⟨q, hq, -, -, hat⟩ := mem_otherFollows.mp hc
  obtain ⟨q', hq', -, -, hat'⟩ := mem_otherFollows.mp hd
  rw [hkey, hq'] at hq
  obtain rfl := Option.some.inj hq
  exact Prod.ext hkey (hat.symm.trans hat')

theorem answers_of_newer (hnewer : ∀ c ∈ g.otherFollows me R, ∃ t, c.2 = some t ∧ 0 < t) {at₁ at₂ : Option Int64}
    (h₁ : at₁ = none ∨ at₁ = some 0) (h₂ : at₂ = none ∨ at₂ = some 0) {l : List SocialGraphEntry}
    (hl : Answers followTime readFollow ((R, at₁) :: g.otherFollows me R) l) :
    Answers followTime readFollow ((R, at₂) :: g.otherFollows me R) l := by
  have hlast : ∀ {at₀ : Option Int64}, at₀ = none ∨ at₀ = some 0 → ∀ c ∈ g.otherFollows me R,
      followTime (R, at₀) < followTime c := by
    intro at₀ h₀ c hc
    obtain ⟨t, ht, hpos⟩ := hnewer c hc
    have htime : followTime c = (t : WithBot Int64) := ht
    rw [htime]
    rcases h₀ with rfl | rfl
    · exact WithBot.bot_lt_coe t
    · exact WithBot.coe_lt_coe.mpr hpos
  have hread : ∀ {at₀ : Option Int64}, at₀ = none ∨ at₀ = some 0 →
      readFollow (R, at₀) = ⟨R, (0 : Int64).toUInt64, 0, 0, false⟩ := by
    rintro at₀ (rfl | rfl) <;> rfl
  let f := fun c : String × Option Int64 => if c.1 = R then (R, at₂) else c
  have hpeer : f (R, at₁) = (R, at₂) := if_pos rfl
  have hkept : ∀ c ∈ g.otherFollows me R, f c = c := fun c hc => if_neg (mem_otherFollows.mp hc).choose_spec.2.1
  have hrows : ((R, at₁) :: g.otherFollows me R).map f = (R, at₂) :: g.otherFollows me R := by
    rw [List.map_cons, hpeer, List.map_congr_left hkept, List.map_id']
  rw [← hrows]
  refine hl.replace (fun c hc => ?_) fun c hc d hd hle => ?_
  · rcases List.mem_cons.mp hc with rfl | hc
    · rw [hpeer, hread h₁, hread h₂]
    · rw [hkept c hc]
  · rcases List.mem_cons.mp hc with rfl | hc <;> rcases List.mem_cons.mp hd with rfl | hd
    · exact le_rfl
    · exact absurd hle (hlast h₁ d hd).not_ge
    · rw [hpeer, hkept c hc]
      exact (hlast h₂ c hc).le
    · rwa [hkept c hc, hkept d hd]

/-- What a follow without a time may stand for. -/
theorem answers_timeless_iff (time : Option Int64) :
    (∀ l, Answers followTime readFollow ((R, none) :: g.otherFollows me R) l ↔
      Answers followTime readFollow ((R, time) :: g.otherFollows me R) l) ↔
    time = none ∨ time = some 0 ∧ ∀ c ∈ g.otherFollows me R, ∃ t, c.2 = some t ∧ 0 < t := by
  have hother : ∀ c ∈ g.otherFollows me R, c.1 ≠ R := fun c hc => (mem_otherFollows.mp hc).choose_spec.2.1
  -- two entries that read the same have the same key, and of each key there is one
  have hsame : ∀ {at₁ : Option Int64} {c d : String × Option Int64}, c ∈ g.otherFollows me R →
      d ∈ (R, at₁) :: g.otherFollows me R → readFollow d = readFollow c → d = c := by
    intro at₁ c d hc hd hread
    have hkey : d.1 = c.1 := congrArg SocialGraphEntry.pubkey hread
    rcases List.mem_cons.mp hd with rfl | hd
    · exact absurd hkey.symm (hother c hc)
    · exact eq_of_mem_otherFollows hd hc hkey
  have hpeer : ∀ {at₁ at₂ : Option Int64} {d : String × Option Int64}, d ∈ (R, at₁) :: g.otherFollows me R →
      readFollow d = readFollow (R, at₂) → d = (R, at₁) := by
    intro at₁ at₂ d hd hread
    have hkey : d.1 = R := congrArg SocialGraphEntry.pubkey hread
    rcases List.mem_cons.mp hd with hd | hd
    · exact hd
    · exact absurd hkey (hother d hd)
  have hpair : ∀ {x : String × Option Int64} {c : String × Option Int64}, c ∈ g.otherFollows me R →
      [x, c].Subperm (x :: g.otherFollows me R) := fun hc =>
    (List.subperm_cons _).mpr (List.singleton_subperm_iff.mpr hc)
  constructor
  · intro h
    have hzero : time.getD 0 = 0 := by
      obtain ⟨l, hl, hread⟩ := (h _).mpr ⟨_, (stable followTime).lists _, rfl⟩
      have hmem : readFollow (R, time) ∈ l.map readFollow := by
        rw [hread]
        exact List.mem_map_of_mem (((stable followTime).perm _).mem_iff.mpr List.mem_cons_self)
      obtain ⟨d, hd, heq⟩ := List.mem_map.mp hmem
      obtain rfl := hpeer (hl.perm.mem_iff.mp hd) heq
      exact congrArg Int64.ofUInt64 (congrArg SocialGraphEntry.followedAt heq).symm
    cases time with
    | none => exact Or.inl rfl
    | some t =>
      obtain rfl : t = 0 := hzero
      refine Or.inr ⟨rfl, fun c hc => ?_⟩
      obtain ⟨pubkey, at_⟩ := c
      cases at_ with
      | none =>
        -- among the follows without a time the peer may come last
        have hswap := (List.Perm.swap (R, none) (pubkey, none) []).subperm.trans (hpair hc)
        obtain ⟨a, ha, b, hb, hreada, hreadb, hle⟩ := exists_le_of_answers (fun l => (h l).mp) hswap bot_le
        obtain rfl := hsame hc ha hreada
        obtain rfl := hpeer hb hreadb
        exact absurd hle (WithBot.not_coe_le_bot 0)
      | some u =>
        refine ⟨u, rfl, ?_⟩
        by_contra hneg
        -- before it comes what is older than the time that reads the same as none
        have hle : followTime (pubkey, some u) ≤ followTime (R, some 0) := WithBot.coe_le_coe.mpr (not_lt.mp hneg)
        obtain ⟨a, ha, b, hb, hreada, hreadb, hle⟩ := exists_le_of_answers (fun l => (h l).mpr) (hpair hc) hle
        obtain rfl := hpeer ha hreada
        obtain rfl := hsame hc hb hreadb
        exact absurd hle (WithBot.not_coe_le_bot u)
  · rintro (rfl | ⟨rfl, hnewer⟩)
    · exact fun l => Iff.rfl
    · exact fun l => ⟨answers_of_newer hnewer (Or.inl rfl) (Or.inr rfl),
        answers_of_newer hnewer (Or.inr rfl) (Or.inl rfl)⟩

theorem timeless_iff {r : SocialGraphRow} : g.Timeless me R r ↔ r.followedAt = none ∨ r.followedAt = some 0 ∧
    ∀ c ∈ g.otherFollows me R, ∃ t, c.2 = some t ∧ 0 < t := by
  unfold Timeless
  refine or_congr_right (and_congr_right fun _ => ⟨fun h c hc => ?_, fun h q hq hne hme hstate => ?_⟩)
  · obtain ⟨q, hq, hne, hstate, hat⟩ := mem_otherFollows.mp hc
    obtain ⟨hmem, hme, hfollowee⟩ := row_eq_some_iff.mp hq
    exact hat ▸ h q hmem (hfollowee ▸ hne) hme hstate
  · exact h (q.followee, q.followedAt) (mem_otherFollows.mpr ⟨q, row_eq_some_iff.mpr ⟨hq, hme, rfl⟩, hne, hstate, rfl⟩)

theorem answers_cacheRemoteFollowers_of_new (hkept : g.keptFollowing me R = none)
    (hme : ∃ f ∈ followers, f.pubkey = me) :
    ((g.cacheRemoteFollowers R followers).isFollowing me R = g.isFollowing me R ∧
      ∀ l, (g.cacheRemoteFollowers R followers).FollowsAnswer me l ↔ g.FollowsAnswer me l) ↔
    ∃ r, g.row me R = some r ∧ r.state = "active" ∧ g.Timeless me R r := by
  obtain ⟨r', hrow', hsays⟩ := row_cacheRemoteFollowers_of_mem (g := g) (R := R) hme
  rw [hkept] at hsays
  have hactive : r'.state = "active" := congrArg Prod.fst hsays
  have hat : r'.followedAt = none := congrArg Prod.snd hsays
  have hnow : ∃ r, (g.cacheRemoteFollowers R followers).row me R = some r ∧ r.state = "active" :=
    ⟨r', hrow', hactive⟩
  have hafter := perm_followColumns hrow' hactive
  rw [hat, otherFollows_cacheRemoteFollowers] at hafter
  rw [isFollowing_eq_iff, iff_true_left hnow]
  have hanswers : ∀ r, g.row me R = some r → r.state = "active" →
      ((∀ l, (g.cacheRemoteFollowers R followers).FollowsAnswer me l ↔ g.FollowsAnswer me l) ↔
        g.Timeless me R r) := by
    intro r hrow hstate
    rw [timeless_iff, ← answers_timeless_iff]
    refine forall_congr' fun l => ?_
    unfold FollowsAnswer
    rw [answers_of_perm hafter, answers_of_perm (perm_followColumns hrow hstate)]
  constructor
  · rintro ⟨⟨r, hrow, hstate⟩, hall⟩
    exact ⟨r, hrow, hstate, (hanswers r hrow hstate).mp hall⟩
  · rintro ⟨r, hrow, hstate, htimeless⟩
    exact ⟨⟨r, hrow, hstate⟩, (hanswers r hrow hstate).mpr htimeless⟩

theorem sameOwn_cacheRemoteFollowers_iff_harmless (hne : R ≠ me) :
    SameOwn me g (g.cacheRemoteFollowers R followers) ↔ FollowersHarmless me R followers g := by
  rw [sameOwn_cacheRemoteFollowers_iff hne]
  unfold FollowersHarmless
  cases hrow : g.row me R with
  | none =>
    have hkept : g.keptFollowing me R = none := by
      unfold keptFollowing
      rw [hrow]
      rfl
    by_cases hme : ∃ f ∈ followers, f.pubkey = me
    · have hlisted : ¬ ∀ f ∈ followers, f.pubkey ≠ me := by simpa using hme
      rw [answers_cacheRemoteFollowers_of_new hkept hme, hrow]
      simp [hlisted]
    · have hno : ∀ f ∈ followers, f.pubkey ≠ me := fun f hf hfme => hme ⟨f, hf, hfme⟩
      rw [answers_cacheRemoteFollowers_of_gone hkept hno, hrow]
      simpa using hno
  | some r =>
    cases hseen : r.firstSeen with
    | none => exact iff_of_true (answers_cacheRemoteFollowers_of_kept hrow hseen) (Or.inl hseen)
    | some t =>
      have hkept : g.keptFollowing me R = none := by
        rw [keptFollowing_of_row hrow, hseen]
        rfl
      by_cases hme : ∃ f ∈ followers, f.pubkey = me
      · have hlisted : ¬ ∀ f ∈ followers, f.pubkey ≠ me := by simpa using hme
        rw [answers_cacheRemoteFollowers_of_new hkept hme, hrow]
        simp [hseen, hme, hlisted]
      · have hno : ∀ f ∈ followers, f.pubkey ≠ me := fun f hf hfme => hme ⟨f, hf, hfme⟩
        rw [answers_cacheRemoteFollowers_of_gone hkept hno, hrow]
        simp only [Option.some.injEq, forall_eq', hseen, reduceCtorEq, false_or, hme, false_and, or_false]
        exact (and_iff_right hno).symm

end Followers

/-- A list that a peer returns leaves the user's own relationships alone exactly if it is harmless. -/
theorem remote_lists_isolated_iff (hne : R ≠ me) (follows followers : List SocialGraphEntry)
    (g : SocialGraph) :
    (SameOwn me g (g.cacheRemoteFollows R follows) ↔ FollowsHarmless me R follows g) ∧
      (SameOwn me g (g.cacheRemoteFollowers R followers) ↔ FollowersHarmless me R followers g) :=
  ⟨sameOwn_cacheRemoteFollows_iff_harmless hne, sameOwn_cacheRemoteFollowers_iff_harmless hne⟩

section Examples

def listed (pubkey : String) : SocialGraphEntry := ⟨pubkey, 1, 1, 1, false⟩

/-- A peer that the user follows, and that has shown itself as a follower. -/
def friends : SocialGraph := (empty.follow "me" (listed "bob") 5).upsertFollower "me" "bob" 7

theorem remote_lists_isolated_friends :
    SameOwn "me" friends (friends.cacheRemoteFollows "bob" [listed "carol", listed "me"]) ∧
      SameOwn "me" friends (friends.cacheRemoteFollowers "bob" [listed "me"]) := by
  have hiff := remote_lists_isolated_iff (R := "bob") (by decide : "bob" ≠ "me")
    [listed "carol", listed "me"] [listed "me"] friends
  constructor
  · apply hiff.1.mpr
    exact Or.inl rfl
  · apply hiff.2.mpr
    exact Or.inl rfl

/-- Mallory, unknown so far, lists the user among its follows and is a follower. -/
example : empty.isFollower "me" "mallory" = false ∧
    (empty.cacheRemoteFollows "mallory" [listed "me"]).isFollower "me" "mallory" = true := by
  decide

/-- Listed among mallory's followers, the user follows mallory, since no time. -/
example : (empty.cacheRemoteFollowers "mallory" [listed "me"]).isFollowing "me" "mallory" = true ∧
    (empty.cacheRemoteFollowers "mallory" [listed "me"]).getFollows "me" = [⟨"mallory", 0, 0, 0, false⟩] := by
  decide

theorem not_remote_lists_isolated_stranger :
    ¬ ∀ (me R : String) (g : SocialGraph) (l : List SocialGraphEntry), R ≠ me →
      SameOwn me g (g.cacheRemoteFollows R l) ∧ SameOwn me g (g.cacheRemoteFollowers R l) := by
  intro h
  have hsame := (h "me" "mallory" empty [listed "me"] (by decide)).1.isFollower "mallory"
  revert hsame
  decide

end Examples

end Proscenium.Client.SocialGraph
