import Proscenium.Client.FeedSubscriptions

/-! That no feed is lost. A subscription whose stream has ended is asked for again,
and the request is handed on from the task to the queue, to the loop and to a new
task; a followed user is at every moment with one of them, as long as attempts
succeed and none comes between the request of a task and its end. -/

namespace Proscenium.Client

open Machine

def ReconnectPhase.pubkey : ReconnectPhase → String
  | .pause pubkey => pubkey
  | .lock pubkey => pubkey

namespace GossipService

variable (s : GossipService)

/-- The feed is listened to, or it is on its way to that. -/
inductive Tended (pubkey : String) : Prop where
  | task (t : FeedTask) (mem : t ∈ s.tasks) (feed : t.pubkey = pubkey) (phase : t.phase ≠ .requested)
  | queued (mem : pubkey ∈ s.reconnects)
  | reconnecting (phase : ReconnectPhase) (mem : s.reconnecting = some phase) (feed : phase.pubkey = pubkey)
  | subscribing (held : Subscribing) (mem : s.lock = some held) (feed : held.pubkey = pubkey)
  | command (mem : .gossipFollow pubkey ∈ s.commands)

/-- An attempt to subscribe to the feed of a user who is followed goes on, and the task that is subscribed
there has not just sent its request. -/
def Succeeds (pubkey : String) (ok : Bool) : Prop :=
  s.followed pubkey = true → ok = true ∧ ∀ t ∈ s.tasks, s.subscriptions pubkey = some t.id → t.phase ≠ .requested

/-- Attempts succeed, and nobody is unsubscribed from who is followed again. -/
def Careful : Label → Prop
  | .subscribed ok => ∀ held ∈ s.lock, s.followed held.pubkey = true → ok = true
  | .command i ok =>
    match s.commands[i]? with
    | some (.gossipFollow pubkey) => s.Succeeds pubkey ok
    | some c => ∀ pubkey ∈ c.unsubscribes, s.followed pubkey = false
    | none => True
  | .reconnect ok =>
    match s.reconnecting with
    | some (.pause pubkey) => s.followed pubkey = true → ok = true
    | some (.lock pubkey) => s.Succeeds pubkey ok
    | none => True
  | _ => True

instance (pubkey : String) (ok : Bool) : Decidable (s.Succeeds pubkey ok) := by
  unfold Succeeds
  infer_instance

instance (l : Label) : Decidable (s.Careful l) := by
  unfold Careful
  split
  · infer_instance
  · split <;> infer_instance
  · split <;> infer_instance
  · infer_instance

/-- Tasks and subscriptions are the ones of their pubkey, and whoever is followed is tended to. -/
structure Kept : Prop where
  tasks : ∀ t ∈ s.tasks, s.spawned[t.id]? = some t.pubkey
  subscriptions : ∀ pubkey id, s.subscriptions pubkey = some id → s.spawned[id]? = some pubkey
  ids : ∀ t ∈ s.tasks, ∀ u ∈ s.tasks, t.id = u.id → t = u
  tended : ∀ pubkey, s.followed pubkey = true → s.Tended pubkey

variable {s} {s' : GossipService} {pubkey other : String}

theorem Tended.mono (h : s.Tended pubkey)
    (htasks : ∀ t ∈ s.tasks, t.pubkey = pubkey → t.phase ≠ .requested → s'.Tended pubkey)
    (hreconnects : s.reconnects ⊆ s'.reconnects)
    (hreconnecting : ∀ phase, s.reconnecting = some phase → phase.pubkey = pubkey → s'.Tended pubkey)
    (hlock : ∀ held, s.lock = some held → held.pubkey = pubkey → s'.Tended pubkey)
    (hcommands : .gossipFollow pubkey ∈ s.commands → s'.Tended pubkey) : s'.Tended pubkey := by
  cases h with
  | task t ht hfeed hphase => exact htasks t ht hfeed hphase
  | queued hmem => exact .queued (hreconnects hmem)
  | reconnecting phase hphase hfeed => exact hreconnecting phase hphase hfeed
  | subscribing held hheld hfeed => exact hlock held hheld hfeed
  | command hmem => exact hcommands hmem

theorem exists_of_not_finished {id : Nat} (h : s.isFinished id = false) : ∃ t ∈ s.tasks, t.id = id := by
  obtain ⟨t, ht, hid⟩ := List.all_eq_false.mp h
  exact ⟨t, ht, of_not_not (mt decide_eq_true hid)⟩

theorem mem_of_taskIn {id : ℕ} {phase : FeedTaskPhase} {t : FeedTask} (h : s.taskIn id phase = some t) :
    t ∈ s.tasks ∧ t.id = id ∧ t.phase = phase := by
  have hfound := List.find?_some h
  exact ⟨List.mem_of_find?_eq_some h, of_decide_eq_true hfound⟩

section Attempts

variable {byLoop ok : Bool} {commands : List FeedCommand} {reconnecting : Option ReconnectPhase}

theorem followed_followUser (s : GossipService) (pubkey : String) (byLoop ok : Bool) :
    (s.followUser pubkey byLoop ok).followed = s.followed := by
  unfold followUser
  split <;> rfl

theorem reconnecting_followUser (s : GossipService) (pubkey : String) (byLoop ok : Bool) :
    (s.followUser pubkey byLoop ok).reconnecting = s.reconnecting := by
  unfold followUser
  split <;> rfl

theorem commands_followUser (s : GossipService) (pubkey : String) (byLoop ok : Bool) :
    (s.followUser pubkey byLoop ok).commands = s.commands := by
  unfold followUser
  split <;> rfl

theorem tended_followUser (h : s.Kept) (hfollowed : s.followed pubkey = true) (hsucceeds : s.Succeeds pubkey ok) :
    Tended { s.followUser pubkey byLoop ok with commands, reconnecting } pubkey := by
  obtain ⟨rfl, hphase⟩ := hsucceeds hfollowed
  unfold followUser
  split
  next hlive =>
    obtain ⟨id, hid, hrunning⟩ := (Option.any_eq_true _ _).mp hlive
    obtain ⟨t, ht, rfl⟩ := exists_of_not_finished (Bool.not_eq_true' _ ▸ hrunning)
    have hfeed := (h.tasks t ht).symm.trans (h.subscriptions pubkey t.id hid)
    exact .task t ht (Option.some.inj hfeed) (hphase t ht hid)
  next => exact .subscribing ⟨pubkey, byLoop⟩ rfl rfl

theorem tended_followUser_of_ne (h : s.Tended other) (hlock : s.lock = none)
    (hcommands : .gossipFollow other ∈ s.commands → .gossipFollow other ∈ commands)
    (hreconnecting : ∀ phase, s.reconnecting = some phase → phase.pubkey = other → reconnecting = some phase) :
    Tended { s.followUser pubkey byLoop ok with commands, reconnecting } other := by
  have hkept : ∀ {s' : GossipService}, s'.tasks = s.tasks → s'.reconnects = s.reconnects → s'.commands = commands →
      s'.reconnecting = reconnecting → s'.Tended other := by
    rintro s' htasks hreconnects rfl rfl
    refine h.mono (fun t ht => .task t (htasks ▸ ht)) (hreconnects ▸ List.Subset.refl _) ?_ ?_ ?_
    · intro phase hphase hfeed
      exact .reconnecting phase (hreconnecting phase hphase hfeed) hfeed
    · intro held hheld _
      exact nomatch hlock.symm.trans hheld
    · exact fun hmem => .command (hcommands hmem)
  unfold followUser
  split <;> exact hkept rfl rfl rfl rfl

theorem kept_followUser (h : s.Kept) (hlock : s.lock = none) (hsucceeds : s.Succeeds pubkey ok)
    (hcommands : ∀ p, p ≠ pubkey → .gossipFollow p ∈ s.commands → .gossipFollow p ∈ commands)
    (hreconnecting : ∀ phase, s.reconnecting = some phase → phase.pubkey ≠ pubkey → reconnecting = some phase) :
    Kept { s.followUser pubkey byLoop ok with commands, reconnecting } := by
  have hfollowed := followed_followUser s pubkey byLoop ok
  refine ⟨?_, ?_, ?_, ?_⟩
  · unfold followUser
    split <;> exact h.tasks
  · unfold followUser
    split
    · exact h.subscriptions
    · intro p id hid
      by_cases hp : p = pubkey
      · subst hp
        exact nomatch (Function.update_self ..).symm.trans hid
      · exact h.subscriptions p id ((Function.update_of_ne hp ..).symm.trans hid)
  · unfold followUser
    split <;> exact h.ids
  · intro p hp
    replace hp : s.followed p = true := (congrFun hfollowed p).symm.trans hp
    by_cases hne : p = pubkey
    · subst hne
      exact tended_followUser h hp hsucceeds
    · refine tended_followUser_of_ne (h.tended p hp) hlock (hcommands p hne) ?_
      rintro phase hphase rfl
      exact hreconnecting phase hphase hne

end Attempts

theorem kept_stored (h : s.Kept) {followed blocked : String → Bool} {commands : List FeedCommand}
    {reconnects : List String}
    (hfollowed : ∀ p, followed p = true → s.followed p = true ∨ .gossipFollow p ∈ commands)
    (hcommands : ∀ p, .gossipFollow p ∈ s.commands → .gossipFollow p ∈ commands)
    (hreconnects : s.reconnects ⊆ reconnects) : Kept { s with followed, blocked, commands, reconnects } where
  tasks := h.tasks
  subscriptions := h.subscriptions
  ids := h.ids
  tended p hp := by
    rcases hfollowed p hp with hp | hp
    · exact (h.tended p hp).mono (fun t ht => .task t ht) hreconnects
        (fun phase hphase => .reconnecting phase hphase) (fun held hheld => .subscribing held hheld)
        fun hmem => .command (hcommands p hmem)
    · exact .command hp

theorem kept_unfollowUser (h : s.Kept) (hpubkey : s.followed pubkey = false) : (s.unfollowUser pubkey).Kept where
  tasks t ht := h.tasks t (List.mem_filter.mp ht).1
  subscriptions p id hid := by
    by_cases hp : p = pubkey
    · subst hp
      have hnone : Function.update s.subscriptions p none p = none := Function.update_self ..
      exact nomatch hnone.symm.trans hid
    · exact h.subscriptions p id ((Function.update_of_ne hp ..).symm.trans hid)
  ids t ht u hu := h.ids t (List.mem_filter.mp ht).1 u (List.mem_filter.mp hu).1
  tended p hp := by
    have hne : p ≠ pubkey := by
      rintro rfl
      exact absurd hp (Bool.eq_false_iff.mp hpubkey)
    refine (h.tended p hp).mono ?_ (List.Subset.refl _) (fun phase hphase => .reconnecting phase hphase)
      (fun held hheld => .subscribing held hheld) fun hmem => .command hmem
    intro t ht hfeed hphase
    refine .task t (List.mem_filter.mpr ⟨ht, decide_eq_true ?_⟩) hfeed hphase
    rintro ⟨hid, -⟩
    have hsame := (h.tasks t ht).symm.trans (h.subscriptions pubkey t.id hid)
    exact hne (hfeed.symm.trans (Option.some.inj hsame))

section Command

variable {i : ℕ} {c : FeedCommand}

theorem gossipFollow_mem_advance (hi : s.commands[i]? = some c) (hc : ∀ p, c ≠ .gossipFollow p)
    (next : Option FeedCommand) (p : String) (hp : .gossipFollow p ∈ s.commands) :
    .gossipFollow p ∈ Tasks.advance s.commands i next := by
  rcases List.mem_cons.mp ((Tasks.perm_others hi).mem_iff.mpr hp) with hp | hp
  · exact absurd hp.symm (hc p)
  · exact (Tasks.mem_advance hi).mpr (Or.inr hp)

variable (h : s.Kept) (hi : s.commands[i]? = some c)
include h hi

theorem kept_quietly (hc : ∀ p, c ≠ .gossipFollow p) (next : Option FeedCommand) :
    Kept { s with commands := Tasks.advance s.commands i next } :=
  kept_stored h (fun _ hp => Or.inl hp) (gossipFollow_mem_advance hi hc next) (List.Subset.refl _)

theorem kept_unfollowed (hc : ∀ p, c ≠ .gossipFollow p) (next : Option FeedCommand) (pubkey : String) : Kept { s with
    followed := Function.update s.followed pubkey false
    commands := Tasks.advance s.commands i next } := by
  refine kept_stored h (fun p hp => Or.inl ?_) (gossipFollow_mem_advance hi hc next) (List.Subset.refl _)
  by_cases hne : p = pubkey
  · subst hne
    exact nomatch (Function.update_self ..).symm.trans hp
  · exact (Function.update_of_ne hne ..).symm.trans hp

theorem kept_command {ok : Bool} (hcareful : s.Careful (.command i ok)) {out : GossipService × Option FeedCommand}
    (hout : s.runCommand ok c = some out) : Kept { out.1 with commands := Tasks.advance s.commands i out.2 } := by
  cases c with
  | follow pubkey =>
    cases ok <;> obtain rfl := Option.some.inj hout
    · exact kept_quietly h hi nofun none
    · refine kept_stored h (fun p hp => ?_) (gossipFollow_mem_advance hi nofun _) (List.Subset.refl _)
      by_cases hne : p = pubkey
      · subst hne
        exact Or.inr ((Tasks.mem_advance hi).mpr (Or.inl rfl))
      · exact Or.inl ((Function.update_of_ne hne ..).symm.trans hp)
  | gossipFollow pubkey =>
    obtain ⟨hfree, hout⟩ := Option.ite_none_left_eq_some.mp hout
    obtain rfl := Option.some.inj hout
    simp only [Careful, hi] at hcareful
    refine kept_followUser h (Option.not_isSome_iff_eq_none.mp hfree) hcareful ?_ fun phase hphase _ =>
      (reconnecting_followUser s pubkey false ok).trans hphase
    intro p hne hp
    rcases List.mem_cons.mp ((Tasks.perm_others hi).mem_iff.mpr hp) with hp | hp
    · exact absurd (FeedCommand.gossipFollow.inj hp) hne
    · exact (Tasks.mem_advance hi).mpr (Or.inr hp)
  | unfollow pubkey =>
    cases ok <;> obtain rfl := Option.some.inj hout
    · exact kept_quietly h hi nofun none
    · exact kept_unfollowed h hi nofun _ pubkey
  | gossipUnfollow pubkey =>
    obtain ⟨-, hout⟩ := Option.ite_none_left_eq_some.mp hout
    obtain rfl := Option.some.inj hout
    simp only [Careful, hi] at hcareful
    exact kept_unfollowUser (kept_quietly h hi nofun none) (hcareful pubkey rfl)
  | block pubkey phase =>
    cases phase with
    | isFollowing =>
      cases ok <;> obtain rfl := Option.some.inj hout
      · exact kept_quietly h hi nofun none
      · exact kept_quietly h hi nofun _
    | unfollow =>
      cases ok <;> obtain rfl := Option.some.inj hout
      · exact kept_quietly h hi nofun none
      · exact kept_unfollowed h hi nofun _ pubkey
    | gossipUnfollow =>
      obtain ⟨-, hout⟩ := Option.ite_none_left_eq_some.mp hout
      obtain rfl := Option.some.inj hout
      simp only [Careful, hi] at hcareful
      exact kept_unfollowUser (kept_quietly h hi nofun (some (.block pubkey .block))) (hcareful pubkey rfl)
    | block =>
      cases ok <;> obtain rfl := Option.some.inj hout
      · exact kept_quietly h hi nofun none
      · exact kept_stored h (fun _ hp => Or.inl hp) (gossipFollow_mem_advance hi nofun none) (List.Subset.refl _)

end Command

/-- The feed that was waited for has a task now. -/
theorem kept_spawn (h : s.Kept) {held : Subscribing} (hheld : s.lock = some held) : (s.spawn held.pubkey).Kept where
  tasks t ht := by
    rcases List.mem_append.mp ht with ht | ht
    · have hold := h.tasks t ht
      exact (List.getElem?_append_left (List.getElem?_eq_some_iff.mp hold).1).trans hold
    · obtain rfl := List.mem_singleton.mp ht
      exact List.getElem?_concat_length
  subscriptions p id hid := by
    by_cases hp : p = held.pubkey
    · subst hp
      have hnew : (s.spawn held.pubkey).subscriptions held.pubkey = some s.spawned.length := Function.update_self ..
      obtain rfl := Option.some.inj (hnew.symm.trans hid)
      exact List.getElem?_concat_length
    · have hold := h.subscriptions p id ((Function.update_of_ne hp ..).symm.trans hid)
      exact (List.getElem?_append_left (List.getElem?_eq_some_iff.mp hold).1).trans hold
  ids t ht u hu hsame := by
    have hbelow : ∀ v ∈ s.tasks, v.id ≠ s.spawned.length := fun v hv =>
      Nat.ne_of_lt (List.getElem?_eq_some_iff.mp (h.tasks v hv)).1
    rcases List.mem_append.mp ht with ht | ht <;> rcases List.mem_append.mp hu with hu | hu
    · exact h.ids t ht u hu hsame
    · obtain rfl := List.mem_singleton.mp hu
      exact absurd hsame (hbelow t ht)
    · obtain rfl := List.mem_singleton.mp ht
      exact absurd hsame.symm (hbelow u hu)
    · rw [List.mem_singleton.mp ht, List.mem_singleton.mp hu]
  tended p hp := by
    have hnew : (s.spawn held.pubkey).Tended held.pubkey :=
      .task ⟨s.spawned.length, held.pubkey, .listening⟩ (List.mem_append_right _ (List.mem_singleton.mpr rfl)) rfl
        nofun
    refine (h.tended p hp).mono (fun t ht => .task t (List.mem_append_left _ ht)) (List.Subset.refl _)
      (fun phase hphase => .reconnecting phase hphase) ?_ fun hmem => .command hmem
    rintro held' hheld' rfl
    obtain rfl := Option.some.inj (hheld.symm.trans hheld')
    exact hnew

theorem kept_unlocked (h : s.Kept) (hfree : ∀ held, s.lock = some held → s.followed held.pubkey = false) :
    Kept { s with lock := none } where
  tasks := h.tasks
  subscriptions := h.subscriptions
  ids := h.ids
  tended p hp := by
    refine (h.tended p hp).mono (fun t ht => .task t ht) (List.Subset.refl _)
      (fun phase hphase => .reconnecting phase hphase) ?_ fun hmem => .command hmem
    rintro held hheld rfl
    exact nomatch hp.symm.trans (hfree held hheld)

theorem kept_setPhase (h : s.Kept) {id : ℕ} {phase : FeedTaskPhase} {reconnects : List String}
    (hreconnects : s.reconnects ⊆ reconnects)
    (hphase : ∀ t ∈ s.tasks, t.id = id → t.phase ≠ .requested → phase = .requested → t.pubkey ∈ reconnects) :
    Kept { s.setPhase id phase with reconnects } where
  tasks t ht := by
    obtain ⟨u, hu, rfl⟩ := List.mem_map.mp ht
    split <;> exact h.tasks u hu
  subscriptions := h.subscriptions
  ids t ht u hu hsame := by
    obtain ⟨t, hold, rfl⟩ := List.mem_map.mp ht
    obtain ⟨u, hold', rfl⟩ := List.mem_map.mp hu
    have hid : ∀ v : FeedTask, (if v.id = id then { v with phase } else v).id = v.id := by
      intro v
      split <;> rfl
    rw [hid, hid] at hsame
    rw [h.ids t hold u hold' hsame]
  tended p hp := by
    refine (h.tended p hp).mono ?_ hreconnects (fun phase hphase => .reconnecting phase hphase)
      (fun held hheld => .subscribing held hheld) fun hmem => .command hmem
    intro t ht hfeed hrunning
    by_cases hid : t.id = id
    · by_cases hrequested : phase = .requested
      · exact .queued (hfeed ▸ hphase t ht hid hrunning hrequested)
      · refine .task { t with phase } (List.mem_map.mpr ⟨t, ht, if_pos hid⟩) hfeed hrequested
    · exact .task t (List.mem_map.mpr ⟨t, ht, if_neg hid⟩) hfeed hrunning

theorem kept_finish (h : s.Kept) {id : ℕ} {t : FeedTask} (ht : s.taskIn id .requested = some t) :
    Kept { s with tasks := s.tasks.filter fun t => t.id ≠ id } where
  tasks u hu := h.tasks u (List.mem_filter.mp hu).1
  subscriptions := h.subscriptions
  ids u hu v hv := h.ids u (List.mem_filter.mp hu).1 v (List.mem_filter.mp hv).1
  tended p hp := by
    refine (h.tended p hp).mono ?_ (List.Subset.refl _) (fun phase hphase => .reconnecting phase hphase)
      (fun held hheld => .subscribing held hheld) fun hmem => .command hmem
    intro u hu hfeed hphase
    refine .task u (List.mem_filter.mpr ⟨hu, decide_eq_true ?_⟩) hfeed hphase
    intro hid
    obtain ⟨hmem, hfound, hrequested⟩ := mem_of_taskIn ht
    rw [h.ids u hu t hmem (hid.trans hfound.symm)] at hphase
    exact hphase hrequested

theorem kept_received (h : s.Kept) {reconnects : List String} (hidle : s.reconnecting = none)
    (hqueue : s.reconnects = pubkey :: reconnects) :
    Kept { s with reconnects, reconnecting := some (.pause pubkey) } where
  tasks := h.tasks
  subscriptions := h.subscriptions
  ids := h.ids
  tended p hp := by
    cases h.tended p hp with
    | task t ht hfeed hphase => exact .task t ht hfeed hphase
    | queued hmem =>
      rw [hqueue] at hmem
      rcases List.mem_cons.mp hmem with rfl | hmem
      · exact .reconnecting (.pause p) rfl rfl
      · exact .queued hmem
    | reconnecting phase hphase => exact nomatch hidle.symm.trans hphase
    | subscribing held hheld hfeed => exact .subscribing held hheld hfeed
    | command hmem => exact .command hmem

theorem kept_paused (h : s.Kept) (hpause : s.reconnecting = some (.pause pubkey)) {ok : Bool}
    (hok : s.followed pubkey = true → ok = true) :
    Kept { s with reconnecting := if ok then some (.lock pubkey) else none } where
  tasks := h.tasks
  subscriptions := h.subscriptions
  ids := h.ids
  tended p hp := by
    refine (h.tended p hp).mono (fun t ht => .task t ht) (List.Subset.refl _) ?_
      (fun held hheld => .subscribing held hheld) fun hmem => .command hmem
    rintro phase hphase rfl
    obtain rfl := Option.some.inj (hpause.symm.trans hphase)
    exact .reconnecting (.lock pubkey) (if_pos (hok hp)) rfl

theorem kept_step (h : s.Kept) {l : Label} (hcareful : s.Careful l) (hstep : step s l = some s') : s'.Kept := by
  have hcommand : ∀ c : FeedCommand, Kept { s with commands := s.commands ++ [c] } := fun c =>
    kept_stored h (fun _ hp => Or.inl hp) (fun _ hp => List.mem_append_left _ hp) (List.Subset.refl _)
  cases l with
  | follow pubkey =>
    obtain rfl := Option.some.inj hstep
    exact hcommand (.follow pubkey)
  | unfollow pubkey =>
    obtain rfl := Option.some.inj hstep
    exact hcommand (.unfollow pubkey)
  | block pubkey =>
    obtain rfl := Option.some.inj hstep
    exact hcommand (.block pubkey .isFollowing)
  | unblock pubkey =>
    obtain rfl := Option.some.inj hstep
    exact kept_stored h (fun _ hp => Or.inl hp) (fun _ hp => hp) (List.Subset.refl _)
  | command i ok =>
    obtain ⟨c, hi, hstep⟩ := Option.bind_eq_some_iff.mp hstep
    obtain ⟨out, hout, hstep⟩ := Option.bind_eq_some_iff.mp hstep
    obtain rfl := Option.some.inj hstep
    exact kept_command h hi hcareful hout
  | subscribed ok =>
    obtain ⟨held, hheld, rfl⟩ := Option.map_eq_some_iff.mp hstep
    cases ok with
    | true => exact kept_spawn h hheld
    | false =>
      refine kept_unlocked h fun held' hheld' => Bool.eq_false_iff.mpr fun hfollowed => ?_
      exact nomatch hcareful held' hheld' hfollowed
  | streamEnds id =>
    obtain ⟨t, -, rfl⟩ := Option.map_eq_some_iff.mp hstep
    exact kept_setPhase h (List.Subset.refl _) fun _ _ _ _ hrequested => nomatch hrequested
  | requestReconnect id =>
    obtain ⟨t, ht, rfl⟩ := Option.map_eq_some_iff.mp hstep
    refine kept_setPhase h (List.subset_append_left _ _) fun u hu hid _ _ => ?_
    obtain ⟨hmem, hfound, -⟩ := mem_of_taskIn ht
    rw [h.ids u hu t hmem (hid.trans hfound.symm)]
    exact List.mem_append_right _ (List.mem_singleton.mpr rfl)
  | finish id =>
    obtain ⟨t, ht, rfl⟩ := Option.map_eq_some_iff.mp hstep
    exact kept_finish h ht
  | recv =>
    simp only [step] at hstep
    split at hstep
    · obtain ⟨-, hstep⟩ := Option.ite_none_left_eq_some.mp hstep
      obtain rfl := Option.some.inj hstep
      exact kept_received h (by assumption) (by assumption)
    · exact absurd hstep.symm (Option.some_ne_none s')
  | reconnect ok =>
    simp only [step] at hstep
    split at hstep
    next pubkey hpause =>
      obtain rfl := Option.some.inj hstep
      simp only [Careful, hpause] at hcareful
      exact kept_paused h hpause hcareful
    next pubkey hlock =>
      obtain ⟨hfree, hstep⟩ := Option.ite_none_left_eq_some.mp hstep
      obtain rfl := Option.some.inj hstep
      simp only [Careful, hlock] at hcareful
      refine kept_followUser h (Option.not_isSome_iff_eq_none.mp hfree) hcareful (fun p _ hp => ?_) ?_
      · exact (commands_followUser s pubkey true ok).symm ▸ hp
      · intro phase hphase hne
        obtain rfl := Option.some.inj (hlock.symm.trans hphase)
        exact absurd rfl hne
    · exact absurd hstep.symm (Option.some_ne_none s')
  | refreshAll order =>
    obtain ⟨-, hstep⟩ := Option.ite_none_right_eq_some.mp hstep
    obtain rfl := Option.some.inj hstep
    exact kept_stored h (fun _ hp => Or.inl hp) (fun _ hp => hp) (List.subset_append_left _ _)

theorem kept_starting (followed blocked : String → Bool) (follows : List String)
    (hfollows : ∀ p, followed p = true → p ∈ follows) : (starting followed blocked follows).Kept where
  tasks _ ht := nomatch ht
  subscriptions _ _ hid := nomatch hid
  ids _ ht := nomatch ht
  tended p hp := .command (List.mem_map.mpr ⟨p, hfollows p hp, rfl⟩)

/-- Where attempts succeed, no request is dealt with before its task is over, and nobody is unsubscribed from
who is followed again, no feed of a followed user is lost: at every moment somebody sees to it, and when nothing
is left to do the feed is listened to. -/
theorem followed_feeds_tended (followed blocked : String → Bool) (follows : List String)
    (hfollows : ∀ p, followed p = true → p ∈ follows) (run : List Label)
    (hcareful : Along step Careful (starting followed blocked follows) run) {s : GossipService}
    (hrun : exec step (starting followed blocked follows) run = some s) :
    (∀ p, s.followed p = true → s.Tended p) ∧
    (s.commands = [] → s.reconnects = [] → s.reconnecting = none → s.lock = none →
      (∀ t ∈ s.tasks, t.phase ≠ .ended) → ∀ p, s.followed p = true → ∃ t, s.Listening t ∧ t.pubkey = p) := by
  have hkept : s.Kept := exec_invariant (fun _ _ _ h hok hstep => kept_step h hok hstep)
    (kept_starting followed blocked follows hfollows) hcareful hrun
  refine ⟨hkept.tended, fun hcommands hreconnects hreconnecting hlock hended p hp => ?_⟩
  cases hkept.tended p hp with
  | task t ht hfeed hphase =>
    refine ⟨t, ⟨ht, ?_⟩, hfeed⟩
    have hrunning := hended t ht
    cases hcase : t.phase with
    | listening => rfl
    | ended => exact absurd hcase hrunning
    | requested => exact absurd hcase hphase
  | queued hmem => exact nomatch hreconnects ▸ hmem
  | reconnecting phase hphase => exact nomatch hreconnecting.symm.trans hphase
  | subscribing held hheld => exact nomatch hlock.symm.trans hheld
  | command hmem => exact nomatch hcommands ▸ hmem

section Examples

def followingPat : GossipService := starting (fun p => p == "pat") (fun _ => false) ["pat"]

/-- The stream of the first subscription ends, and the loop subscribes again. -/
def resubscribed : List Label := [.command 0 true, .subscribed true, .streamEnds 0, .requestReconnect 0, .finish 0,
  .recv, .reconnect true, .reconnect true, .subscribed true]

theorem followed_feeds_tended_again : ∃ s, exec step followingPat resubscribed = some s ∧
    ∃ t, s.Listening t ∧ t.pubkey = "pat" := by
  have hfollows : ∀ p : String, (p == "pat") = true → p ∈ ["pat"] := fun p hp =>
    List.mem_singleton.mpr (eq_of_beq hp)
  have hcareful : Along step Careful followingPat resubscribed := by decide +kernel
  exact ⟨_, rfl, (followed_feeds_tended _ _ _ hfollows resubscribed hcareful rfl).2 rfl rfl rfl rfl
    (by decide) "pat" rfl⟩

/-- The loop tries again while the task that asked for it is still about to end, takes it for one that
listens, and the feed is lost. -/
example : (exec step followingPat [.command 0 true, .subscribed true, .streamEnds 0, .requestReconnect 0, .recv,
    .reconnect true, .reconnect true, .finish 0]).map (fun s => (s.followed "pat", s.tasks, s.reconnects)) =
      some (true, [], []) := rfl

end Examples

end GossipService
end Proscenium.Client
