import Proscenium.Lib.Machine
import Proscenium.Lib.Tasks

/-! The subscriptions to the feeds of others: the commands that follow, unfollow and
block, the tasks that listen, and the loop that subscribes again when a stream has
ended. What the loop is asked for is a pubkey, and it does not look whether the
user is still followed. -/

namespace Proscenium.Client

open Machine

inductive FeedTaskPhase where
  | listening
  /-- The stream has ended, and the request to reconnect is not sent yet. -/
  | ended
  | requested
  deriving DecidableEq, Repr

structure FeedTask where
  id : Nat
  pubkey : String
  phase : FeedTaskPhase
  deriving DecidableEq, Repr

inductive BlockPhase where
  | isFollowing
  | unfollow
  | gossipUnfollow
  | block
  deriving DecidableEq, Repr

inductive FeedCommand where
  | follow (pubkey : String)
  | gossipFollow (pubkey : String)
  | unfollow (pubkey : String)
  | gossipUnfollow (pubkey : String)
  | block (pubkey : String) (phase : BlockPhase)
  deriving DecidableEq, Repr

def FeedCommand.unsubscribes : FeedCommand → Option String
  | .gossipUnfollow pubkey | .block pubkey .gossipUnfollow => some pubkey
  | _ => none

def FeedCommand.blocks : FeedCommand → Option String
  | .block pubkey .block => some pubkey
  | _ => none

/-- The loop between its awaits: the pause and the query, and the lock. -/
inductive ReconnectPhase where
  | pause (pubkey : String)
  | lock (pubkey : String)
  deriving DecidableEq, Repr

/-- A `follow_user` that awaits the gossip network, with the lock. -/
structure Subscribing where
  pubkey : String
  byLoop : Bool
  deriving DecidableEq, Repr

structure GossipService where
  followed : String → Bool
  blocked : String → Bool
  subscriptions : String → Option Nat
  /-- The tasks that are not finished. -/
  tasks : List FeedTask
  /-- The pubkeys of all tasks; a task's id is its place here. -/
  spawned : List String
  reconnects : List String
  lock : Option Subscribing
  commands : List FeedCommand
  reconnecting : Option ReconnectPhase

namespace GossipService

inductive Label where
  | follow (pubkey : String)
  | unfollow (pubkey : String)
  | block (pubkey : String)
  | unblock (pubkey : String)
  /-- A command goes on; `ok` is how its await ends. -/
  | command (i : Nat) (ok : Bool)
  | subscribed (ok : Bool)
  | streamEnds (id : Nat)
  | requestReconnect (id : Nat)
  | finish (id : Nat)
  | recv
  | reconnect (ok : Bool)
  /-- With the order in which the map goes through its keys. -/
  | refreshAll (order : List String)
  deriving DecidableEq, Repr

/-- The service before it subscribes to the follows. -/
def starting (followed blocked : String → Bool) (follows : List String) : GossipService where
  followed := followed
  blocked := blocked
  subscriptions := fun _ => none
  tasks := []
  spawned := []
  reconnects := []
  lock := none
  commands := follows.map .gossipFollow
  reconnecting := none

variable (s : GossipService)

def isFinished (id : Nat) : Bool := s.tasks.all fun t => t.id ≠ id

/-- `follow_user` when it has the lock; `bootstrap` says whether there is a valid NodeId. -/
def followUser (pubkey : String) (byLoop bootstrap : Bool) : GossipService :=
  if (s.subscriptions pubkey).any fun id => !s.isFinished id then s
  else { s with
    subscriptions := Function.update s.subscriptions pubkey none
    lock := if bootstrap then some ⟨pubkey, byLoop⟩ else none }

def spawn (pubkey : String) : GossipService := { s with
  subscriptions := Function.update s.subscriptions pubkey (some s.spawned.length)
  tasks := s.tasks ++ [⟨s.spawned.length, pubkey, .listening⟩]
  spawned := s.spawned ++ [pubkey]
  lock := none }

def unfollowUser (pubkey : String) : GossipService := { s with
  subscriptions := Function.update s.subscriptions pubkey none
  tasks := s.tasks.filter fun t => ¬ (s.subscriptions pubkey = some t.id ∧ t.phase = .listening) }

/-- A command after its await, or nothing while it waits for the lock. -/
def runCommand (ok : Bool) : FeedCommand → Option (GossipService × Option FeedCommand)
  | .follow pubkey =>
    if ok then some ({ s with followed := Function.update s.followed pubkey true }, some (.gossipFollow pubkey))
    else some (s, none)
  | .gossipFollow pubkey => if s.lock.isSome then none else some (s.followUser pubkey false ok, none)
  | .unfollow pubkey =>
    if ok then some ({ s with followed := Function.update s.followed pubkey false }, some (.gossipUnfollow pubkey))
    else some (s, none)
  | .gossipUnfollow pubkey => if s.lock.isSome then none else some (s.unfollowUser pubkey, none)
  | .block pubkey .isFollowing =>
    if ok then some (s, some (.block pubkey (if s.followed pubkey then .unfollow else .block)))
    else some (s, none)
  | .block pubkey .unfollow =>
    if ok then some ({ s with followed := Function.update s.followed pubkey false },
      some (.block pubkey .gossipUnfollow))
    else some (s, none)
  | .block pubkey .gossipUnfollow =>
    if s.lock.isSome then none else some (s.unfollowUser pubkey, some (.block pubkey .block))
  | .block pubkey .block =>
    if ok then some ({ s with blocked := Function.update s.blocked pubkey true }, none) else some (s, none)

def setPhase (id : Nat) (phase : FeedTaskPhase) : GossipService :=
  { s with tasks := s.tasks.map fun t => if t.id = id then { t with phase } else t }

def finishedSubscriptions : List String :=
  s.spawned.dedup.filter fun pubkey => (s.subscriptions pubkey).any s.isFinished

def taskIn (id : Nat) (phase : FeedTaskPhase) : Option FeedTask :=
  s.tasks.find? fun t => t.id = id ∧ t.phase = phase

def step (s : GossipService) : Label → Option GossipService
  | .follow pubkey => some { s with commands := s.commands ++ [.follow pubkey] }
  | .unfollow pubkey => some { s with commands := s.commands ++ [.unfollow pubkey] }
  | .block pubkey => some { s with commands := s.commands ++ [.block pubkey .isFollowing] }
  | .unblock pubkey => some { s with blocked := Function.update s.blocked pubkey false }
  | .command i ok => do
    let c ← s.commands[i]?
    let out ← s.runCommand ok c
    some { out.1 with commands := Tasks.advance s.commands i out.2 }
  | .subscribed ok => s.lock.map fun h => if ok then s.spawn h.pubkey else { s with lock := none }
  | .streamEnds id => (s.taskIn id .listening).map fun _ => s.setPhase id .ended
  | .requestReconnect id => (s.taskIn id .ended).map fun t =>
    { s.setPhase id .requested with reconnects := s.reconnects ++ [t.pubkey] }
  | .finish id => (s.taskIn id .requested).map fun _ => { s with tasks := s.tasks.filter fun t => t.id ≠ id }
  | .recv =>
    match s.reconnecting, s.reconnects with
    | none, pubkey :: reconnects =>
      if s.lock.any Subscribing.byLoop then none
      else some { s with reconnects, reconnecting := some (.pause pubkey) }
    | _, _ => none
  | .reconnect ok =>
    match s.reconnecting with
    | some (.pause pubkey) => some { s with reconnecting := if ok then some (.lock pubkey) else none }
    | some (.lock pubkey) =>
      if s.lock.isSome then none else some { s.followUser pubkey true ok with reconnecting := none }
    | none => none
  | .refreshAll order =>
    if s.lock.isNone ∧ order.Perm s.finishedSubscriptions then some { s with reconnects := s.reconnects ++ order }
    else none

/-- An unfollow of the pubkey has come as far as the lock. -/
def Unsubscribing (pubkey : String) : Prop := ∃ c ∈ s.commands, c.unsubscribes = some pubkey

def Wanted (pubkey : String) : Prop := s.followed pubkey = true ∧ s.blocked pubkey = false

def Listening (t : FeedTask) : Prop := t ∈ s.tasks ∧ t.phase = .listening

/-- No command is in progress, and nobody is to be connected to again. -/
structure Settled : Prop where
  commands : s.commands = []
  reconnects : s.reconnects = []
  lock : ∀ h ∈ s.lock, h.byLoop = true

/-- Only feeds that are wanted are listened to, and each once. -/
structure Final : Prop where
  wanted : ∀ t, s.Listening t → s.Wanted t.pubkey
  once : ∀ t t', s.Listening t → s.Listening t' → t.pubkey = t'.pubkey → t = t'

/-- A feed is subscribed to, at the end of the await, only if it is wanted or an unfollow of it
waits for the lock; and a user is stored as blocked only when nobody listens to the feed or an unfollow
of it waits for the lock. -/
def Guarded : Label → Prop
  | .subscribed ok => ok = true → ∀ h ∈ s.lock, s.Wanted h.pubkey ∨ s.Unsubscribing h.pubkey
  | .command i ok => ∀ pubkey, s.commands[i]? = some (.block pubkey .block) → ok = true →
      ∀ t, s.Listening t → t.pubkey = pubkey → s.Unsubscribing pubkey
  | _ => True

structure Inv : Prop where
  covered : ∀ t, s.Listening t → s.Wanted t.pubkey ∨ s.Unsubscribing t.pubkey
  mapped : ∀ t, s.Listening t → s.subscriptions t.pubkey = some t.id
  ids : ∀ t t', s.Listening t → s.Listening t' → t.id = t'.id → t = t'
  below : ∀ t, s.Listening t → t.id < s.spawned.length
  free : ∀ h ∈ s.lock, s.subscriptions h.pubkey = none

variable {s} {s' : GossipService} {pubkey : String}

theorem inv_starting (followed blocked : String → Bool) (follows : List String) :
    (starting followed blocked follows).Inv where
  covered _ ht := absurd ht.1 List.not_mem_nil
  mapped _ ht := absurd ht.1 List.not_mem_nil
  ids _ _ ht := absurd ht.1 List.not_mem_nil
  below _ ht := absurd ht.1 List.not_mem_nil
  free h hh := absurd hh (Option.not_mem_none h)

theorem Inv.final (h : s.Inv) (hsettled : s.Settled) : s.Final where
  wanted t ht := by
    refine (h.covered t ht).resolve_right ?_
    rintro ⟨c, hc, _⟩
    rw [hsettled.commands] at hc
    exact List.not_mem_nil hc
  once t t' ht ht' hp := by
    refine h.ids t t' ht ht' (Option.some.inj ?_)
    rw [← h.mapped t ht, ← h.mapped t' ht', hp]

theorem inv_covers (h : s.Inv) {followed blocked : String → Bool} {commands : List FeedCommand}
    {reconnects : List String} {reconnecting : Option ReconnectPhase}
    (hcovered : ∀ t, s.Listening t → s.Wanted t.pubkey ∨ s.Unsubscribing t.pubkey →
      followed t.pubkey = true ∧ blocked t.pubkey = false ∨ ∃ c ∈ commands, c.unsubscribes = some t.pubkey) :
    Inv { s with followed, blocked, commands, reconnects, reconnecting } where
  covered t ht := hcovered t ht (h.covered t ht)
  mapped := h.mapped
  ids := h.ids
  below := h.below
  free := h.free

theorem inv_fewer (h : s.Inv) {tasks : List FeedTask}
    (hsub : ∀ t ∈ tasks, t.phase = .listening → t ∈ s.tasks) : Inv { s with tasks } := by
  have hlistening : ∀ t, Listening { s with tasks } t → s.Listening t := fun t ht => ⟨hsub t ht.1 ht.2, ht.2⟩
  exact ⟨fun t ht => h.covered t (hlistening t ht), fun t ht => h.mapped t (hlistening t ht),
    fun t t' ht ht' => h.ids t t' (hlistening t ht) (hlistening t' ht'),
    fun t ht => h.below t (hlistening t ht), h.free⟩

theorem mem_setPhase {id : Nat} {phase : FeedTaskPhase} (hphase : phase ≠ .listening) {t : FeedTask}
    (ht : t ∈ (s.setPhase id phase).tasks) (hlistens : t.phase = .listening) : t ∈ s.tasks := by
  obtain ⟨u, hu, rfl⟩ := List.mem_map.mp ht
  split at hlistens
  · exact absurd hlistens hphase
  · rename_i hid
    rw [if_neg hid]
    exact hu

theorem listening_not_finished {t : FeedTask} (ht : s.Listening t) : s.isFinished t.id = false := by
  refine Bool.eq_false_iff.mpr fun hfinished => ?_
  exact of_decide_eq_true (List.all_eq_true.mp hfinished t ht.1) rfl

theorem inv_followUser (h : s.Inv) (byLoop bootstrap : Bool) :
    (s.followUser pubkey byLoop bootstrap).Inv := by
  unfold followUser
  split
  · exact h
  · rename_i hnone
    have hother : ∀ t, s.Listening t → t.pubkey ≠ pubkey := by
      rintro t ht rfl
      refine hnone ?_
      rw [h.mapped t ht]
      exact Bool.not_eq_true' _ ▸ listening_not_finished ht
    refine ⟨h.covered, fun t ht => ?_, h.ids, h.below, fun g hg => ?_⟩
    · exact (Function.update_of_ne (hother t ht) ..).trans (h.mapped t ht)
    · cases bootstrap with
      | false => exact absurd hg (Option.not_mem_none g)
      | true =>
        obtain rfl := Option.some.inj hg
        exact Function.update_self ..

theorem followUser_commands (byLoop bootstrap : Bool) (commands : List FeedCommand) :
    followUser { s with commands } pubkey byLoop bootstrap =
      { s.followUser pubkey byLoop bootstrap with commands } := by
  by_cases hlive : (s.subscriptions pubkey).any fun id => !s.isFinished id
  · rw [followUser.eq_def s, if_pos hlive]
    exact if_pos hlive
  · rw [followUser.eq_def s, if_neg hlive]
    exact if_neg hlive

theorem inv_spawn (h : s.Inv) {g : Subscribing} (hg : s.lock = some g)
    (hcovered : s.Wanted g.pubkey ∨ s.Unsubscribing g.pubkey) : (s.spawn g.pubkey).Inv := by
  have hnone : s.subscriptions g.pubkey = none := h.free g hg
  have hother : ∀ t, s.Listening t → t.pubkey ≠ g.pubkey := by
    intro t ht hp
    have hmapped := h.mapped t ht
    rw [hp, hnone] at hmapped
    exact Option.some_ne_none _ hmapped.symm
  have hlistening : ∀ t, (s.spawn g.pubkey).Listening t →
      s.Listening t ∨ t = ⟨s.spawned.length, g.pubkey, .listening⟩ := by
    rintro t ⟨ht, hphase⟩
    rcases List.mem_append.mp ht with hold | hnew
    · exact .inl ⟨hold, hphase⟩
    · exact .inr (List.mem_singleton.mp hnew)
  refine ⟨fun t ht => ?_, fun t ht => ?_, fun t t' ht ht' hid => ?_, fun t ht => ?_, fun g' hg' => ?_⟩
  · rcases hlistening t ht with hold | rfl
    · exact h.covered t hold
    · exact hcovered
  · rcases hlistening t ht with hold | rfl
    · exact (Function.update_of_ne (hother t hold) ..).trans (h.mapped t hold)
    · exact Function.update_self ..
  · rcases hlistening t ht with hold | rfl <;> rcases hlistening t' ht' with hold' | rfl
    · exact h.ids t t' hold hold' hid
    · exact absurd hid (Nat.ne_of_lt (h.below t hold))
    · exact absurd hid.symm (Nat.ne_of_lt (h.below t' hold'))
    · rfl
  · have hlength : (s.spawn g.pubkey).spawned.length = s.spawned.length + 1 := List.length_append
    rw [hlength]
    rcases hlistening t ht with hold | rfl
    · exact Nat.lt_succ_of_lt (h.below t hold)
    · exact Nat.lt_succ_self _
  · exact absurd hg' (Option.not_mem_none g')

theorem listening_unfollowUser (h : s.Inv) {t : FeedTask} (ht : (s.unfollowUser pubkey).Listening t) :
    s.Listening t ∧ t.pubkey ≠ pubkey := by
  obtain ⟨hmem, hphase⟩ := ht
  obtain ⟨hold, hkept⟩ := List.mem_filter.mp hmem
  have hlistening : s.Listening t := ⟨hold, hphase⟩
  refine ⟨hlistening, ?_⟩
  rintro rfl
  exact of_decide_eq_true hkept ⟨h.mapped t hlistening, hphase⟩

theorem inv_unfollowUser (h : s.Inv) : (s.unfollowUser pubkey).Inv := by
  have hfewer : Inv { s with tasks := (s.unfollowUser pubkey).tasks } :=
    inv_fewer h fun t ht _ => (List.mem_filter.mp ht).1
  refine ⟨hfewer.covered, fun t ht => ?_, hfewer.ids, hfewer.below, fun g hg => ?_⟩
  · exact (Function.update_of_ne (listening_unfollowUser h ht).2 ..).trans (hfewer.mapped t ht)
  · by_cases hp : g.pubkey = pubkey
    · exact hp ▸ Function.update_self ..
    · exact (Function.update_of_ne hp ..).trans (hfewer.free g hg)

theorem unsubscribing_advance {i : Nat} {c : FeedCommand} (hi : s.commands[i]? = some c)
    (hother : c.unsubscribes ≠ some pubkey) (h : s.Unsubscribing pubkey) (next : Option FeedCommand) :
    ∃ c ∈ Tasks.advance s.commands i next, c.unsubscribes = some pubkey := by
  obtain ⟨u, hu, hpubkey⟩ := h
  refine ⟨u, (Tasks.mem_advance hi).mpr (.inr ?_), hpubkey⟩
  rcases List.mem_cons.mp ((Tasks.perm_others hi).mem_iff.mpr hu) with rfl | hmem
  · exact absurd hpubkey hother
  · exact hmem

section Command

variable {i : Nat} {c : FeedCommand} (h : s.Inv) (hi : s.commands[i]? = some c)
include h hi

theorem inv_quietly (hc : c.unsubscribes = none) (next : Option FeedCommand) :
    Inv { s with commands := Tasks.advance s.commands i next } := by
  refine inv_covers h fun t _ => Or.imp_right fun hu => unsubscribing_advance hi ?_ hu next
  rw [hc]
  exact (Option.some_ne_none _).symm

theorem inv_stored (hc : c.unsubscribes = none) (next : Option FeedCommand) :
    Inv { s with
      followed := Function.update s.followed pubkey true
      commands := Tasks.advance s.commands i next } := by
  refine inv_covers (inv_quietly h hi hc next) fun t _ => Or.imp_left fun hwanted => ⟨?_, hwanted.2⟩
  by_cases hp : t.pubkey = pubkey
  · exact hp ▸ Function.update_self ..
  · exact (Function.update_of_ne hp ..).trans hwanted.1

theorem inv_unfollowed (hc : c.unsubscribes = none) {next : FeedCommand} (hnext : next.unsubscribes = some pubkey) :
    Inv { s with
      followed := Function.update s.followed pubkey false
      commands := Tasks.advance s.commands i (some next) } := by
  refine inv_covers (inv_quietly h hi hc (some next)) fun t _ hcovered => ?_
  by_cases hp : t.pubkey = pubkey
  · exact .inr ⟨next, (Tasks.mem_advance hi).mpr (.inl rfl), hp ▸ hnext⟩
  · exact hcovered.imp_left fun hwanted => ⟨(Function.update_of_ne hp ..).trans hwanted.1, hwanted.2⟩

theorem inv_unsubscribed (hc : c.unsubscribes = some pubkey) (next : Option FeedCommand) :
    Inv { s.unfollowUser pubkey with commands := Tasks.advance s.commands i next } := by
  refine inv_covers (inv_unfollowUser h) fun t ht => Or.imp_right fun hu => unsubscribing_advance hi ?_ hu next
  rw [hc]
  intro hp
  exact (listening_unfollowUser h ht).2 (Option.some.inj hp).symm

theorem inv_blocked (hc : c.unsubscribes = none)
    (hguard : ∀ t, s.Listening t → t.pubkey = pubkey → s.Unsubscribing pubkey) :
    Inv { s with
      blocked := Function.update s.blocked pubkey true
      commands := Tasks.advance s.commands i none } := by
  have hadvance : ∀ {p}, s.Unsubscribing p → ∃ c ∈ Tasks.advance s.commands i none, c.unsubscribes = some p := by
    intro p hu
    refine unsubscribing_advance hi ?_ hu none
    rw [hc]
    exact (Option.some_ne_none _).symm
  refine inv_covers h fun t ht hcovered => ?_
  by_cases hp : t.pubkey = pubkey
  · exact .inr (hadvance (hp ▸ hguard t ht hp))
  · exact hcovered.imp (fun hwanted => ⟨hwanted.1, (Function.update_of_ne hp ..).trans hwanted.2⟩) hadvance

theorem inv_subscribes (hc : c.unsubscribes = none) (byLoop bootstrap : Bool) (next : Option FeedCommand) :
    Inv { s.followUser pubkey byLoop bootstrap with commands := Tasks.advance s.commands i next } := by
  have hafter : (followUser { s with commands := Tasks.advance s.commands i next } pubkey byLoop bootstrap).Inv :=
    inv_followUser (inv_quietly h hi hc next) byLoop bootstrap
  rw [followUser_commands] at hafter
  exact hafter

theorem inv_command {ok : Bool} (hguard : s.Guarded (.command i ok)) {out : GossipService × Option FeedCommand}
    (hout : s.runCommand ok c = some out) : Inv { out.1 with commands := Tasks.advance s.commands i out.2 } := by
  cases c with
  | follow pubkey =>
    cases ok <;> obtain rfl := Option.some.inj hout
    · exact inv_quietly h hi rfl none
    · exact inv_stored h hi rfl (some (.gossipFollow pubkey))
  | gossipFollow pubkey =>
    obtain ⟨-, hout⟩ := Option.ite_none_left_eq_some.mp hout
    obtain rfl := Option.some.inj hout
    exact inv_subscribes h hi rfl false ok none
  | unfollow pubkey =>
    cases ok <;> obtain rfl := Option.some.inj hout
    · exact inv_quietly h hi rfl none
    · exact inv_unfollowed h hi rfl rfl
  | gossipUnfollow pubkey =>
    obtain ⟨-, hout⟩ := Option.ite_none_left_eq_some.mp hout
    obtain rfl := Option.some.inj hout
    exact inv_unsubscribed h hi rfl none
  | block pubkey phase =>
    cases phase with
    | isFollowing =>
      cases ok <;> obtain rfl := Option.some.inj hout
      · exact inv_quietly h hi rfl none
      · exact inv_quietly h hi rfl _
    | unfollow =>
      cases ok <;> obtain rfl := Option.some.inj hout
      · exact inv_quietly h hi rfl none
      · exact inv_unfollowed h hi rfl rfl
    | gossipUnfollow =>
      obtain ⟨-, hout⟩ := Option.ite_none_left_eq_some.mp hout
      obtain rfl := Option.some.inj hout
      exact inv_unsubscribed h hi rfl (some (.block pubkey .block))
    | block =>
      cases ok <;> obtain rfl := Option.some.inj hout
      · exact inv_quietly h hi rfl none
      · exact inv_blocked h hi rfl (hguard pubkey hi rfl)

end Command

theorem inv_step (h : s.Inv) {l : Label} (hguard : s.Guarded l) (hstep : step s l = some s') : s'.Inv := by
  have hkept : ∀ {p} {commands : List FeedCommand}, s.commands ⊆ commands →
      s.Wanted p ∨ s.Unsubscribing p → s.Wanted p ∨ ∃ c ∈ commands, c.unsubscribes = some p := by
    intro p commands hsub
    exact Or.imp_right fun ⟨c, hc, hp⟩ => ⟨c, hsub hc, hp⟩
  cases l with
  | follow pubkey | unfollow pubkey | block pubkey =>
    obtain rfl := Option.some.inj hstep
    exact inv_covers h fun _ _ => hkept (List.subset_append_left ..)
  | unblock pubkey =>
    obtain rfl := Option.some.inj hstep
    refine inv_covers h fun t _ => Or.imp_left fun hwanted => ⟨hwanted.1, ?_⟩
    by_cases hp : t.pubkey = pubkey
    · exact hp ▸ Function.update_self ..
    · exact (Function.update_of_ne hp ..).trans hwanted.2
  | command i ok =>
    obtain ⟨c, hi, hstep⟩ := Option.bind_eq_some_iff.mp hstep
    obtain ⟨out, hout, hstep⟩ := Option.bind_eq_some_iff.mp hstep
    obtain rfl := Option.some.inj hstep
    exact inv_command h hi hguard hout
  | subscribed ok =>
    obtain ⟨g, hg, rfl⟩ := Option.map_eq_some_iff.mp hstep
    cases ok with
    | true => exact inv_spawn h hg (hguard rfl g hg)
    | false => exact ⟨h.covered, h.mapped, h.ids, h.below, fun g hg => absurd hg (Option.not_mem_none g)⟩
  | streamEnds id =>
    obtain ⟨u, -, rfl⟩ := Option.map_eq_some_iff.mp hstep
    exact inv_fewer h fun t => mem_setPhase (by decide)
  | requestReconnect id =>
    obtain ⟨u, -, rfl⟩ := Option.map_eq_some_iff.mp hstep
    have hfewer : (s.setPhase id .requested).Inv := inv_fewer h fun t => mem_setPhase (by decide)
    exact inv_covers hfewer fun _ _ hc => hc
  | finish id =>
    obtain ⟨u, -, rfl⟩ := Option.map_eq_some_iff.mp hstep
    exact inv_fewer h fun t ht _ => (List.mem_filter.mp ht).1
  | recv =>
    simp only [step] at hstep
    split at hstep
    · obtain ⟨-, hstep⟩ := Option.ite_none_left_eq_some.mp hstep
      obtain rfl := Option.some.inj hstep
      exact inv_covers h fun _ _ => hkept (List.Subset.refl _)
    · exact absurd hstep.symm (Option.some_ne_none s')
  | reconnect ok =>
    simp only [step] at hstep
    split at hstep
    · obtain rfl := Option.some.inj hstep
      exact inv_covers h fun _ _ => hkept (List.Subset.refl _)
    · obtain ⟨-, hstep⟩ := Option.ite_none_left_eq_some.mp hstep
      obtain rfl := Option.some.inj hstep
      exact inv_covers (inv_followUser h true ok) fun _ _ hc => hc
    · exact absurd hstep.symm (Option.some_ne_none s')
  | refreshAll order =>
    obtain ⟨-, hstep⟩ := Option.ite_none_right_eq_some.mp hstep
    obtain rfl := Option.some.inj hstep
    exact inv_covers h fun _ _ => hkept (List.Subset.refl _)

/-- Where the steps of a run are guarded, only feeds that are wanted are listened to whenever all has
settled, and each once. -/
theorem final_of_guarded (followed blocked : String → Bool) (follows : List String) (run : List Label)
    (hguard : Along step Guarded (starting followed blocked follows) run) {s : GossipService}
    (hrun : exec step (starting followed blocked follows) run = some s) (hsettled : s.Settled) : s.Final :=
  (exec_invariant (fun _ _ _ h hok hstep => inv_step h hok hstep) (inv_starting followed blocked follows)
    hguard hrun).final hsettled

section Examples

instance decidableUnsubscribing (s : GossipService) (pubkey : String) : Decidable (s.Unsubscribing pubkey) :=
  inferInstanceAs (Decidable (∃ c ∈ s.commands, c.unsubscribes = some pubkey))

theorem guarded_command_iff {i : Nat} {ok : Bool} : (∀ c ∈ s.commands[i]?, ∀ pubkey ∈ c.blocks, ok = true →
    ∀ t ∈ s.tasks, t.phase = .listening → t.pubkey = pubkey → s.Unsubscribing pubkey) ↔ s.Guarded (.command i ok) := by
  constructor
  · intro h pubkey hc hok t ht hp
    exact h _ hc pubkey rfl hok t ht.1 ht.2 hp
  · intro h c hc pubkey hblocks hok t ht hphase hp
    cases c with
    | block p phase =>
      cases phase with
      | block =>
        obtain rfl := Option.some.inj hblocks
        exact h _ hc hok t ⟨ht, hphase⟩ hp
      | _ => exact nomatch hblocks
    | _ => exact nomatch hblocks

instance decidableGuarded (s : GossipService) : ∀ l, Decidable (s.Guarded l)
  | .subscribed ok => inferInstanceAs (Decidable (ok = true →
      ∀ h ∈ s.lock, (s.followed h.pubkey = true ∧ s.blocked h.pubkey = false) ∨ s.Unsubscribing h.pubkey))
  | .command _ _ => decidable_of_iff _ guarded_command_iff
  | .follow _ | .unfollow _ | .block _ | .unblock _ | .streamEnds _ | .requestReconnect _ | .finish _ | .recv |
    .reconnect _ | .refreshAll _ => isTrue trivial

def following : List Label := [.follow "p", .command 0 true, .command 0 true, .subscribed true]

/-- A second user is followed, both streams end, the feeds are refreshed, and the first user is blocked. -/
def refreshed : List Label := following ++ [.follow "q", .command 0 true, .command 0 true, .subscribed true,
  .streamEnds 0, .streamEnds 1, .requestReconnect 0, .finish 0, .requestReconnect 1, .finish 1, .refreshAll ["p", "q"],
  .recv, .reconnect true, .reconnect true, .subscribed true, .recv, .reconnect true, .reconnect true, .subscribed true,
  .recv, .reconnect true, .reconnect true, .recv, .reconnect true, .reconnect true,
  .block "p", .command 0 true, .command 0 true, .command 0 true, .command 0 true]

theorem final_of_guarded_once : ∃ s, exec step (starting (fun _ => false) (fun _ => false) []) refreshed = some s ∧
    s.Settled ∧ s.Final ∧ s.tasks = [⟨3, "q", .listening⟩] := by
  have hguard : Along step Guarded (starting (fun _ => false) (fun _ => false) []) refreshed := by decide +kernel
  have hsettled : ∀ {s : GossipService}, exec step (starting (fun _ => false) (fun _ => false) []) refreshed = some s →
      s.Settled := by
    rintro s ⟨⟩
    exact ⟨rfl, rfl, fun g hg => absurd hg (Option.not_mem_none g)⟩
  exact ⟨_, rfl, hsettled rfl, final_of_guarded _ _ _ refreshed hguard rfl (hsettled rfl), rfl⟩

/-- The user is unfollowed while the loop pauses, and then subscribed to again. -/
theorem not_final_reconnected : ∃ s, exec step (starting (fun _ => false) (fun _ => false) [])
    (following ++ [.streamEnds 0, .requestReconnect 0, .finish 0, .recv, .unfollow "p", .command 0 true,
      .command 0 true, .reconnect true, .reconnect true, .subscribed true]) = some s ∧ s.Settled ∧ ¬ s.Final := by
  refine ⟨_, rfl, ⟨rfl, rfl, fun g hg => absurd hg (Option.not_mem_none g)⟩, fun hfinal => ?_⟩
  have hwanted := (hfinal.wanted ⟨1, "p", .listening⟩ ⟨by decide, rfl⟩).1
  exact absurd hwanted (by decide)

end Examples

end GossipService
end Proscenium.Client
