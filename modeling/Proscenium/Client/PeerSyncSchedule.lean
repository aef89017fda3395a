import Proscenium.Client.PushAudience
import Proscenium.Lib.Machine
import Proscenium.Lib.Rounds

/-! The schedule of the syncs with those the user follows. All of them are synced at
the start and when that is asked for, and in between one at every tick, down a
list of the follows that is read again at its end. The user, other devices and
the answers of peers change the social graph meanwhile. -/

namespace Proscenium.Client.PeerSync

inductive SyncCommand where
  | syncPeer (pubkey : String)
  | syncAll
  deriving DecidableEq, Repr

inductive SyncLabel where
  | startup
  | onDemand
  | drip
  deriving DecidableEq, Repr

/-- `active` is which of its two intervals the loop ticks at. -/
structure DripLoop where
  followsIter : List String
  followIdx : ℕ
  active : Bool
  deriving DecidableEq, Repr

/-- `tick` has what `get_follows` was or would have been answered at a tick. -/
inductive Event where
  | sync (label : SyncLabel) (pubkey : String)
  | tick (follows : List String)
  deriving DecidableEq, Repr

structure App where
  graph : SocialGraph
  loop : DripLoop
  log : List Event

/-- `reads` is whether the database answers, and `quiet` whether there was no command for three of the
active intervals. -/
inductive Label where
  | tick (reads quiet : Bool)
  | command (cmd : SyncCommand) (reads : Bool)
  | graph (g : SocialGraph)

def DripLoop.start : DripLoop := ⟨[], 0, false⟩

/-- What is not yet synced of the current list. -/
def DripLoop.left (loop : DripLoop) : List String := loop.followsIter.drop loop.followIdx

namespace App

variable (me : String)

def getFollows (reads : Bool) (w : App) : List String :=
  if reads then (w.graph.getFollows me).map SocialGraphEntry.pubkey else []

def startupSync (reads : Bool) (w : App) : App :=
  { w with log := w.log ++ (w.getFollows me reads).map (.sync .startup) }

def syncOne (label : SyncLabel) (pubkey : String) (w : App) : App :=
  { w with log := w.log ++ [.sync label pubkey] }

/-- The follows list is refreshed when exhausted. -/
def refresh (reads : Bool) (w : App) : DripLoop :=
  if w.loop.followsIter.length ≤ w.loop.followIdx then
    { w.loop with
      followsIter := w.getFollows me reads
      followIdx := 0 }
  else w.loop

def tick (reads quiet : Bool) (w : App) : App :=
  let loop := w.refresh me reads
  let w := { w with log := w.log ++ [Event.tick (w.getFollows me reads)] }
  match loop.followsIter[loop.followIdx]? with
  | none => { w with loop }
  | some pubkey =>
    { w.syncOne .drip pubkey with
      loop := ⟨loop.followsIter, loop.followIdx + 1, loop.active && !quiet⟩ }

def command (cmd : SyncCommand) (reads : Bool) (w : App) : App :=
  let w := match cmd with
    | .syncPeer pubkey => w.syncOne .onDemand pubkey
    | .syncAll => w.startupSync me reads
  { w with loop := { w.loop with active := true } }

def step (w : App) : Label → Option App
  | .tick reads quiet => some (w.tick me reads quiet)
  | .command cmd reads => some (w.command me cmd reads)
  | .graph g => some { w with graph := g }

/-- The program is up, and has synced with all at its start. -/
def start (g : SocialGraph) (reads : Bool) : App := App.startupSync me reads ⟨g, .start, []⟩

end App

def drips (log : List Event) : List String :=
  log.filterMap fun
    | .sync .drip pubkey => some pubkey
    | _ => none

def ticks (log : List Event) : List (List String) :=
  log.filterMap fun
    | .tick follows => some follows
    | .sync .. => none

def since (w t : App) : List Event := t.log.drop w.log.length

def lists (w t : App) : List (List String) := Rounds.reads w.loop.left (ticks (since w t))

/-- At every tick the user follows this one, and not more than so many. -/
def StaysFollowed (me pubkey : String) (n : ℕ) (w : App) : Label → Prop
  | .tick _ _ => w.graph.isFollowing me pubkey = true ∧ (w.graph.followColumns me).length ≤ n
  | _ => True

instance (me pubkey : String) (n : ℕ) (w : App) (l : Label) : Decidable (StaysFollowed me pubkey n w l) := by
  unfold StaysFollowed
  split <;> infer_instance

section Steps

variable {me pubkey : String} {w t : App} {l : Label} {n : ℕ}

theorem length_getFollows {g : SocialGraph} :
    ((g.getFollows me).map SocialGraphEntry.pubkey).length = (g.followColumns me).length := by
  unfold SocialGraph.getFollows
  rw [List.length_map, List.length_map]
  exact ((Timeline.stable SocialGraph.followTime).perm _).length_eq

theorem drips_startup (follows : List String) : drips (follows.map (.sync .startup)) = [] := by
  unfold drips
  rw [List.filterMap_map]
  exact List.filterMap_eq_nil_iff.mpr fun _ _ => rfl

theorem ticks_startup (follows : List String) : ticks (follows.map (.sync .startup)) = [] := by
  unfold ticks
  rw [List.filterMap_map]
  exact List.filterMap_eq_nil_iff.mpr fun _ _ => rfl

theorem left_refresh {reads : Bool} :
    (w.refresh me reads).left = Rounds.refill w.loop.left (w.getFollows me reads) := by
  unfold App.refresh DripLoop.left
  split
  next hend =>
    rw [List.drop_eq_nil_of_le hend, List.drop_zero]
    rfl
  next hmore =>
    have hlt : w.loop.followIdx < w.loop.followsIter.length := Nat.lt_of_not_le hmore
    rw [List.drop_eq_getElem_cons hlt]
    rfl

theorem tick_of_none {reads quiet : Bool}
    (h : (w.refresh me reads).followsIter[(w.refresh me reads).followIdx]? = none) :
    w.tick me reads quiet = ⟨w.graph, w.refresh me reads, w.log ++ [.tick (w.getFollows me reads)]⟩ := by
  simp only [App.tick, h]

theorem tick_of_some {reads quiet : Bool}
    (h : (w.refresh me reads).followsIter[(w.refresh me reads).followIdx]? = some pubkey) :
    w.tick me reads quiet = ⟨w.graph,
      ⟨(w.refresh me reads).followsIter, (w.refresh me reads).followIdx + 1,
        (w.refresh me reads).active && !quiet⟩,
      w.log ++ [.tick (w.getFollows me reads)] ++ [.sync .drip pubkey]⟩ := by
  simp only [App.tick, h, App.syncOne]

/-- A step turns the wheel of the rounds by the ticks it logs. -/
theorem serve_step (h : w.step me l = some t) : ∃ new, t.log = w.log ++ new ∧
    Rounds.serve w.loop.left (ticks new) = (drips new, t.loop.left) := by
  cases l with
  | graph g =>
    obtain rfl := Option.some.inj h
    exact ⟨[], (List.append_nil _).symm, rfl⟩
  | command cmd reads =>
    obtain rfl := Option.some.inj h
    cases cmd with
    | syncPeer pubkey => exact ⟨_, rfl, rfl⟩
    | syncAll =>
      refine ⟨_, rfl, ?_⟩
      rw [drips_startup, ticks_startup]
      rfl
  | tick reads quiet =>
    obtain rfl := Option.some.inj h
    have hleft : (w.refresh me reads).left = Rounds.refill w.loop.left (w.getFollows me reads) := left_refresh
    cases hnext : (w.refresh me reads).followsIter[(w.refresh me reads).followIdx]? with
    | none =>
      have hnil : (w.refresh me reads).left = [] := List.drop_eq_nil_of_le (List.getElem?_eq_none_iff.mp hnext)
      rw [tick_of_none hnext]
      refine ⟨[.tick (w.getFollows me reads)], rfl, ?_⟩
      have hserve : Rounds.serve w.loop.left [w.getFollows me reads] = ([], []) := by
        rw [Rounds.serve, ← hleft, hnil]
        rfl
      exact hserve.trans (congrArg (Prod.mk []) hnil.symm)
    | some pubkey =>
      obtain ⟨hlt, hget⟩ := List.getElem?_eq_some_iff.mp hnext
      have hcons : (w.refresh me reads).left =
          pubkey :: (w.refresh me reads).followsIter.drop ((w.refresh me reads).followIdx + 1) := by
        unfold DripLoop.left
        rw [List.drop_eq_getElem_cons hlt, hget]
      rw [tick_of_some hnext]
      refine ⟨[.tick (w.getFollows me reads), .sync .drip pubkey], List.append_assoc _ _ _, ?_⟩
      show Rounds.serve w.loop.left [w.getFollows me reads] = _
      rw [Rounds.serve, ← hleft, hcons]
      rfl

theorem drips_append (xs ys : List Event) : drips (xs ++ ys) = drips xs ++ drips ys := List.filterMap_append

theorem ticks_append (xs ys : List Event) : ticks (xs ++ ys) = ticks xs ++ ticks ys := List.filterMap_append

/-- What is logged at a tick is the list of those that are followed then, unless the query fails. -/
theorem mem_ticks_step (h : w.step me l = some t) (hfollowed : StaysFollowed me pubkey n w l) {new : List Event}
    (hnew : t.log = w.log ++ new) {follows : List String} (hmem : follows ∈ ticks new) :
    follows = [] ∨ pubkey ∈ follows ∧ follows.length ≤ n := by
  have hlists : ∀ events, t.log = w.log ++ events → follows ∈ ticks events := by
    intro events hevents
    rwa [List.append_cancel_left (hevents.symm.trans hnew)]
  cases l with
  | graph g =>
    obtain rfl := Option.some.inj h
    exact nomatch hlists [] (List.append_nil _).symm
  | command cmd reads =>
    obtain rfl := Option.some.inj h
    cases cmd with
    | syncPeer other => exact nomatch hlists [.sync .onDemand other] rfl
    | syncAll =>
      have hstarted := hlists _ rfl
      rw [ticks_startup] at hstarted
      exact nomatch hstarted
  | tick reads quiet =>
    obtain rfl := Option.some.inj h
    have hasked : follows = w.getFollows me reads := by
      cases hnext : (w.refresh me reads).followsIter[(w.refresh me reads).followIdx]? with
      | none =>
        have htick := hlists [.tick (w.getFollows me reads)] (by rw [tick_of_none hnext])
        exact List.mem_singleton.mp htick
      | some other =>
        have htick := hlists [.tick (w.getFollows me reads), .sync .drip other] (by
          rw [tick_of_some hnext, List.append_assoc]
          rfl)
        exact List.mem_singleton.mp htick
    subst hasked
    unfold App.getFollows
    cases reads with
    | false => exact Or.inl rfl
    | true =>
      refine Or.inr ⟨SocialGraph.mem_getFollows.mpr ?_, ?_⟩
      · exact SocialGraph.isFollowing_iff.mp hfollowed.1
      · exact length_getFollows.trans_le hfollowed.2

end Steps

section Runs

variable {me pubkey : String} {w t : App} {n : ℕ} {run : List Label}

theorem serve_exec (h : Machine.exec (App.step me) w run = some t) : ∃ new, t.log = w.log ++ new ∧
    Rounds.serve w.loop.left (ticks new) = (drips new, t.loop.left) := by
  induction run generalizing w with
  | nil =>
    obtain rfl := Option.some.inj h
    exact ⟨[], (List.append_nil _).symm, rfl⟩
  | cons l run ih =>
    obtain ⟨u, hu, hrest⟩ := Machine.exec_cons_eq_some.mp h
    obtain ⟨first, hfirst, hserve⟩ := serve_step hu
    obtain ⟨later, hlater, hserves⟩ := ih hrest
    refine ⟨first ++ later, ?_, ?_⟩
    · rw [hlater, hfirst, List.append_assoc]
    · rw [ticks_append, Rounds.serve_append, hserve, drips_append, hserves]

theorem since_eq {new : List Event} (h : t.log = w.log ++ new) : since w t = new := by
  unfold since
  rw [h, List.drop_left]

theorem serve_since (h : Machine.exec (App.step me) w run = some t) :
    Rounds.serve w.loop.left (ticks (since w t)) = (drips (since w t), t.loop.left) := by
  obtain ⟨new, hnew, hserve⟩ := serve_exec h
  rw [since_eq hnew]
  exact hserve

theorem mem_ticks_exec (h : Machine.exec (App.step me) w run = some t)
    (hfollowed : Machine.Along (App.step me) (StaysFollowed me pubkey n) w run) :
    ∀ follows ∈ ticks (since w t), follows = [] ∨ pubkey ∈ follows ∧ follows.length ≤ n := by
  induction run generalizing w with
  | nil =>
    obtain rfl := Option.some.inj h
    have hnone : since w w = [] := List.drop_length
    rw [hnone]
    exact fun follows hmem => nomatch hmem
  | cons l run ih =>
    obtain ⟨u, hu, hrest⟩ := Machine.exec_cons_eq_some.mp h
    obtain ⟨first, hfirst, -⟩ := serve_step hu
    obtain ⟨later, hlater, -⟩ := serve_exec hrest
    have hall := ih hrest (hfollowed.2 u hu)
    rw [since_eq hlater] at hall
    have hnew : t.log = w.log ++ (first ++ later) := by rw [hlater, hfirst, List.append_assoc]
    rw [since_eq hnew, ticks_append]
    intro follows hmem
    rcases List.mem_append.mp hmem with hmem | hmem
    · exact mem_ticks_step hu hfollowed.1 hfirst hmem
    · exact hall follows hmem

end Runs

/-- The loop syncs every list it reads in full and in order, whatever commands come in between; and who is
followed at every tick, among at most `n`, is synced by then, once there were as many ticks as there were
left of the list at first and `n` more, not counting those at which the list came back empty. -/
theorem drip_schedule (me : String) (w : App) (run : List Label) (t : App)
    (hrun : Machine.exec (App.step me) w run = some t) :
    drips (since w t) ++ t.loop.left = w.loop.left ++ (lists w t).flatten ∧
    ∀ pubkey n, 0 < n → Machine.Along (App.step me) (StaysFollowed me pubkey n) w run →
      w.loop.left.length + n + (lists w t).count [] ≤ (ticks (since w t)).length →
      pubkey ∈ drips (since w t) := by
  have hserve := serve_since hrun
  constructor
  · have hrounds : (Rounds.serve w.loop.left (ticks (since w t))).1 ++
          (Rounds.serve w.loop.left (ticks (since w t))).2 =
        w.loop.left ++ (Rounds.reads w.loop.left (ticks (since w t))).flatten := Rounds.serve_append_left
    rwa [hserve] at hrounds
  · intro pubkey n hn hfollowed hlong
    have hticks := mem_ticks_exec hrun hfollowed
    have hserved := Rounds.mem_serve (fun l hl => hticks l (Rounds.mem_of_mem_reads hl)) hlong hn
    rwa [hserve] at hserved

section Examples

def twoFollows : App := .start "me"
  ((SocialGraph.empty.follow "me" ⟨"alice", 1, 0, 0, false⟩ 1).follow "me" ⟨"bob", 2, 0, 0, false⟩ 2) true

/-- The first tick finds no list, and in the middle of a round one of the two is asked for. -/
def roundRun : List Label :=
  [.tick false true, .tick true true, .command (.syncPeer "bob") true, .tick true true, .tick true false]

theorem drip_schedule_round : ∃ t, Machine.exec (App.step "me") twoFollows roundRun = some t ∧
    "alice" ∈ drips (since twoFollows t) := by
  have hlong : (Machine.exec (App.step "me") twoFollows roundRun).map (fun t =>
      decide (twoFollows.loop.left.length + 2 + (lists twoFollows t).count [] ≤
        (ticks (since twoFollows t)).length)) = some true := by decide +kernel
  obtain ⟨t, ht, hlong⟩ := Option.map_eq_some_iff.mp hlong
  refine ⟨t, ht, (drip_schedule "me" twoFollows roundRun t ht).2 "alice" 2 (by decide) ?_ ?_⟩
  · decide +kernel
  · exact of_decide_eq_true hlong

end Examples
end Proscenium.Client.PeerSync
