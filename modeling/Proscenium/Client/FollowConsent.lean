import Proscenium.Client.AcceptDefs
import Proscenium.Client.CacheAuthenticity
import Proscenium.Client.SocialIsolation

/-! Requests to follow and what the user says to them, statement by statement. Any
number of requests are handled at once, a handler can break off at any
statement, and in between the user approves and denies. A request is written in
two statements, which look at the status first; an approval that comes between
them is the only one that is ever lost. The two statements of an approval, of
which the second makes the follower, are one step: no handler reads the
followers. -/

namespace Proscenium.Client.Consent

open Proscenium.Types

/-- The next statement of a handler, after the checks of its request. -/
inductive Handling where
  | getVisibility (req : FollowRequest)
  | isApprovedFollower (req : FollowRequest)
  | selectStatus (req : FollowRequest)
  | insert (req : FollowRequest) (now : UInt64)
  deriving DecidableEq, Repr

def Handling.request : Handling → FollowRequest
  | getVisibility req => req
  | isApprovedFollower req => req
  | selectStatus req => req
  | insert req _ => req

inductive Answer where
  | approved
  | denied
  | pending
  deriving DecidableEq, Repr

structure Desk where
  visibility : Visibility
  followRequests : List FollowRequestRow
  graph : SocialGraph
  handlers : ℕ → Option Handling

/-- A step of the program; a request may come in that fails the checks; `handle` is the next statement of
a handler, which may fail, and so may the second statement of an approval, `upsert_follower`. -/
inductive Label where
  | arrive (handler : ℕ) (req : FollowRequest)
  | handle (handler : ℕ) (fails : Bool) (now : UInt64)
  | drop (handler : ℕ)
  | approveFollowRequest (pubkey : String) (upserts : Bool) (now : UInt64)
  | denyFollowRequest (pubkey : String)
  | saveVisibility (visibility : Visibility)
  deriving DecidableEq, Repr

def isPending (pubkey : String) (r : FollowRequestRow) : Bool := r.pubkey = pubkey ∧ r.status = "pending"

def isApproved (pubkey : String) (r : FollowRequestRow) : Bool := r.pubkey = pubkey ∧ r.status = "approved"

namespace Desk

def isApprovedFollower (pubkey : String) (d : Desk) : Bool := d.followRequests.any (isApproved pubkey)

/-- `UPDATE … WHERE pubkey=?1 AND status='pending'`, and whether a row was affected. -/
def settleFollowRequest (status pubkey : String) (d : Desk) : Bool × Desk :=
  (d.followRequests.any (isPending pubkey), { d with
    followRequests := Table.updateWhere (isPending pubkey) (fun r => { r with status }) d.followRequests })

def approveFollowRequest (pubkey : String) (d : Desk) : Bool × Desk := d.settleFollowRequest "approved" pubkey

def denyFollowRequest (pubkey : String) (d : Desk) : Bool × Desk := d.settleFollowRequest "denied" pubkey

/-- The first statement of `insert_follow_request`. -/
def existing (pubkey : String) (d : Desk) : Option String :=
  (Table.find FollowRequestRow.pubkey pubkey d.followRequests).map FollowRequestRow.status

def pendingRow (req : FollowRequest) (now : UInt64) : FollowRequestRow :=
  ⟨req.requester, req.timestamp.toInt64, "pending", now.toInt64, (now + followRequestTtlMs).toInt64⟩

def insert (req : FollowRequest) (now : UInt64) (d : Desk) : Desk :=
  { d with
    followRequests := Table.upsert FollowRequestRow.pubkey req.requester (pendingRow req now)
      (fun _ => pendingRow req now) d.followRequests }

def setHandler (h : ℕ) (handling : Option Handling) (d : Desk) : Desk :=
  { d with handlers := Function.update d.handlers h handling }

/-- A statement of a handler: the answer that it sends, if it ends with one, and what it goes on with. A
visibility that cannot be read is taken for public, and an approval that cannot be read for none. -/
def handle (fails : Bool) (now : UInt64) (d : Desk) : Handling → Option Answer × Option Handling × Desk
  | .getVisibility req =>
    match if fails then .isPublic else d.visibility with
    | .listed => (none, some (.isApprovedFollower req), d)
    | .isPublic => (some .approved, none, d)
    | .isPrivate => (some .denied, none, d)
  | .isApprovedFollower req =>
    if !fails && d.isApprovedFollower req.requester then (some .approved, none, d)
    else (none, some (.selectStatus req), d)
  | .selectStatus req =>
    if fails then (none, none, d)
    else if d.existing req.requester = some "approved" then (some .approved, none, d)
    else (none, some (.insert req now), d)
  | .insert req now =>
    if fails then (none, none, d)
    else (some .pending, none, d.insert req now)

variable (S : SignatureCrates) (me : String)

def approve (pubkey : String) (upserts : Bool) (now : UInt64) (d : Desk) : Desk :=
  let out := d.approveFollowRequest pubkey
  if out.1 && upserts then { out.2 with graph := out.2.graph.upsertFollower me pubkey now } else out.2

def step (d : Desk) : Label → Option Desk
  | .arrive h req =>
    if d.handlers h = none then
      some (if checkFollowRequest S req = .ok () then d.setHandler h (some (.getVisibility req)) else d)
    else none
  | .handle h fails now =>
    (d.handlers h).map fun handling =>
      let (_, next, d) := d.handle fails now handling
      d.setHandler h next
  | .drop h => some (d.setHandler h none)
  | .approveFollowRequest pubkey upserts now => some (d.approve me pubkey upserts now)
  | .denyFollowRequest pubkey => some (d.denyFollowRequest pubkey).2
  | .saveVisibility visibility => some { d with visibility }

end Desk

/-- The verified requests that came in, and the keys for which the user's approval succeeded. -/
structure History where
  requests : List FollowRequest
  approvals : List String

def History.record (S : SignatureCrates) (d : Desk) (hist : History) : Label → History
  | .arrive _ req =>
    if checkFollowRequest S req = .ok () then { hist with requests := req :: hist.requests } else hist
  | .approveFollowRequest pubkey _ _ =>
    if (d.approveFollowRequest pubkey).1 then { hist with approvals := pubkey :: hist.approvals } else hist
  | _ => hist

structure Watched where
  desk : Desk
  history : History

namespace Watched

def step (S : SignatureCrates) (me : String) (w : Watched) (l : Label) : Option Watched :=
  (w.desk.step S me l).map fun d => ⟨d, w.history.record S w.desk l⟩

structure Fresh (w : Watched) : Prop where
  rows : w.desk.followRequests = []
  handlers : ∀ h, w.desk.handlers h = none
  requests : w.history.requests = []
  approvals : w.history.approvals = []

/-- The approved followers are the ones that the user has approved. -/
def ApprovalsHold (w : Watched) : Prop :=
  ∀ pubkey, w.desk.isApprovedFollower pubkey = true ↔ pubkey ∈ w.history.approvals

end Watched

/-- No request is written over an approval: there was none when its handler looked, and there is none now. -/
def WritesOverNone (d : Desk) : Label → Prop
  | .handle h false _ =>
    match d.handlers h with
    | some (.insert req _) => d.isApprovedFollower req.requester = false
    | _ => True
  | _ => True

section Statements

variable {d : Desk} {pubkey other : String} {me : String} {now : UInt64}

theorem any_map_of_eq {α : Type} {p : α → Bool} {f : α → α} (h : ∀ a, p (f a) = p a) (l : List α) :
    (l.map f).any p = l.any p := by
  rw [List.any_map]
  exact congrArg (List.any l) (funext h)

theorem isApprovedFollower_approve : (d.approveFollowRequest pubkey).2.isApprovedFollower other =
    (d.isApprovedFollower other || (decide (other = pubkey) && (d.approveFollowRequest pubkey).1)) := by
  show (Table.updateWhere (isPending pubkey) (fun r => { r with status := "approved" })
    d.followRequests).any (isApproved other) = (d.followRequests.any (isApproved other) ||
      (decide (other = pubkey) && d.followRequests.any (isPending pubkey)))
  unfold Table.updateWhere
  induction d.followRequests with
  | nil => simp
  | cons r rows ih =>
    rw [List.map_cons, List.any_cons, ih, List.any_cons, List.any_cons]
    by_cases hp : isPending pubkey r = true
    · have hkey : r.pubkey = pubkey := (of_decide_eq_true hp).1
      have hstatus : r.status = "pending" := (of_decide_eq_true hp).2
      by_cases ho : other = pubkey
      · simp [hp, isApproved, hkey, ho]
      · simp [hp, isApproved, hkey, hstatus, ho, Ne.symm ho]
    · have hp : isPending pubkey r = false := by simpa using hp
      simp [hp, Bool.or_assoc]

theorem isApprovedFollower_deny : (d.denyFollowRequest pubkey).2.isApprovedFollower other =
    d.isApprovedFollower other := by
  refine any_map_of_eq (fun r => ?_) d.followRequests
  by_cases hp : isPending pubkey r = true
  · have hstatus : r.status = "pending" := (of_decide_eq_true hp).2
    simp [hp, isApproved, hstatus]
  · have hp : isPending pubkey r = false := by simpa using hp
    simp [hp]

theorem isApprovedFollower_insert (req : FollowRequest) : (d.insert req now).isApprovedFollower other =
    (decide (other ≠ req.requester) && d.isApprovedFollower other) := by
  unfold Desk.insert Desk.isApprovedFollower
  by_cases ho : other = req.requester
  · have hnone : (Table.upsert FollowRequestRow.pubkey req.requester (Desk.pendingRow req now)
        (fun _ => Desk.pendingRow req now) d.followRequests).any (isApproved other) = false := by
      refine List.any_eq_false.mpr fun r hr => ?_
      rcases Table.mem_upsert_iff.mp hr with ⟨-, hne⟩ | ⟨q, -, -, rfl⟩ | ⟨-, rfl⟩
      · simp [isApproved, ho, hne]
      · simp [isApproved, Desk.pendingRow]
      · simp [isApproved, Desk.pendingRow]
    rw [hnone, decide_eq_false (not_not_intro ho), Bool.false_and]
  · rw [Table.any_upsert_of_ne]
    · simp [ho]
    · simp [isApproved, Desk.pendingRow]
    · intro r hr
      simp [isApproved, Desk.pendingRow, hr, Ne.symm ho]

end Statements

section Steps

variable {S : SignatureCrates} {me : String} {d d' : Desk} {hist : History} {w t : Watched} {l : Label}

theorem isApprovedFollower_approve_cmd {pubkey other : String} {upserts : Bool} {now : UInt64} :
    (d.approve me pubkey upserts now).isApprovedFollower other =
      (d.approveFollowRequest pubkey).2.isApprovedFollower other := by
  simp only [Desk.approve]
  split <;> rfl

theorem desk_handle {fails : Bool} {now : UInt64} {handling : Handling}
    (h : ∀ req made, fails = false → handling ≠ .insert req made) :
    (d.handle fails now handling).2.2 = d := by
  cases handling with
  | getVisibility req =>
    simp only [Desk.handle]
    split <;> rfl
  | isApprovedFollower req =>
    simp only [Desk.handle]
    split <;> rfl
  | selectStatus req =>
    simp only [Desk.handle]
    split
    · rfl
    · split <;> rfl
  | insert req made =>
    cases fails with
    | true => rfl
    | false => exact absurd rfl (h req made rfl)

/-- A step keeps to what the user has approved exactly if it writes no request over an approval. -/
theorem approvalsHold_step_iff (h : w.ApprovalsHold) :
    (∀ t, w.step S me l = some t → t.ApprovalsHold) ↔ WritesOverNone w.desk l := by
  have hsame : ∀ d : Desk, (∀ other, d.isApprovedFollower other = w.desk.isApprovedFollower other) →
      (⟨d, w.history⟩ : Watched).ApprovalsHold := fun d hd pubkey => hd pubkey ▸ h pubkey
  cases l with
  | arrive hd req =>
    refine iff_of_true (fun t ht => ?_) trivial
    obtain ⟨d, hd, rfl⟩ := Option.map_eq_some_iff.mp ht
    obtain ⟨-, hsome⟩ := Option.ite_none_right_eq_some.mp hd
    obtain rfl := Option.some.inj hsome
    by_cases hcheck : checkFollowRequest S req = .ok ()
    · simp only [History.record, hcheck, if_true]
      exact h
    · simp only [History.record, hcheck, if_false]
      exact h
  | drop hd =>
    refine iff_of_true (fun t ht => ?_) trivial
    obtain ⟨d, hd, rfl⟩ := Option.map_eq_some_iff.mp ht
    obtain rfl := Option.some.inj hd
    exact h
  | saveVisibility visibility =>
    refine iff_of_true (fun t ht => ?_) trivial
    obtain ⟨d, hd, rfl⟩ := Option.map_eq_some_iff.mp ht
    obtain rfl := Option.some.inj hd
    exact h
  | denyFollowRequest pubkey =>
    refine iff_of_true (fun t ht => ?_) trivial
    obtain ⟨d, hd, rfl⟩ := Option.map_eq_some_iff.mp ht
    obtain rfl := Option.some.inj hd
    exact hsame _ fun other => isApprovedFollower_deny
  | approveFollowRequest pubkey upserts now =>
    refine iff_of_true (fun t ht => ?_) trivial
    obtain ⟨d, hd, rfl⟩ := Option.map_eq_some_iff.mp ht
    obtain rfl := Option.some.inj hd
    intro other
    show (w.desk.approve me pubkey upserts now).isApprovedFollower other = true ↔
      other ∈ (w.history.record S w.desk (.approveFollowRequest pubkey upserts now)).approvals
    rw [isApprovedFollower_approve_cmd, isApprovedFollower_approve]
    have hold := h other
    cases hdone : (w.desk.approveFollowRequest pubkey).1 with
    | false => simpa [History.record, hdone] using hold
    | true =>
      simp only [History.record, hdone, Bool.and_true, Bool.or_eq_true, decide_eq_true_eq, if_true,
        List.mem_cons]
      rw [hold, or_comm]
  | handle hd fails now =>
    cases hhandler : w.desk.handlers hd with
    | none =>
      have hnone : w.step S me (.handle hd fails now) = none := by
        simp [Watched.step, Desk.step, hhandler]
      refine iff_of_true (fun t ht => nomatch hnone.symm.trans ht) ?_
      cases fails with
      | true => trivial
      | false => simp [WritesOverNone, hhandler]
    | some handling =>
      have hstep : w.step S me (.handle hd fails now) = some
          ⟨(w.desk.handle fails now handling).2.2.setHandler hd (w.desk.handle fails now handling).2.1,
            w.history⟩ := by
        simp [Watched.step, Desk.step, hhandler, History.record]
      rw [hstep]
      simp only [Option.some.injEq, forall_eq']
      -- of a handler's statements only the write of the request changes the rows
      by_cases hinsert : ∃ req made, fails = false ∧ handling = .insert req made
      · obtain ⟨req, made, rfl, rfl⟩ := hinsert
        have hcond : WritesOverNone w.desk (.handle hd false now) ↔
            w.desk.isApprovedFollower req.requester = false := by simp [WritesOverNone, hhandler]
        rw [hcond]
        constructor
        · intro hall
          -- after the write the requester is pending, whatever was there
          have hself : (w.desk.insert req made).isApprovedFollower req.requester = true ↔
              req.requester ∈ w.history.approvals := hall req.requester
          rw [isApprovedFollower_insert] at hself
          have hnot : req.requester ∉ w.history.approvals := by simpa using hself
          simpa using mt (h req.requester).mp hnot
        · intro hfree
          refine hsame _ fun other => ?_
          show (w.desk.insert req made).isApprovedFollower other = _
          rw [isApprovedFollower_insert]
          by_cases ho : other = req.requester
          · simp [ho, hfree]
          · simp [ho]
      · have hno : ∀ req made, fails = false → handling ≠ .insert req made :=
          fun req made hf hh => hinsert ⟨req, made, hf, hh⟩
        rw [desk_handle hno]
        refine iff_of_true (hsame _ fun other => rfl) ?_
        cases fails with
        | true => trivial
        | false =>
          cases handling with
          | insert req made => exact absurd rfl (hno req made rfl)
          | getVisibility => simp [WritesOverNone, hhandler]
          | isApprovedFollower => simp [WritesOverNone, hhandler]
          | selectStatus => simp [WritesOverNone, hhandler]

end Steps

/-- An approval is final, and nobody is approved without one, exactly as long as no request is written
over an approval that came after its handler had looked. -/
theorem approvals_hold_iff (S : SignatureCrates) (me : String) (w : Watched) (hfresh : w.Fresh)
    (run : List Label) :
    (∀ bs t, bs <+: run → Machine.exec (Watched.step S me) w bs = some t → t.ApprovalsHold) ↔
      Machine.Along (Watched.step S me) (fun w => WritesOverNone w.desk) w run := by
  have hstart : w.ApprovalsHold := by
    intro pubkey
    rw [hfresh.approvals]
    simp [Desk.isApprovedFollower, hfresh.rows]
  refine Machine.forall_prefix_iff_along (I := Watched.ApprovalsHold) ?_ ?_ hstart hstart
  · intro w l hw
    exact approvalsHold_step_iff hw
  · intro w l t _ _ ht _
    exact ht

section Safety

variable {S : SignatureCrates} {me : String} {d : Desk} {w t : Watched} {l : Label} {g₀ : SocialGraph}

/-- What every run keeps, whatever the order of the statements. -/
structure Consented (S : SignatureCrates) (me : String) (g₀ : SocialGraph) (w : Watched) : Prop where
  verified : ∀ req ∈ w.history.requests, checkFollowRequest S req = .ok ()
  handlers : ∀ h handling, w.desk.handlers h = some handling → handling.request ∈ w.history.requests
  rows : ∀ r ∈ w.desk.followRequests, ∃ req ∈ w.history.requests, req.requester = r.pubkey
  approvals : ∀ pubkey ∈ w.history.approvals, ∃ req ∈ w.history.requests, req.requester = pubkey
  approved : ∀ pubkey, w.desk.isApprovedFollower pubkey = true → pubkey ∈ w.history.approvals
  followers : ∀ pubkey, w.desk.graph.isFollower me pubkey = true →
    g₀.isFollower me pubkey = true ∨ pubkey ∈ w.history.approvals

theorem isFollower_upsertFollower {g : SocialGraph} {pubkey other : String} {now : UInt64}
    (h : (g.upsertFollower me pubkey now).isFollower me other = true) :
    g.isFollower me other = true ∨ other = pubkey := by
  by_cases ho : other = pubkey
  · exact Or.inr ho
  · refine Or.inl ?_
    have hrow : (g.upsertFollower me pubkey now).row other me = g.row other me :=
      Table.find_upsert_of_ne (fun _ => by rfl) (by rfl) (fun hk => ho (Prod.mk.inj hk).1) g.rows
    rw [SocialGraph.isFollower_eq, hrow] at h
    rwa [SocialGraph.isFollower_eq]

theorem isApprovedFollower_of_existing {pubkey : String} (h : d.existing pubkey = some "approved") :
    d.isApprovedFollower pubkey = true := by
  obtain ⟨r, hr, hstatus⟩ := Option.map_eq_some_iff.mp h
  have hkey : r.pubkey = pubkey := Table.key_of_find hr
  exact List.any_eq_true.mpr ⟨r, List.mem_of_find?_eq_some hr, decide_eq_true ⟨hkey, hstatus⟩⟩

theorem mem_rows_settle {status pubkey : String} {r : FollowRequestRow}
    (h : r ∈ (d.settleFollowRequest status pubkey).2.followRequests) :
    ∃ q ∈ d.followRequests, q.pubkey = r.pubkey := by
  obtain ⟨q, hq, rfl⟩ := List.mem_map.mp h
  refine ⟨q, hq, ?_⟩
  split <;> rfl

theorem mem_rows_insert {req : FollowRequest} {now : UInt64} {r : FollowRequestRow}
    (h : r ∈ (d.insert req now).followRequests) : r ∈ d.followRequests ∨ r.pubkey = req.requester := by
  rcases Table.mem_upsert_iff.mp h with ⟨hr, -⟩ | ⟨q, -, -, rfl⟩ | ⟨-, rfl⟩
  · exact Or.inl hr
  · exact Or.inr rfl
  · exact Or.inr rfl

theorem request_handle {fails : Bool} {now : UInt64} {handling next : Handling}
    (h : (d.handle fails now handling).2.1 = some next) : next.request = handling.request := by
  cases handling with
  | getVisibility req =>
    simp only [Desk.handle] at h
    split at h <;> cases h
    rfl
  | isApprovedFollower req =>
    simp only [Desk.handle] at h
    split at h <;> cases h
    rfl
  | selectStatus req =>
    simp only [Desk.handle] at h
    split at h
    · cases h
    · split at h <;> cases h
      rfl
  | insert req made =>
    simp only [Desk.handle] at h
    split at h <;> cases h

theorem graph_approve {pubkey : String} (upserts : Bool) (now : UInt64) :
    (d.approve me pubkey upserts now).graph =
      if (d.approveFollowRequest pubkey).1 && upserts then d.graph.upsertFollower me pubkey now
      else d.graph := by
  simp only [Desk.approve]
  split <;> rfl

theorem Consented.approve (h : Consented S me g₀ w) (pubkey : String) (upserts : Bool) (now : UInt64) :
    Consented S me g₀ ⟨w.desk.approve me pubkey upserts now,
      w.history.record S w.desk (.approveFollowRequest pubkey upserts now)⟩ := by
  have hrows : ∀ r ∈ (w.desk.approve me pubkey upserts now).followRequests,
      ∃ req ∈ w.history.requests, req.requester = r.pubkey := by
    intro r hr
    have hold : ∃ q ∈ w.desk.followRequests, q.pubkey = r.pubkey := by
      simp only [Desk.approve] at hr
      split at hr
      · exact mem_rows_settle hr
      · exact mem_rows_settle hr
    obtain ⟨q, hq, hkey⟩ := hold
    exact hkey ▸ h.rows q hq
  have hhandlers : (w.desk.approve me pubkey upserts now).handlers = w.desk.handlers := by
    simp only [Desk.approve]
    split <;> rfl
  cases hdone : (w.desk.approveFollowRequest pubkey).1 with
  | false =>
    have hhistory : w.history.record S w.desk (.approveFollowRequest pubkey upserts now) = w.history := by
      simp [History.record, hdone]
    rw [hhistory]
    refine ⟨h.verified, hhandlers ▸ h.handlers, hrows, h.approvals, fun other ho => ?_, fun other ho => ?_⟩
    · have ho : (w.desk.approve me pubkey upserts now).isApprovedFollower other = true := ho
      rw [isApprovedFollower_approve_cmd, isApprovedFollower_approve, hdone] at ho
      exact h.approved other (by simpa using ho)
    · have ho : (w.desk.approve me pubkey upserts now).graph.isFollower me other = true := ho
      rw [graph_approve, hdone] at ho
      exact h.followers other ho
  | true =>
    have hhistory : w.history.record S w.desk (.approveFollowRequest pubkey upserts now) =
        { w.history with approvals := pubkey :: w.history.approvals } := by
      simp [History.record, hdone]
    rw [hhistory]
    refine ⟨h.verified, hhandlers ▸ h.handlers, hrows, ?_, fun other ho => ?_, fun other ho => ?_⟩
    · intro other ho
      rcases List.mem_cons.mp ho with rfl | ho
      · -- the approval affected a row, and somebody asked for this row
        obtain ⟨r, hr, hpending⟩ := List.any_eq_true.mp hdone
        have hkey : r.pubkey = other := (of_decide_eq_true hpending).1
        exact hkey ▸ h.rows r hr
      · exact h.approvals other ho
    · have ho : (w.desk.approve me pubkey upserts now).isApprovedFollower other = true := ho
      rw [isApprovedFollower_approve_cmd, isApprovedFollower_approve, hdone] at ho
      simp only [Bool.and_true, Bool.or_eq_true, decide_eq_true_eq] at ho
      rcases ho with ho | rfl
      · exact List.mem_cons_of_mem _ (h.approved other ho)
      · exact List.mem_cons_self
    · have ho : (w.desk.approve me pubkey upserts now).graph.isFollower me other = true := ho
      have hgraph : w.desk.graph.isFollower me other = true ∨ other = pubkey := by
        rw [graph_approve] at ho
        split at ho
        · exact isFollower_upsertFollower ho
        · exact Or.inl ho
      rcases hgraph with hgraph | rfl
      · exact (h.followers other hgraph).imp_right (List.mem_cons_of_mem _)
      · exact Or.inr List.mem_cons_self

theorem Consented.deny (h : Consented S me g₀ w) (pubkey : String) :
    Consented S me g₀ ⟨(w.desk.denyFollowRequest pubkey).2, w.history⟩ := by
  refine ⟨h.verified, h.handlers, fun r hr => ?_, h.approvals, fun other ho => ?_, h.followers⟩
  · obtain ⟨q, hq, hkey⟩ := mem_rows_settle hr
    exact hkey ▸ h.rows q hq
  · have ho : (w.desk.denyFollowRequest pubkey).2.isApprovedFollower other = true := ho
    rw [isApprovedFollower_deny] at ho
    exact h.approved other ho

theorem Consented.handle (h : Consented S me g₀ w) {i : ℕ} {handling : Handling}
    (hi : w.desk.handlers i = some handling) (fails : Bool) (now : UInt64) :
    Consented S me g₀ ⟨(w.desk.handle fails now handling).2.2.setHandler i
      (w.desk.handle fails now handling).2.1, w.history⟩ := by
  have hrequest : handling.request ∈ w.history.requests := h.handlers i handling hi
  have hhandlers : ∀ d : Desk, d.handlers = w.desk.handlers → ∀ j next,
      (d.setHandler i (w.desk.handle fails now handling).2.1).handlers j = some next →
      next.request ∈ w.history.requests := by
    intro d hd j next hj
    by_cases hji : j = i
    · subst hji
      have hnext : (w.desk.handle fails now handling).2.1 = some next := by
        simpa [Desk.setHandler] using hj
      exact request_handle hnext ▸ hrequest
    · have hold : w.desk.handlers j = some next := by simpa [Desk.setHandler, hji, hd] using hj
      exact h.handlers j next hold
  by_cases hinsert : ∃ req made, fails = false ∧ handling = .insert req made
  · obtain ⟨req, made, rfl, rfl⟩ := hinsert
    refine ⟨h.verified, hhandlers _ rfl, fun r hr => ?_, h.approvals, fun other ho => ?_, h.followers⟩
    · rcases mem_rows_insert hr with hr | hr
      · exact h.rows r hr
      · exact ⟨req, hrequest, hr.symm⟩
    · have ho : (w.desk.insert req made).isApprovedFollower other = true := ho
      rw [isApprovedFollower_insert, Bool.and_eq_true] at ho
      exact h.approved other ho.2
  · have hno : ∀ req made, fails = false → handling ≠ .insert req made :=
      fun req made hf hh => hinsert ⟨req, made, hf, hh⟩
    rw [desk_handle hno]
    exact ⟨h.verified, hhandlers _ rfl, h.rows, h.approvals, h.approved, h.followers⟩

theorem Consented.step (h : Consented S me g₀ w) (ht : w.step S me l = some t) : Consented S me g₀ t := by
  obtain ⟨d, hd, rfl⟩ := Option.map_eq_some_iff.mp ht
  cases l with
  | arrive i req =>
    obtain ⟨hidle, hsome⟩ := Option.ite_none_right_eq_some.mp hd
    obtain rfl := Option.some.inj hsome
    by_cases hcheck : checkFollowRequest S req = .ok ()
    swap
    · -- a request that fails the checks leaves everything as it is
      simp only [History.record, hcheck, if_false]
      exact h
    simp only [History.record, hcheck, if_true]
    refine ⟨?_, fun j next hj => ?_, fun r hr => ?_, fun pubkey hp => ?_, h.approved, h.followers⟩
    · intro q hq
      rcases List.mem_cons.mp hq with rfl | hq
      · exact hcheck
      · exact h.verified q hq
    · by_cases hji : j = i
      · subst hji
        have hnext : Handling.getVisibility req = next := by simpa [Desk.setHandler] using hj
        exact hnext ▸ List.mem_cons_self
      · have hold : w.desk.handlers j = some next := by simpa [Desk.setHandler, hji] using hj
        exact List.mem_cons_of_mem req (h.handlers j next hold)
    · obtain ⟨q, hq, hkey⟩ := h.rows r hr
      exact ⟨q, List.mem_cons_of_mem req hq, hkey⟩
    · obtain ⟨q, hq, hkey⟩ := h.approvals pubkey hp
      exact ⟨q, List.mem_cons_of_mem req hq, hkey⟩
  | handle i fails now =>
    obtain ⟨handling, hi, hsome⟩ := Option.map_eq_some_iff.mp hd
    exact hsome ▸ h.handle hi fails now
  | drop i =>
    obtain rfl := Option.some.inj hd
    refine ⟨h.verified, fun j next hj => ?_, h.rows, h.approvals, h.approved, h.followers⟩
    by_cases hji : j = i
    · subst hji
      simp [Desk.setHandler] at hj
    · exact h.handlers j next (by simpa [Desk.setHandler, hji] using hj)
  | approveFollowRequest pubkey upserts now =>
    obtain rfl := Option.some.inj hd
    exact h.approve pubkey upserts now
  | denyFollowRequest pubkey =>
    obtain rfl := Option.some.inj hd
    exact h.deny pubkey
  | saveVisibility visibility =>
    obtain rfl := Option.some.inj hd
    exact ⟨h.verified, h.handlers, h.rows, h.approvals, h.approved, h.followers⟩

/-- Who is told that the request is approved: whom the user approved, and everybody while the profile
is public, or while it cannot be read. -/
theorem Consented.answer (h : Consented S me g₀ w) {handling : Handling} {fails : Bool} {now : UInt64}
    (hanswer : (w.desk.handle fails now handling).1 = some .approved) :
    handling.request.requester ∈ w.history.approvals ∨
      ∃ req, handling = .getVisibility req ∧ (fails = true ∨ w.desk.visibility = .isPublic) := by
  cases handling with
  | getVisibility req =>
    refine Or.inr ⟨req, rfl, ?_⟩
    cases fails with
    -- a profile that cannot be read counts as public
    | true => exact Or.inl rfl
    | false =>
      cases hvisibility : w.desk.visibility with
      | isPublic => exact Or.inr rfl
      | listed => simp [Desk.handle, hvisibility] at hanswer
      | isPrivate => simp [Desk.handle, hvisibility] at hanswer
  | isApprovedFollower req =>
    simp only [Desk.handle] at hanswer
    split at hanswer
    next hyes =>
      rw [Bool.and_eq_true] at hyes
      exact Or.inl (h.approved _ hyes.2)
    next => cases hanswer
  | selectStatus req =>
    simp only [Desk.handle] at hanswer
    split at hanswer
    · cases hanswer
    · split at hanswer
      next hexisting => exact Or.inl (h.approved _ (isApprovedFollower_of_existing hexisting))
      next => cases hanswer
  | insert req made =>
    simp only [Desk.handle] at hanswer
    split at hanswer <;> cases hanswer

end Safety

/-- Whatever comes between the statements, nobody is approved, told so while the profile is listed and can
be read, or made a follower without the user's approval; only who asked with a request that was signed for
it is in the table, and only who asked so is approved. -/
theorem follow_consent (S : SignatureCrates) (me : String) (w : Watched) (hfresh : w.Fresh)
    (run : List Label) (t : Watched) (hrun : Machine.exec (Watched.step S me) w run = some t) :
    (∀ pubkey, t.desk.isApprovedFollower pubkey = true → pubkey ∈ t.history.approvals) ∧
      (∀ pubkey, t.desk.graph.isFollower me pubkey = true →
        w.desk.graph.isFollower me pubkey = true ∨ pubkey ∈ t.history.approvals) ∧
      (∀ i handling fails now, t.desk.handlers i = some handling →
        (t.desk.handle fails now handling).1 = some .approved →
          handling.request.requester ∈ t.history.approvals ∨
            ∃ req, handling = .getVisibility req ∧ (fails = true ∨ t.desk.visibility = .isPublic)) ∧
      (∀ r ∈ t.desk.followRequests,
        ∃ req ∈ t.history.requests, req.requester = r.pubkey ∧ checkFollowRequest S req = .ok ()) ∧
      ∀ pubkey ∈ t.history.approvals,
        ∃ req ∈ t.history.requests, req.requester = pubkey ∧ checkFollowRequest S req = .ok () := by
  have hstart : Consented S me w.desk.graph w := by
    constructor
    case verified => simp [hfresh.requests]
    case handlers =>
      intro i handling hi
      rw [hfresh.handlers i] at hi
      exact nomatch hi
    case rows => simp [hfresh.rows]
    case approvals => simp [hfresh.approvals]
    case approved => simp [Desk.isApprovedFollower, hfresh.rows]
    case followers => exact fun _ h => Or.inl h
  have h : Consented S me w.desk.graph t :=
    Machine.exec_invariant (fun _ _ _ hs _ ht => hs.step ht) hstart
      (Machine.Along.of_forall fun _ _ => trivial) hrun
  refine ⟨h.approved, h.followers, fun i handling fails now _ hanswer => h.answer hanswer, fun r hr => ?_,
    fun pubkey hp => ?_⟩
  · obtain ⟨req, hreq, hkey⟩ := h.rows r hr
    exact ⟨req, hreq, hkey, h.verified req hreq⟩
  · obtain ⟨req, hreq, hkey⟩ := h.approvals pubkey hp
    exact ⟨req, hreq, hkey, h.verified req hreq⟩

section Examples

instance decidableWritesOverNone (d : Desk) : ∀ l, Decidable (WritesOverNone d l)
  | .handle h false _ =>
    match hh : d.handlers h with
    | some (.insert req _) =>
      decidable_of_iff (d.isApprovedFollower req.requester = false) (by simp [WritesOverNone, hh])
    | some (.getVisibility _) => isTrue (by simp [WritesOverNone, hh])
    | some (.isApprovedFollower _) => isTrue (by simp [WritesOverNone, hh])
    | some (.selectStatus _) => isTrue (by simp [WritesOverNone, hh])
    | none => isTrue (by simp [WritesOverNone, hh])
  | .handle _ true _ => isTrue trivial
  | .arrive _ _ => isTrue trivial
  | .drop _ => isTrue trivial
  | .approveFollowRequest _ _ _ => isTrue trivial
  | .denyFollowRequest _ => isTrue trivial
  | .saveVisibility _ => isTrue trivial

def nobodyAsked : Watched := ⟨⟨.listed, [], .empty, fun _ => none⟩, ⟨[], []⟩⟩

theorem fresh_nobodyAsked : nobodyAsked.Fresh := ⟨rfl, fun _ => rfl, rfl, rfl⟩

def bobAsksTwice : List Label :=
  [.arrive 0 (followRequestOf "bob" "b0" 0), .arrive 1 (followRequestOf "bob" "b0" 0),
    .handle 0 false 1, .handle 1 false 1, .handle 0 false 2, .handle 0 false 2, .handle 0 false 3,
    .approveFollowRequest "bob" true 4, .handle 1 false 5]

theorem exec_bobAsksTwice :
    ∃ t, Machine.exec (Watched.step checksumCrates "alice") nobodyAsked bobAsksTwice = some t := by
  have hsome : (Machine.exec (Watched.step checksumCrates "alice") nobodyAsked bobAsksTwice).isSome = true := by
    decide +kernel
  exact Option.isSome_iff_exists.mp hsome

theorem approvals_hold_bob : ∃ t, Machine.exec (Watched.step checksumCrates "alice") nobodyAsked bobAsksTwice = some t ∧
    t.ApprovalsHold := by
  obtain ⟨t, ht⟩ := exec_bobAsksTwice
  have hhold := (approvals_hold_iff checksumCrates "alice" nobodyAsked fresh_nobodyAsked bobAsksTwice).mpr
    (by decide +kernel)
  exact ⟨t, ht, hhold bobAsksTwice t (List.prefix_refl _) ht⟩

/-- The second handler has looked before the approval, and writes after it. -/
example : ¬ Machine.Along (Watched.step checksumCrates "alice") (fun w => WritesOverNone w.desk) nobodyAsked
    [.arrive 0 (followRequestOf "bob" "b0" 0), .handle 0 false 1, .handle 0 false 1, .handle 0 false 1,
      .handle 0 false 1, .arrive 1 (followRequestOf "bob" "b0" 0), .handle 1 false 2, .handle 1 false 2,
      .handle 1 false 2, .approveFollowRequest "bob" true 3, .handle 1 false 4] := by
  decide +kernel

theorem follow_consent_bob :
    let t := (Machine.exec (Watched.step checksumCrates "alice") nobodyAsked bobAsksTwice).getD nobodyAsked
    (∀ pubkey, t.desk.isApprovedFollower pubkey = true → pubkey ∈ t.history.approvals) ∧
      (∀ pubkey, t.desk.graph.isFollower "alice" pubkey = true →
        nobodyAsked.desk.graph.isFollower "alice" pubkey = true ∨ pubkey ∈ t.history.approvals) ∧
      (∀ i handling fails now, t.desk.handlers i = some handling →
        (t.desk.handle fails now handling).1 = some .approved →
          handling.request.requester ∈ t.history.approvals ∨
            ∃ req, handling = .getVisibility req ∧ (fails = true ∨ t.desk.visibility = .isPublic)) ∧
      (∀ r ∈ t.desk.followRequests, ∃ req ∈ t.history.requests,
        req.requester = r.pubkey ∧ checkFollowRequest checksumCrates req = .ok ()) ∧
      ∀ pubkey ∈ t.history.approvals, ∃ req ∈ t.history.requests,
        req.requester = pubkey ∧ checkFollowRequest checksumCrates req = .ok () := by
  obtain ⟨t, ht⟩ := exec_bobAsksTwice
  exact follow_consent checksumCrates "alice" nobodyAsked fresh_nobodyAsked bobAsksTwice _ (by rw [ht]; rfl)

end Examples

end Proscenium.Client.Consent
