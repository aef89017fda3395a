import Proscenium.Lib.Machine
import Proscenium.Link.LinkDefs

/-! Who gets a bundle. A session is owned in one place at a time: by the command
that starts it, the slot, the request that took it, or what was sent for it; so it
is answered once, and by the request that found it in the slot. -/

namespace Proscenium.Link

open Proscenium.Types Machine
open Client.Author (SecretKey deriveTransportKey)

variable (C : LinkCrates)

/-- The session in the slot, as the events tell it: the one started last, if it has been neither
cancelled nor taken since. -/
def holder (events : List LinkEvent) : Option PendingLink :=
  events.foldl (fun held e => match e with
    | .started session => some session
    | .cancelled | .taken _ _ => none
    | .sent _ _ _ => held) none

/-- The release is the bundle under a transport of the session's own PSK and key. -/
def Encrypts (session : PendingLink) (release : Release) (bundle : LinkBundleData) : Prop :=
  ∃ ephemeral noiseInit transport,
    C.respond session.x25519Private session.psk ephemeral noiseInit = .ok (transport, release.noiseResponse) ∧
    C.encrypt transport (C.bundleToVec bundle) = .ok release.encryptedBundle

/-- Of what is sent after these events: it is the first of its session, which was in the slot and had
not expired when it was taken, and the master key is in it only if the session was started so. -/
structure TakenRelease (before : List LinkEvent) (number : Nat) (release : Release) (bundle : LinkBundleData) :
    Prop where
  once : ∀ r b, LinkEvent.sent number r b ∉ before
  taken : ∃ early now late session, before = early ++ .taken number now :: late ∧
    holder early = some session ∧ .started session ∈ early ∧ session.number = number ∧
    now ≤ session.expiresAt ∧ Encrypts C session release bundle ∧
    (bundle.masterSecretKey.isSome = true → session.transferMasterKey = true)

def TakenReleases (events : List LinkEvent) : Prop :=
  ∀ before number release bundle after, events = before ++ .sent number release bundle :: after →
    TakenRelease C before number release bundle

variable {C}

theorem holder_append (events : List LinkEvent) (e : LinkEvent) :
    holder (events ++ [e]) = match e with
      | .started session => some session
      | .cancelled | .taken _ _ => none
      | .sent _ _ _ => holder events := by
  unfold holder
  rw [List.foldl_concat]

theorem started_of_holder {events : List LinkEvent} {session : PendingLink} (h : holder events = some session) :
    .started session ∈ events := by
  induction events using List.reverseRecOn with
  | nil => exact absurd h.symm (Option.some_ne_none session)
  | append_singleton events e ih =>
    rw [holder_append] at h
    cases e with
    | started s =>
      obtain rfl := Option.some.inj h
      exact List.mem_append_right _ List.mem_cons_self
    | cancelled => exact absurd h.symm (Option.some_ne_none session)
    | taken => exact absurd h.symm (Option.some_ne_none session)
    | sent => exact List.mem_append_left _ (ih h)

theorem takenReleases_append {events : List LinkEvent} {e : LinkEvent} (h : TakenReleases C events)
    (he : ∀ number release bundle, e = .sent number release bundle → TakenRelease C events number release bundle) :
    TakenReleases C (events ++ [e]) := by
  intro before number release bundle after heq
  rcases List.eq_nil_or_concat after with rfl | ⟨after, last, rfl⟩
  · obtain ⟨rfl, hlast⟩ := List.append_inj' heq rfl
    exact he _ _ _ (List.singleton_inj.mp hlast)
  · rw [List.concat_eq_append, ← List.cons_append, ← List.append_assoc] at heq
    obtain ⟨rfl, -⟩ := List.append_inj' heq rfl
    exact h before number release bundle after rfl

/-- The sessions that a task still owns. -/
def LinkTask.owned : LinkTask C → List Nat
  | .startSession session => [session.number]
  | .cancelSession => []
  | .request (.lock _) => []
  | .request (.nextDeviceIndex session _ _) => [session.number]
  | .request (.readIdentity session _ _ _) => [session.number]
  | .request (.exportBundle session _ _ _ _) => [session.number]
  | .request (.send _ _ _ _) | .request (.register _ _) | .request (.announce _ _ _) => []

def LinkEvent.sentNumber : LinkEvent → Option Nat
  | .sent number _ _ => some number
  | _ => none

def Took (events : List LinkEvent) (session : PendingLink) (transport : C.Transport) (noiseResponse : Bytes) :
    Prop :=
  ∃ early now late, events = early ++ .taken session.number now :: late ∧ holder early = some session ∧
    now ≤ session.expiresAt ∧ ∃ ephemeral noiseInit,
      C.respond session.x25519Private session.psk ephemeral noiseInit = .ok (transport, noiseResponse)

def LinkTask.Held (events : List LinkEvent) : LinkTask C → Prop
  | .request (.nextDeviceIndex session transport noiseResponse) => Took events session transport noiseResponse
  | .request (.readIdentity session transport noiseResponse _) => Took events session transport noiseResponse
  | .request (.exportBundle session transport noiseResponse _ _) => Took events session transport noiseResponse
  | _ => True

theorem Took.append {events : List LinkEvent} {session : PendingLink} {transport : C.Transport}
    {noiseResponse : Bytes} (h : Took events session transport noiseResponse) (e : LinkEvent) :
    Took (events ++ [e]) session transport noiseResponse := by
  obtain ⟨early, now, late, rfl, hlater⟩ := h
  exact ⟨early, now, late ++ [e], by simp, hlater⟩

theorem held_append {events : List LinkEvent} {t : LinkTask C} (h : t.Held events) (e : LinkEvent) :
    t.Held (events ++ [e]) := by
  unfold LinkTask.Held at h ⊢
  split at h
  · exact h.append e
  · exact h.append e
  · exact h.append e
  · trivial

namespace LinkHost

def owned (h : LinkHost C) : Multiset Nat :=
  (h.tasks.flatMap LinkTask.owned : Multiset Nat) + (h.slot.toList.map PendingLink.number : Multiset Nat) +
    (h.events.filterMap LinkEvent.sentNumber : Multiset Nat)

structure Inv (h : LinkHost C) : Prop where
  slot : h.slot = holder h.events
  nodup : h.owned.Nodup
  below : ∀ n ∈ h.owned, n < h.count
  held : ∀ t ∈ h.tasks, t.Held h.events
  safe : TakenReleases C h.events

/-- What a task makes of the device in a step, and how it goes on. -/
structure Steps (h : LinkHost C) (t : LinkTask C) (h' : LinkHost C) (next : Option (LinkTask C)) : Prop where
  tasks : h'.tasks = h.tasks
  count : h'.count = h.count
  slot : h'.slot = holder h'.events
  owned : (next.toList.flatMap LinkTask.owned : Multiset Nat) + (h'.slot.toList.map PendingLink.number : Multiset Nat) +
      (h'.events.filterMap LinkEvent.sentNumber : Multiset Nat) ≤
    (t.owned : Multiset Nat) + (h.slot.toList.map PendingLink.number : Multiset Nat) +
      (h.events.filterMap LinkEvent.sentNumber : Multiset Nat)
  kept : ∀ u : LinkTask C, u.Held h.events → u.Held h'.events
  held : ∀ u ∈ next, u.Held h'.events
  safe : TakenReleases C h'.events

variable {h : LinkHost C} {t : LinkTask C}

theorem filterMap_append_silent {e : LinkEvent} (he : e.sentNumber = none) (events : List LinkEvent) :
    (events ++ [e]).filterMap LinkEvent.sentNumber = events.filterMap LinkEvent.sentNumber := by
  rw [List.filterMap_append, List.filterMap_cons_none he, List.filterMap_nil, List.append_nil]

theorem steps_silent (hinv : h.Inv) {h' : LinkHost C} {next : Option (LinkTask C)} (htasks : h'.tasks = h.tasks)
    (hcount : h'.count = h.count) (hslot : h'.slot = h.slot) (hevents : h'.events = h.events)
    (howned : ∀ u ∈ next, u.owned = t.owned) (hheld : ∀ u ∈ next, u.Held h.events) : h.Steps t h' next where
  tasks := htasks
  count := hcount
  slot := by rw [hslot, hevents, hinv.slot]
  owned := by
    rw [hslot, hevents]
    gcongr
    cases next with
    | none => exact Multiset.zero_le _
    | some u => simp [howned u rfl]
  kept u hu := by
    rw [hevents]
    exact hu
  held u hu := by
    rw [hevents]
    exact hheld u hu
  safe := by
    rw [hevents]
    exact hinv.safe

theorem steps_next (hinv : h.Inv) {h' : LinkHost C} {u : LinkTask C} (htasks : h'.tasks = h.tasks)
    (hcount : h'.count = h.count) (hslot : h'.slot = h.slot) (hevents : h'.events = h.events)
    (howned : u.owned = t.owned) (hheld : u.Held h.events) : h.Steps t h' (some u) := by
  refine steps_silent hinv htasks hcount hslot hevents ?_ ?_
  · rintro _ ⟨⟩
    exact howned
  · rintro _ ⟨⟩
    exact hheld

theorem steps_event (hinv : h.Inv) {e : LinkEvent} (he : e.sentNumber = none) {slot : Option PendingLink}
    {next : Option (LinkTask C)} (hslot : slot = holder (h.events ++ [e]))
    (howned : (next.toList.flatMap LinkTask.owned : Multiset Nat) +
        (slot.toList.map PendingLink.number : Multiset Nat) ≤
      (t.owned : Multiset Nat) + (h.slot.toList.map PendingLink.number : Multiset Nat))
    (hheld : ∀ u ∈ next, u.Held (h.events ++ [e])) : h.Steps t { h.record e with slot := slot } next where
  tasks := rfl
  count := rfl
  slot := hslot
  owned := by
    show _ + ((h.events ++ [e]).filterMap LinkEvent.sentNumber : Multiset Nat) ≤ _
    rw [filterMap_append_silent he]
    gcongr
  kept u hu := held_append hu e
  held := hheld
  safe := by
    refine takenReleases_append hinv.safe ?_
    rintro number release bundle rfl
    exact absurd he (Option.some_ne_none number)

theorem steps_takeSession (hinv : h.Inv) (a : Await) (noiseInit : Bytes) :
    h.Steps (.request (.lock noiseInit)) (h.runRequest a (.lock noiseInit)).1
      ((h.runRequest a (.lock noiseInit)).2.map .request) := by
  cases hslot : h.slot with
  | none =>
    have hout : h.runRequest a (.lock noiseInit) = (h, none) := by
      simp only [runRequest, takeSession, hslot]
    rw [hout]
    refine steps_silent hinv rfl rfl rfl rfl ?_ ?_
    · intro u hu
      exact absurd hu.symm (Option.some_ne_none u)
    · intro u hu
      exact absurd hu.symm (Option.some_ne_none u)
  | some session =>
    have hdropped : h.Steps (.request (.lock noiseInit))
        { h.record (.taken session.number a.now) with slot := none } none := by
      refine steps_event hinv rfl ?_ ?_ ?_
      · rw [holder_append]
      · exact Multiset.zero_le _
      · intro u hu
        exact absurd hu.symm (Option.some_ne_none u)
    simp only [runRequest, takeSession, hslot]
    by_cases hexpired : session.expiresAt < a.now
    · simp only [if_pos hexpired]
      exact hdropped
    · simp only [if_neg hexpired]
      cases hrespond : C.respond session.x25519Private session.psk a.ephemeral noiseInit with
      | error => exact hdropped
      | ok answer =>
        obtain ⟨transport, noiseResponse⟩ := answer
        refine steps_event hinv rfl ?_ ?_ ?_
        · rw [holder_append]
        · rw [hslot]
          exact le_rfl
        · rintro u ⟨⟩
          exact ⟨h.events, a.now, [], rfl, hinv.slot.symm.trans hslot, UInt64.not_lt.mp hexpired, a.ephemeral,
            noiseInit, hrespond⟩

theorem masterSecretKey_bundle (reads : LinkQuery → Bool) (session : PendingLink) (index : UInt32) (me : Identity)
    (hsome : (h.bundle reads session index me).masterSecretKey.isSome = true) :
    session.transferMasterKey = true := by
  by_contra hnot
  have hnone : (h.bundle reads session index me).masterSecretKey = none := by
    simp only [bundle, LinkStore.exportLinkBundle, if_neg hnot, Option.map_none]
  rw [hnone] at hsome
  exact Bool.false_ne_true hsome

theorem steps_sent (hinv : h.Inv) (a : Await) {session : PendingLink} {transport : C.Transport}
    {noiseResponse : Bytes} {index : UInt32} {me : Identity}
    (ht : LinkTask.request (.exportBundle session transport noiseResponse index me) ∈ h.tasks)
    (htook : Took h.events session transport noiseResponse) {encryptedBundle : Bytes}
    (hencrypt : C.encrypt transport (C.bundleToVec (h.bundle a.reads session index me)) = .ok encryptedBundle) :
    h.Steps (.request (.exportBundle session transport noiseResponse index me))
      (h.record (.sent session.number ⟨noiseResponse, encryptedBundle⟩ (h.bundle a.reads session index me)))
      (some (.request (.send session ⟨noiseResponse, encryptedBundle⟩ index me))) where
  tasks := rfl
  count := rfl
  slot := by
    rw [record, holder_append]
    exact hinv.slot
  owned := by
    have hsent : ((h.record (.sent session.number ⟨noiseResponse, encryptedBundle⟩
        (h.bundle a.reads session index me))).events.filterMap LinkEvent.sentNumber : Multiset Nat) =
        (h.events.filterMap LinkEvent.sentNumber : Multiset Nat) + {session.number} := by
      rw [record, List.filterMap_append]
      rfl
    rw [hsent]
    have hslot : (h.record (.sent session.number ⟨noiseResponse, encryptedBundle⟩
        (h.bundle a.reads session index me))).slot = h.slot := rfl
    rw [hslot]
    refine le_of_eq ?_
    show (0 : Multiset Nat) + _ + (_ + {session.number}) = ({session.number} : Multiset Nat) + _ + _
    abel
  kept u hu := held_append hu _
  held := by
    rintro u ⟨⟩
    trivial
  safe := by
    refine takenReleases_append hinv.safe ?_
    rintro _ _ _ ⟨⟩
    refine ⟨?_, ?_⟩
    · intro r b hsent
      -- the request still owns the session
      have hdisjoint := (Multiset.nodup_add.mp hinv.nodup).2.2
      refine Multiset.disjoint_left.mp hdisjoint (Multiset.mem_add.mpr (.inl ?_))
        (List.mem_filterMap.mpr ⟨_, hsent, rfl⟩)
      exact List.mem_flatMap.mpr ⟨_, ht, List.mem_singleton.mpr rfl⟩
    · obtain ⟨early, now, late, hevents, hholder, hintime, ephemeral, noiseInit, hrespond⟩ := htook
      exact ⟨early, now, late, session, hevents, hholder, started_of_holder hholder, rfl, hintime,
        ⟨ephemeral, noiseInit, transport, hrespond, hencrypt⟩, masterSecretKey_bundle a.reads session index me⟩

theorem steps_task (hinv : h.Inv) (ht : t ∈ h.tasks) (a : Await) :
    h.Steps t (h.runTask a t).1 (h.runTask a t).2 := by
  have hheld := hinv.held t ht
  have hnone : ∀ {p : LinkTask C → Prop}, ∀ u ∈ (none : Option (LinkTask C)), p u :=
    fun u hu => absurd hu.symm (Option.some_ne_none u)
  cases t with
  | startSession session =>
    refine steps_event hinv rfl ?_ ?_ hnone
    · rw [holder_append]
    · exact le_add_of_nonneg_right (Multiset.zero_le _)
  | cancelSession =>
    refine steps_event hinv rfl ?_ ?_ hnone
    · rw [holder_append]
    · exact Multiset.zero_le _
  | request phase =>
    cases phase with
    | lock noiseInit => exact steps_takeSession hinv a noiseInit
    | nextDeviceIndex session transport noiseResponse =>
      simp only [runTask, runRequest]
      cases a.ok with
      | false => exact steps_silent hinv rfl rfl rfl rfl hnone hnone
      | true =>
        exact steps_next hinv rfl rfl rfl rfl rfl hheld
    | readIdentity session transport noiseResponse index =>
      exact steps_next hinv rfl rfl rfl rfl rfl hheld
    | exportBundle session transport noiseResponse index me =>
      simp only [runTask, runRequest]
      cases hencrypt : C.encrypt transport (C.bundleToVec (h.bundle a.reads session index me)) with
      | error => exact steps_silent hinv rfl rfl rfl rfl hnone hnone
      | ok encryptedBundle => exact steps_sent hinv a ht hheld hencrypt
    | send session release index me =>
      simp only [runTask, runRequest]
      cases a.ok with
      | false => exact steps_silent hinv rfl rfl rfl rfl hnone hnone
      | true =>
        exact steps_next hinv rfl rfl rfl rfl rfl trivial
    | register index me =>
      exact steps_next hinv rfl rfl rfl rfl rfl trivial
    | announce index me now => exact steps_silent hinv rfl rfl rfl rfl hnone hnone

theorem owned_advance {i : Nat} (hi : h.tasks[i]? = some t) (next : Option (LinkTask C)) :
    ((Tasks.advance h.tasks i next).flatMap LinkTask.owned : Multiset Nat) =
      (next.toList.flatMap LinkTask.owned : Multiset Nat) +
        ((h.tasks.eraseIdx i).flatMap LinkTask.owned : Multiset Nat) := by
  have hperm := (Tasks.advance_perm hi next).flatMap_right LinkTask.owned
  rw [Multiset.coe_eq_coe.mpr hperm, List.flatMap_append]
  rfl

theorem owned_tasks {i : Nat} (hi : h.tasks[i]? = some t) : (h.tasks.flatMap LinkTask.owned : Multiset Nat) =
    (t.owned : Multiset Nat) + ((h.tasks.eraseIdx i).flatMap LinkTask.owned : Multiset Nat) := by
  have hperm := (Tasks.perm_others hi).flatMap_right LinkTask.owned
  rw [← Multiset.coe_eq_coe.mpr hperm]
  rfl

theorem inv_task (hinv : h.Inv) {i : Nat} (hi : h.tasks[i]? = some t) (a : Await) :
    Inv { (h.runTask a t).1 with tasks := Tasks.advance h.tasks i (h.runTask a t).2 } := by
  have ht : t ∈ h.tasks := List.mem_of_getElem? hi
  have hsteps := steps_task hinv ht a
  have hle : owned { (h.runTask a t).1 with tasks := Tasks.advance h.tasks i (h.runTask a t).2 } ≤ h.owned := by
    have hothers := add_le_add_right hsteps.owned ((h.tasks.eraseIdx i).flatMap LinkTask.owned : Multiset Nat)
    unfold owned
    rw [owned_tasks hi]
    simp only [owned_advance hi]
    refine le_trans (le_of_eq ?_) (le_trans hothers (le_of_eq ?_))
    · abel
    · abel
  refine ⟨hsteps.slot, Multiset.nodup_of_le hle hinv.nodup, ?_, ?_, hsteps.safe⟩
  · intro n hn
    show n < (h.runTask a t).1.count
    rw [hsteps.count]
    exact hinv.below n (Multiset.mem_of_le hle hn)
  · intro u hu
    rcases (Tasks.mem_advance hi).mp hu with hu | hu
    · exact hsteps.held u hu
    · exact hsteps.kept u (hinv.held u (List.mem_of_mem_eraseIdx hu))

theorem inv_new (identity : Identity) (store : LinkStore) (linkedDevices : List DeviceEntry) :
    (new C identity store linkedDevices).Inv where
  slot := rfl
  nodup := Multiset.nodup_zero
  below n hn := absurd hn (Multiset.notMem_zero n)
  held _ ht := absurd ht List.not_mem_nil
  safe _ _ _ _ _ heq := absurd heq.symm (List.append_ne_nil_of_right_ne_nil _ (List.cons_ne_nil _ _))

theorem inv_join (hinv : h.Inv) {u : LinkTask C} (howned : u.owned = []) (hheld : u.Held h.events) :
    Inv { h with tasks := h.tasks ++ [u] } := by
  have hsame : owned { h with tasks := h.tasks ++ [u] } = h.owned := by
    unfold owned
    simp only [List.flatMap_append, List.flatMap_cons, howned, List.flatMap_nil, List.append_nil]
  refine ⟨hinv.slot, ?_, ?_, ?_, hinv.safe⟩
  · rw [hsame]
    exact hinv.nodup
  · rw [hsame]
    exact hinv.below
  · intro v hv
    rcases List.mem_append.mp hv with hv | hv
    · exact hinv.held v hv
    · rw [List.mem_singleton.mp hv]
      exact hheld

theorem inv_startLinkSession (hinv : h.Inv) (transferMasterKey : Bool) (psk : SecretKey) (now : UInt64) :
    Inv (h.startLinkSession transferMasterKey psk now) := by
  have hmore : owned (h.startLinkSession transferMasterKey psk now) = h.count ::ₘ h.owned := by
    unfold owned startLinkSession
    simp only [List.flatMap_append, List.flatMap_cons, List.flatMap_nil, List.append_nil, LinkTask.owned,
      ← Multiset.coe_add, Multiset.coe_singleton, ← Multiset.singleton_add]
    abel
  refine ⟨hinv.slot, ?_, ?_, ?_, hinv.safe⟩
  · rw [hmore]
    refine Multiset.nodup_cons.mpr ⟨fun hcount => ?_, hinv.nodup⟩
    exact absurd (hinv.below _ hcount) (lt_irrefl _)
  · intro n hn
    rw [hmore] at hn
    rcases Multiset.mem_cons.mp hn with rfl | hn
    · exact Nat.lt_succ_self _
    · exact Nat.lt_succ_of_lt (hinv.below n hn)
  · intro v hv
    rcases List.mem_append.mp hv with hv | hv
    · exact hinv.held v hv
    · rw [List.mem_singleton.mp hv]
      trivial

theorem inv_step {h' : LinkHost C} {l : Label} (hinv : h.Inv) (hstep : h.step l = some h') : h'.Inv := by
  cases l with
  | startLinkSession transferMasterKey psk now =>
    obtain rfl := Option.some.inj hstep
    exact inv_startLinkSession hinv transferMasterKey psk now
  | cancelLinkSession =>
    obtain rfl := Option.some.inj hstep
    exact inv_join hinv rfl trivial
  | linkRequest noiseInit =>
    obtain rfl := Option.some.inj hstep
    exact inv_join hinv rfl trivial
  | task i a =>
    obtain ⟨t, hi, rfl⟩ := Option.map_eq_some_iff.mp hstep
    exact inv_task hinv hi a
  | other identity store linkedDevices =>
    obtain rfl := Option.some.inj hstep
    exact ⟨hinv.slot, hinv.nodup, hinv.below, hinv.held, hinv.safe⟩

def Label.isStart : Label → Bool
  | .startLinkSession _ _ _ => true
  | _ => false

/-- The session is the one that a start of the run makes: it has its flag and its PSK, the static key of the
device at that moment, and the time it is good for. Its number is how many starts came before. -/
def StartedBy (h₀ : LinkHost C) (run : List Label) (session : PendingLink) : Prop :=
  ∃ before transferMasterKey psk now after h,
    run = before ++ .startLinkSession transferMasterKey psk now :: after ∧ exec step h₀ before = some h ∧
    session = ⟨before.countP Label.isStart, psk,
      C.x25519Secret (deriveTransportKey C.toKeyCrates h.identity.masterSecret 0), now + linkSessionTtlMs,
      transferMasterKey⟩

theorem StartedBy.append {h₀ : LinkHost C} {run : List Label} {session : PendingLink} (h : StartedBy h₀ run session)
    (l : Label) : StartedBy h₀ (run ++ [l]) session := by
  obtain ⟨before, transferMasterKey, psk, now, after, w, rfl, hw, hsession⟩ := h
  exact ⟨before, transferMasterKey, psk, now, after ++ [l], w, by simp, hw, hsession⟩

def Knows (h : LinkHost C) (session : PendingLink) : Prop :=
  .startSession session ∈ h.tasks ∨ .started session ∈ h.events

theorem started_runRequest {a : Await} {phase : LinkPhase C} {session : PendingLink}
    (hevent : .started session ∈ (h.runRequest a phase).1.events) : .started session ∈ h.events := by
  have hrecord : ∀ {e : LinkEvent}, e ≠ .started session → .started session ∈ (h.record e).events →
      .started session ∈ h.events := fun hne hmem =>
    (List.mem_append.mp hmem).resolve_right fun hnew => hne (List.mem_singleton.mp hnew).symm
  cases phase with
  | lock noiseInit =>
    cases hslot : h.slot with
    | none => simpa [runRequest, takeSession, hslot] using hevent
    | some pending =>
      have htaken : LinkEvent.taken pending.number a.now ≠ .started session := LinkEvent.noConfusion
      refine hrecord htaken ?_
      simp only [runRequest, takeSession, hslot] at hevent
      split at hevent
      · exact hevent
      · split at hevent <;> exact hevent
  | exportBundle pending transport noiseResponse index me =>
    simp only [runRequest] at hevent
    split at hevent
    · exact hevent
    · exact hrecord LinkEvent.noConfusion hevent
  | nextDeviceIndex | readIdentity | send | register | announce => exact hevent

theorem knows_runTask {a : Await} {session : PendingLink}
    (hknows : .startSession session ∈ (h.runTask a t).2 ∨ .started session ∈ (h.runTask a t).1.events) :
    t = .startSession session ∨ .started session ∈ h.events := by
  cases t with
  | startSession s =>
    rcases hknows with hnext | hevent
    · exact nomatch hnext
    · rcases List.mem_append.mp hevent with hold | hnew
      · exact Or.inr hold
      · obtain rfl := LinkEvent.started.inj (List.mem_singleton.mp hnew)
        exact Or.inl rfl
  | cancelSession =>
    rcases hknows with hnext | hevent
    · exact nomatch hnext
    · rcases List.mem_append.mp hevent with hold | hnew
      · exact Or.inr hold
      · exact nomatch List.mem_singleton.mp hnew
  | request phase =>
    refine Or.inr ?_
    rcases hknows with hnext | hevent
    · obtain ⟨phase', -, heq⟩ := Option.map_eq_some_iff.mp hnext
      exact nomatch heq
    · exact started_runRequest hevent

theorem knows_step {h' : LinkHost C} {l : Label} (hstep : h.step l = some h') {session : PendingLink}
    (hknows : h'.Knows session) : h.Knows session ∨ ∃ transferMasterKey psk now,
      l = .startLinkSession transferMasterKey psk now ∧ session = ⟨h.count, psk,
        C.x25519Secret (deriveTransportKey C.toKeyCrates h.identity.masterSecret 0), now + linkSessionTtlMs,
        transferMasterKey⟩ := by
  cases l with
  | startLinkSession transferMasterKey psk now =>
    obtain rfl := Option.some.inj hstep
    rcases hknows with htask | hevent
    · rcases List.mem_append.mp htask with hold | hnew
      · exact Or.inl (Or.inl hold)
      · exact Or.inr ⟨transferMasterKey, psk, now, rfl, LinkTask.startSession.inj (List.mem_singleton.mp hnew)⟩
    · exact Or.inl (Or.inr hevent)
  | cancelLinkSession =>
    obtain rfl := Option.some.inj hstep
    refine Or.inl (hknows.imp_left fun htask => ?_)
    exact (List.mem_append.mp htask).resolve_right fun hnew => nomatch List.mem_singleton.mp hnew
  | linkRequest noiseInit =>
    obtain rfl := Option.some.inj hstep
    refine Or.inl (hknows.imp_left fun htask => ?_)
    exact (List.mem_append.mp htask).resolve_right fun hnew => nomatch List.mem_singleton.mp hnew
  | task i a =>
    obtain ⟨t, hi, rfl⟩ := Option.map_eq_some_iff.mp hstep
    refine Or.inl ?_
    have hcases : .startSession session ∈ h.tasks ∨ (.startSession session ∈ (h.runTask a t).2 ∨
        .started session ∈ (h.runTask a t).1.events) := by
      rcases hknows with htask | hevent
      · rcases (Tasks.mem_advance hi).mp htask with hnext | hother
        · exact Or.inr (Or.inl hnext)
        · exact Or.inl (List.mem_of_mem_eraseIdx hother)
      · exact Or.inr (Or.inr hevent)
    rcases hcases with htask | hnew
    · exact Or.inl htask
    · rcases knows_runTask hnew with rfl | hevent
      · exact Or.inl (List.mem_of_getElem? hi)
      · exact Or.inr hevent
  | other identity store linkedDevices =>
    obtain rfl := Option.some.inj hstep
    exact Or.inl hknows

theorem count_runTask (a : Await) : (h.runTask a t).1.count = h.count := by
  cases t with
  | startSession session => rfl
  | cancelSession => rfl
  | request phase =>
    cases phase with
    | lock noiseInit =>
      simp only [runTask, runRequest, takeSession]
      cases h.slot with
      | none => rfl
      | some pending =>
        dsimp only
        split
        · rfl
        · split <;> rfl
    | exportBundle pending transport noiseResponse index me =>
      simp only [runTask, runRequest]
      split <;> rfl
    | nextDeviceIndex | readIdentity | send | register | announce => rfl

theorem count_step {h' : LinkHost C} {l : Label} (hstep : h.step l = some h') :
    h'.count = h.count + if l.isStart then 1 else 0 := by
  cases l with
  | task i a =>
    obtain ⟨t, -, rfl⟩ := Option.map_eq_some_iff.mp hstep
    exact count_runTask a
  | _ =>
    obtain rfl := Option.some.inj hstep
    rfl

theorem startedBy_exec {h₀ : LinkHost C} (htasks : h₀.tasks = []) (hevents : h₀.events = []) (hcount : h₀.count = 0)
    (run : List Label) : ∀ h ∈ exec step h₀ run, h.count = run.countP Label.isStart ∧
      ∀ session, h.Knows session → StartedBy h₀ run session := by
  induction run using List.reverseRecOn with
  | nil =>
    rintro h ⟨⟩
    refine ⟨hcount, fun session hknows => ?_⟩
    unfold Knows at hknows
    rw [htasks, hevents] at hknows
    rcases hknows with htask | hevent
    · exact absurd htask List.not_mem_nil
    · exact absurd hevent List.not_mem_nil
  | append_singleton run l ih =>
    intro h' hrun
    rw [exec_append] at hrun
    obtain ⟨h, hh, hstep⟩ := Option.bind_eq_some_iff.mp hrun
    obtain ⟨_, hstep, ⟨⟩⟩ := exec_cons_eq_some.mp hstep
    obtain ⟨hn, hstarted⟩ := ih h hh
    refine ⟨?_, fun session hknows => ?_⟩
    · rw [count_step hstep, hn, List.countP_append, List.countP_singleton]
    · rcases knows_step hstep hknows with hold | ⟨transferMasterKey, psk, now, rfl, hsession⟩
      · exact (hstarted session hold).append l
      · exact ⟨run, transferMasterKey, psk, now, [], h, rfl, hh, hn ▸ hsession⟩

/-- Of what is sent after these events of a run: it is the first of its session, one that a start of the run made.
When the session was taken, it was the last one started, had been neither cancelled nor taken before, and had not
expired; the release is encrypted under its PSK and static key, and the master key is in the bundle only if that start
asked for it. -/
structure SafeRelease (h₀ : LinkHost C) (run : List Label) (before : List LinkEvent) (number : Nat) (release : Release)
    (bundle : LinkBundleData) : Prop where
  once : ∀ r b, LinkEvent.sent number r b ∉ before
  taken : ∃ early now late session, before = early ++ .taken number now :: late ∧ holder early = some session ∧
    StartedBy h₀ run session ∧ session.number = number ∧ now ≤ session.expiresAt ∧ Encrypts C session release bundle ∧
    (bundle.masterSecretKey.isSome = true → session.transferMasterKey = true)

def SafeReleases (h₀ : LinkHost C) (run : List Label) (events : List LinkEvent) : Prop :=
  ∀ before number release bundle after, events = before ++ .sent number release bundle :: after →
    SafeRelease h₀ run before number release bundle

/-- Whatever commands and requests come, in whatever order their steps are taken, only safe
releases are made. -/
theorem link_bundle_release (C : LinkCrates) (identity : Identity) (store : LinkStore)
    (linkedDevices : List DeviceEntry) (run : List Label) :
    ∀ h ∈ exec step (new C identity store linkedDevices) run,
      SafeReleases (new C identity store linkedDevices) run h.events := by
  intro h hrun
  have hall : Along step (fun _ _ => True) (new C identity store linkedDevices) run :=
    Along.of_forall (p := fun _ => True) fun _ _ => trivial
  have hinv : h.Inv := by
    refine exec_invariant (I := Inv) ?_ (inv_new identity store linkedDevices) hall hrun
    intro h l h' hinv _ hstep
    exact inv_step hinv hstep
  have hstarted := (startedBy_exec rfl rfl rfl run h hrun).2
  intro before number release bundle after hevents
  obtain ⟨honce, early, now, late, session, hbefore, hholder, hevent, hrest⟩ :=
    hinv.safe before number release bundle after hevents
  refine ⟨honce, early, now, late, session, hbefore, hholder, hstarted session (Or.inr ?_), hrest⟩
  rw [hevents, hbefore]
  exact List.mem_append_left _ (List.mem_append_left _ hevent)

/-- A session is started, taken by a request and answered; a second request finds none. -/
def linkedOnce : List Label :=
  [.startLinkSession true (Vector.replicate 32 1) 1000, .task 0 (awaits 1000),
    .linkRequest (List.replicate 96 0), .linkRequest (List.replicate 96 0)] ++
  (List.range 4).map (fun _ => .task 0 (awaits 2000)) ++ [.task 1 (awaits 2001)]

theorem link_bundle_release_once :
    ∃ h ∈ exec step (new (plainLinks (emptyBundle Client.Author.zeroSecret))
        (plainIdentity (emptyBundle Client.Author.zeroSecret) Client.Author.zeroSecret) emptyStore []) linkedOnce,
      h.events.length = 3 ∧ SafeReleases (new (plainLinks (emptyBundle Client.Author.zeroSecret))
        (plainIdentity (emptyBundle Client.Author.zeroSecret) Client.Author.zeroSecret) emptyStore [])
        linkedOnce h.events :=
  ⟨_, rfl, rfl, link_bundle_release _ _ _ _ linkedOnce _ rfl⟩

end LinkHost
end Proscenium.Link
