import Proscenium.Client.BlockEnforcement
import Proscenium.Lib.JsonValue

/-! The ids of notifications. The id is a hash of the kind, the actor and the two
posts, one text right behind the other; rows with the same id are stored once.
Two events have one id if their texts put together are the same. -/

namespace Proscenium.Client

open Proscenium.Types

structure NotificationEvent where
  kind : String
  actor : String
  targetPostId : Option String
  postId : Option String
  deriving DecidableEq, Repr

namespace NotificationEvent

def text (e : NotificationEvent) : String := e.kind ++ e.actor ++ e.targetPostId.getD "" ++ e.postId.getD ""

def bytes (e : NotificationEvent) : Bytes := e.text.toUTF8.toList

variable (K : HandlerCrates)

def rowId (e : NotificationEvent) : String := K.sealing.hexEncode (K.sealing.sha256 e.bytes).toList

end NotificationEvent

def Notification.event (n : Notification) : NotificationEvent := ⟨n.kind, n.actor, n.targetPostId, n.postId⟩

namespace Device

variable (K : HandlerCrates)

def notify (e : NotificationEvent) (timestamp : UInt64) (d : Device) : Device :=
  d.insertNotification K e.kind e.actor e.targetPostId e.postId timestamp

def notifyAll (events : List (NotificationEvent × UInt64)) (d : Device) : Device :=
  events.foldl (fun d e => d.notify K e.1 e.2) d

def rowsOf (e : NotificationEvent) (d : Device) : List Notification := d.notifications.filter fun n => n.event = e

/-- The ids are those of the events, and the primary key. -/
structure Noted (d : Device) : Prop where
  id_eq : ∀ n ∈ d.notifications, n.id = n.event.rowId K
  nodup : (d.notifications.map Notification.id).Nodup

/-- The events of a run, and those of which there are rows already. -/
def knownEvents (events : List (NotificationEvent × UInt64)) (d : Device) : List NotificationEvent :=
  d.notifications.map Notification.event ++ events.map Prod.fst

def EachHasRow (events : List (NotificationEvent × UInt64)) (d : Device) : Prop :=
  ∀ e ∈ events.map Prod.fst, ((d.notifyAll K events).rowsOf e).length = 1

end Device

section Texts

variable {e e' : NotificationEvent}

theorem NotificationEvent.bytes_eq (e : NotificationEvent) : e.bytes = e.kind.toUTF8.toList ++ e.actor.toUTF8.toList ++
    (e.targetPostId.getD "").toUTF8.toList ++ (e.postId.getD "").toUTF8.toList := by
  unfold bytes text
  simp only [Json.toUTF8_toList_append]

theorem NotificationEvent.text_eq_of_bytes (h : e.bytes = e'.bytes) : e.text = e'.text := by
  unfold bytes at h
  have hchars : e.text.toList = e'.text.toList := by
    apply Json.toUTF8_toList_injective
    rwa [String.ofList_toList, String.ofList_toList]
  exact String.toList_injective hchars

/-- What `insert_notification` is called with. -/
def notificationKinds : List String := ["mention", "reply", "quote", "like", "follow_request", "follower"]

theorem kind_eq_of_begins : ∀ k ∈ notificationKinds, ∀ k' ∈ notificationKinds,
    k.toList <+: k'.toList → k = k' := by
  decide

theorem NotificationEvent.text_eq_iff (hk : e.kind ∈ notificationKinds) (hk' : e'.kind ∈ notificationKinds)
    (hactor : e.actor.length = e'.actor.length) : e.text = e'.text ↔
      e.kind = e'.kind ∧ e.actor = e'.actor ∧
        e.targetPostId.getD "" ++ e.postId.getD "" = e'.targetPostId.getD "" ++ e'.postId.getD "" := by
  have htoList : ∀ e : NotificationEvent, e.text.toList = e.kind.toList ++ (e.actor.toList ++
      (e.targetPostId.getD "" ++ e.postId.getD "").toList) := by
    intro e
    simp only [text, String.toList_append, List.append_assoc]
  constructor
  · intro h
    have hchars := congrArg String.toList h
    rw [htoList, htoList] at hchars
    have hkind : e.kind = e'.kind := by
      have hle : e.kind.toList <+: e'.kind.toList ++ (e'.actor.toList ++
          (e'.targetPostId.getD "" ++ e'.postId.getD "").toList) := hchars ▸ List.prefix_append _ _
      rcases List.prefix_or_prefix_of_prefix hle (List.prefix_append _ _) with hle | hle
      · exact kind_eq_of_begins _ hk _ hk' hle
      · exact (kind_eq_of_begins _ hk' _ hk hle).symm
    rw [hkind] at hchars
    have hlength : e.actor.toList.length = e'.actor.toList.length := by
      rw [String.length_toList, String.length_toList, hactor]
    obtain ⟨hactors, hposts⟩ := List.append_inj (List.append_cancel_left hchars) hlength
    exact ⟨hkind, String.toList_injective hactors, String.toList_injective hposts⟩
  · rintro ⟨hkind, hactors, hposts⟩
    apply String.toList_injective
    rw [htoList, htoList, hkind, hactors, hposts]

end Texts

namespace Device

variable {K : HandlerCrates} {d : Device} {e e' : NotificationEvent} {timestamp : UInt64}
  {events : List (NotificationEvent × UInt64)}

def rowFor (K : HandlerCrates) (e : NotificationEvent) (timestamp : UInt64) : Notification :=
  ⟨e.rowId K, e.kind, e.actor, e.targetPostId, e.postId, timestamp.toInt64, false⟩

theorem notifications_notify : (d.notify K e timestamp).notifications =
    Table.insertOrIgnore (fun n => n.id = e.rowId K) (rowFor K e timestamp) d.notifications := by
  unfold notify insertNotification rowFor NotificationEvent.rowId
  rw [NotificationEvent.bytes_eq]

theorem notify_cases (K : HandlerCrates) (d : Device) (e : NotificationEvent) (timestamp : UInt64) :
    (d.notify K e timestamp).notifications = d.notifications ∧ (∃ n ∈ d.notifications, n.id = e.rowId K) ∨
      (d.notify K e timestamp).notifications = d.notifications ++ [rowFor K e timestamp] ∧
        ∀ n ∈ d.notifications, n.id ≠ e.rowId K := by
  rw [notifications_notify]
  unfold Table.insertOrIgnore
  split
  next hany =>
    obtain ⟨n, hn, hid⟩ := List.any_eq_true.mp hany
    exact Or.inl ⟨rfl, n, hn, of_decide_eq_true hid⟩
  next hnone =>
    refine Or.inr ⟨rfl, fun n hn hid => hnone ?_⟩
    exact List.any_eq_true.mpr ⟨n, hn, decide_eq_true hid⟩

theorem exists_row_notify (K : HandlerCrates) (d : Device) (e : NotificationEvent) (timestamp : UInt64) :
    ∃ n ∈ (d.notify K e timestamp).notifications, n.id = e.rowId K := by
  rcases notify_cases K d e timestamp with ⟨heq, n, hn, hid⟩ | ⟨heq, -⟩
  · exact ⟨n, heq ▸ hn, hid⟩
  · refine ⟨rowFor K e timestamp, ?_, rfl⟩
    rw [heq]
    exact List.mem_append_right _ (List.mem_singleton.mpr rfl)

theorem notify_again (later : UInt64) :
    ((d.notify K e timestamp).notify K e later).notifications = (d.notify K e timestamp).notifications := by
  obtain ⟨n, hn, hid⟩ := exists_row_notify K d e timestamp
  rcases notify_cases K (d.notify K e timestamp) e later with ⟨heq, -⟩ | ⟨-, hfree⟩
  · exact heq
  · exact absurd hid (hfree n hn)

theorem mem_notify {n : Notification} (h : n ∈ (d.notify K e timestamp).notifications) :
    n ∈ d.notifications ∨ n = rowFor K e timestamp := by
  rw [notifications_notify] at h
  exact Table.mem_of_mem_insertOrIgnore h

theorem mem_notify_of_mem {n : Notification} (h : n ∈ d.notifications) :
    n ∈ (d.notify K e timestamp).notifications := by
  rw [notifications_notify]
  exact Table.mem_insertOrIgnore_of_mem h

theorem Noted.notify (h : d.Noted K) (e : NotificationEvent) (timestamp : UInt64) :
    (d.notify K e timestamp).Noted K := by
  constructor
  · intro n hn
    rcases mem_notify hn with hn | rfl
    · exact h.id_eq n hn
    · rfl
  · rcases notify_cases K d e timestamp with ⟨heq, -⟩ | ⟨heq, hfree⟩
    · rw [heq]
      exact h.nodup
    · rw [heq, List.map_append, List.map_singleton]
      have hnew : (rowFor K e timestamp).id ∉ d.notifications.map Notification.id := by
        intro hmem
        obtain ⟨n, hn, hid⟩ := List.mem_map.mp hmem
        exact hfree n hn hid
      rw [← List.concat_eq_append]
      exact h.nodup.concat hnew

/-- What a run leaves: the rows that were there, rows of its events, and for each of these the id. -/
structure RunLeaves (K : HandlerCrates) (events : List (NotificationEvent × UInt64)) (d d' : Device) : Prop where
  noted : d'.Noted K
  kept : ∀ n ∈ d.notifications, n ∈ d'.notifications
  known : ∀ n ∈ d'.notifications, n.event ∈ d.knownEvents events
  ids : ∀ e ∈ events.map Prod.fst, ∃ n ∈ d'.notifications, n.id = e.rowId K

theorem runLeaves (h : d.Noted K) (events : List (NotificationEvent × UInt64)) :
    RunLeaves K events d (d.notifyAll K events) := by
  induction events generalizing d with
  | nil => exact ⟨h, fun _ hn => hn, fun n hn => List.mem_append_left _ (List.mem_map_of_mem hn), by simp⟩
  | cons first events ih =>
    have hrest := ih (h.notify first.1 first.2)
    refine ⟨hrest.noted, fun n hn => hrest.kept n (mem_notify_of_mem hn), fun n hn => ?_, fun e he => ?_⟩
    · have hknown := hrest.known n hn
      unfold knownEvents at hknown ⊢
      rcases List.mem_append.mp hknown with hold | hnew
      · obtain ⟨q, hq, hqe⟩ := List.mem_map.mp hold
        rcases mem_notify hq with hq | rfl
        · exact List.mem_append_left _ (List.mem_map.mpr ⟨q, hq, hqe⟩)
        · exact List.mem_append_right _ (hqe ▸ List.mem_cons_self)
      · exact List.mem_append_right _ (List.mem_cons_of_mem _ hnew)
    · rcases List.mem_cons.mp he with rfl | he
      · obtain ⟨n, hn, hid⟩ := exists_row_notify K d first.1 first.2
        exact ⟨n, hrest.kept n hn, hid⟩
      · exact hrest.ids e he

theorem mem_rowsOf {n : Notification} : n ∈ d.rowsOf e ↔ n ∈ d.notifications ∧ n.event = e := by
  simp [rowsOf]

theorem Noted.length_rowsOf (h : d.Noted K) : (d.rowsOf e).length = 1 ↔ ∃ n ∈ d.notifications, n.event = e := by
  have hsame : (d.rowsOf e).map Notification.id = List.replicate (d.rowsOf e).length (e.rowId K) := by
    rw [List.eq_replicate_iff]
    refine ⟨List.length_map _, fun id hid => ?_⟩
    obtain ⟨n, hn, rfl⟩ := List.mem_map.mp hid
    obtain ⟨hmem, hevent⟩ := mem_rowsOf.mp hn
    rw [h.id_eq n hmem, hevent]
  have hle : (d.rowsOf e).length ≤ 1 := by
    have hnodup : ((d.rowsOf e).map Notification.id).Nodup := h.nodup.sublist (List.filter_sublist.map _)
    rw [hsame] at hnodup
    exact List.nodup_replicate.mp hnodup
  constructor
  · intro hone
    obtain ⟨n, hn⟩ := List.exists_mem_of_length_pos (Nat.lt_of_lt_of_eq Nat.one_pos hone.symm)
    exact ⟨n, mem_rowsOf.mp hn⟩
  · rintro ⟨n, hmem, hevent⟩
    have hpos : 0 < (d.rowsOf e).length := List.length_pos_of_mem (mem_rowsOf.mpr ⟨hmem, hevent⟩)
    omega

theorem Noted.eq_of_id {n n' : Notification} (h : d.Noted K) (hn : n ∈ d.notifications)
    (hn' : n' ∈ d.notifications) (hid : n.id = n'.id) : n = n' :=
  List.inj_on_of_nodup_map h.nodup hn hn' hid

theorem rowId_eq_of_text (h : e.text = e'.text) : e.rowId K = e'.rowId K := by
  unfold NotificationEvent.rowId NotificationEvent.bytes
  rw [h]

theorem text_eq_of_rowId (hhex : Function.Injective K.sealing.hexEncode) {known : List NotificationEvent}
    (hsha : Set.InjOn K.sealing.sha256 {b | ∃ e ∈ known, b = e.bytes}) (he : e ∈ known) (he' : e' ∈ known)
    (h : e.rowId K = e'.rowId K) : e.text = e'.text := by
  have hhash : K.sealing.sha256 e.bytes = K.sealing.sha256 e'.bytes := Vector.toList_inj.mp (hhex h)
  exact NotificationEvent.text_eq_of_bytes (hsha ⟨e, he, rfl⟩ ⟨e', he', rfl⟩ hhash)

theorem EachHasRow.eq_of_text (h : d.Noted K) (hall : d.EachHasRow K events) (he : e ∈ events.map Prod.fst)
    (he' : e' ∈ d.knownEvents events) (htext : e'.text = e.text) : e' = e := by
  have hrun := runLeaves h events
  obtain ⟨n, hn, rfl⟩ := hrun.noted.length_rowsOf.mp (hall e he)
  -- the other event has a row as well, and there is no room for two
  have hother : ∃ n' ∈ (d.notifyAll K events).notifications, n'.event = e' := by
    rcases List.mem_append.mp he' with hold | hnew
    · obtain ⟨n', hn', hevent⟩ := List.mem_map.mp hold
      exact ⟨n', hrun.kept n' hn', hevent⟩
    · exact hrun.noted.length_rowsOf.mp (hall e' hnew)
  obtain ⟨n', hn', rfl⟩ := hother
  have hid : n'.id = n.id := by
    rw [hrun.noted.id_eq n' hn', hrun.noted.id_eq n hn, rowId_eq_of_text htext]
  rw [hrun.noted.eq_of_id hn' hn hid]

theorem eachHasRow_of_texts (h : d.Noted K) (hhex : Function.Injective K.sealing.hexEncode)
    (hsha : Set.InjOn K.sealing.sha256 {b | ∃ e ∈ d.knownEvents events, b = e.bytes})
    (hall : ∀ e ∈ events.map Prod.fst, ∀ e' ∈ d.knownEvents events, e'.text = e.text → e' = e) :
    d.EachHasRow K events := by
  have hrun := runLeaves h events
  intro e he
  obtain ⟨n, hn, hid⟩ := hrun.ids e he
  have hknown : e ∈ d.knownEvents events := List.mem_append_right _ he
  rw [hrun.noted.id_eq n hn] at hid
  have htext := text_eq_of_rowId hhex hsha (hrun.known n hn) hknown hid
  exact hrun.noted.length_rowsOf.mpr ⟨n, hn, hall e he n.event (hrun.known n hn) htext⟩

end Device

/-- Events are told apart if and only if the texts that are hashed for them are; the same event is
stored once. -/
theorem notification_identity_iff (K : HandlerCrates) (d : Device) (events : List (NotificationEvent × UInt64))
    (hnoted : d.Noted K) (hhex : Function.Injective K.sealing.hexEncode)
    (hsha : Set.InjOn K.sealing.sha256 {b | ∃ e ∈ d.knownEvents events, b = e.bytes}) :
    (d.EachHasRow K events ∧ ∀ e timestamp later,
        ((d.notify K e timestamp).notify K e later).notifications = (d.notify K e timestamp).notifications) ↔
      ∀ e ∈ events.map Prod.fst, ∀ e' ∈ d.knownEvents events, e'.text = e.text → e' = e := by
  constructor
  · rintro ⟨hall, -⟩ e he e' he' htext
    exact Device.EachHasRow.eq_of_text hnoted hall he he' htext
  · intro hall
    exact ⟨Device.eachHasRow_of_texts hnoted hhex hsha hall, fun e timestamp later => Device.notify_again later⟩

section Examples

def replyEvent (targetPostId postId : String) : NotificationEvent :=
  ⟨"reply", "bob", some targetPostId, some postId⟩

theorem noted_blockedMallory : Device.blockedMallory.Noted Device.sampleHandlers :=
  ⟨by simp [Device.blockedMallory], by simp [Device.blockedMallory]⟩

theorem notification_identity_two_replies :
    Device.blockedMallory.EachHasRow Device.sampleHandlers [(replyEvent "a" "b", 5), (replyEvent "a" "c", 6)] := by
  refine ((notification_identity_iff Device.sampleHandlers Device.blockedMallory _ noted_blockedMallory
    hexEncode_injective ?_).mpr ?_).1
  · have hne : Device.sampleHandlers.sealing.sha256 (replyEvent "a" "b").bytes ≠
        Device.sampleHandlers.sealing.sha256 (replyEvent "a" "c").bytes := by
      unfold NotificationEvent.bytes
      rw [Json.toUTF8_toList, Json.toUTF8_toList]
      decide
    rintro b ⟨e, he, rfl⟩ b' ⟨e', he', rfl⟩ hhash
    simp only [Device.knownEvents, Device.blockedMallory, List.map_nil, List.map_cons, List.nil_append,
      List.mem_cons, List.not_mem_nil, or_false] at he he'
    rcases he with rfl | rfl <;> rcases he' with rfl | rfl
    · rfl
    · exact absurd hhash hne
    · exact absurd hhash.symm hne
    · rfl
  · decide

theorem not_eachHasRow_shifted_ids :
    ¬ Device.blockedMallory.EachHasRow Device.sampleHandlers [(replyEvent "a" "bc", 5), (replyEvent "ab" "c", 6)] := by
  intro h
  have hfirst : replyEvent "a" "bc" ∈ [replyEvent "a" "bc", replyEvent "ab" "c"] := by simp
  have hsecond : replyEvent "ab" "c" ∈ [replyEvent "a" "bc", replyEvent "ab" "c"] := by simp
  have heq := Device.EachHasRow.eq_of_text noted_blockedMallory h hfirst hsecond rfl
  exact absurd heq (by decide)

end Examples

end Proscenium.Client
