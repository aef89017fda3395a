import Proscenium.Lib.Machine
import Proscenium.Lib.VersionGate
import Proscenium.Types.Identity

/-! What a program caches of the announcements of one master key. They arrive on
the topic of their author and in syncs, and each of the two is a writer of the
same row with a check of its own. An arrival is handled to its end before the
next one: the two writers do not overlap. -/

namespace Proscenium.Types

open Machine VersionGate

inductive Route where
  | gossip
  | sync
  deriving DecidableEq, Repr

structure Arrival where
  route : Route
  /-- The owner of the topic, or the author that is synced. -/
  pk : String
  announcement : LinkedDevicesAnnouncement
  now : UInt64
  deriving DecidableEq, Repr

def LinkedDevicesAnnouncement.nodeIds (a : LinkedDevicesAnnouncement) : List String :=
  a.devices.map DeviceEntry.nodeId

def LinkedDevicesAnnouncement.number (a : LinkedDevicesAnnouncement) : Nat := a.version.toNat

/-- The cached announcement, and the `transport_node_ids` of the row in `peer_delegations`. -/
abbrev AnnouncementSlot := Slot LinkedDevicesAnnouncement (List String)

variable (S : SignatureCrates) (masterPubkey : String)

/-- Validly signed, and taken for an announcement of this master key. -/
def Arrival.ValidFor (x : Arrival) : Prop :=
  x.pk = masterPubkey ∧ x.announcement.masterPubkey = masterPubkey ∧
    verifyLinkedDevicesAnnouncement S x.announcement = .ok ()

instance Arrival.decidableValidFor (x : Arrival) : Decidable (x.ValidFor S masterPubkey) := by
  unfold Arrival.ValidFor
  infer_instance

/-- A program with the valid announcements that it has received. -/
structure Receiving (σ : Type) where
  store : σ
  received : List LinkedDevicesAnnouncement

namespace Receiving

variable {σ : Type} (take : σ → Arrival → σ) (slot : σ → AnnouncementSlot)

def step (w : Receiving σ) (x : Arrival) : Option (Receiving σ) :=
  some ⟨take w.store x,
    if x.ValidFor S masterPubkey then w.received ++ [x.announcement] else w.received⟩

/-- The cached announcement has the highest version of those received, and the node ids are those
of its devices. -/
def Newest (w : Receiving σ) : Prop :=
  (slot w.store).Newest LinkedDevicesAnnouncement.number LinkedDevicesAnnouncement.nodeIds [] w.received

structure KeepsNewest (w : Receiving σ) (x : Arrival) : Prop where
  grows : ∀ w', w.step S masterPubkey take x = some w' →
    (slot w.store).Grows LinkedDevicesAnnouncement.number (slot w'.store)
  newest : ∀ w', w.step S masterPubkey take x = some w' → w'.Newest slot

/-- What is stored is not older than what is cached and has a row to copy its node ids to, unless
there are none; what is dropped is not newer than what is cached. -/
def InOrder (stores : Bool) (s : AnnouncementSlot) (a : LinkedDevicesAnnouncement) : Prop :=
  if stores then
    (∀ c, s.cached = some c → c.number ≤ a.number) ∧ (s.copy = none → a.nodeIds = [])
  else ∃ c, s.cached = some c ∧ a.number ≤ c.number

variable {S} {masterPubkey} {take} {slot}

theorem keepsNewest_iff {w : Receiving σ} {x : Arrival} {stores : Bool} (h : w.Newest slot)
    (hempty : w.received = [] → (slot w.store).cached = none)
    (htake : x.ValidFor S masterPubkey → slot (take w.store x) =
      if stores then (slot w.store).write LinkedDevicesAnnouncement.nodeIds x.announcement
      else slot w.store)
    (hother : ¬ x.ValidFor S masterPubkey → slot (take w.store x) = slot w.store) :
    w.KeepsNewest S masterPubkey take slot x ↔
      (x.ValidFor S masterPubkey → InOrder stores (slot w.store) x.announcement) := by
  have hiff : w.KeepsNewest S masterPubkey take slot x ↔
      (slot w.store).Grows LinkedDevicesAnnouncement.number (slot (take w.store x)) ∧
      (slot (take w.store x)).Newest LinkedDevicesAnnouncement.number LinkedDevicesAnnouncement.nodeIds []
        (if x.ValidFor S masterPubkey then w.received ++ [x.announcement] else w.received) := by
    constructor
    · intro hkeeps
      exact ⟨hkeeps.grows _ rfl, hkeeps.newest _ rfl⟩
    · rintro ⟨hgrows, hnewest⟩
      refine ⟨?_, ?_⟩
      · rintro _ ⟨⟩
        exact hgrows
      · rintro _ ⟨⟩
        exact hnewest
  have hself : (slot w.store).Grows LinkedDevicesAnnouncement.number (slot w.store) :=
    fun c hc => ⟨c, hc, le_rfl⟩
  rw [hiff]
  by_cases hvalid : x.ValidFor S masterPubkey
  · rw [if_pos hvalid, htake hvalid]
    refine Iff.trans ?_ (forall_prop_of_true hvalid).symm
    cases stores with
    | true => exact Slot.write_newest_iff h x.announcement
    | false => exact (and_iff_right hself).trans (Slot.drop_newest_iff h hempty x.announcement)
  · rw [if_neg hvalid, hother hvalid]
    exact iff_of_true ⟨hself, h⟩ fun hx => absurd hx hvalid

theorem inOrder_sync_iff {s : AnnouncementSlot} {a : LinkedDevicesAnnouncement} {checked newer : Prop} :
    InOrder true s a ↔ (Route.sync = .sync → ∀ c, s.cached = some c → c.number ≤ a.number) ∧
      (Route.sync = .gossip → checked) ∧ (Route.sync = .sync ∨ newer → s.copy = none → a.nodeIds = []) := by
  have hgossip : ¬ Route.sync = Route.gossip := by decide
  unfold InOrder
  rw [if_pos rfl]
  constructor
  · rintro ⟨holder, hrow⟩
    exact ⟨fun _ => holder, fun hg => absurd hg hgossip, fun _ => hrow⟩
  · rintro ⟨holder, -, hrow⟩
    exact ⟨holder rfl, hrow (.inl rfl)⟩

theorem empty_step {w w' : Receiving σ} {x : Arrival} (hempty : w.received = [] → (slot w.store).cached = none)
    (hother : ¬ x.ValidFor S masterPubkey → slot (take w.store x) = slot w.store)
    (hstep : w.step S masterPubkey take x = some w') : w'.received = [] → (slot w'.store).cached = none := by
  obtain rfl := Option.some.inj hstep
  intro hnone
  by_cases hvalid : x.ValidFor S masterPubkey
  · simp only [if_pos hvalid] at hnone
    exact absurd hnone (List.append_ne_nil_of_right_ne_nil _ (List.cons_ne_nil _ _))
  · simp only [if_neg hvalid] at hnone
    rw [← hempty hnone]
    exact congrArg Slot.cached (hother hvalid)

end Receiving
end Proscenium.Types
