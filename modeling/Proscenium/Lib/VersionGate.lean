import Mathlib

/-! A slot behind a version check: an item is taken when its version is above
that of the item in the slot, or above a floor while there is none. The version
of the slot is the highest of all that came. A slot with several writers, some
of them with another check or with none, holds the newest item as long as each
item is stored or dropped for its version. -/

namespace VersionGate

variable {α ν : Type*} [LinearOrder ν] (version : α → ν) (floor : ν)

def current (slot : Option α) : ν := (slot.map version).getD floor

def accept (slot : Option α) (a : α) : Option α :=
  if current version floor slot < version a then some a else slot

variable {version floor} {slot : Option α} {a : α} {as : List α}

theorem accept_of_lt (h : current version floor slot < version a) :
    accept version floor slot a = some a := if_pos h

theorem accept_of_le (h : version a ≤ current version floor slot) :
    accept version floor slot a = slot := if_neg h.not_gt

theorem current_accept :
    current version floor (accept version floor slot a) =
      max (current version floor slot) (version a) := by
  rcases lt_or_ge (current version floor slot) (version a) with hlt | hle
  · rw [accept_of_lt hlt, max_eq_right hlt.le]
    rfl
  · rw [accept_of_le hle, max_eq_left hle]

theorem current_foldl_lt_iff {v : ν} :
    current version floor (as.foldl (accept version floor) slot) < v ↔
      current version floor slot < v ∧ ∀ a ∈ as, version a < v := by
  induction as generalizing slot with
  | nil => simp
  | cons a as ih =>
    rw [List.foldl_cons, ih, current_accept, max_lt_iff, List.forall_mem_cons, and_assoc]

section Writers

variable {β : Type*}

/-- A slot and a copy of a part of its item, in a row that there may not be. -/
@[ext] structure Slot (α β : Type*) where
  cached : Option α
  copy : Option β

variable (version) (part : α → β) (missing : β)

def Slot.write (s : Slot α β) (a : α) : Slot α β := ⟨some a, s.copy.map fun _ => part a⟩

/-- Of what was received, an item of the highest version is in the slot, and its part is the copy. -/
def Slot.Newest (s : Slot α β) (received : List α) : Prop :=
  received ≠ [] → ∃ a, s.cached = some a ∧ a ∈ received ∧ (∀ b ∈ received, version b ≤ version a) ∧
    s.copy.getD missing = part a

def Slot.Grows (s s' : Slot α β) : Prop :=
  ∀ c, s.cached = some c → ∃ c', s'.cached = some c' ∧ version c ≤ version c'

variable {version} {part} {missing} {s : Slot α β} {received : List α}

theorem Slot.write_newest_iff (h : s.Newest version part missing received) (a : α) :
    s.Grows version (s.write part a) ∧ (s.write part a).Newest version part missing (received ++ [a]) ↔
      (∀ c, s.cached = some c → version c ≤ version a) ∧ (s.copy = none → part a = missing) := by
  constructor
  · rintro ⟨hgrows, hnewest⟩
    obtain ⟨b, hb, -, -, hcopy⟩ := hnewest (by simp)
    obtain rfl : a = b := Option.some.inj hb
    refine ⟨?_, ?_⟩
    · intro c hc
      obtain ⟨c', hc', hle⟩ := hgrows c hc
      obtain rfl : a = c' := Option.some.inj hc'
      exact hle
    · intro hnone
      simp only [write, hnone, Option.map_none, Option.getD_none] at hcopy
      exact hcopy.symm
  · rintro ⟨hle, hmissing⟩
    refine ⟨fun c hc => ⟨a, rfl, hle c hc⟩, fun _ => ⟨a, rfl, by simp, ?_, ?_⟩⟩
    · intro b hb
      rcases List.mem_append.mp hb with hb | hb
      · obtain ⟨c, hc, -, hmax, -⟩ := h (List.ne_nil_of_mem hb)
        exact (hmax b hb).trans (hle c hc)
      · rw [List.mem_singleton.mp hb]
    · cases hcopy : s.copy with
      | none => simp only [write, hcopy, Option.map_none, Option.getD_none, hmissing hcopy]
      | some b => simp only [write, hcopy, Option.map_some, Option.getD_some]

theorem Slot.drop_newest_iff (h : s.Newest version part missing received) (hempty : received = [] → s.cached = none)
    (a : α) :
    s.Newest version part missing (received ++ [a]) ↔ ∃ c, s.cached = some c ∧ version a ≤ version c := by
  constructor
  · intro hnewest
    obtain ⟨c, hc, -, hmax, -⟩ := hnewest (by simp)
    exact ⟨c, hc, hmax a (by simp)⟩
  · rintro ⟨c, hc, hle⟩ -
    have hsome : received ≠ [] := by
      intro hnil
      exact absurd ((hempty hnil).symm.trans hc).symm (Option.some_ne_none c)
    obtain ⟨c', hc', hmem, hmax, hcopy⟩ := h hsome
    obtain rfl : c = c' := Option.some.inj (hc.symm.trans hc')
    refine ⟨c, hc, List.mem_append_left _ hmem, ?_, hcopy⟩
    intro b hb
    rcases List.mem_append.mp hb with hb | hb
    · exact hmax b hb
    · rw [List.mem_singleton.mp hb]
      exact hle

end Writers

end VersionGate
