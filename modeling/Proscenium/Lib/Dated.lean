import Mathlib

/-! Dated words that state facts, each on some aspect. What holds on an aspect is what
the newest of the words say on it, in whatever order they came in and however often. -/

structure Dated (ω F A T : Type*) where
  date : ω → T
  facts : ω → List F
  aspect : F → A

namespace Dated

variable {ω F A T : Type*} [LinearOrder T] (D : Dated ω F A T)

def On (W : Set ω) (a : A) : Prop := ∃ w ∈ W, ∃ f ∈ D.facts w, D.aspect f = a

def NoNewer (W : Set ω) (t : T) (a : A) : Prop :=
  ∀ w ∈ W, ∀ f ∈ D.facts w, D.aspect f = a → D.date w ≤ t

/-- A word says it, and none that is newer says something on its aspect. -/
def Newest (W : Set ω) (f : F) : Prop :=
  ∃ w ∈ W, f ∈ D.facts w ∧ D.NoNewer W (D.date w) (D.aspect f)

/-- On each aspect something is shown that is the newest. -/
def Follows (shown : F → Prop) (W : Set ω) : Prop :=
  ∀ a, D.On W a → ∃ f, D.aspect f = a ∧ D.Newest W f ∧ shown f

/-- Words of the same date do not contradict each other. -/
def Unambiguous (W : Set ω) : Prop :=
  ∀ f g, D.Newest W f → D.Newest W g → D.aspect f = D.aspect g → f = g

variable {D} {W N : Set ω} {w : ω} {f : F} {a : A} {shown shown' : F → Prop}

theorem exists_newest (hfinite : W.Finite) (hon : D.On W a) : ∃ f, D.aspect f = a ∧ D.Newest W f := by
  have hsome : {w ∈ W | ∃ f ∈ D.facts w, D.aspect f = a}.Nonempty := by
    obtain ⟨w, hw, hsays⟩ := hon
    exact ⟨w, hw, hsays⟩
  obtain ⟨w, ⟨hw, f, hf, rfl⟩, hmax⟩ := Set.exists_max_image _ D.date (hfinite.sep _) hsome
  exact ⟨f, rfl, w, hw, hf, fun v hv g hg hag => hmax v ⟨hv, g, hg, hag⟩⟩

theorem newest_insert_of_noNewer (hf : f ∈ D.facts w) (h : D.NoNewer W (D.date w) (D.aspect f)) :
    D.Newest (insert w W) f := by
  refine ⟨w, Set.mem_insert w W, hf, ?_⟩
  rintro v (rfl | hv) g hg hag
  · exact le_refl _
  · exact h v hv g hg hag

theorem Newest.insert (h : D.Newest W f) (hf : f ∈ D.facts w) : D.Newest (insert w W) f := by
  obtain ⟨u, hu, hfu, hmax⟩ := h
  rcases le_total (D.date u) (D.date w) with hle | hle
  · exact newest_insert_of_noNewer hf fun v hv g hg hag => (hmax v hv g hg hag).trans hle
  · refine ⟨u, Set.mem_insert_of_mem w hu, hfu, ?_⟩
    rintro v (rfl | hv) g hg hag
    · exact hle
    · exact hmax v hv g hg hag

theorem Newest.insert_of_silent (h : D.Newest W f) (hsilent : ∀ g ∈ D.facts w, D.aspect g ≠ D.aspect f) :
    D.Newest (Insert.insert w W) f := by
  obtain ⟨u, hu, hfu, hmax⟩ := h
  refine ⟨u, Set.mem_insert_of_mem w hu, hfu, ?_⟩
  rintro v (rfl | hv) g hg hag
  · exact absurd hag (hsilent g hg)
  · exact hmax v hv g hg hag

theorem Follows.mono (h : D.Follows shown W) (himp : ∀ f, shown f → shown' f) : D.Follows shown' W := by
  intro a hon
  obtain ⟨f, hfa, hnewest, hshown⟩ := h a hon
  exact ⟨f, hfa, hnewest, himp f hshown⟩

theorem follows_insert
    (hsaid : ∀ f ∈ D.facts w, ∃ g, D.aspect g = D.aspect f ∧ D.Newest (insert w W) g ∧ shown g)
    (hkept : ∀ a, D.On W a → (∀ g ∈ D.facts w, D.aspect g ≠ a) →
      ∃ f, D.aspect f = a ∧ D.Newest W f ∧ shown f) : D.Follows shown (insert w W) := by
  rintro a ⟨v, hv, f, hf, rfl⟩
  by_cases hspoken : ∃ g ∈ D.facts w, D.aspect g = D.aspect f
  · obtain ⟨g, hg, hag⟩ := hspoken
    rw [← hag]
    exact hsaid g hg
  · have hsilent : ∀ g ∈ D.facts w, D.aspect g ≠ D.aspect f := fun g hg hag => hspoken ⟨g, hg, hag⟩
    rcases hv with rfl | hv
    · exact absurd rfl (hsilent f hf)
    · obtain ⟨g, hga, hnewest, hshown⟩ := hkept _ ⟨v, hv, f, hf, rfl⟩ hsilent
      exact ⟨g, hga, hnewest.insert_of_silent (hga.symm ▸ hsilent), hshown⟩

theorem Newest.union {u : ω} (h : D.Newest W f) (hu : u ∈ W) (hon : ∃ g ∈ D.facts u, D.aspect g = D.aspect f)
    (hlate : D.NoNewer N (D.date u) (D.aspect f)) : D.Newest (W ∪ N) f := by
  obtain ⟨w, hw, hf, hmax⟩ := h
  obtain ⟨g, hg, hag⟩ := hon
  refine ⟨w, .inl hw, hf, ?_⟩
  rintro v (hv | hv) k hk hak
  · exact hmax v hv k hk hak
  · exact (hlate v hv k hk hak).trans (hmax u hu g hg hag)

theorem Follows.union (h : D.Follows shown W) (hfinite : N.Finite)
    (hlate : ∀ v ∈ N, ∀ g ∈ D.facts v,
      (∃ u ∈ W, (∃ f ∈ D.facts u, D.aspect f = D.aspect g) ∧ D.date v ≤ D.date u) ∨ shown g) :
    D.Follows shown (W ∪ N) := by
  rintro a ⟨w, hw, f, hf, rfl⟩
  by_cases honN : D.On N (D.aspect f)
  · obtain ⟨g, hga, v, hv, hg, hmax⟩ := exists_newest hfinite honN
    rw [hga] at hmax
    by_cases hruled : ∃ u ∈ W, (∃ k ∈ D.facts u, D.aspect k = D.aspect f) ∧ D.date v ≤ D.date u
    · obtain ⟨u, hu, ⟨k, hk, hka⟩, hle⟩ := hruled
      obtain ⟨k', hka', hnewest, hshown⟩ := h _ ⟨u, hu, k, hk, hka⟩
      refine ⟨k', hka', hnewest.union hu ⟨k, hk, hka.trans hka'.symm⟩ ?_, hshown⟩
      rw [hka']
      exact fun x hx y hy hya => (hmax x hx y hy hya).trans hle
    · -- the newest of the late words is newer than all that came before
      refine ⟨g, hga, ⟨v, .inr hv, hg, ?_⟩, ?_⟩
      · rw [hga]
        rintro x (hx | hx) y hy hya
        · exact (lt_of_not_ge fun hle => hruled ⟨x, hx, ⟨y, hy, hya⟩, hle⟩).le
        · exact hmax x hx y hy hya
      · rw [← hga] at hruled
        exact (hlate v hv g hg).resolve_left hruled
  · have hold : D.On W (D.aspect f) := by
      rcases hw with hw | hw
      · exact ⟨w, hw, f, hf, rfl⟩
      · exact absurd ⟨w, hw, f, hf, rfl⟩ honN
    obtain ⟨k, hka, ⟨u, hu, hk, hmax⟩, hshown⟩ := h _ hold
    have hnone : D.NoNewer N (D.date u) (D.aspect k) := fun x hx y hy hya =>
      absurd ⟨x, hx, y, hy, hya.trans hka⟩ honN
    exact ⟨k, hka, Newest.union ⟨u, hu, hk, hmax⟩ hu ⟨k, hk, rfl⟩ hnone, hshown⟩

theorem Follows.agree (h : D.Follows shown W) (h' : D.Follows shown' W) (hone : D.Unambiguous W)
    (hon : D.On W a) : ∃ f, D.aspect f = a ∧ shown f ∧ shown' f := by
  obtain ⟨f, rfl, hnewest, hshown⟩ := h a hon
  obtain ⟨g, hga, hnewest', hshown'⟩ := h' _ hon
  obtain rfl := hone f g hnewest hnewest' hga.symm
  exact ⟨f, rfl, hshown, hshown'⟩

end Dated
