import Proscenium.Link.LinkDefs

/-! A request without the PSK. The session is taken before anything is known of
the request, and the PSK comes into the handshake only with the response, so that
the first message says nothing about it: what follows is the new device's index,
the bundle, the registration and the announcement. -/

namespace Proscenium.Link

open Proscenium.Types
open Client.Author (zeroSecret)

namespace LinkHost

variable {C : LinkCrates}

/-- A request that is handled at this time leaves the pending session, if it is still one, and what
is known of the user's devices. -/
structure NoEffect (now : UInt64) (h h' : LinkHost C) : Prop where
  available : ∀ session ∈ h.slot, now ≤ session.expiresAt → session ∈ h'.slot
  linkedDevices : h'.linkedDevices = h.linkedDevices
  nextDeviceIndex : h'.nextDeviceIndex = h.nextDeviceIndex
  broadcasts : h'.broadcasts = h.broadcasts

variable {h : LinkHost C}

/-- Once the session is taken, nothing puts it back. -/
theorem slot_runRequest (a : Await) {phase : LinkPhase C} (hphase : ∀ noiseInit, phase ≠ .lock noiseInit) :
    (h.runRequest a phase).1.slot = h.slot ∧
      ∀ next ∈ (h.runRequest a phase).2, ∀ noiseInit, next ≠ .lock noiseInit := by
  have hnone : ∀ next ∈ (none : Option (LinkPhase C)), ∀ noiseInit, next ≠ .lock noiseInit :=
    fun next hnext => absurd hnext.symm (Option.some_ne_none next)
  cases phase with
  | lock noiseInit => exact absurd rfl (hphase noiseInit)
  | nextDeviceIndex session transport noiseResponse =>
    refine ⟨rfl, ?_⟩
    simp only [runRequest]
    split
    · rintro next ⟨⟩ noiseInit heq
      exact LinkPhase.noConfusion rfl (heq_of_eq heq)
    · exact hnone
  | readIdentity session transport noiseResponse index =>
    refine ⟨rfl, ?_⟩
    rintro next ⟨⟩ noiseInit heq
    exact LinkPhase.noConfusion rfl (heq_of_eq heq)
  | exportBundle session transport noiseResponse index me =>
    simp only [runRequest]
    split
    · exact ⟨rfl, hnone⟩
    · refine ⟨rfl, ?_⟩
      rintro next ⟨⟩ noiseInit heq
      exact LinkPhase.noConfusion rfl (heq_of_eq heq)
  | send session release index me =>
    refine ⟨rfl, ?_⟩
    simp only [runRequest]
    split
    · rintro next ⟨⟩ noiseInit heq
      exact LinkPhase.noConfusion rfl (heq_of_eq heq)
    · exact hnone
  | register index me =>
    refine ⟨rfl, ?_⟩
    rintro next ⟨⟩ noiseInit heq
    exact LinkPhase.noConfusion rfl (heq_of_eq heq)
  | announce index me now => exact ⟨rfl, hnone⟩

theorem slot_runRequests {phase : LinkPhase C} (hphase : ∀ noiseInit, phase ≠ .lock noiseInit) (awaits : List Await) :
    (h.runRequests phase awaits).slot = h.slot := by
  induction awaits generalizing h phase with
  | nil => rfl
  | cons a awaits ih =>
    obtain ⟨hslot, hnext⟩ := slot_runRequest (h := h) a hphase
    unfold runRequests
    dsimp only
    split
    next => exact hslot
    next next heq =>
      rw [ih (hnext next heq)]
      exact hslot

theorem runRequest_lock (a : Await) (noiseInit : Bytes) :
    (h.runRequest a (.lock noiseInit)).1 = (h.takeSession a.now).1 ∧
      ∀ next ∈ (h.runRequest a (.lock noiseInit)).2, ∀ noiseInit, next ≠ .lock noiseInit := by
  have hnone : ∀ next ∈ (none : Option (LinkPhase C)), ∀ noiseInit, next ≠ .lock noiseInit :=
    fun next hnext => absurd hnext.symm (Option.some_ne_none next)
  simp only [runRequest]
  split
  next => exact ⟨rfl, hnone⟩
  next session hsession =>
    split
    next => exact ⟨rfl, hnone⟩
    next transport noiseResponse hrespond =>
      refine ⟨rfl, ?_⟩
      rintro next ⟨⟩ noiseInit heq
      exact LinkPhase.noConfusion rfl (heq_of_eq heq)

theorem slot_takeSession (now : UInt64) : (h.takeSession now).1.slot = none := by
  unfold takeSession
  split
  next hslot => exact hslot
  next => rfl

theorem slot_handleLinkRequest (noiseInit : Bytes) (a : Await) (awaits : List Await) :
    (h.handleLinkRequest noiseInit (a :: awaits)).slot = none := by
  obtain ⟨hfirst, hnext⟩ := runRequest_lock (h := h) a noiseInit
  unfold handleLinkRequest runRequests
  dsimp only
  split
  next =>
    rw [hfirst]
    exact slot_takeSession a.now
  next next heq =>
    rw [slot_runRequests (hnext next heq), hfirst]
    exact slot_takeSession a.now

theorem handleLinkRequest_late (noiseInit : Bytes) (a : Await) (awaits : List Await)
    (hlate : ∀ session ∈ h.slot, session.expiresAt < a.now) :
    h.handleLinkRequest noiseInit (a :: awaits) = (h.takeSession a.now).1 := by
  have hnone : (h.takeSession a.now).2 = none := by
    unfold takeSession
    split
    next => rfl
    next session hslot => exact if_pos (hlate session hslot)
  unfold handleLinkRequest runRequests
  simp only [runRequest, hnone]

/-- A request leaves the session and the devices as they are exactly when it comes too late. -/
theorem link_attempt_iff (h : LinkHost C) (noiseInit : Bytes) (a : Await) (awaits : List Await) :
    NoEffect a.now h (h.handleLinkRequest noiseInit (a :: awaits)) ↔
      ∀ session ∈ h.slot, session.expiresAt < a.now := by
  constructor
  · intro hnothing session hsession
    by_contra hintime
    have hkept := hnothing.available session hsession (UInt64.not_lt.mp hintime)
    rw [slot_handleLinkRequest] at hkept
    exact absurd hkept.symm (Option.some_ne_none session)
  · intro hlate
    rw [handleLinkRequest_late noiseInit a awaits hlate]
    refine ⟨?_, ?_, ?_, ?_⟩
    · intro session hsession hintime
      exact absurd (hlate session hsession) (UInt64.not_lt.mpr hintime)
    all_goals
      unfold takeSession
      split <;> rfl

/-- A session that waits for the new device, as `start_link_session` puts it. -/
def waiting : LinkHost (plainLinks (emptyBundle zeroSecret)) :=
  { new _ (plainIdentity (emptyBundle zeroSecret) zeroSecret) emptyStore [⟨"primary", "Primary Device", true, 5⟩] with
    slot := some ⟨0, Vector.replicate 32 1, zeroSecret, 61000, true⟩
    count := 1 }

/-- A first message that is well formed takes the session from the device with the PSK, and
registers a device that nobody has. -/
theorem not_noEffect_firstMessage :
    ¬ NoEffect 2000 waiting (waiting.handleLinkRequest (List.replicate 96 0) (List.replicate 7 (awaits 2000))) := by
  intro hnothing
  have hkept := hnothing.available _ rfl (by decide)
  have hnone : (waiting.handleLinkRequest (List.replicate 96 0) (List.replicate 7 (awaits 2000))).slot = none :=
    slot_handleLinkRequest (List.replicate 96 0) (awaits 2000) (List.replicate 6 (awaits 2000))
  rw [hnone] at hkept
  exact absurd hkept.symm (Option.some_ne_none _)

-- the next device gets the index after that of the one that nobody has
example : (waiting.handleLinkRequest (List.replicate 96 0) (List.replicate 7 (awaits 2000))).nextDeviceIndex = 2 :=
  rfl

end LinkHost
end Proscenium.Link
