import Proscenium.Crypto.MessageKeys
import Proscenium.Dm.DeliveryAcks
import Proscenium.Dm.IncomingDefs

/-! Forged envelopes among genuine ones. `decrypt` changes its state before it
knows whether a message is genuine, but the handler stores that state only
after the cipher accepts, so an envelope that no key of the session opens is
as if it had never come. -/

namespace Proscenium.Dm.Incoming

open Crypto Proscenium.Types

/-- An envelope as it is handled, and whether it counts as genuine. -/
structure Handling where
  genuine : Bool
  arrival : Arrival
  deriving DecidableEq, Repr

/-- The tables, and what each genuine envelope came to, newest first: its result, its notices and
the tables it left. -/
structure Inbox where
  mailbox : Mailbox
  outcomes : List Handled
  deriving DecidableEq

variable (C : Crates) (X : SealCrates) (debug : Bool) (me : String)

/-- `accept` hands an envelope over with the sender that it names. -/
def Inbox.step (w : Inbox) (l : Handling) : Option Inbox :=
  let out := handleEncryptedMessage C X debug me l.arrival.envelope.sender l.arrival w.mailbox
  some ⟨out.mailbox, if l.genuine then out :: w.outcomes else w.outcomes⟩

/-- No key of the session that is stored for the sender opens the ciphertext. -/
def Forged (a : Arrival) (m : Mailbox) : Prop :=
  ∀ stored st header key, m.getRatchetSession a.envelope.sender = some stored →
    X.openRatchetState stored = some st → wireToRatchetHeader X a.envelope.ratchetHeader = some header →
    st.Derives C header.dhPublic key → C.aeadDecrypt key nonceDefault a.envelope.ciphertext = none

variable {C X debug me} {a : Arrival} {m : Mailbox}

theorem Forged.not_opened (h : Forged C X a m) (st' : RatchetState) (plaintext : Crypto.Bytes) :
    openEnvelope C X a.envelope.sender a m ≠ some (.ok (st', plaintext)) := by
  intro hok
  obtain ⟨stored, st, header, hstored, hst, hheader, hdec⟩ := openEnvelope_eq_ok.mp hok
  obtain ⟨key, hkey, hopen, -⟩ := RatchetState.decrypt_reads hdec
  have hnone := h stored st header key hstored hst hheader (RatchetState.derives_openingKey hkey)
  unfold decryptMessage at hopen
  rw [hnone] at hopen
  cases hopen

theorem Forged.handle (h : Forged C X a m) :
    (handleEncryptedMessage C X debug me a.envelope.sender a m).mailbox = m ∧
      (handleEncryptedMessage C X debug me a.envelope.sender a m).notices = [] := by
  rcases handleEncryptedMessage_cases (C := C) (X := X) (a := a) (m := m) with
    ⟨st, plaintext, payload, hok, -, -⟩ | hsame
  · exact absurd hok (h.not_opened st plaintext)
  · exact hsame

theorem Forged.step {w w' : Inbox} {l : Handling} (h : Forged C X l.arrival w.mailbox)
    (hforged : l.genuine = false) (hstep : w.step C X debug me l = some w') : w' = w := by
  obtain rfl := Option.some.inj hstep
  rw [hforged, h.handle.1, if_neg (by simp)]

theorem exists_exec (w : Inbox) (run : List Handling) :
    ∃ w', Machine.exec (Inbox.step C X debug me) w run = some w' := by
  induction run generalizing w with
  | nil => exact ⟨w, rfl⟩
  | cons l run ih =>
    obtain ⟨w', hrun⟩ := ih ⟨_, _⟩
    exact ⟨w', Machine.exec_cons_eq_some.mpr ⟨_, rfl, hrun⟩⟩

/-- Whatever comes among the genuine envelopes and is opened by no key of the session stored at
that time, the genuine ones leave the same tables, results and notices as they leave by themselves. -/
theorem forged_harmless {w : Inbox} {run : List Handling}
    (hforged : Machine.Along (Inbox.step C X debug me)
      (fun w l => l.genuine = false → Forged C X l.arrival w.mailbox) w run) :
    Machine.exec (Inbox.step C X debug me) w run =
      Machine.exec (Inbox.step C X debug me) w (run.filter Handling.genuine) := by
  obtain ⟨w', hrun⟩ := exists_exec (C := C) (X := X) w run
  have hkeep : ∀ (u u' : Inbox) (l : Handling) (v : Inbox), l.genuine = true → u = u' →
      (l.genuine = false → Forged C X l.arrival u.mailbox) → u.step C X debug me l = some v →
      ∃ v', u'.step C X debug me l = some v' ∧ v = v' := by
    rintro u _ l v - rfl - hstep
    exact ⟨v, hstep, rfl⟩
  have hdrop : ∀ (u u' : Inbox) (l : Handling) (v : Inbox), l.genuine = false → u = u' →
      (l.genuine = false → Forged C X l.arrival u.mailbox) → u.step C X debug me l = some v → v = u' := by
    rintro u _ l v hl rfl hok hstep
    exact (hok hl).step hl hstep
  obtain ⟨_, hrun', rfl⟩ := Machine.exec_filter hkeep hdrop rfl hforged hrun
  rw [hrun, hrun']

theorem forged_of_sealed (hC : C.OpensOwnKey) {key : Bytes32} {plaintext : Crypto.Bytes}
    (hct : a.envelope.ciphertext = encryptMessage C key plaintext)
    (hkey : ∀ stored st header, m.getRatchetSession a.envelope.sender = some stored →
      X.openRatchetState stored = some st → wireToRatchetHeader X a.envelope.ratchetHeader = some header →
      ¬ st.Derives C header.dhPublic key) : Forged C X a m := by
  intro stored st header key' hstored hst hheader hderives
  rw [hct]
  apply hC
  rintro rfl
  exact hkey stored st header hstored hst hheader hderives

section Runs

open Delivery (sampleMessage sampleSeal messageBytes aliceStart bobKnows)

theorem forged_of_empty (h : a.envelope.ciphertext = []) : Forged additiveCrates X a m := by
  intro _ _ _ key _ _ _ _
  rw [h]
  have hlen : ([] : List UInt8) ≠ key.toList := by
    intro heq
    have hsize := congrArg List.length heq
    simp at hsize
  simp [additiveCrates, hlen]

def aliceArrival : Arrival :=
  let header := (aliceStart.encrypt additiveCrates (messageBytes sampleMessage)).elim
    (⟨"", 0, 0⟩, []) fun out => (ratchetHeaderToWire sampleSeal out.2.1, out.2.2)
  ⟨⟨"da", header.1, header.2⟩, 9, Vector.replicate 12 0, pairOf 4⟩

def strayArrival : Arrival :=
  ⟨⟨"da", ratchetHeaderToWire sampleSeal ⟨bytes32 [9], 3, 50⟩, []⟩, 9, Vector.replicate 12 0, pairOf 5⟩

theorem forged_harmless_stray : ∃ w,
    Machine.exec (Inbox.step additiveCrates sampleSeal false "b") ⟨bobKnows, []⟩
      [⟨false, strayArrival⟩, ⟨true, aliceArrival⟩, ⟨false, strayArrival⟩] = some w ∧
    w.outcomes.map Handled.result = [some (.ok ())] ∧
    Machine.exec (Inbox.step additiveCrates sampleSeal false "b") ⟨bobKnows, []⟩ [⟨true, aliceArrival⟩] = some w := by
  have hstray : ∀ m, Forged additiveCrates sampleSeal strayArrival m := fun m => forged_of_empty rfl
  have hrun : ∃ w, Machine.exec (Inbox.step additiveCrates sampleSeal false "b") ⟨bobKnows, []⟩
      [⟨true, aliceArrival⟩] = some w ∧ w.outcomes.map Handled.result = [some (.ok ())] :=
    ⟨_, rfl, by decide +kernel⟩
  obtain ⟨w, hw, hresults⟩ := hrun
  refine ⟨w, ?_, hresults, hw⟩
  rw [← hw]
  refine forged_harmless ⟨fun _ => hstray _, fun _ _ =>
    ⟨fun h => absurd h (by simp), fun _ _ => ⟨fun _ => hstray _, ?_⟩⟩⟩
  exact fun _ _ => trivial

end Runs
end Proscenium.Dm.Incoming
