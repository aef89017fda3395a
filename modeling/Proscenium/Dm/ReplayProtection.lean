import Proscenium.Dm.ForgedEnvelopes

/-! Replayed envelopes. Every key that a session has stored or derived is stored
now or was spent on a message whose state was kept. If the keys of a run are
distinct, a spent key never comes back, so the message it opened is refused
from then on. A message that the handler gives up on before it keeps the state
spends no key. -/

namespace Proscenium.Dm.Incoming

open Crypto Proscenium.Types

section Definitions

variable (C : Crates) (X : SealCrates)

def session (peer : String) (m : Mailbox) : Option RatchetState :=
  (m.getRatchetSession peer).bind X.openRatchetState

/-- `decrypt` returns `Ok` while the envelope is handled. -/
def accepts (a : Arrival) (m : Mailbox) : Bool :=
  match openEnvelope C X a.envelope.sender a m with
  | some (.ok _) => true
  | _ => false

def acceptedKeys (a : Arrival) (m : Mailbox) : List Bytes32 :=
  if accepts C X a m then
    ((session X a.envelope.sender m).bind fun st =>
      (wireToRatchetHeader X a.envelope.ratchetHeader).map (st.derivedKeys C)).getD []
  else []

variable (debug : Bool) (me : String)

def after (a : Arrival) (m : Mailbox) : Mailbox :=
  (handleEncryptedMessage C X debug me a.envelope.sender a m).mailbox

def afterAll (arrivals : List Arrival) (m : Mailbox) : Mailbox :=
  arrivals.foldl (fun m a => after C X debug me a m) m

/-- The envelope is accepted, and the handler stores the state after it. -/
def keeps (a : Arrival) (m : Mailbox) : Bool :=
  match openEnvelope C X a.envelope.sender a m with
  | some (.ok (st, _)) =>
    (after C X debug me a m).getRatchetSession a.envelope.sender = some (X.sealRatchetState a.nonce st)
  | _ => false

def keptKeys (peer : String) : List Arrival → Mailbox → List Bytes32
  | [], _ => []
  | a :: arrivals, m =>
    (if a.envelope.sender = peer ∧ keeps C X debug me a m = true then acceptedKeys C X a m else []) ++
      keptKeys peer arrivals (after C X debug me a m)

/-- The message keys of the session in a run with one more envelope at its end: the stored ones at
its beginning, and those derived since. -/
def sessionKeys (peer : String) (run : List Arrival) (last : Arrival) (m : Mailbox) : List Bytes32 :=
  (session X peer m).elim [] RatchetState.storedKeys ++ keptKeys C X debug me peer run m ++
    acceptedKeys C X last (afterAll C X debug me run m)

end Definitions

variable {C : Crates} {X : SealCrates} {debug : Bool} {me peer : String} {a : Arrival} {m : Mailbox}

theorem getRatchetSession_save (dm stateJson : String) (now : UInt64) (m : Mailbox) :
    (m.saveRatchetSession dm stateJson now).getRatchetSession peer =
      if peer = dm then some stateJson else m.getRatchetSession peer := by
  let f : SessionRow → SessionRow := fun r => { r with stateJson := stateJson, updatedAt := now }
  have hkey : ∀ r, (f r).peerPubkey = r.peerPubkey := fun _ => rfl
  unfold Mailbox.getRatchetSession Mailbox.saveRatchetSession
  split
  next heq =>
    subst heq
    have hnew : ∀ r : SessionRow, r.peerPubkey = peer → f r = ⟨peer, stateJson, now⟩ := by
      rintro r rfl
      rfl
    exact congrArg (Option.map SessionRow.stateJson) (Table.find_upsert_replace hkey hnew rfl m.sessions)
  next hne =>
    have hnew : (⟨dm, stateJson, now⟩ : SessionRow).peerPubkey = dm := rfl
    exact congrArg (Option.map SessionRow.stateJson) (Table.find_upsert_of_ne hkey hnew hne m.sessions)

theorem sessions_receive (dm master stateJson : String) (now : UInt64) (msg : StoredMessage)
    (preview : String) (m : Mailbox) :
    (m.receiveDmMessageAtomically dm master stateJson now msg preview).sessions =
      (m.saveRatchetSession dm stateJson now).sessions := by
  unfold Mailbox.receiveDmMessageAtomically Mailbox.insertDmMessage
  dsimp only
  split
  · rfl
  · rfl

theorem sessions_dispatch (me peerDm : String) (a : Arrival) (st : RatchetState) (payload : DmPayload) (m : Mailbox) :
    (dispatch X me peerDm a st payload m).mailbox.sessions = m.sessions ∨
      (dispatch X me peerDm a st payload m).mailbox.sessions = (saved X peerDm a st m).sessions := by
  cases payload with
  | message msg =>
    unfold dispatch receiveMessage
    dsimp only
    split
    · exact .inl rfl
    · split
      · exact .inl rfl
      · split
        · split
          · exact .inr (sessions_receive ..)
          · exact .inr (sessions_receive ..)
        · exact .inl rfl
  | _ => exact .inr rfl

theorem getRatchetSession_of_sessions {m m' : Mailbox} (h : m'.sessions = m.sessions) (peer : String) :
    m'.getRatchetSession peer = m.getRatchetSession peer := by
  unfold Mailbox.getRatchetSession
  rw [h]

/-- What one envelope does to the session with a peer: nothing, unless the peer sent it and its
state is kept. -/
theorem session_after (peer : String) :
    (a.envelope.sender = peer ∧ keeps C X debug me a m = true) ∨
      (after C X debug me a m).getRatchetSession peer = m.getRatchetSession peer := by
  unfold after
  rcases handleEncryptedMessage_cases (C := C) (X := X) (a := a) (m := m) with
    ⟨st, plaintext, payload, hok, -, hhandle⟩ | ⟨hsame, -⟩
  · rcases sessions_dispatch me a.envelope.sender a st payload m with hnone | hsaved
    · rw [hhandle]
      exact .inr (getRatchetSession_of_sessions hnone peer)
    · have hrow := getRatchetSession_of_sessions hsaved
      by_cases hsender : a.envelope.sender = peer
      · refine .inl ⟨hsender, ?_⟩
        unfold keeps after
        rw [hok, hhandle, hrow]
        dsimp only
        rw [saved, getRatchetSession_save, if_pos rfl]
        simp
      · rw [hhandle, hrow, saved, getRatchetSession_save, if_neg (Ne.symm hsender)]
        exact .inr rfl
  · rw [hsame]
    exact .inr rfl

/-- The stored keys of the session and the spent ones are these keys. -/
def Accounted (X : SealCrates) (peer : String) (keys spent : List Bytes32) (m : Mailbox) : Prop :=
  ∀ st, session X peer m = some st → (st.storedKeys ++ spent).Perm keys

/-- An accepted envelope was read by the session of its sender, with one of the keys that are stored
or derived. -/
theorem reads_of_openEnvelope {st' : RatchetState} {plaintext : Crypto.Bytes}
    (h : openEnvelope C X a.envelope.sender a m = some (.ok (st', plaintext))) :
    ∃ st key, session X a.envelope.sender m = some st ∧
      decryptMessage C key a.envelope.ciphertext = .ok plaintext ∧
      (st'.storedKeys ++ [key]).Perm (st.storedKeys ++ acceptedKeys C X a m) := by
  obtain ⟨stored, st, header, hstored, hst, hheader, hdec⟩ := openEnvelope_eq_ok.mp h
  obtain ⟨key, -, hopen, hperm⟩ := RatchetState.decrypt_reads hdec
  have hsession : session X a.envelope.sender m = some st := by
    unfold session
    rw [hstored]
    exact hst
  refine ⟨st, key, hsession, hopen, ?_⟩
  have haccepts : accepts C X a m = true := by
    unfold accepts
    rw [h]
  have hkeys : acceptedKeys C X a m = st.derivedKeys C header := by
    unfold acceptedKeys
    rw [if_pos haccepts, hsession, Option.bind_some, hheader]
    rfl
  rw [hkeys]
  exact hperm

def OpensSealed (X : SealCrates) : Prop :=
  ∀ nonce st st', X.openRatchetState (X.sealRatchetState nonce st) = some st' → st' = st

theorem session_of_keeps (hseal : OpensSealed X) (h : keeps C X debug me a m = true) :
    ∃ st' plaintext, openEnvelope C X a.envelope.sender a m = some (.ok (st', plaintext)) ∧
      ∀ st, session X a.envelope.sender (after C X debug me a m) = some st → st = st' := by
  unfold keeps at h
  split at h
  next st' plaintext hok =>
    refine ⟨st', plaintext, hok, fun st hst => ?_⟩
    unfold session at hst
    rw [of_decide_eq_true h, Option.bind_some] at hst
    exact hseal _ _ _ hst
  next => cases h

theorem Accounted.handle {keys spent : List Bytes32} (hseal : OpensSealed X) (h : Accounted X peer keys spent m)
    (debug : Bool) (me : String) (a : Arrival) :
    ∃ more, Accounted X peer
      (keys ++ if a.envelope.sender = peer ∧ keeps C X debug me a m = true then acceptedKeys C X a m else [])
      (spent ++ more) (after C X debug me a m) ∧
      (a.envelope.sender = peer → keeps C X debug me a m = true → ∃ key plaintext, key ∈ more ∧
        decryptMessage C key a.envelope.ciphertext = .ok plaintext) := by
  by_cases hkept : a.envelope.sender = peer ∧ keeps C X debug me a m = true
  · rw [if_pos hkept]
    obtain ⟨rfl, hkeeps⟩ := hkept
    obtain ⟨st', plaintext, hok, hafter⟩ := session_of_keeps hseal hkeeps
    obtain ⟨st, key, hst, hopen, hperm⟩ := reads_of_openEnvelope hok
    refine ⟨[key], fun st'' hst'' => ?_, fun _ _ => ⟨key, plaintext, List.mem_singleton_self key, hopen⟩⟩
    obtain rfl := hafter st'' hst''
    -- the spent key moves from the stored or derived ones to the spent ones
    have hmoved : (st''.storedKeys ++ (spent ++ [key])).Perm ((st''.storedKeys ++ [key]) ++ spent) := by
      rw [List.append_assoc]
      exact List.perm_append_comm.append_left _
    have hswap : ((st.storedKeys ++ acceptedKeys C X a m) ++ spent).Perm
        ((st.storedKeys ++ spent) ++ acceptedKeys C X a m) := by
      rw [List.append_assoc, List.append_assoc]
      exact List.perm_append_comm.append_left _
    exact hmoved.trans ((hperm.append_right spent).trans (hswap.trans ((h st hst).append_right _)))
  · rw [if_neg hkept, List.append_nil]
    have hsame : (after C X debug me a m).getRatchetSession peer = m.getRatchetSession peer :=
      (session_after peer).resolve_left hkept
    refine ⟨[], fun st hst => ?_, fun hsender hkeeps => absurd ⟨hsender, hkeeps⟩ hkept⟩
    rw [List.append_nil]
    unfold session at hst
    rw [hsame] at hst
    exact h st hst

theorem Accounted.handleAll {keys spent : List Bytes32} (hseal : OpensSealed X) (debug : Bool) (me : String)
    (run : List Arrival) (h : Accounted X peer keys spent m) :
    ∃ more, Accounted X peer (keys ++ keptKeys C X debug me peer run m) (spent ++ more)
      (afterAll C X debug me run m) := by
  induction run generalizing m keys spent with
  | nil =>
    refine ⟨[], ?_⟩
    rw [keptKeys, List.append_nil, List.append_nil]
    exact h
  | cons a run ih =>
    obtain ⟨first, hfirst, -⟩ := h.handle (C := C) hseal debug me a
    obtain ⟨rest, hrest⟩ := ih hfirst
    refine ⟨first ++ rest, ?_⟩
    rw [keptKeys, ← List.append_assoc, ← List.append_assoc]
    exact hrest

theorem keptKeys_append (run run' : List Arrival) (m : Mailbox) :
    keptKeys C X debug me peer (run ++ run') m =
      keptKeys C X debug me peer run m ++ keptKeys C X debug me peer run' (afterAll C X debug me run m) := by
  induction run generalizing m with
  | nil => rfl
  | cons a run ih =>
    rw [List.cons_append, keptKeys, keptKeys, ih, List.append_assoc]
    rfl

theorem Accounted.unspent {keys spent : List Bytes32} (h : Accounted X a.envelope.sender keys spent m)
    (hnodup : (keys ++ acceptedKeys C X a m).Nodup) {st' : RatchetState} {plaintext : Crypto.Bytes}
    (hok : openEnvelope C X a.envelope.sender a m = some (.ok (st', plaintext))) :
    ∃ key, key ∉ spent ∧ decryptMessage C key a.envelope.ciphertext = .ok plaintext := by
  obtain ⟨st, key, hst, hopen, hperm⟩ := reads_of_openEnvelope hok
  refine ⟨key, fun hspent => ?_, hopen⟩
  have hall : ((st.storedKeys ++ spent) ++ acceptedKeys C X a m).Nodup :=
    ((h st hst).append_right _).nodup_iff.mpr hnodup
  have hmem : key ∈ st.storedKeys ++ acceptedKeys C X a m :=
    hperm.mem_iff.mp (List.mem_append_right _ (List.mem_singleton_self key))
  have hdisjoint := List.nodup_append'.mp hall
  rcases List.mem_append.mp hmem with hstored | hderived
  · exact (List.nodup_append'.mp hdisjoint.1).2.2 hstored hspent
  · exact hdisjoint.2.2 (List.mem_append_right _ hspent) hderived

/-- Once the state after a genuine message is stored, the message is not accepted again, under any
header and after any further envelopes. -/
theorem kept_not_accepted_again {run between : List Arrival} {first again : Arrival} {key : Bytes32}
    {plaintext : Crypto.Bytes} (hC : C.OpensOwnKey) (hseal : OpensSealed X)
    (hnodup : (sessionKeys C X debug me first.envelope.sender (run ++ first :: between) again m).Nodup)
    (hgenuine : first.envelope.ciphertext = encryptMessage C key plaintext)
    (hkept : keeps C X debug me first (afterAll C X debug me run m) = true)
    (hsender : again.envelope.sender = first.envelope.sender)
    (hreplay : again.envelope.ciphertext = first.envelope.ciphertext) :
    accepts C X again (afterAll C X debug me (run ++ first :: between) m) = false := by
  have hstart : Accounted X first.envelope.sender
      ((session X first.envelope.sender m).elim [] RatchetState.storedKeys) [] m := by
    intro st hst
    rw [hst, List.append_nil]
    exact List.Perm.refl _
  obtain ⟨before, hbefore⟩ := hstart.handleAll (C := C) hseal debug me run
  obtain ⟨more, hfirst, hopens⟩ := hbefore.handle (C := C) hseal debug me first
  obtain ⟨spentKey, opened, hspent, hopen⟩ := hopens rfl hkept
  obtain ⟨rest, hrest⟩ := hfirst.handleAll (C := C) hseal debug me between
  rw [hgenuine] at hopen
  obtain rfl := key_of_opens hC hopen
  have hend : afterAll C X debug me (run ++ first :: between) m =
      afterAll C X debug me between (after C X debug me first (afterAll C X debug me run m)) := by
    unfold afterAll
    rw [List.foldl_append, List.foldl_cons]
  by_contra haccepts
  rw [Bool.not_eq_false] at haccepts
  unfold accepts at haccepts
  split at haccepts
  next out hok =>
    rw [sessionKeys, keptKeys_append, keptKeys, ← List.append_assoc, ← List.append_assoc] at hnodup
    rw [hend] at hok hnodup
    rw [← hsender] at hrest hnodup
    obtain ⟨key, hunspent, hagain⟩ := hrest.unspent hnodup hok
    rw [hreplay, hgenuine] at hagain
    obtain rfl := key_of_opens hC hagain
    apply hunspent
    exact List.mem_append_left _ (List.mem_append_right _ hspent)
  next => cases haccepts

section Runs

open Delivery (sampleMessage sampleSeal messageBytes aliceStart bobKnows bobStart bobLater)

theorem opensSealed_sampleSeal : OpensSealed sampleSeal := by
  intro nonce st st' h
  have hnames : "later" ≠ "start" ∧ "other" ≠ "start" ∧ "other" ≠ "later" := by decide
  unfold sampleSeal at h
  dsimp only at h
  by_cases hstart : st = bobStart
  · simpa [hstart, eq_comm] using h
  · by_cases hlater : st = bobLater
    · have hfirst : bobLater ≠ bobStart := hlater ▸ hstart
      simpa [hlater, hfirst, hnames, eq_comm] using h
    · simp [hstart, hlater, hnames] at h

def aliceKey : Bytes32 := messageKeyAt additiveCrates (aliceStart.chainKeySend.getD aliceStart.rootKey) 0

/-- Bob keeps Alice's message after a stray one, and her message comes twice again. -/
theorem kept_not_accepted_again_alice :
    accepts additiveCrates sampleSeal aliceArrival (afterAll additiveCrates sampleSeal false "b"
      ([strayArrival] ++ aliceArrival :: [strayArrival, aliceArrival]) bobKnows) = false := by
  have hnodup : (sessionKeys additiveCrates sampleSeal false "b" "da"
      ([strayArrival] ++ aliceArrival :: [strayArrival, aliceArrival]) aliceArrival bobKnows).Nodup := by decide +kernel
  have hgenuine : aliceArrival.envelope.ciphertext =
      encryptMessage additiveCrates aliceKey (messageBytes sampleMessage) := by decide +kernel
  have hkept : keeps additiveCrates sampleSeal false "b" aliceArrival
      (afterAll additiveCrates sampleSeal false "b" [strayArrival] bobKnows) = true := by decide +kernel
  exact kept_not_accepted_again opensOwnKey_additiveCrates opensSealed_sampleSeal hnodup hgenuine hkept rfl rfl

/-- Bob has the session with Alice, but not her delegation. -/
def bobUnaware : Mailbox := { bobKnows with peerDelegations := [] }

/-- Alice's message is accepted twice: the first time the handler stops at her missing master key. -/
theorem not_accepted_once_unaware :
    accepts additiveCrates sampleSeal aliceArrival bobUnaware = true ∧
    accepts additiveCrates sampleSeal aliceArrival
      (afterAll additiveCrates sampleSeal false "b" [aliceArrival] bobUnaware) = true ∧
    aliceArrival.envelope.ciphertext = encryptMessage additiveCrates aliceKey (messageBytes sampleMessage) ∧
    (sessionKeys additiveCrates sampleSeal false "b" "da" [aliceArrival] aliceArrival bobUnaware).Nodup := by
  decide +kernel

end Runs
end Proscenium.Dm.Incoming
