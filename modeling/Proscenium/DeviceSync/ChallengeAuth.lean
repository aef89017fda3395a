import Proscenium.DeviceSync.ChallengeDefs
import Proscenium.Types.ChecksumScheme

/-! Who can pass the two verifications of a device sync. Both ends sign the
same bytes, and the responder puts nothing of its own into them, so a pair of
challenge and signature is good for anyone who has seen it. The exchange
authenticates both ends in every run in which the attacker presents no pair
that a device has sent on some connection. -/

namespace Proscenium.DeviceSync

open Proscenium.Types

variable {σ V F : Type}

namespace Connection

variable (c : Connection V F)

/-- The pairs of challenge and signature that devices sent on this connection. -/
def recorded : List (Bytes × String) :=
  let own := match c.initiator with
    | .device _ => [(c.request.challenge, c.request.challengeSig)]
    | .attacker => []
  let answer := match c.responder, c.response with
    | .device _, some (.deviceSyncAccepted r _) => [(c.request.challenge, r)]
    | _, _ => []
  own ++ answer

def Synced : Prop := c.initiatorCheck = some (.ok ())

def Accepted : Prop := c.responderCheck = some (.ok ())

instance : Decidable c.Synced := inferInstanceAs (Decidable (_ = _))

instance : Decidable c.Accepted := inferInstanceAs (Decidable (_ = _))

end Connection

namespace Network

variable (w : Network σ V F)

def recorded : List (Bytes × String) := w.connections.flatMap Connection.recorded

def presented : Label σ V F → Option (Bytes × String)
  | .attackerRequest _ request => some (request.challenge, request.challengeSig)
  | .attackerResponse i (.deviceSyncAccepted r _) _ =>
    w.connections[i]?.map fun c => (c.request.challenge, r)
  | _ => none

def FreshChallenge : Label σ V F → Prop
  | .syncWithDevice _ _ challenge => ∀ c ∈ w.connections, c.request.challenge ≠ challenge.toList
  | _ => True

/-- Without the key, a signature that verifies is one that a device made. -/
def Unforgeable (S : SignatureCrates) (signingPubkey : PublicKey) (a : Label σ V F) : Prop :=
  ∀ p ∈ w.presented a, verifyDeviceSyncChallenge S p.1 p.2 signingPubkey = .ok () → p ∈ w.recorded

def NotRecorded (a : Label σ V F) : Prop := ∀ p ∈ w.presented a, p ∉ w.recorded

/-- A check passes only against a device at the other end that took part in this exchange, and
no request is accepted twice. -/
structure Authenticated : Prop where
  synced : ∀ c ∈ w.connections, c.Synced → c.responder ≠ .attacker ∧ c.Accepted
  accepted : ∀ c ∈ w.connections, c.Accepted → c.initiator ≠ .attacker
  once : w.connections.Pairwise fun c c' =>
    c.Accepted → c'.Accepted → c.request.challenge ≠ c'.request.challenge

instance : Decidable w.Authenticated :=
  decidable_of_iff
    ((∀ c ∈ w.connections, c.Synced → c.responder ≠ .attacker ∧ c.Accepted) ∧
      (∀ c ∈ w.connections, c.Accepted → c.initiator ≠ .attacker) ∧
      w.connections.Pairwise fun c c' =>
        c.Accepted → c'.Accepted → c.request.challenge ≠ c'.request.challenge)
    ⟨fun h => ⟨h.1, h.2.1, h.2.2⟩, fun h => ⟨h.synced, h.accepted, h.once⟩⟩

instance : ∀ a : Label σ V F, Decidable (w.FreshChallenge a)
  | .syncWithDevice _ _ _ => inferInstanceAs (Decidable (∀ c ∈ w.connections, _))
  | .attackerRequest _ _ | .handleDeviceSync _ | .attackerResponse _ _ _ | .readResponse _
  | .attackerFrames _ _ | .importDeltas _ | .edit _ _ => isTrue trivial

instance (S : SignatureCrates) (signingPubkey : PublicKey) (a : Label σ V F) :
    Decidable (w.Unforgeable S signingPubkey a) := by
  unfold Unforgeable
  infer_instance

instance (a : Label σ V F) : Decidable (w.NotRecorded a) := by
  unfold NotRecorded
  infer_instance

end Network

variable (S : SignatureCrates) (sign : Bytes → String) (signingPubkey : PublicKey)
  (R : Replica σ V F)

/-- What the exchange on one connection has come to while nothing recorded is presented. -/
structure Connection.Sound (c : Connection V F) : Prop where
  forgedRequest : c.initiator = .attacker →
    verifyDeviceSyncChallenge S c.request.challenge c.request.challengeSig signingPubkey ≠ .ok ()
  forgedResponse : c.responder = .attacker → ∀ r v, c.response = some (.deviceSyncAccepted r v) →
    verifyDeviceSyncChallenge S c.request.challenge r signingPubkey ≠ .ok ()
  answered : c.responder ≠ .attacker → c.response ≠ none → c.Accepted
  synced : c.Synced → c.responder ≠ .attacker ∧ c.Accepted
  accepted : c.Accepted → c.initiator ≠ .attacker

namespace Connection

variable {S signingPubkey} {c : Connection V F}

theorem sound_opened {initiator responder : Party} {request : DeviceSyncRequest V}
    (h : initiator = .attacker →
      verifyDeviceSyncChallenge S request.challenge request.challengeSig signingPubkey ≠ .ok ()) :
    (opened initiator responder request : Connection V F).Sound S signingPubkey where
  forgedRequest := h
  forgedResponse := fun _ _ _ hr => nomatch hr
  answered := fun _ hr => absurd rfl hr
  synced := fun hs => nomatch hs
  accepted := fun ha => nomatch ha

theorem Sound.handleDeviceSync (hc : c.Sound S signingPubkey) {d : Nat}
    (hd : c.responder = .device d) (hnew : c.responderCheck = none) (store : σ) :
    (c.handleDeviceSync S sign signingPubkey R store).Sound S signingPubkey := by
  have hresp : c.responder ≠ .attacker := by rw [hd]; exact nofun
  -- nothing was answered before, so nothing was read by the other end either
  have hnot : ¬ c.Accepted := by unfold Accepted; rw [hnew]; exact nofun
  unfold Connection.handleDeviceSync
  split
  · exact ⟨hc.forgedRequest, hc.forgedResponse, fun _ hr => absurd (hc.answered hresp hr) hnot,
      fun hs => absurd (hc.synced hs).2 hnot, fun ha => nomatch ha⟩
  · rename_i hok
    refine ⟨hc.forgedRequest, fun ha => absurd ha hresp, fun _ _ => rfl, fun _ => ⟨hresp, rfl⟩, ?_⟩
    intro _ hatt
    exact hc.forgedRequest hatt hok

theorem Sound.attackerResponse (hc : c.Sound S signingPubkey) (hatt : c.responder = .attacker)
    {response : PeerResponse V} {frames : List F}
    (hforged : ∀ r v, response = .deviceSyncAccepted r v →
      verifyDeviceSyncChallenge S c.request.challenge r signingPubkey ≠ .ok ()) :
    { c with response := some response, responderFrames := frames : Connection V F }.Sound
      S signingPubkey where
  forgedRequest := hc.forgedRequest
  forgedResponse := fun _ r v hr => hforged r v (Option.some.inj hr)
  answered := fun hne => absurd hatt hne
  synced := hc.synced
  accepted := hc.accepted

theorem Sound.readResponse (hc : c.Sound S signingPubkey) {response : PeerResponse V}
    (hr : c.response = some response) (store : σ) :
    (c.readResponse S signingPubkey R store response).2.Sound S signingPubkey := by
  cases response with
  | other => exact { hc with synced := fun hs => nomatch hs }
  | deviceSyncAccepted r v =>
    simp only [Connection.readResponse]
    split
    · exact { hc with synced := fun hs => nomatch hs }
    · rename_i hok
      have hdev : c.responder ≠ .attacker := fun hatt => hc.forgedResponse hatt r v hr hok
      have hacc : c.Accepted := hc.answered hdev (by rw [hr]; exact nofun)
      exact { hc with synced := fun _ => ⟨hdev, hacc⟩ }

end Connection

/-- Every exchange is sound, and devices never open two connections with one challenge. -/
structure Network.Sound (w : Network σ V F) : Prop where
  each : ∀ c ∈ w.connections, c.Sound S signingPubkey
  fresh : (w.connections.map fun c => (c.initiator, c.request.challenge)).Pairwise fun p q =>
    p.1 ≠ Party.attacker → q.1 ≠ Party.attacker → p.2 ≠ q.2

namespace Network

variable {S signingPubkey} {w : Network σ V F}

theorem Sound.authenticated (hw : w.Sound S signingPubkey) : w.Authenticated where
  synced := fun c hc => (hw.each c hc).synced
  accepted := fun c hc => (hw.each c hc).accepted
  once := by
    have hfresh := List.pairwise_map.mp hw.fresh
    refine hfresh.imp_of_mem ?_
    intro c c' hc hc' h ha ha'
    exact h ((hw.each c hc).accepted ha) ((hw.each c' hc').accepted ha')

theorem Sound.addConnection (hw : w.Sound S signingPubkey) {c : Connection V F}
    (hc : c.Sound S signingPubkey)
    (hfresh : c.initiator ≠ .attacker → ∀ c' ∈ w.connections,
      c'.request.challenge ≠ c.request.challenge) :
    (w.addConnection c).Sound S signingPubkey where
  each := by
    intro c' hc'
    rcases List.mem_append.mp hc' with hc' | hc'
    · exact hw.each c' hc'
    · obtain rfl := List.mem_singleton.mp hc'
      exact hc
  fresh := by
    unfold Network.addConnection
    rw [List.map_append, List.pairwise_append]
    refine ⟨hw.fresh, List.pairwise_singleton _ _, ?_⟩
    intro p hp q hq _ hdev
    obtain ⟨c', hc', rfl⟩ := List.mem_map.mp hp
    obtain rfl := List.mem_singleton.mp hq
    exact hfresh hdev c' hc'

theorem Sound.setConnection (hw : w.Sound S signingPubkey) {i : Nat} {c c' : Connection V F}
    (hi : w.connections[i]? = some c) (hc : c'.Sound S signingPubkey)
    (hkey : c'.initiator = c.initiator ∧ c'.request = c.request) :
    (w.setConnection i c').Sound S signingPubkey where
  each := by
    intro b hb
    rcases List.mem_or_eq_of_mem_set hb with hb | rfl
    · exact hw.each b hb
    · exact hc
  fresh := by
    have hsame : (w.connections.set i c').map (fun c => (c.initiator, c.request.challenge)) =
        w.connections.map fun c => (c.initiator, c.request.challenge) := by
      obtain ⟨hlt, rfl⟩ := List.getElem?_eq_some_iff.mp hi
      rw [List.map_set, hkey.1, hkey.2]
      apply List.ext_getElem
      · simp
      · intro j hj hj'
        rw [List.getElem_set]
        split
        · subst_vars
          simp
        · rfl
    unfold Network.setConnection
    rw [hsame]
    exact hw.fresh

theorem Sound.setStore (hw : w.Sound S signingPubkey) (d : Nat) (store : σ) :
    (w.setStore d store).Sound S signingPubkey := ⟨hw.each, hw.fresh⟩

theorem not_verified {a : Label σ V F} {p : Bytes × String} (hp : p ∈ w.presented a)
    (hunf : w.Unforgeable S signingPubkey a) (hrec : w.NotRecorded a) :
    verifyDeviceSyncChallenge S p.1 p.2 signingPubkey ≠ .ok () :=
  fun hok => hrec p hp (hunf p hp hok)

theorem Sound.step (hw : w.Sound S signingPubkey) {a : Label σ V F} {w' : Network σ V F}
    (hfresh : w.FreshChallenge a) (hunf : w.Unforgeable S signingPubkey a) (hrec : w.NotRecorded a)
    (hstep : w.step S sign signingPubkey R a = some w') : w'.Sound S signingPubkey := by
  cases a with
  | syncWithDevice d target challenge =>
    obtain ⟨store, _, rfl⟩ := Option.map_eq_some_iff.mp hstep
    exact hw.addConnection (Connection.sound_opened fun h => nomatch h) fun _ => hfresh
  | attackerRequest d request =>
    obtain rfl := Option.some.inj hstep
    have hbad := not_verified (p := (request.challenge, request.challengeSig)) rfl hunf hrec
    exact hw.addConnection (Connection.sound_opened fun _ => hbad) fun h => absurd rfl h
  | handleDeviceSync i =>
    obtain ⟨c, hi, hstep⟩ := Option.bind_eq_some_iff.mp hstep
    split at hstep
    · rename_i d hd hnew
      obtain ⟨store, _, rfl⟩ := Option.map_eq_some_iff.mp hstep
      have hc := hw.each c (List.mem_of_getElem? hi)
      refine hw.setConnection hi (hc.handleDeviceSync sign R hd hnew store) ?_
      unfold Connection.handleDeviceSync
      split <;> exact ⟨rfl, rfl⟩
    · cases hstep
  | attackerResponse i response frames =>
    obtain ⟨c, hi, hstep⟩ := Option.bind_eq_some_iff.mp hstep
    split at hstep
    · rename_i hatt _
      obtain rfl := Option.some.inj hstep
      have hc := hw.each c (List.mem_of_getElem? hi)
      refine hw.setConnection hi (hc.attackerResponse hatt ?_) ⟨rfl, rfl⟩
      rintro r v rfl
      have hp : (c.request.challenge, r) ∈ w.presented (.attackerResponse i
          (.deviceSyncAccepted r v) frames) := Option.map_eq_some_iff.mpr ⟨c, hi, rfl⟩
      exact not_verified hp hunf hrec
    · cases hstep
  | readResponse i =>
    obtain ⟨c, hi, hstep⟩ := Option.bind_eq_some_iff.mp hstep
    split at hstep
    · rename_i d response _ hresp _
      obtain ⟨store, _, rfl⟩ := Option.map_eq_some_iff.mp hstep
      have hc := hw.each c (List.mem_of_getElem? hi)
      refine (hw.setConnection hi (hc.readResponse R hresp store) ?_).setStore _ _
      unfold Connection.readResponse
      split
      · exact ⟨rfl, rfl⟩
      · split <;> exact ⟨rfl, rfl⟩
    · cases hstep
  | attackerFrames i frames =>
    obtain ⟨c, hi, hstep⟩ := Option.bind_eq_some_iff.mp hstep
    split at hstep
    · obtain rfl := Option.some.inj hstep
      have hc := hw.each c (List.mem_of_getElem? hi)
      exact hw.setConnection hi { hc with } ⟨rfl, rfl⟩
    · cases hstep
  | importDeltas i =>
    obtain ⟨c, hi, hstep⟩ := Option.bind_eq_some_iff.mp hstep
    split at hstep
    · obtain ⟨store, _, rfl⟩ := Option.map_eq_some_iff.mp hstep
      exact hw.setStore _ _
    · cases hstep
  | edit d store =>
    obtain rfl := Option.some.inj hstep
    exact hw.setStore _ _

end Network

/-- Along every run of any number of exchanges in which challenges are fresh, signatures cannot
be forged and the attacker presents nothing recorded, both verifications authenticate. -/
theorem device_sync_authenticated {stores : List σ} {run : List (Label σ V F)}
    {w : Network σ V F}
    (hfresh : Machine.Along (Network.step S sign signingPubkey R) Network.FreshChallenge
      ⟨stores, []⟩ run)
    (hunforgeable : Machine.Along (Network.step S sign signingPubkey R)
      (fun w a => w.Unforgeable S signingPubkey a) ⟨stores, []⟩ run)
    (hnotRecorded : Machine.Along (Network.step S sign signingPubkey R) Network.NotRecorded
      ⟨stores, []⟩ run)
    (hrun : Machine.exec (Network.step S sign signingPubkey R) ⟨stores, []⟩ run = some w) :
    w.Authenticated := by
  have hstart : Network.Sound S signingPubkey (⟨stores, []⟩ : Network σ V F) :=
    ⟨fun _ h => (nomatch h), List.Pairwise.nil⟩
  have hall := (hfresh.and hunforgeable).and hnotRecorded
  refine (Machine.exec_invariant ?_ hstart hall hrun).authenticated
  intro u a u' hu hok hstep
  exact hu.step sign R hok.1.1 hok.1.2 hok.2 hstep

section Runs

/-- The bookmarks of a store, newest first. -/
def bookmarkReplica : Replica (List String) (List String) (List String) where
  buildDeviceSyncVector := id
  sendDeltas := fun _ ours peer =>
    let deltas := ours.filter fun id => id ∉ peer
    if deltas = [] then [] else [deltas]
  importDeltas := fun store frames =>
    frames.flatten.foldl (fun st id => if id ∈ st then st else id :: st) store

def signingSign (msg : Bytes) : String := hexEncode (checksumSign "signing key" msg)

def signingKey : PublicKey := ⟨⟨keyBytes "signing key"⟩, by simp [keyBytes]⟩

abbrev bookmarkStep := Network.step checksumCrates signingSign signingKey bookmarkReplica

abbrev twoDevices : Network (List String) (List String) (List String) := ⟨[["a"], ["b"]], []⟩

def challengeOf (n : UInt8) : Vector UInt8 32 := Vector.replicate 32 n

def challengeSigOf (n : UInt8) : String :=
  signDeviceSyncChallenge signingSign (challengeOf n).toList

/-- Two devices sync while the attacker sends each of them a signature of another challenge. -/
abbrev attackedRun : List (Label (List String) (List String) (List String)) :=
  [.syncWithDevice 0 (.device 1) (challengeOf 1), .syncWithDevice 0 .attacker (challengeOf 2),
    .attackerRequest 1 ⟨[], challengeSigOf 1, []⟩, .handleDeviceSync 0, .handleDeviceSync 2,
    .attackerResponse 1 (.deviceSyncAccepted (challengeSigOf 1) []) [["c"]], .readResponse 0,
    .readResponse 1, .importDeltas 0]

theorem device_sync_authenticated_attacked :
    ∃ w, Machine.exec bookmarkStep twoDevices attackedRun = some w ∧
      w.stores = [["b", "a"], ["a", "b"]] ∧ w.Authenticated := by
  have hassumed : Machine.Along bookmarkStep Network.FreshChallenge twoDevices attackedRun ∧
      Machine.Along bookmarkStep (fun w a => w.Unforgeable checksumCrates signingKey a)
        twoDevices attackedRun ∧
      Machine.Along bookmarkStep Network.NotRecorded twoDevices attackedRun ∧
      (Machine.exec bookmarkStep twoDevices attackedRun).map Network.stores =
        some [["b", "a"], ["a", "b"]] := by decide +kernel
  obtain ⟨hfresh, hunf, hnot, hstores⟩ := hassumed
  obtain ⟨w, hw, hw'⟩ := Option.map_eq_some_iff.mp hstores
  exact ⟨w, hw, hw', device_sync_authenticated _ _ _ _ hfresh hunf hnot hw⟩

/-- The attacker answers a device with the device's own signature. -/
abbrev echoRun : List (Label (List String) (List String) (List String)) :=
  [.syncWithDevice 0 .attacker (challengeOf 1),
    .attackerResponse 0 (.deviceSyncAccepted (challengeSigOf 1) []) [["c"]], .readResponse 0]

/-- The attacker sends a request it was sent before to another device. -/
abbrev replayRun : List (Label (List String) (List String) (List String)) :=
  [.syncWithDevice 0 .attacker (challengeOf 1),
    .attackerRequest 1 ⟨(challengeOf 1).toList, challengeSigOf 1, []⟩, .handleDeviceSync 1]

theorem not_device_sync_authenticated_echo_replay :
    (Machine.Along bookmarkStep Network.FreshChallenge twoDevices echoRun ∧
      Machine.Along bookmarkStep (fun w a => w.Unforgeable checksumCrates signingKey a) twoDevices echoRun ∧
      ∃ w ∈ Machine.exec bookmarkStep twoDevices echoRun, ¬ w.Authenticated) ∧
    (Machine.Along bookmarkStep Network.FreshChallenge twoDevices replayRun ∧
      Machine.Along bookmarkStep (fun w a => w.Unforgeable checksumCrates signingKey a) twoDevices
        replayRun ∧
      ∃ w ∈ Machine.exec bookmarkStep twoDevices replayRun, ¬ w.Authenticated) := by
  decide +kernel

end Runs

end Proscenium.DeviceSync
