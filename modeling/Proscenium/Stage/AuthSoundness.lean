import Proscenium.Lib.HashChain
import Proscenium.Stage.AuthCompleteness

/-! What a listener may conclude from `Verified`. After the first checkpoint the
chain vouches for every payload; the first checkpoint itself is taken on its
signature, which says nothing about the payload it comes with. -/

namespace Proscenium.Stage

open Proscenium.Types HashChain

section Host

variable (C : AuthCrates)

def pairInput (hash : Hash) (opus : Bytes) : Bytes := hash.toList ++ opus

theorem pairInput_inj {h h' : Hash} {m m' : Bytes} (heq : pairInput h m = pairInput h' m') :
    h = h' ∧ m = m' := by
  have hlength : h.toList.length = h'.toList.length := by simp
  obtain ⟨hhash, hopus⟩ := List.append_inj heq hlength
  exact ⟨Vector.toList_inj.mp hhash, hopus⟩

def hostChain (packets : List Bytes) : Hash := chain C.sha256 pairInput zeroHash packets

/-- The hashes a host signs for its packets. -/
def HostAuthState.signedHashes (s : HostAuthState) : List Bytes → List Hash
  | [] => []
  | opus :: rest =>
    let s' := (s.process C opus).2
    if s'.sequence % checkpointInterval = 0 then s'.chainHash :: signedHashes s' rest
    else signedHashes s' rest

/-- What `verify_frame` hashes, call by call. -/
def ListenerAuthState.hashed (s : ListenerAuthState) : List Frame → List Bytes
  | [] => []
  | f :: fs =>
    (if s.compromised || !s.verified then [] else [pairInput s.chainHash f.opus]) ++
      hashed (s.verifyFrame C f).2 fs

/-- For each call that returns `Verified`, the payloads it vouches for: those accepted since the
call before that did, and its own. `acc` has been accepted so far. -/
def ListenerAuthState.segments (s : ListenerAuthState) (acc : List Bytes) :
    List Frame → List (List Bytes)
  | [] => []
  | f :: fs =>
    let s' := (s.verifyFrame C f).2
    match (s.verifyFrame C f).1 with
    | .verified => (acc ++ [f.opus]) :: segments s' [] fs
    | .ok => segments s' (acc ++ [f.opus]) fs
    | .unverified | .tamperDetected | .invalidSignature => segments s' acc fs

/-- Consecutive packets of the host that end at one of its checkpoints. -/
def Genuine (packets segment : List Bytes) : Prop :=
  ∃ before after, packets = before ++ segment ++ after ∧
    isCheckpoint (before ++ segment).length = true

/-- Whatever the relay makes of the frames, `Verified` vouches for the host's own packets. -/
def Sound (hostPubkey : PublicKey) (packets : List Bytes) (fed : List Frame) : Prop :=
  ∀ segment ∈ (ListenerAuthState.new hostPubkey).segments C [] fed, Genuine packets segment

/-- Of the first frame with a checkpoint: if the signature is the host's, the payload is that of a
checkpoint of the host. -/
def FirstGenuine (hostPubkey : PublicKey) (packets : List Bytes) (fed : List Frame) : Prop :=
  ∀ f, fed.find? (·.checkpoint.isSome) = some f → ∀ hash sig, f.checkpoint = some (hash, sig) →
    C.verify hostPubkey hash.toList sig = true → Genuine packets [f.opus]

/-- SHA-256 has no collision among what the host and the listener hash, and gives no zero there;
what verifies in the frames was signed by the host for its packets. -/
structure Secure (key : SecretKey) (packets : List Bytes) (fed : List Frame) : Prop where
  binding : Binding C.sha256 zeroHash {b | b ∈ inputs C.sha256 pairInput zeroHash packets ∨
    b ∈ (ListenerAuthState.new (C.publicKey key)).hashed C fed}
  unforged : ∀ f ∈ fed, ∀ hash sig, f.checkpoint = some (hash, sig) →
    C.verify (C.publicKey key) hash.toList sig = true →
      hash ∈ (HostAuthState.new key).signedHashes C packets

end Host

section Chain

variable {C : AuthCrates} {key : SecretKey} {packets : List Bytes}

theorem hostChain_concat (before : List Bytes) (opus : Bytes) :
    hostChain C (before ++ [opus]) = extendChain C (hostChain C before) opus := by
  unfold hostChain
  rw [chain_concat]
  rfl

theorem process_chainHash {s : HostAuthState} {before : List Bytes}
    (h : s.chainHash = hostChain C before) (opus : Bytes) :
    (s.process C opus).2.chainHash = hostChain C (before ++ [opus]) := by
  rw [hostChain_concat, ← h]
  rfl

theorem process_sequence {s : HostAuthState} {before : List Bytes}
    (h : s.sequence = UInt64.ofNat before.length) (opus : Bytes) :
    (s.process C opus).2.sequence = UInt64.ofNat (before ++ [opus]).length := by
  rw [List.length_append, List.length_singleton, UInt64.ofNat_add, ← h]
  rfl

theorem exists_of_mem_signedHashes {s : HostAuthState} {before rest : List Bytes} {hash : Hash}
    (hchain : s.chainHash = hostChain C before) (hsequence : s.sequence = UInt64.ofNat before.length)
    (hmem : hash ∈ s.signedHashes C rest) : ∃ signed after, before ++ rest = signed ++ after ∧
      isCheckpoint signed.length = true ∧ hash = hostChain C signed := by
  induction rest generalizing s before with
  | nil => exact absurd hmem List.not_mem_nil
  | cons opus rest ih =>
    have hsplit : before ++ opus :: rest = (before ++ [opus]) ++ rest := by simp
    have hchain' := process_chainHash hchain opus
    have hsequence' := process_sequence (C := C) hsequence opus
    rw [hsplit]
    rw [HostAuthState.signedHashes] at hmem
    split at hmem
    next hcheckpoint =>
      rcases List.mem_cons.mp hmem with rfl | hrest
      · refine ⟨before ++ [opus], rest, rfl, ?_, hchain'⟩
        rw [isCheckpoint, ← hsequence']
        exact decide_eq_true hcheckpoint
      · exact ih hchain' hsequence' hrest
    next => exact ih hchain' hsequence' hmem

theorem exists_of_signed {hash : Hash} (hmem : hash ∈ (HostAuthState.new key).signedHashes C packets) :
    ∃ signed after, packets = signed ++ after ∧ isCheckpoint signed.length = true ∧
      hash = hostChain C signed := by
  have hchain : (HostAuthState.new key).chainHash = hostChain C [] := rfl
  exact exists_of_mem_signedHashes hchain rfl hmem

theorem hostChain_mem_signedHashes (hne : packets ≠ []) (hcp : isCheckpoint packets.length = true) :
    hostChain C packets ∈ (HostAuthState.new key).signedHashes C packets := by
  have hlast : ∀ (before rest : List Bytes) (s : HostAuthState), rest ≠ [] →
      s.chainHash = hostChain C before → s.sequence = UInt64.ofNat before.length →
      isCheckpoint (before ++ rest).length = true →
        hostChain C (before ++ rest) ∈ s.signedHashes C rest := by
    intro before rest
    induction rest generalizing before with
    | nil => exact fun s hne => absurd rfl hne
    | cons opus rest ih =>
      intro s _ hchain hsequence hcp
      have hsplit : before ++ opus :: rest = (before ++ [opus]) ++ rest := by simp
      have hchain' := process_chainHash hchain opus
      have hsequence' := process_sequence (C := C) hsequence opus
      rw [hsplit] at hcp ⊢
      rw [HostAuthState.signedHashes]
      by_cases hrest : rest = []
      · subst hrest
        rw [List.append_nil] at hcp ⊢
        rw [isCheckpoint, ← hsequence'] at hcp
        rw [if_pos (of_decide_eq_true hcp), hchain']
        exact List.mem_cons_self
      · have hmem := ih (before ++ [opus]) _ hrest hchain' hsequence' hcp
        split
        · exact List.mem_cons_of_mem _ hmem
        · exact hmem
  exact hlast [] packets _ hne rfl rfl hcp

end Chain

namespace ListenerAuthState

variable {C : AuthCrates} {s : ListenerAuthState}

theorem segments_of_compromised (h : s.compromised = true) (acc : List Bytes) (fs : List Frame) :
    s.segments C acc fs = [] := by
  induction fs with
  | nil => rfl
  | cons f fs ih =>
    have hresult : s.verifyFrame C f = (.tamperDetected, s) := by
      unfold verifyFrame
      rw [if_pos h]
    rw [segments, hresult]
    exact ih

def extended (C : AuthCrates) (s : ListenerAuthState) (opus : Bytes) : ListenerAuthState :=
  { s with chainHash := extendChain C s.chainHash opus }

/-- What a listener that has joined does with a frame. -/
theorem verifyFrame_of_verified (htrusted : s.compromised = false) (hverified : s.verified = true)
    (f : Frame) :
    s.verifyFrame C f = (.ok, s.extended C f.opus) ∨
    (∃ sig, f.checkpoint = some ((s.extended C f.opus).chainHash, sig) ∧
      C.verify s.hostPubkey (s.extended C f.opus).chainHash.toList sig = true ∧
      s.verifyFrame C f = (.verified, s.extended C f.opus)) ∨
    ((s.verifyFrame C f).1 = .tamperDetected ∨ (s.verifyFrame C f).1 = .invalidSignature) ∧
      (s.verifyFrame C f).2.compromised = true := by
  unfold verifyFrame
  rw [htrusted, hverified, if_neg Bool.false_ne_true, Bool.not_true, if_neg Bool.false_ne_true]
  dsimp only
  by_cases htag : f.tag = tagNormal
  · rw [if_pos htag, ← htrusted, ← hverified]
    exact .inl rfl
  · rw [if_neg htag]
    cases hcheckpoint : f.checkpoint with
    | none =>
      left
      rw [← htrusted, ← hverified]
      rfl
    | some checkpoint =>
      obtain ⟨hash, sig⟩ := checkpoint
      dsimp only
      by_cases hchain : extendChain C s.chainHash f.opus = hash
      · rw [if_neg (not_not_intro hchain)]
        cases hsig : C.verify s.hostPubkey hash.toList sig with
        | true =>
          right; left
          refine ⟨sig, by rw [← hchain]; rfl, ?_, ?_⟩
          · rw [← hsig, ← hchain]
            rfl
          · rw [if_pos rfl, ← htrusted, ← hverified]
            rfl
        | false =>
          right; right
          rw [if_neg Bool.false_ne_true]
          exact ⟨.inr rfl, rfl⟩
      · rw [if_pos hchain]
        exact .inr (.inr ⟨.inl rfl, rfl⟩)

/-- A listener that has joined takes its next payloads from the host. -/
theorem segments_genuine {key : SecretKey} {packets : List Bytes} {known : Set Bytes}
    (hbinding : Binding C.sha256 zeroHash known)
    (hhost : ∀ b ∈ inputs C.sha256 pairInput zeroHash packets, b ∈ known)
    {fs : List Frame} {acc before after : List Bytes} (htrusted : s.compromised = false)
    (hverified : s.verified = true) (hkey : s.hostPubkey = C.publicKey key)
    (hpackets : packets = before ++ after)
    (hchain : s.chainHash = chain C.sha256 pairInput (hostChain C before) acc)
    (hacc : ∀ b ∈ inputs C.sha256 pairInput (hostChain C before) acc, b ∈ known)
    (hhashed : ∀ b ∈ s.hashed C fs, b ∈ known)
    (hunforged : ∀ f ∈ fs, ∀ hash sig, f.checkpoint = some (hash, sig) →
      C.verify (C.publicKey key) hash.toList sig = true →
        hash ∈ (HostAuthState.new key).signedHashes C packets) :
    ∀ segment ∈ s.segments C acc fs, Genuine packets segment := by
  induction fs generalizing s acc before after with
  | nil => exact fun _ hmem => absurd hmem List.not_mem_nil
  | cons f fs ih =>
    have hinput : pairInput s.chainHash f.opus ∈ known := by
      refine hhashed _ ?_
      rw [hashed, htrusted, hverified]
      exact List.mem_append_left _ List.mem_cons_self
    have hrest : ∀ b ∈ (s.verifyFrame C f).2.hashed C fs, b ∈ known := by
      intro b hb
      refine hhashed b ?_
      rw [hashed]
      exact List.mem_append_right _ hb
    have hunforged' : ∀ g ∈ fs, ∀ hash sig, g.checkpoint = some (hash, sig) →
        C.verify (C.publicKey key) hash.toList sig = true →
          hash ∈ (HostAuthState.new key).signedHashes C packets :=
      fun g hg => hunforged g (List.mem_cons_of_mem _ hg)
    have hextended : (s.extended C f.opus).chainHash =
        chain C.sha256 pairInput (hostChain C before) (acc ++ [f.opus]) := by
      rw [chain_concat, ← hchain]
      rfl
    have hacc' : ∀ b ∈ inputs C.sha256 pairInput (hostChain C before) (acc ++ [f.opus]), b ∈ known := by
      intro b hb
      rw [inputs_append, List.mem_append, ← hchain] at hb
      rcases hb with hb | hb
      · exact hacc b hb
      · obtain rfl := List.mem_singleton.mp hb
        exact hinput
    rw [segments]
    rcases verifyFrame_of_verified htrusted hverified f with
      hok | ⟨sig, hcheckpoint, hsig, hok⟩ | ⟨hbad, hcompromised⟩
    · rw [hok] at hrest ⊢
      exact ih htrusted hverified hkey hpackets hextended hacc' hrest hunforged'
    · rw [hok] at hrest ⊢
      rw [hkey] at hsig
      obtain ⟨signed, after', hsigned, hcp, hhash⟩ :=
        exists_of_signed (hunforged f List.mem_cons_self _ _ hcheckpoint hsig)
      have hbefore : ∀ b ∈ inputs C.sha256 pairInput zeroHash before, b ∈ known :=
        subset_of_append (hpackets ▸ hhost)
      have hsignedInputs : ∀ b ∈ inputs C.sha256 pairInput zeroHash signed, b ∈ known :=
        subset_of_append (hsigned ▸ hhost)
      have hsegment : signed = before ++ (acc ++ [f.opus]) :=
        hbinding.segment pairInput_inj hbefore hacc' hsignedInputs (hextended.symm.trans hhash)
      intro segment hmem
      rcases List.mem_cons.mp hmem with rfl | hmem
      · rw [hsegment] at hsigned hcp
        exact ⟨before, after', hsigned, hcp⟩
      · have hnone : ∀ b ∈ inputs C.sha256 pairInput (hostChain C signed) [], b ∈ known :=
          fun _ hb => absurd hb List.not_mem_nil
        have hstart : (s.extended C f.opus).chainHash =
            chain C.sha256 pairInput (hostChain C signed) [] := hhash
        exact ih (s := s.extended C f.opus) htrusted hverified hkey hsigned hstart hnone hrest
          hunforged' segment hmem
    · have hnone : ∀ acc', (s.verifyFrame C f).2.segments C acc' fs = [] :=
        fun acc' => segments_of_compromised hcompromised acc' fs
      rcases hbad with hbad | hbad
      · rw [hbad]
        exact fun _ hmem => absurd (hnone acc ▸ hmem) List.not_mem_nil
      · rw [hbad]
        exact fun _ hmem => absurd (hnone acc ▸ hmem) List.not_mem_nil

end ListenerAuthState

section Sound

variable {C : AuthCrates} {key : SecretKey} {packets : List Bytes}

theorem verifyFrame_new_none {hostPubkey : PublicKey} {f : Frame} (h : f.checkpoint = none) :
    (ListenerAuthState.new hostPubkey).verifyFrame C f = (.unverified, .new hostPubkey) := by
  simp [ListenerAuthState.verifyFrame, ListenerAuthState.new, h]

theorem verifyFrame_new_some {hostPubkey : PublicKey} {f : Frame} {hash : Hash} {sig : Signature}
    (h : f.checkpoint = some (hash, sig)) :
    (ListenerAuthState.new hostPubkey).verifyFrame C f =
      if C.verify hostPubkey hash.toList sig = true then (.verified, ⟨hash, true, false, hostPubkey⟩)
      else (.invalidSignature, ⟨zeroHash, false, true, hostPubkey⟩) := by
  unfold ListenerAuthState.verifyFrame
  rw [h]
  rfl

theorem sound_cons_none {hostPubkey : PublicKey} {f : Frame} {fs : List Frame}
    (h : f.checkpoint = none) :
    Sound C hostPubkey packets (f :: fs) ↔ Sound C hostPubkey packets fs := by
  unfold Sound
  rw [ListenerAuthState.segments, verifyFrame_new_none h]

theorem firstGenuine_cons_none {hostPubkey : PublicKey} {f : Frame} {fs : List Frame}
    (h : f.checkpoint = none) :
    FirstGenuine C hostPubkey packets (f :: fs) ↔ FirstGenuine C hostPubkey packets fs := by
  unfold FirstGenuine
  rw [List.find?_cons_of_neg (by simp [h])]

theorem sound_iff_of_known {known : Set Bytes} (hbinding : Binding C.sha256 zeroHash known)
    (hhost : ∀ b ∈ inputs C.sha256 pairInput zeroHash packets, b ∈ known) {fed : List Frame}
    (hhashed : ∀ b ∈ (ListenerAuthState.new (C.publicKey key)).hashed C fed, b ∈ known)
    (hunforged : ∀ f ∈ fed, ∀ hash sig, f.checkpoint = some (hash, sig) →
      C.verify (C.publicKey key) hash.toList sig = true →
        hash ∈ (HostAuthState.new key).signedHashes C packets) :
    Sound C (C.publicKey key) packets fed ↔ FirstGenuine C (C.publicKey key) packets fed := by
  induction fed with
  | nil => exact iff_of_true (fun _ hmem => absurd hmem List.not_mem_nil) fun f hf => nomatch hf
  | cons f fs ih =>
    have hunforged' : ∀ g ∈ fs, ∀ hash sig, g.checkpoint = some (hash, sig) →
        C.verify (C.publicKey key) hash.toList sig = true →
          hash ∈ (HostAuthState.new key).signedHashes C packets :=
      fun g hg => hunforged g (List.mem_cons_of_mem _ hg)
    have hrest : ∀ b ∈ ((ListenerAuthState.new (C.publicKey key)).verifyFrame C f).2.hashed C fs,
        b ∈ known := fun b hb => hhashed b (List.mem_append_right _ hb)
    cases hcheckpoint : f.checkpoint with
    | none =>
      rw [verifyFrame_new_none hcheckpoint] at hrest
      rw [sound_cons_none hcheckpoint, firstGenuine_cons_none hcheckpoint]
      exact ih hrest hunforged'
    | some checkpoint =>
      obtain ⟨hash, sig⟩ := checkpoint
      have hfirst : FirstGenuine C (C.publicKey key) packets (f :: fs) ↔
          (C.verify (C.publicKey key) hash.toList sig = true → Genuine packets [f.opus]) := by
        unfold FirstGenuine
        rw [List.find?_cons_of_pos (by simp [hcheckpoint])]
        constructor
        · intro h
          exact h f rfl hash sig hcheckpoint
        · rintro h g ⟨⟩ hash' sig' hsome
          rw [hcheckpoint] at hsome
          cases hsome
          exact h
      rw [hfirst]
      unfold Sound
      rw [ListenerAuthState.segments]
      rw [verifyFrame_new_some hcheckpoint] at hrest ⊢
      by_cases hsig : C.verify (C.publicKey key) hash.toList sig = true
      · rw [if_pos hsig] at hrest ⊢
        rw [forall_prop_of_true hsig]
        dsimp only
        rw [List.nil_append, List.forall_mem_cons]
        -- the rest is the host's whatever the payload of this frame was
        obtain ⟨signed, after, hsigned, -, hhash⟩ :=
          exists_of_signed (hunforged f List.mem_cons_self hash sig hcheckpoint hsig)
        have hnone : ∀ b ∈ inputs C.sha256 pairInput (hostChain C signed) [], b ∈ known :=
          fun _ hb => absurd hb List.not_mem_nil
        have hstart : hash = chain C.sha256 pairInput (hostChain C signed) [] := hhash
        exact and_iff_left (ListenerAuthState.segments_genuine hbinding hhost rfl rfl rfl hsigned
          hstart hnone hrest hunforged')
      · rw [if_neg hsig]
        refine iff_of_true ?_ fun h => absurd h hsig
        intro segment hmem
        rw [ListenerAuthState.segments_of_compromised rfl] at hmem
        exact absurd hmem List.not_mem_nil

end Sound

/-- `Verified` vouches for the host's packets, if the first checkpoint comes with its own. -/
theorem sound_iff_firstGenuine (C : AuthCrates) (key : SecretKey) (packets : List Bytes)
    (fed : List Frame) (h : Secure C key packets fed) :
    Sound C (C.publicKey key) packets fed ↔ FirstGenuine C (C.publicKey key) packets fed :=
  sound_iff_of_known h.binding (fun _ => .inl) (fun _ => .inr) h.unforged

section Examples

def secondOfAudio : List Bytes := List.replicate 50 [7]

/-- The checkpoint at its end, with `opus` for a payload. -/
def checkpointFrame (opus : Bytes) : Frame :=
  ⟨opus, tagCheckpoint, some (hostChain countingCrates secondOfAudio,
    countingCrates.sign zeroHash (hostChain countingCrates secondOfAudio).toList)⟩

theorem hashed_new_singleton (C : AuthCrates) (hostPubkey : PublicKey) (f : Frame) :
    (ListenerAuthState.new hostPubkey).hashed C [f] = [] := by
  simp [ListenerAuthState.hashed, ListenerAuthState.new]

def countHash (n : UInt8) : Hash := ⟨(n :: List.replicate 31 0).toArray, by simp⟩

theorem countHash_injective : Function.Injective countHash := by
  intro m n h
  exact List.head_eq_of_cons_eq (congrArg Vector.toList h)

theorem sha256_pairInput_countHash (n : UInt8) (opus : Bytes) :
    countingCrates.sha256 (pairInput (countHash n) opus) = countHash (n + 1) := rfl

def counts (n : UInt8) : Nat → List UInt8
  | 0 => []
  | k + 1 => (n + 1) :: counts (n + 1) k

theorem map_inputs_counting (n : UInt8) (packets : List Bytes) :
    (inputs countingCrates.sha256 pairInput (countHash n) packets).map countingCrates.sha256 =
      (counts n packets.length).map countHash := by
  induction packets generalizing n with
  | nil => rfl
  | cons opus packets ih =>
    rw [inputs, List.map_cons, extend, sha256_pairInput_countHash, ih]
    rfl

theorem binding_counting {packets : List Bytes} (hnodup : (counts 0 packets.length).Nodup)
    (hzero : 0 ∉ counts 0 packets.length) :
    Binding countingCrates.sha256 zeroHash
      {b | b ∈ inputs countingCrates.sha256 pairInput (countHash 0) packets} := by
  have hcounted := map_inputs_counting 0 packets
  apply Binding.of_nodup
  · rw [hcounted]
    exact hnodup.map countHash_injective
  · rw [hcounted]
    intro hmem
    obtain ⟨n, hn, hhash⟩ := List.mem_map.mp hmem
    obtain rfl : n = 0 := countHash_injective hhash
    exact hzero hn

theorem secure_checkpointFrame (opus : Bytes) :
    Secure countingCrates zeroHash secondOfAudio [checkpointFrame opus] := by
  have hlength : secondOfAudio.length = 50 := List.length_replicate
  constructor
  · have hset : {b | b ∈ inputs countingCrates.sha256 pairInput zeroHash secondOfAudio ∨
        b ∈ (ListenerAuthState.new (countingCrates.publicKey zeroHash)).hashed countingCrates
          [checkpointFrame opus]} =
        {b | b ∈ inputs countingCrates.sha256 pairInput (countHash 0) secondOfAudio} := by
      rw [hashed_new_singleton]
      exact Set.ext fun b => or_iff_left List.not_mem_nil
    rw [hset]
    apply binding_counting
    · rw [hlength]
      decide +kernel
    · rw [hlength]
      decide +kernel
  · intro f hf hash sig hcheckpoint _
    obtain rfl := List.mem_singleton.mp hf
    obtain rfl : hostChain countingCrates secondOfAudio = hash :=
      (Prod.mk.inj (Option.some.inj hcheckpoint)).1
    refine hostChain_mem_signedHashes ?_ ?_
    · exact List.ne_nil_of_length_eq_add_one hlength
    · rw [hlength]
      decide

def twoSeconds : List Bytes := List.replicate 100 [7]

def heardFromCheckpoint : List Frame :=
  checkpointFrame [7] :: (List.replicate 49 ⟨[7], tagNormal, none⟩ ++
    [⟨[7], tagCheckpoint, some (hostChain countingCrates twoSeconds,
      countingCrates.sign zeroHash (hostChain countingCrates twoSeconds).toList)⟩])

theorem secure_heardFromCheckpoint : Secure countingCrates zeroHash twoSeconds heardFromCheckpoint := by
  have hhashed : ∀ b ∈ (ListenerAuthState.new (countingCrates.publicKey zeroHash)).hashed countingCrates
      heardFromCheckpoint, b ∈ inputs countingCrates.sha256 pairInput zeroHash twoSeconds := by decide +kernel
  have hsigned : ∀ f ∈ heardFromCheckpoint, ∀ c ∈ f.checkpoint,
      c.1 ∈ (HostAuthState.new zeroHash).signedHashes countingCrates twoSeconds := by decide +kernel
  constructor
  · have hset : {b | b ∈ inputs countingCrates.sha256 pairInput zeroHash twoSeconds ∨
        b ∈ (ListenerAuthState.new (countingCrates.publicKey zeroHash)).hashed countingCrates
          heardFromCheckpoint} = {b | b ∈ inputs countingCrates.sha256 pairInput (countHash 0) twoSeconds} :=
      Set.ext fun b => or_iff_left_of_imp (hhashed b)
    rw [hset]
    apply binding_counting
    · decide +kernel
    · decide +kernel
  · intro f hf hash sig hcheckpoint _
    exact hsigned f hf _ hcheckpoint

/-- Both checkpoints are accepted, and vouch for what the host sent. -/
theorem sound_iff_firstGenuine_checkpoint :
    Sound countingCrates (countingCrates.publicKey zeroHash) twoSeconds heardFromCheckpoint ∧
      ((ListenerAuthState.new (countingCrates.publicKey zeroHash)).segments countingCrates []
        heardFromCheckpoint).map List.length = [1, 50] := by
  have hfirst : FirstGenuine countingCrates (countingCrates.publicKey zeroHash) twoSeconds heardFromCheckpoint := by
    rintro f ⟨⟩ hash sig - -
    exact ⟨List.replicate 49 [7], List.replicate 50 [7], rfl, rfl⟩
  have hsecure := secure_heardFromCheckpoint
  exact ⟨(sound_iff_firstGenuine countingCrates zeroHash twoSeconds heardFromCheckpoint hsecure).mpr hfirst,
    by decide +kernel⟩

theorem segments_checkpointFrame (opus : Bytes) :
    [opus] ∈ (ListenerAuthState.new (countingCrates.publicKey zeroHash)).segments countingCrates []
      [checkpointFrame opus] := by
  have hver := countingCrates_verifies zeroHash (hostChain countingCrates secondOfAudio)
  rw [ListenerAuthState.segments, verifyFrame_new_some rfl, if_pos hver]
  exact List.mem_cons_self

/-- A relay that puts a payload of its own behind the first checkpoint. -/
theorem not_sound_forgedPayload :
    Secure countingCrates zeroHash secondOfAudio [checkpointFrame [66]] ∧
      ¬ Sound countingCrates (countingCrates.publicKey zeroHash) secondOfAudio
        [checkpointFrame [66]] := by
  refine ⟨secure_checkpointFrame [66], fun hsound => ?_⟩
  obtain ⟨before, after, hpackets, -⟩ := hsound _ (segments_checkpointFrame [66])
  have hforged : [66] ∈ secondOfAudio := by
    rw [hpackets]
    simp
  exact absurd (List.eq_of_mem_replicate hforged) (by decide)

end Examples

end Proscenium.Stage
