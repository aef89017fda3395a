import Proscenium.Dm.SessionDefs

/-! What the history of a session keeps when no device advances a copy that
another save has overtaken: the counters of one sending chain only grow, and
the newest row of a session is above every number sent in its chain. -/

namespace Proscenium.Dm

open Crypto

section Ratchet

variable {C : Crates}

/-- The part of a state that `encrypt` uses. -/
structure SameSending (st st' : RatchetState) : Prop where
  dhSelfPublic : st'.dhSelfPublic = st.dhSelfPublic
  sendCount : st'.sendCount = st.sendCount
  chainKeySend : st'.chainKeySend = st.chainKeySend

/-- A sending chain that nothing was sent in, under a key just drawn. -/
structure StartsChain (pub : Bytes32) (st : RatchetState) : Prop where
  dhSelfPublic : st.dhSelfPublic = pub
  sendCount : st.sendCount = 0
  chainKeySend : st.chainKeySend ≠ none

theorem SameSending.trans {a b c : RatchetState} (h : SameSending a b) (h' : SameSending b c) :
    SameSending a c :=
  ⟨h'.dhSelfPublic.trans h.dhSelfPublic, h'.sendCount.trans h.sendCount,
    h'.chainKeySend.trans h.chainKeySend⟩

theorem skipMessages_sameSending {st st' : RatchetState} {upTo : UInt32}
    (h : st.skipMessages C upTo = .ok st') : SameSending st st' := by
  unfold RatchetState.skipMessages at h
  split at h
  · cases h
  · split at h
    · cases h
      exact ⟨rfl, rfl, rfl⟩
    · cases h
      exact ⟨rfl, rfl, rfl⟩

theorem decryptCurrent_sameSending (st : RatchetState) (header : RatchetHeader)
    (ciphertext : Bytes) : SameSending st (st.decryptCurrent C header ciphertext).2 := by
  unfold RatchetState.decryptCurrent
  split
  · exact ⟨rfl, rfl, rfl⟩
  · rename_i st' hskip
    have hsame := skipMessages_sameSending hskip
    split
    · exact hsame
    · exact ⟨hsame.dhSelfPublic, hsame.sendCount, hsame.chainKeySend⟩

theorem dhRatchet_startsChain (generated : KeyPair) (st : RatchetState) (remote : Bytes32) :
    StartsChain generated.pub (st.dhRatchet C generated remote) :=
  ⟨rfl, rfl, nofun⟩

theorem decrypt_sending (generated : KeyPair) (st : RatchetState) (header : RatchetHeader)
    (ciphertext : Bytes) :
    if st.drawsKey C header then
      StartsChain generated.pub (st.decrypt C generated header ciphertext).2
    else SameSending st (st.decrypt C generated header ciphertext).2 := by
  unfold RatchetState.drawsKey
  cases hstores : st.stores header with
  | true =>
    rw [RatchetState.stores_eq_isSome, Option.isSome_iff_exists] at hstores
    obtain ⟨sk, hfind⟩ := hstores
    rw [RatchetState.decrypt_of_found hfind]
    exact ⟨rfl, rfl, rfl⟩
  | false =>
    cases hneed : st.needDhRatchet header with
    | false =>
      rw [RatchetState.decrypt_same hstores generated ciphertext hneed]
      exact decryptCurrent_sameSending st header ciphertext
    | true =>
      cases hskip : st.skipMessages C header.previousChainLength with
      | error e =>
        rw [RatchetState.decrypt_refused hstores generated ciphertext hneed hskip]
        exact ⟨rfl, rfl, rfl⟩
      | ok st' =>
        have hstart := dhRatchet_startsChain (C := C) generated st' header.dhPublic
        have hsame := decryptCurrent_sameSending (C := C) (st'.dhRatchet C generated header.dhPublic)
          header ciphertext
        rw [RatchetState.decrypt_ratchet hstores generated ciphertext hneed hskip]
        refine ⟨hsame.dhSelfPublic.trans hstart.dhSelfPublic, hsame.sendCount.trans hstart.sendCount, ?_⟩
        rw [hsame.chainKeySend]
        exact hstart.chainKeySend

theorem encrypt_eq_some {st st' : RatchetState} {plaintext ciphertext : Bytes}
    {header : RatchetHeader} (h : st.encrypt C plaintext = some (st', header, ciphertext)) :
    st.chainKeySend ≠ none ∧ st'.dhSelfPublic = st.dhSelfPublic ∧
      st'.sendCount = st.sendCount + 1 ∧ st'.chainKeySend ≠ none ∧
      header.dhPublic = st.dhSelfPublic ∧ header.messageNumber = st.sendCount := by
  unfold RatchetState.encrypt at h
  split at h
  · cases h
  · rename_i hchain
    cases h
    exact ⟨by rw [hchain]; exact nofun, rfl, rfl, nofun, rfl, rfl⟩

end Ratchet

def Envelope.number (e : Envelope) : Bytes32 × UInt32 := (e.header.dhPublic, e.header.messageNumber)

namespace History

def Current (h : History) (row : Row) : Prop :=
  ∀ r ∈ h.rows, r.session = row.session → r.version ≤ row.version

instance (h : History) (row : Row) : Decidable (h.Current row) := by
  unfold Current
  infer_instance

def push (h : History) (row : Row) (envelope : Option Envelope) : History :=
  { h with rows := row :: h.rows, emitted := envelope.toList ++ h.emitted }

variable (me : KeyPair)

structure Sound (h : History) : Prop where
  own : me.pub ∈ h.drawn
  drawn : ∀ r ∈ h.rows, r.state.dhSelfPublic ∈ h.drawn
  unsent : ∀ r ∈ h.rows, r.state.dhSelfPublic = me.pub →
    r.state.chainKeySend = none ∧ r.state.sendCount = 0
  session : ∀ r ∈ h.rows, ∀ r' ∈ h.rows, r.state.dhSelfPublic = r'.state.dhSelfPublic →
    r.state.dhSelfPublic ≠ me.pub → r.session = r'.session
  version : ∀ r ∈ h.rows, r.version ≤ h.rows.length
  grows : ∀ r ∈ h.rows, ∀ r' ∈ h.rows, r.session = r'.session → r.version ≤ r'.version →
    r.state.dhSelfPublic = r'.state.dhSelfPublic → r.state.sendCount ≤ r'.state.sendCount
  used : ∀ e ∈ h.emitted, e.header.dhPublic ≠ me.pub ∧
    ∃ r ∈ h.rows, r.state.dhSelfPublic = e.header.dhPublic
  below : ∀ e ∈ h.emitted, ∀ r ∈ h.rows, h.Current r →
    r.state.dhSelfPublic = e.header.dhPublic → e.header.messageNumber < r.state.sendCount
  distinct : h.emitted.Pairwise fun e e' => e.number ≠ e'.number

/-- What makes a row, written with an envelope sent, a next step of the history. -/
structure Extends (h : History) (row : Row) (envelope : Option Envelope) : Prop where
  drawn : row.state.dhSelfPublic ∈ h.drawn
  unsent : row.state.dhSelfPublic = me.pub → row.state.chainKeySend = none ∧ row.state.sendCount = 0
  session : ∀ r ∈ h.rows, r.state.dhSelfPublic = row.state.dhSelfPublic →
    row.state.dhSelfPublic ≠ me.pub → r.session = row.session
  version : row.version = h.rows.length + 1
  grows : ∀ r ∈ h.rows, r.session = row.session →
    r.state.dhSelfPublic = row.state.dhSelfPublic → r.state.sendCount ≤ row.state.sendCount
  below : ∀ e ∈ h.emitted, row.state.dhSelfPublic = e.header.dhPublic →
    e.header.messageNumber < row.state.sendCount
  emits : ∀ e ∈ envelope, e.header.dhPublic = row.state.dhSelfPublic ∧
    e.header.dhPublic ≠ me.pub ∧ e.header.messageNumber < row.state.sendCount ∧
    ∀ e' ∈ h.emitted, e'.header.dhPublic = e.header.dhPublic →
      e'.header.messageNumber < e.header.messageNumber

variable {me} {h : History} {row : Row} {envelope : Option Envelope}

theorem Extends.version_lt (hext : h.Extends me row envelope) (hs : h.Sound me) {r : Row}
    (hr : r ∈ h.rows) : r.version < row.version := by
  rw [hext.version]
  exact Nat.lt_succ_of_le (hs.version r hr)

theorem Extends.session_ne (hext : h.Extends me row envelope) (hs : h.Sound me) {r : Row}
    (hr : r ∈ h.rows) (hcur : (h.push row envelope).Current r) : row.session ≠ r.session := by
  intro hsame
  have hle := hcur row List.mem_cons_self hsame
  exact absurd (hext.version_lt hs hr) (Nat.not_lt.mpr hle)

theorem Extends.below_push (hext : h.Extends me row envelope) (hs : h.Sound me) {e : Envelope}
    (he : e ∈ (h.push row envelope).emitted) {r : Row} (hr : r ∈ (h.push row envelope).rows)
    (hcur : (h.push row envelope).Current r)
    (hkey : r.state.dhSelfPublic = e.header.dhPublic) :
    e.header.messageNumber < r.state.sendCount := by
  rcases List.mem_append.mp he with hnew | hold
  · obtain ⟨hdh, hne, hlt, -⟩ := hext.emits e (Option.mem_toList.mp hnew)
    rcases List.mem_cons.mp hr with rfl | hrow
    · exact hlt
    · have hsame := hext.session r hrow (hkey.trans hdh) (hdh ▸ hne)
      exact absurd hsame.symm (hext.session_ne hs hrow hcur)
  · rcases List.mem_cons.mp hr with rfl | hrow
    · exact hext.below e hold hkey
    · have hcurrent : h.Current r := fun r' hr' => hcur r' (List.mem_cons_of_mem _ hr')
      exact hs.below e hold r hrow hcurrent hkey

theorem Extends.distinct_push (hext : h.Extends me row envelope) (hs : h.Sound me) :
    (h.push row envelope).emitted.Pairwise fun e e' => e.number ≠ e'.number := by
  cases henv : envelope with
  | none => exact hs.distinct
  | some e =>
    refine List.pairwise_cons.mpr ⟨?_, hs.distinct⟩
    intro e' he' heq
    obtain ⟨hdh, hnum⟩ := Prod.mk.inj heq
    have hlt := (hext.emits e henv).2.2.2 e' he' hdh.symm
    rw [hnum] at hlt
    exact absurd hlt (UInt32.lt_irrefl _)

theorem Sound.push (hs : h.Sound me) (hext : h.Extends me row envelope) :
    (h.push row envelope).Sound me where
  own := hs.own
  drawn := List.forall_mem_cons.mpr ⟨hext.drawn, hs.drawn⟩
  unsent := List.forall_mem_cons.mpr ⟨hext.unsent, hs.unsent⟩
  session := by
    intro r hr r' hr' hkey hne
    rcases List.mem_cons.mp hr with rfl | hold <;> rcases List.mem_cons.mp hr' with rfl | hold'
    · rfl
    · exact (hext.session r' hold' hkey.symm hne).symm
    · exact hext.session r hold hkey (hkey ▸ hne)
    · exact hs.session r hold r' hold' hkey hne
  version := by
    refine List.forall_mem_cons.mpr ⟨Nat.le_of_eq hext.version, fun r hr => ?_⟩
    exact Nat.le_trans (hs.version r hr) (Nat.le_succ _)
  grows := by
    intro r hr r' hr' hsame hle hkey
    rcases List.mem_cons.mp hr with rfl | hold <;> rcases List.mem_cons.mp hr' with rfl | hold'
    · exact UInt32.le_refl _
    · exact absurd (hext.version_lt hs hold') (Nat.not_lt.mpr hle)
    · exact hext.grows r hold hsame hkey
    · exact hs.grows r hold r' hold' hsame hle hkey
  used := by
    intro e he
    rcases List.mem_append.mp he with he | he
    · obtain ⟨hdh, hne, -⟩ := hext.emits e (Option.mem_toList.mp he)
      exact ⟨hne, row, List.mem_cons_self, hdh.symm⟩
    · obtain ⟨hne, r, hr, hkey⟩ := hs.used e he
      exact ⟨hne, r, List.mem_cons_of_mem _ hr, hkey⟩
  below := fun e he r hr hcur hkey => hext.below_push hs he hr hcur hkey
  distinct := hext.distinct_push hs

def restamp (h : History) (row : Row) (now : Nat) : History :=
  { h with rows := { row with updatedAt := now } :: h.rows }

theorem exists_of_mem_restamp (hrow : row ∈ h.rows) {now : Nat} {r : Row}
    (hr : r ∈ (h.restamp row now).rows) :
    ∃ r' ∈ h.rows, r.state = r'.state ∧ r.version = r'.version ∧ r.session = r'.session := by
  rcases List.mem_cons.mp hr with rfl | hr
  · exact ⟨row, hrow, rfl, rfl, rfl⟩
  · exact ⟨r, hr, rfl, rfl, rfl⟩

theorem Sound.restamp (hs : h.Sound me) (hrow : row ∈ h.rows) (now : Nat) :
    (h.restamp row now).Sound me where
  own := hs.own
  drawn := List.forall_mem_cons.mpr ⟨hs.drawn row hrow, hs.drawn⟩
  unsent := List.forall_mem_cons.mpr ⟨hs.unsent row hrow, hs.unsent⟩
  session := by
    intro r hr r' hr' hkey hne
    obtain ⟨a, ha, hst, -, hses⟩ := exists_of_mem_restamp hrow hr
    obtain ⟨b, hb, hst', -, hses'⟩ := exists_of_mem_restamp hrow hr'
    rw [hst] at hkey hne
    rw [hst'] at hkey
    rw [hses, hses']
    exact hs.session a ha b hb hkey hne
  version := by
    have hle : ∀ r ∈ h.rows, r.version ≤ (h.restamp row now).rows.length :=
      fun r hr => Nat.le_trans (hs.version r hr) (Nat.le_succ _)
    exact List.forall_mem_cons.mpr ⟨hle row hrow, hle⟩
  grows := by
    intro r hr r' hr' hsame hle hkey
    obtain ⟨a, ha, hst, hver, hses⟩ := exists_of_mem_restamp hrow hr
    obtain ⟨b, hb, hst', hver', hses'⟩ := exists_of_mem_restamp hrow hr'
    rw [hst, hst'] at hkey ⊢
    rw [hver, hver'] at hle
    exact hs.grows a ha b hb (hses.symm.trans (hsame.trans hses')) hle hkey
  used := by
    intro e he
    obtain ⟨hne, r, hr, hkey⟩ := hs.used e he
    exact ⟨hne, r, List.mem_cons_of_mem _ hr, hkey⟩
  below := by
    intro e he r hr hcur hkey
    obtain ⟨a, ha, hst, hver, hses⟩ := exists_of_mem_restamp hrow hr
    have hcurrent : h.Current a := by
      intro r' hr' hsame
      rw [← hver]
      exact hcur r' (List.mem_cons_of_mem _ hr') (hsame.trans hses.symm)
    rw [hst] at hkey ⊢
    exact hs.below e he a ha hcurrent hkey
  distinct := hs.distinct

structure Unused (me : KeyPair) (h : History) (pub : Bytes32) : Prop where
  drawn : pub ∈ h.drawn
  ne : pub ≠ me.pub
  rows : ∀ r ∈ h.rows, r.state.dhSelfPublic ≠ pub

theorem extends_unused {pub : Bytes32} (hs : h.Sound me) (hpub : h.Unused me pub)
    (hst : StartsChain pub row.state) (hver : row.version = h.rows.length + 1) :
    h.Extends me row none where
  drawn := hst.dhSelfPublic ▸ hpub.drawn
  unsent := fun hown => absurd (hst.dhSelfPublic.symm.trans hown) hpub.ne
  session := fun r hr hkey => absurd (hkey.trans hst.dhSelfPublic) (hpub.rows r hr)
  version := hver
  grows := fun r hr _ hkey => absurd (hkey.trans hst.dhSelfPublic) (hpub.rows r hr)
  below := by
    intro e he hkey
    obtain ⟨-, r, hr, hrkey⟩ := hs.used e he
    exact absurd (hrkey.trans (hkey.symm.trans hst.dhSelfPublic)) (hpub.rows r hr)
  emits := fun _ he => nomatch he

theorem extends_initBob {sharedSecret : Bytes32} (hs : h.Sound me) (now : Nat) :
    h.Extends me (Row.founded h (RatchetState.initBob sharedSecret me) now true) none where
  drawn := hs.own
  unsent := fun _ => ⟨rfl, rfl⟩
  session := fun _ _ _ hne => absurd rfl hne
  version := rfl
  grows := by
    intro r hr _ hkey
    rw [(hs.unsent r hr hkey).2]
    exact UInt32.le_refl _
  below := fun e he hkey => absurd hkey.symm (hs.used e he).1
  emits := fun _ he => nomatch he

theorem lt_add_one {n : UInt32} (hwrap : n.toNat + 1 < 2 ^ 32) : n < n + 1 := by
  rw [UInt32.lt_iff_toNat_lt, UInt32.toNat_add, UInt32.toNat_one, Nat.mod_eq_of_lt hwrap]
  exact Nat.lt_succ_self _

variable {base : Row} {state : RatchetState}

theorem extends_sent (hs : h.Sound me) (hbase : base ∈ h.rows) (hcur : h.Current base)
    {e : Envelope} (hchain : base.state.chainKeySend ≠ none)
    (hkey : state.dhSelfPublic = base.state.dhSelfPublic)
    (hcount : state.sendCount = base.state.sendCount + 1)
    (hwrap : base.state.sendCount.toNat + 1 < 2 ^ 32)
    (hdh : e.header.dhPublic = base.state.dhSelfPublic)
    (hnum : e.header.messageNumber = base.state.sendCount) (now : Nat) :
    h.Extends me (Row.advanced h base state now (some e)) (some e) := by
  have hown : base.state.dhSelfPublic ≠ me.pub :=
    fun hown => hchain (hs.unsent base hbase hown).1
  have hlt : base.state.sendCount < state.sendCount := hcount ▸ lt_add_one hwrap
  have hbelow : ∀ e' ∈ h.emitted, base.state.dhSelfPublic = e'.header.dhPublic →
      e'.header.messageNumber < base.state.sendCount :=
    fun e' he' => hs.below e' he' base hbase hcur
  refine ⟨hkey ▸ hs.drawn base hbase, ?_, ?_, rfl, ?_, ?_, ?_⟩
  · exact fun h' => absurd (hkey.symm.trans h') hown
  · exact fun r hr hr' _ => hs.session r hr base hbase (hr'.trans hkey)
      (fun h' => hown ((hr'.trans hkey).symm.trans h'))
  · intro r hr hsame hr'
    have hle := hs.grows r hr base hbase hsame (hcur r hr hsame) (hr'.trans hkey)
    exact UInt32.le_trans hle (UInt32.le_of_lt hlt)
  · exact fun e' he' h' => UInt32.lt_trans (hbelow e' he' (hkey.symm.trans h')) hlt
  · intro e' he'
    obtain rfl := Option.mem_some_iff.mp he'
    refine ⟨hdh.trans hkey.symm, hdh ▸ hown, hnum ▸ hlt, fun e' he' h' => ?_⟩
    rw [hnum]
    exact hbelow e' he' (hdh.symm.trans h'.symm)

theorem extends_received (hs : h.Sound me) (hbase : base ∈ h.rows) (hcur : h.Current base)
    (hsend : SameSending base.state state) (now : Nat) :
    h.Extends me (Row.advanced h base state now none) none := by
  have hkey := hsend.dhSelfPublic
  refine ⟨hkey ▸ hs.drawn base hbase, ?_, ?_, rfl, ?_, ?_, fun _ he => nomatch he⟩
  · intro hown
    obtain ⟨hchain, hcount⟩ := hs.unsent base hbase (hkey.symm.trans hown)
    exact ⟨hsend.chainKeySend.trans hchain, hsend.sendCount.trans hcount⟩
  · exact fun r hr hr' hne => hs.session r hr base hbase (hr'.trans hkey) (hr' ▸ hne)
  · intro r hr hsame hr'
    show r.state.sendCount ≤ state.sendCount
    rw [hsend.sendCount]
    exact hs.grows r hr base hbase hsame (hcur r hr hsame) (hr'.trans hkey)
  · intro e he h'
    show e.header.messageNumber < state.sendCount
    rw [hsend.sendCount]
    exact hs.below e he base hbase hcur (hkey.symm.trans h')

end History
end Proscenium.Dm
