import Proscenium.Lib.LwwJoin

/-! Registers where the last write wins, and the writes that their holder has heard
of. A holder that shows the newest write it knows on each key goes on doing so
when it writes, and when it imports what another holder sends it, entry by
entry; after the last entry it has heard of all that the other had. -/

namespace Lww

/-- A write says which register it is for, and when it was made. -/
structure Stamped (κ ε T : Type*) where
  keyOf : ε → κ
  stampOf : ε → T

namespace Stamped

variable {κ ε T : Type*} [LinearOrder T] (S : Stamped κ ε T)

/-- The register of the write shows one that is not older. -/
def Covers (look : κ → Option ε) (f : ε) : Prop :=
  ∃ e, look (S.keyOf f) = some e ∧ S.stampOf f ≤ S.stampOf e

/-- Each register shows a write on it that was heard, and no heard write on it is newer. -/
structure Shows (look : κ → Option ε) (heard : List ε) : Prop where
  known : ∀ k e, look k = some e → S.keyOf e = k ∧ e ∈ heard
  covers : ∀ f ∈ heard, S.Covers look f

/-- Writes on their way: what their sender had heard is covered by the receiver or still to come. -/
structure Pending (look : κ → Option ε) (sent coming : List ε) : Prop where
  known : ∀ e ∈ coming, e ∈ sent
  covers : ∀ f ∈ sent, S.Covers look f ∨
    ∃ e ∈ coming, S.keyOf e = S.keyOf f ∧ S.stampOf f ≤ S.stampOf e

/-- A summary of registers names the newest write that was heard on each. -/
structure Summary (entries heard : List ε) : Prop where
  known : ∀ e ∈ entries, e ∈ heard
  newest : ∀ f ∈ heard, ∃ e ∈ entries, S.keyOf e = S.keyOf f ∧ S.stampOf f ≤ S.stampOf e

/-- Two writes on this register with one stamp are the same write. -/
def Distinct (k : κ) (log : List ε) : Prop :=
  ∀ e ∈ log, ∀ f ∈ log, S.keyOf e = k → S.keyOf f = k → S.stampOf e = S.stampOf f → e = f

structure Writes (e : ε) (look look' : κ → Option ε) : Prop where
  self : look' (S.keyOf e) = some e
  others : ∀ k, k ≠ S.keyOf e → look' k = look k

/-- The write is not older than what its register shows. -/
def InOrder (look : κ → Option ε) (e : ε) : Prop :=
  ∀ p ∈ look (S.keyOf e), S.stampOf p ≤ S.stampOf e

instance decidableInOrder {look : κ → Option ε} {e : ε} : Decidable (S.InOrder look e) :=
  inferInstanceAs (Decidable (∀ p ∈ look (S.keyOf e), S.stampOf p ≤ S.stampOf e))

variable {S} {look look' : κ → Option ε} {heard heard' sent coming entries theirs log : List ε} {e f : ε}

section Write

theorem covers_self_of_writes (hw : S.Writes e look look') : S.Covers look' e := ⟨e, hw.self, le_rfl⟩

theorem Covers.of_writes (h : S.Covers look f) (hw : S.Writes e look look') (hle : S.InOrder look e) :
    S.Covers look' f := by
  obtain ⟨p, hp, hfp⟩ := h
  by_cases hk : S.keyOf f = S.keyOf e
  · have hpe : S.stampOf p ≤ S.stampOf e := hle p (hk ▸ hp)
    exact ⟨e, hk ▸ hw.self, hfp.trans hpe⟩
  · have hsame : look' (S.keyOf f) = look (S.keyOf f) := hw.others _ hk
    exact ⟨p, hsame.trans hp, hfp⟩

theorem shows_writes_iff (h : S.Shows look heard) (hw : S.Writes e look look') :
    S.Shows look' (e :: heard) ↔ S.InOrder look e := by
  constructor
  · intro h' p hp
    obtain ⟨hk, hmem⟩ := h.known _ p hp
    obtain ⟨q, hq, hpq⟩ := h'.covers p (List.mem_cons_of_mem e hmem)
    rw [hk, hw.self] at hq
    rwa [Option.some.inj hq]
  · intro hle
    constructor
    · intro k p hp
      by_cases hk : k = S.keyOf e
      · rw [hk, hw.self] at hp
        obtain rfl := Option.some.inj hp
        exact ⟨hk.symm, List.mem_cons_self⟩
      · rw [hw.others k hk] at hp
        obtain ⟨hkey, hmem⟩ := h.known k p hp
        exact ⟨hkey, List.mem_cons_of_mem e hmem⟩
    · intro f hf
      rcases List.mem_cons.mp hf with rfl | hf
      · exact covers_self_of_writes hw
      · exact Covers.of_writes (h.covers f hf) hw hle

theorem Shows.append (h : S.Shows look heard) (hsent : ∀ f ∈ sent, S.Covers look f) :
    S.Shows look (sent ++ heard) := by
  constructor
  · intro k e he
    obtain ⟨hkey, hmem⟩ := h.known k e he
    exact ⟨hkey, List.mem_append_right sent hmem⟩
  · intro f hf
    rcases List.mem_append.mp hf with hf | hf
    · exact hsent f hf
    · exact h.covers f hf

theorem Shows.agree {k : κ} (h : S.Shows look heard) (h' : S.Shows look' heard') (hlog : S.Distinct k log)
    (hsub : ∀ e ∈ heard, e ∈ log) (hsame : ∀ e, S.keyOf e = k → (e ∈ heard ↔ e ∈ heard')) : look k = look' k := by
  have hone : ∀ {l l' : κ → Option ε} {H H' : List ε}, S.Shows l H → S.Shows l' H' →
      (∀ e ∈ H, S.keyOf e = k → e ∈ log ∧ e ∈ H') → (∀ e ∈ H', S.keyOf e = k → e ∈ log ∧ e ∈ H) →
      ∀ e, l k = some e → l' k = some e := by
    intro l l' H H' hl hl' hin hout e he
    obtain ⟨hke, hmem⟩ := hl.known k e he
    obtain ⟨hlogged, hheard⟩ := hin e hmem hke
    obtain ⟨p, hp, hle⟩ := hl'.covers e hheard
    obtain ⟨hkp, hmem'⟩ := hl'.known _ p hp
    obtain ⟨hlogged', hheard'⟩ := hout p hmem' (hkp.trans hke)
    obtain ⟨q, hq, hle'⟩ := hl.covers p hheard'
    rw [hkp, hke, he] at hq
    obtain rfl := Option.some.inj hq
    have hpe : e = p := hlog e hlogged p hlogged' hke (hkp.trans hke) (le_antisymm hle hle')
    rw [hke] at hp
    rw [hp, hpe]
  have hin : ∀ e ∈ heard, S.keyOf e = k → e ∈ log ∧ e ∈ heard' :=
    fun e he hk => ⟨hsub e he, (hsame e hk).mp he⟩
  have hout : ∀ e ∈ heard', S.keyOf e = k → e ∈ log ∧ e ∈ heard :=
    fun e he hk => ⟨hsub e ((hsame e hk).mpr he), (hsame e hk).mpr he⟩
  cases hl : look k with
  | some e => exact (hone h h' hin hout e hl).symm
  | none =>
    cases hl' : look' k with
    | none => rfl
    | some e =>
      rw [hone h' h hout hin e hl'] at hl
      exact nomatch hl

end Write

section Import

theorem Shows.summary (h : S.Shows look heard) (hmem : ∀ e, e ∈ entries ↔ look (S.keyOf e) = some e) :
    S.Summary entries heard := by
  constructor
  · intro e he
    exact (h.known _ e ((hmem e).mp he)).2
  · intro f hf
    obtain ⟨e, he, hle⟩ := h.covers f hf
    have hkey : S.keyOf e = S.keyOf f := (h.known _ e he).1
    exact ⟨e, (hmem e).mpr (by rwa [hkey]), hkey, hle⟩

theorem Summary.pending (h : S.Summary entries sent) (hsub : ∀ e ∈ coming, e ∈ entries)
    (htheirs : ∀ p ∈ theirs, S.Covers look p)
    (hleft : ∀ e ∈ entries, e ∉ coming → ∃ p ∈ theirs, S.keyOf p = S.keyOf e ∧ S.stampOf e ≤ S.stampOf p) :
    S.Pending look sent coming := by
  refine ⟨fun e he => h.known e (hsub e he), fun f hf => ?_⟩
  obtain ⟨e, he, hkey, hle⟩ := h.newest f hf
  by_cases hcoming : e ∈ coming
  · exact Or.inr ⟨e, hcoming, hkey, hle⟩
  · obtain ⟨p, hp, hpe, hep⟩ := hleft e he hcoming
    obtain ⟨q, hq, hpq⟩ := htheirs p hp
    refine Or.inl ⟨q, ?_, hle.trans (hep.trans hpq)⟩
    rwa [hpe, hkey] at hq

theorem Pending.mono (h : S.Pending look sent coming) (hgrow : ∀ f, S.Covers look f → S.Covers look' f) :
    S.Pending look' sent coming :=
  ⟨h.known, fun f hf => (h.covers f hf).imp_left (hgrow f)⟩

theorem Pending.drop (h : S.Pending look sent (e :: coming)) (he : S.Covers look e) :
    S.Pending look sent coming := by
  refine ⟨fun p hp => h.known p (List.mem_cons_of_mem e hp), fun f hf => ?_⟩
  rcases h.covers f hf with hc | ⟨p, hp, hkey, hle⟩
  · exact Or.inl hc
  · rcases List.mem_cons.mp hp with rfl | hp
    · obtain ⟨q, hq, hpq⟩ := he
      exact Or.inl ⟨q, hkey ▸ hq, hle.trans hpq⟩
    · exact Or.inr ⟨p, hp, hkey, hle⟩

theorem Pending.done (h : S.Pending look sent []) : ∀ f ∈ sent, S.Covers look f := by
  intro f hf
  rcases h.covers f hf with hc | ⟨e, he, -⟩
  · exact hc
  · exact nomatch he

end Import

end Stamped

namespace Wire

variable {κ ρ ε T : Type*} {key : ρ → κ} [DecidableEq κ] (W : Wire key ε T)

def put (t : List ρ) (e : ε) : List ρ := Table.upsert key (W.keyOf e) (W.row e) (W.update e) t

variable {W} {t : List ρ} {e : ε} {k : κ}

theorem nodup_put (h : (t.map key).Nodup) : ((W.put t e).map key).Nodup :=
  Table.nodup_upsert (W.key_row e) (W.key_update e) h

theorem find_put_of_ne (hne : k ≠ W.keyOf e) : Table.find key k (W.put t e) = Table.find key k t :=
  Table.find_upsert_of_ne (W.key_update e) (W.key_row e) hne t

theorem entry_put_self (hW : W.Faithful) : (Table.find key (W.keyOf e) (W.put t e)).bind W.entry = some e := by
  unfold put
  rw [Table.find_upsert_self (W.key_update e) (W.key_row e)]
  cases hr : Table.find key (W.keyOf e) t with
  | none => exact hW.entry_row e
  | some r => exact hW.entry_update e r (Table.key_of_find hr)

end Wire
end Lww
