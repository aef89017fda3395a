import Proscenium.Lib.Table

/-! A series of writes to a table: upserts, each of which sets what it sets whatever
was there, or toggles, each of which deletes the row of its key or inserts it. Such
a series leaves the rows as they were only if the last write of each key says what
is there. -/

namespace Table

section Last

variable {ι τ : Type*}

def LastOf (target : ι → τ) (l : List ι) (i : ι) : Prop :=
  ∃ before after, l = before ++ i :: after ∧ ∀ j ∈ after, target j ≠ target i

variable {target : ι → τ} {l : List ι} {i j : ι}

theorem LastOf.mem (h : LastOf target l i) : i ∈ l := by
  obtain ⟨before, after, rfl, -⟩ := h
  exact List.mem_append_right _ List.mem_cons_self

theorem lastOf_append_singleton : LastOf target (l ++ [j]) i ↔ i = j ∨ (target j ≠ target i ∧ LastOf target l i) := by
  constructor
  · rintro ⟨before, after, hsplit, hlast⟩
    rcases List.eq_nil_or_concat after with rfl | ⟨after, j', rfl⟩
    · obtain ⟨-, hj⟩ := List.append_inj' hsplit rfl
      exact Or.inl (List.cons.inj hj).1.symm
    · rw [List.concat_eq_append, ← List.cons_append, ← List.append_assoc] at hsplit
      obtain ⟨rfl, hj⟩ := List.append_inj' hsplit rfl
      obtain rfl := (List.cons.inj hj).1
      refine Or.inr ⟨hlast j (by simp), before, after, rfl, ?_⟩
      intro k hk
      exact hlast k (by simp [hk])
  · rintro (rfl | ⟨hne, before, after, rfl, hlast⟩)
    · exact ⟨l, [], rfl, fun _ hk => absurd hk List.not_mem_nil⟩
    · refine ⟨before, after ++ [j], by simp, ?_⟩
      intro k hk
      rcases List.mem_append.mp hk with hk | hk
      · exact hlast k hk
      · rw [List.mem_singleton.mp hk]
        exact hne

theorem exists_lastOf (target : ι → τ) (hi : i ∈ l) : ∃ j, LastOf target l j ∧ target j = target i := by
  induction l using List.reverseRecOn with
  | nil => exact absurd hi List.not_mem_nil
  | append_singleton l k ih =>
    by_cases hk : target k = target i
    · exact ⟨k, lastOf_append_singleton.mpr (Or.inl rfl), hk⟩
    · rcases List.mem_append.mp hi with hi | hi
      · obtain ⟨j, hj, hji⟩ := ih hi
        exact ⟨j, lastOf_append_singleton.mpr (Or.inr ⟨hji ▸ hk, hj⟩), hji⟩
      · rw [List.mem_singleton.mp hi] at hk
        exact absurd rfl hk

theorem lastOf_filterMap {ω κ : Type*} {g : ι → Option ω} {key : ω → κ} {w : ω}
    (hsame : ∀ i j w w', g i = some w → g j = some w' → (target j = target i ↔ key w' = key w))
    (hother : ∀ i j w, g i = some w → g j = none → target j ≠ target i) :
    LastOf key (l.filterMap g) w ↔ ∃ i, g i = some w ∧ LastOf target l i := by
  induction l using List.reverseRecOn with
  | nil => simp [LastOf]
  | append_singleton l j ih =>
    rw [List.filterMap_append]
    simp only [lastOf_append_singleton]
    cases hj : g j with
    | none =>
      rw [List.filterMap_cons_none hj, List.filterMap_nil, List.append_nil, ih]
      constructor
      · rintro ⟨i, hi, hlast⟩
        exact ⟨i, hi, Or.inr ⟨hother i j w hi hj, hlast⟩⟩
      · rintro ⟨i, hi, rfl | ⟨-, hlast⟩⟩
        · exact absurd (hi.symm.trans hj) (Option.some_ne_none w)
        · exact ⟨i, hi, hlast⟩
    | some w' =>
      rw [List.filterMap_cons_some hj, List.filterMap_nil, lastOf_append_singleton, ih]
      constructor
      · rintro (rfl | ⟨hne, i, hi, hlast⟩)
        · exact ⟨j, hj, Or.inl rfl⟩
        · exact ⟨i, hi, Or.inr ⟨fun heq => hne ((hsame i j w w' hi hj).mp heq), hlast⟩⟩
      · rintro ⟨i, hi, rfl | ⟨hne, hlast⟩⟩
        · exact Or.inl (Option.some.inj (hi.symm.trans hj))
        · exact Or.inr ⟨fun heq => hne ((hsame i j w w' hi hj).mpr heq), i, hi, hlast⟩

end Last

variable {κ ρ : Type*} [DecidableEq κ]

def SameRows (t t' : List ρ) : Prop := ∀ r, r ∈ t' ↔ r ∈ t

section Upserts

variable (key : ρ → κ)

/-- What an upsert inserts, or makes of the row that is there. -/
structure Write where
  new : ρ
  revise : ρ → ρ
  key_revise : ∀ r, key (revise r) = key r

namespace Write

variable {key}

def target (w : Write key) : κ := key w.new

def apply (t : List ρ) (w : Write key) : List ρ := upsert key w.target w.new w.revise t

/-- There is a row of the key, and the write changes none. -/
def Idle (w : Write key) (t : List ρ) : Prop :=
  (∃ r ∈ t, key r = w.target) ∧ ∀ r ∈ t, key r = w.target → w.revise r = r

/-- What a write sets does not depend on what another one to the same key has set. -/
def Absorbs (ws : List (Write key)) : Prop :=
  ∀ w ∈ ws, ∀ w' ∈ ws, w'.target = w.target → ∀ r, w.revise (w'.revise r) = w.revise r

variable {ws : List (Write key)} {t : List ρ} {k : κ}

theorem apply_of_mem {w : Write key} (h : ∃ r ∈ t, key r = w.target) :
    w.apply t = t.map fun r => if key r = w.target then w.revise r else r := by
  obtain ⟨r, hr, hk⟩ := h
  exact if_pos (List.any_eq_true.mpr ⟨r, hr, decide_eq_true hk⟩)

theorem exists_key_apply {w : Write key} (h : (∃ r ∈ t, key r = k) ∨ w.target = k) :
    ∃ r ∈ w.apply t, key r = k := by
  by_cases hhas : ∃ r ∈ t, key r = w.target
  · rw [apply_of_mem hhas]
    obtain ⟨r, hr, hk⟩ : ∃ r ∈ t, key r = k := h.elim id fun heq => heq ▸ hhas
    refine ⟨_, List.mem_map_of_mem hr, ?_⟩
    split
    · rw [w.key_revise, hk]
    · exact hk
  · have happend : w.apply t = t ++ [w.new] := by
      refine if_neg fun hany => hhas ?_
      obtain ⟨r, hr, hk⟩ := List.any_eq_true.mp hany
      exact ⟨r, hr, of_decide_eq_true hk⟩
    rw [happend]
    rcases h with ⟨r, hr, hk⟩ | htarget
    · exact ⟨r, List.mem_append_left _ hr, hk⟩
    · exact ⟨w.new, by simp, htarget⟩

theorem exists_key_foldl (h : (∃ r ∈ t, key r = k) ∨ ∃ w ∈ ws, w.target = k) :
    ∃ r ∈ ws.foldl (fun t w => w.apply t) t, key r = k := by
  induction ws generalizing t with
  | nil => exact h.elim id fun ⟨w, hw, _⟩ => absurd hw List.not_mem_nil
  | cons w ws ih =>
    rw [List.foldl_cons]
    refine ih ?_
    rcases h with hrow | ⟨w', hw', hk⟩
    · exact Or.inl (exists_key_apply (Or.inl hrow))
    · rcases List.mem_cons.mp hw' with rfl | hw'
      · exact Or.inl (exists_key_apply (Or.inr hk))
      · exact Or.inr ⟨w', hw', hk⟩

/-- Where every key is there, the rows stay in their places, and each is revised by the last write of its key. -/
theorem foldl_eq_map (habsorbs : Absorbs ws) (hkeys : ∀ w ∈ ws, ∃ r ∈ t, key r = w.target) :
    ∃ F : ρ → ρ, ws.foldl (fun t w => w.apply t) t = t.map F ∧ (∀ r, key (F r) = key r) ∧
      (∀ r, (∀ w ∈ ws, w.target ≠ key r) → F r = r) ∧
      ∀ r w, LastOf target ws w → w.target = key r → F r = w.revise r := by
  induction ws using List.reverseRecOn with
  | nil =>
    refine ⟨id, (List.map_id t).symm, fun _ => rfl, fun _ _ => rfl, ?_⟩
    intro r w hlast
    exact absurd hlast.mem List.not_mem_nil
  | append_singleton ws w ih =>
    have hmem : ∀ {w'}, w' ∈ ws → w' ∈ ws ++ [w] := fun h => List.mem_append_left _ h
    have hw : w ∈ ws ++ [w] := by simp
    obtain ⟨F, hfold, hkey, hidle, hlast⟩ :=
      ih (fun v hv v' hv' => habsorbs v (hmem hv) v' (hmem hv')) fun v hv => hkeys v (hmem hv)
    have hhas : ∃ r ∈ t.map F, key r = w.target := by
      obtain ⟨r, hr, hk⟩ := hkeys w hw
      exact ⟨F r, List.mem_map_of_mem hr, (hkey r).trans hk⟩
    refine ⟨fun r => if key r = w.target then w.revise (F r) else F r, ?_, ?_, ?_, ?_⟩
    · rw [List.foldl_append, hfold, List.foldl_cons, List.foldl_nil, apply_of_mem hhas, List.map_map]
      refine List.map_congr_left fun r _ => ?_
      rw [Function.comp_apply, hkey]
    · intro r
      dsimp only
      split
      · rw [w.key_revise, hkey]
      · exact hkey r
    · intro r hnone
      dsimp only
      rw [if_neg (Ne.symm (hnone w hw))]
      exact hidle r fun v hv => hnone v (hmem hv)
    · intro r v hv htarget
      dsimp only
      rcases lastOf_append_singleton.mp hv with rfl | ⟨hne, hv⟩
      · rw [if_pos htarget.symm]
        -- what an earlier write of the key has set is set again
        by_cases hearlier : ∃ v' ∈ ws, v'.target = key r
        · obtain ⟨v', hv', hk⟩ := hearlier
          obtain ⟨u, hu, huk⟩ := exists_lastOf target hv'
          rw [hlast r u hu (huk.trans hk)]
          exact habsorbs v hw u (hmem hu.mem) ((huk.trans hk).trans htarget.symm) r
        · rw [hidle r fun v' hv' hk => hearlier ⟨v', hv', hk⟩]
      · rw [if_neg fun heq => hne (heq.symm.trans htarget.symm)]
        exact hlast r v hv htarget

theorem sameRows_foldl_iff (habsorbs : Absorbs ws) :
    SameRows t (ws.foldl (fun t w => w.apply t) t) ↔ ∀ w, LastOf target ws w → w.Idle t := by
  constructor
  · intro hsame w hlast
    have hkeys : ∀ v ∈ ws, ∃ r ∈ t, key r = v.target := by
      intro v hv
      obtain ⟨r, hr, hk⟩ := exists_key_foldl (t := t) (Or.inr ⟨v, hv, rfl⟩)
      exact ⟨r, (hsame r).mp hr, hk⟩
    refine ⟨hkeys w hlast.mem, fun r hr hk => ?_⟩
    obtain ⟨F, hfold, hkey, -, hrevised⟩ := foldl_eq_map habsorbs hkeys
    obtain ⟨q, -, hq⟩ := List.mem_map.mp (hfold ▸ (hsame r).mpr hr)
    have hqr : w.revise q = r := by
      rw [← hq]
      exact (hrevised q w hlast (by rw [← hkey q, hq, hk])).symm
    rw [← hqr]
    exact habsorbs w hlast.mem w hlast.mem rfl q
  · intro hidle
    have hkeys : ∀ v ∈ ws, ∃ r ∈ t, key r = v.target := by
      intro v hv
      obtain ⟨w, hw, hk⟩ := exists_lastOf target hv
      exact hk ▸ (hidle w hw).1
    obtain ⟨F, hfold, -, huntouched, hrevised⟩ := foldl_eq_map habsorbs hkeys
    have hfix : ∀ r ∈ t, F r = r := by
      intro r hr
      by_cases hwritten : ∃ v ∈ ws, v.target = key r
      · obtain ⟨v, hv, hk⟩ := hwritten
        obtain ⟨w, hw, hwk⟩ := exists_lastOf target hv
        rw [hrevised r w hw (hwk.trans hk)]
        exact (hidle w hw).2 r hr (hwk.trans hk).symm
      · exact huntouched r fun v hv hk => hwritten ⟨v, hv, hk⟩
    intro r
    rw [hfold, List.map_congr_left hfix, List.map_id']

theorem sameRows_foldl_filterMap_iff {ι τ : Type*} {step : ι → τ} {l : List ι} {g : ι → Option (Write key)}
    (hsame : ∀ i j w w', g i = some w → g j = some w' → (step j = step i ↔ w'.target = w.target))
    (hother : ∀ i j w, g i = some w → g j = none → step j ≠ step i)
    (habsorbs : ∀ i j w w', g i = some w → g j = some w' → ∀ r, w.revise (w'.revise r) = w.revise r) :
    SameRows t ((l.filterMap g).foldl (fun t w => w.apply t) t) ↔
      ∀ i, LastOf step l i → ∀ w, g i = some w → w.Idle t := by
  rw [sameRows_foldl_iff]
  · constructor
    · intro h i hi w hw
      exact h w ((lastOf_filterMap hsame hother).mpr ⟨i, hw, hi⟩)
    · intro h w hlast
      obtain ⟨i, hw, hi⟩ := (lastOf_filterMap hsame hother).mp hlast
      exact h i hi w hw
  · intro w hw w' hw' _
    obtain ⟨i, -, hi⟩ := List.mem_filterMap.mp hw
    obtain ⟨j, -, hj⟩ := List.mem_filterMap.mp hw'
    exact habsorbs i j w w' hi hj

end Write
end Upserts

section Toggles

variable (key : ρ → κ)

def toggle (t : List ρ) (new : ρ) : List ρ :=
  if t.any (fun r => key r = key new) then deleteWhere (fun r => key r = key new) t else t ++ [new]

variable {key} {t news : List ρ} {new r : ρ} {k : κ}

theorem mem_toggle_iff :
    r ∈ toggle key t new ↔ (r ∈ t ∧ key r ≠ key new) ∨ ((∀ q ∈ t, key q ≠ key new) ∧ r = new) := by
  unfold toggle
  split
  next hany =>
    obtain ⟨q, hq, hk⟩ := List.any_eq_true.mp hany
    have hsome : ¬ ∀ q ∈ t, key q ≠ key new := fun hnone => hnone q hq (of_decide_eq_true hk)
    simp [deleteWhere, hsome]
  next hany =>
    have hnone : ∀ q ∈ t, key q ≠ key new := by simpa using hany
    rw [List.mem_append, List.mem_singleton]
    constructor
    · exact Or.imp (fun hr => ⟨hr, hnone r hr⟩) fun hr => ⟨hnone, hr⟩
    · exact Or.imp And.left And.right

theorem exists_toggle_iff : (∃ r ∈ toggle key t new, key r = k) ↔ ((∃ r ∈ t, key r = k) ↔ key new ≠ k) := by
  simp only [mem_toggle_iff]
  by_cases hk : key new = k
  · subst hk
    constructor
    · rintro ⟨r, ⟨-, hne⟩ | ⟨hnone, -⟩, hkey⟩
      · exact absurd hkey hne
      · exact ⟨fun ⟨q, hq, hqk⟩ => absurd hqk (hnone q hq), fun hne => absurd rfl hne⟩
    · intro hiff
      refine ⟨new, Or.inr ⟨fun q hq hqk => ?_, rfl⟩, rfl⟩
      exact hiff.mp ⟨q, hq, hqk⟩ rfl
  · constructor
    · rintro ⟨r, ⟨hr, -⟩ | ⟨-, rfl⟩, hkey⟩
      · exact ⟨fun _ => hk, fun _ => ⟨r, hr, hkey⟩⟩
      · exact absurd hkey hk
    · intro hiff
      obtain ⟨r, hr, hkey⟩ := hiff.mpr hk
      exact ⟨r, Or.inl ⟨hr, fun heq => hk (heq.symm.trans hkey)⟩, hkey⟩

theorem exists_foldl_toggle_iff : (∃ r ∈ news.foldl (toggle key) t, key r = k) ↔
    ((∃ r ∈ t, key r = k) ↔ news.countP (fun new => key new = k) % 2 = 0) := by
  induction news generalizing t with
  | nil => simp
  | cons new news ih =>
    rw [List.foldl_cons, ih, exists_toggle_iff, List.countP_cons]
    by_cases hk : key new = k
    · simp only [hk, decide_true, if_true, ne_eq, not_true, iff_false]
      have hparity : (news.countP (fun new => key new = k) + 1) % 2 = 0 ↔
          ¬ news.countP (fun new => key new = k) % 2 = 0 := by omega
      rw [hparity]
      exact not_iff_comm.trans Iff.comm
    · simp [hk]

theorem mem_foldl_toggle_of_ne (h : ∀ new ∈ news, key new ≠ key r) : r ∈ news.foldl (toggle key) t ↔ r ∈ t := by
  induction news generalizing t with
  | nil => rfl
  | cons new news ih =>
    obtain ⟨hnew, hnews⟩ := List.forall_mem_cons.mp h
    rw [List.foldl_cons, ih hnews, mem_toggle_iff]
    constructor
    · rintro (⟨hr, -⟩ | ⟨-, rfl⟩)
      · exact hr
      · exact absurd rfl hnew
    · exact fun hr => Or.inl ⟨hr, Ne.symm hnew⟩

theorem eq_of_mem_foldl_toggle (hlast : LastOf key news new) (hr : r ∈ news.foldl (toggle key) t)
    (hk : key r = key new) : r = new := by
  obtain ⟨before, after, rfl, hafter⟩ := hlast
  rw [List.foldl_append, List.foldl_cons] at hr
  have hbefore := (mem_foldl_toggle_of_ne fun j hj => hk ▸ hafter j hj).mp hr
  rcases mem_toggle_iff.mp hbefore with ⟨-, hne⟩ | ⟨-, heq⟩
  · exact absurd hk hne
  · exact heq

/-- The rows are what they were exactly when each key was toggled an even number of times, and its
row is the one that was to be inserted last. -/
theorem sameRows_foldl_toggle_iff : SameRows t (news.foldl (toggle key) t) ↔
    (∀ k, news.countP (fun new => key new = k) % 2 = 0) ∧
      ∀ new, LastOf key news new → ∀ r ∈ t, key r = key new → r = new := by
  constructor
  · intro hsame
    refine ⟨fun k => ?_, fun new hlast r hr hk => ?_⟩
    · have hexists : (∃ r ∈ news.foldl (toggle key) t, key r = k) ↔ ∃ r ∈ t, key r = k :=
        exists_congr fun r => and_congr_left fun _ => hsame r
      have hiff := hexists.symm.trans exists_foldl_toggle_iff
      by_cases hrow : ∃ r ∈ t, key r = k
      · exact (hiff.mp hrow).mp hrow
      · by_contra hodd
        exact hrow (hiff.mpr (iff_of_false hrow hodd))
    · exact eq_of_mem_foldl_toggle hlast ((hsame r).mpr hr) hk
  · rintro ⟨heven, hlast⟩ r
    by_cases htoggled : ∃ new ∈ news, key new = key r
    · obtain ⟨new, hnew, hk⟩ := htoggled
      obtain ⟨new', hnew', hk'⟩ := exists_lastOf key hnew
      have hexists : (∃ q ∈ news.foldl (toggle key) t, key q = key r) ↔ ∃ q ∈ t, key q = key r := by
        rw [exists_foldl_toggle_iff, iff_true_right (heven (key r))]
      constructor
      · intro hr
        obtain ⟨q, hq, hqk⟩ := hexists.mp ⟨r, hr, rfl⟩
        have hlastRow : r = new' := eq_of_mem_foldl_toggle hnew' hr (hk'.trans hk).symm
        have hq' : q = new' := hlast new' hnew' q hq (hqk.trans (hk'.trans hk).symm)
        exact hlastRow.trans hq'.symm ▸ hq
      · intro hr
        obtain ⟨q, hq, hqk⟩ := hexists.mpr ⟨r, hr, rfl⟩
        have hlastRow : q = new' := eq_of_mem_foldl_toggle hnew' hq (hqk.trans (hk'.trans hk).symm)
        have hr' : r = new' := hlast new' hnew' r hr (hk'.trans hk).symm
        exact hr'.trans hlastRow.symm ▸ hq
    · exact mem_foldl_toggle_of_ne fun new hnew hk => htoggled ⟨new, hnew, hk⟩

end Toggles
end Table
