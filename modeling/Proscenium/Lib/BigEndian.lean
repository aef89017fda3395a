import Mathlib

/-! Numbers as a fixed count of bytes, the most significant first. -/

namespace BigEndian

def toBytes : ℕ → ℕ → List UInt8
  | 0, _ => []
  | k + 1, n => UInt8.ofNat (n / 256 ^ k) :: toBytes k n

def ofBytes : List UInt8 → ℕ
  | [] => 0
  | b :: bs => b.toNat * 256 ^ bs.length + ofBytes bs

@[simp] theorem length_toBytes (k n : ℕ) : (toBytes k n).length = k := by
  induction k with
  | zero => rfl
  | succ k ih => exact congrArg (· + 1) ih

theorem ofBytes_lt (bs : List UInt8) : ofBytes bs < 256 ^ bs.length := by
  induction bs with
  | nil => exact Nat.one_pos
  | cons b bs ih =>
    have hb : b.toNat + 1 ≤ 256 := b.toNat_lt
    calc b.toNat * 256 ^ bs.length + ofBytes bs
        < b.toNat * 256 ^ bs.length + 256 ^ bs.length := Nat.add_lt_add_left ih _
      _ = (b.toNat + 1) * 256 ^ bs.length := (Nat.succ_mul _ _).symm
      _ ≤ 256 * 256 ^ bs.length := Nat.mul_le_mul_right _ hb
      _ = 256 ^ (b :: bs).length := (Nat.pow_succ').symm

theorem ofBytes_toBytes (k n : ℕ) : ofBytes (toBytes k n) = n % 256 ^ k := by
  induction k with
  | zero => exact (Nat.mod_one n).symm
  | succ k ih =>
    have hdigit : (UInt8.ofNat (n / 256 ^ k)).toNat = n / 256 ^ k % 256 := UInt8.toNat_ofNat'
    calc ofBytes (toBytes (k + 1) n) = n / 256 ^ k % 256 * 256 ^ k + n % 256 ^ k := by
          rw [toBytes, ofBytes, length_toBytes, ih, hdigit]
      _ = n % 256 ^ (k + 1) := by rw [Nat.pow_succ, Nat.mod_mul, Nat.mul_comm, Nat.add_comm]

theorem ofBytes_toBytes_of_lt {k n : ℕ} (h : n < 256 ^ k) : ofBytes (toBytes k n) = n := by
  rw [ofBytes_toBytes, Nat.mod_eq_of_lt h]

theorem toBytes_congr {k m n : ℕ} (h : m % 256 ^ k = n % 256 ^ k) : toBytes k m = toBytes k n := by
  induction k with
  | zero => rfl
  | succ k ih =>
    have hdigit : ∀ x, x / 256 ^ k % 256 = x % 256 ^ (k + 1) / 256 ^ k := fun x => by
      rw [Nat.pow_succ, Nat.mod_mul_right_div_self]
    have hrest : m % 256 ^ k = n % 256 ^ k := by
      have hdvd : 256 ^ k ∣ 256 ^ (k + 1) := Nat.pow_dvd_pow 256 (Nat.le_succ k)
      rw [← Nat.mod_mod_of_dvd m hdvd, h, Nat.mod_mod_of_dvd n hdvd]
    have hhead : UInt8.ofNat (m / 256 ^ k) = UInt8.ofNat (n / 256 ^ k) := by
      apply UInt8.toNat_inj.mp
      rw [UInt8.toNat_ofNat', UInt8.toNat_ofNat']
      change m / 256 ^ k % 256 = n / 256 ^ k % 256
      rw [hdigit, hdigit, h]
    rw [toBytes, toBytes, hhead, ih hrest]

theorem toBytes_ofBytes (bs : List UInt8) : toBytes bs.length (ofBytes bs) = bs := by
  induction bs with
  | nil => rfl
  | cons b bs ih =>
    have hlt := ofBytes_lt bs
    have hdiv : (b.toNat * 256 ^ bs.length + ofBytes bs) / 256 ^ bs.length = b.toNat := by
      rw [Nat.add_comm, Nat.add_mul_div_right _ _ (by positivity), Nat.div_eq_of_lt hlt, Nat.zero_add]
    rw [List.length_cons, toBytes, ofBytes, hdiv, toBytes_congr (Nat.mul_add_mod_self_right _ _ _), ih,
      UInt8.ofNat_toNat]

end BigEndian
