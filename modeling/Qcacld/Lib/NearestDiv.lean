/-
Rounded quotients.

`nearestDiv a b` is the natural number next to `a / b`, as it is computed by adding half of the
divisor first.
-/
import Mathlib.Tactic.FieldSimp
import Mathlib.Tactic.Linarith
import Mathlib.Tactic.Positivity
import Mathlib.Tactic.Ring

set_option autoImplicit false

namespace Qcacld.Lib

/-- `a / b`, rounded. -/
def nearestDiv (a b : ℕ) : ℕ := (a + b / 2) / b

variable {a b : ℕ}

theorem two_mul_nearestDiv_mul_le (a b : ℕ) : 2 * (nearestDiv a b * b) ≤ 2 * a + b := by
  have hmul : (a + b / 2) / b * b ≤ a + b / 2 := Nat.div_mul_le_self _ _
  rw [nearestDiv]; omega

theorem two_mul_le_nearestDiv_mul (hb : 0 < b) : 2 * a ≤ 2 * (nearestDiv a b * b) + b := by
  have hlt : a + b / 2 < (a + b / 2) / b * b + b := Nat.lt_div_mul_add hb
  rw [nearestDiv]; omega

theorem abs_nearestDiv_sub_le (hb : 0 < b) : |(nearestDiv a b : ℚ) - a / b| ≤ 1 / 2 := by
  have hb' : (0 : ℚ) < b := by exact_mod_cast hb
  have hle : (2 : ℚ) * (nearestDiv a b * b) ≤ 2 * a + b := by
    exact_mod_cast two_mul_nearestDiv_mul_le a b
  have hge : (2 : ℚ) * a ≤ 2 * (nearestDiv a b * b) + b := by
    exact_mod_cast two_mul_le_nearestDiv_mul hb
  rw [abs_le]
  constructor
  · rw [neg_le_sub_iff_le_add, div_le_iff₀ hb']; linarith
  · rw [sub_le_iff_le_add, ← sub_le_iff_le_add', le_div_iff₀ hb']; linarith

/-! ## Dropping the low bits -/

/-- What the low `s` bits are of `a`, and of `b` without them. -/
def dropped (s a b : ℕ) : ℚ := max ((a % 2 ^ s : ℕ) / a) ((b % 2 ^ s : ℕ) / (b / 2 ^ s * 2 ^ s : ℕ))

variable {s : ℕ}

theorem abs_div_pow_sub_le (hb : 0 < b / 2 ^ s) :
    |((a / 2 ^ s : ℕ) : ℚ) / (b / 2 ^ s : ℕ) - a / b| ≤ a / b * dropped s a b := by
  have ha_eq : ((a / 2 ^ s * 2 ^ s : ℕ) : ℚ) + (a % 2 ^ s : ℕ) = a := by
    exact_mod_cast Nat.div_add_mod' a (2 ^ s)
  have hb_eq : ((b / 2 ^ s * 2 ^ s : ℕ) : ℚ) + (b % 2 ^ s : ℕ) = b := by
    exact_mod_cast Nat.div_add_mod' b (2 ^ s)
  have hpow : (0 : ℚ) < 2 ^ s := by positivity
  have hkept : (0 : ℚ) < (b / 2 ^ s * 2 ^ s : ℕ) := by
    exact_mod_cast Nat.mul_pos hb (Nat.two_pow_pos s)
  have hb' : (0 : ℚ) < b := by linarith
  have ha' : (0 : ℚ) ≤ a := Nat.cast_nonneg _
  -- the quotient, with the low bits of both numbers cleared
  have hquot : ((a / 2 ^ s : ℕ) : ℚ) / (b / 2 ^ s : ℕ) =
      (a / 2 ^ s * 2 ^ s : ℕ) / (b / 2 ^ s * 2 ^ s : ℕ) := by
    rw [Nat.cast_mul, Nat.cast_mul, Nat.cast_pow, Nat.cast_ofNat, mul_div_mul_right _ _ hpow.ne']
  have habove : (a : ℚ) / (b / 2 ^ s * 2 ^ s : ℕ) =
      a / b + a / b * ((b % 2 ^ s : ℕ) / (b / 2 ^ s * 2 ^ s : ℕ)) := by
    rw [← mul_one_add, one_add_div hkept.ne', hb_eq]
    field_simp
  have hbelow : ((a / 2 ^ s * 2 ^ s : ℕ) : ℚ) / b = a / b - a / b * ((a % 2 ^ s : ℕ) / a) := by
    by_cases hzero : (a : ℚ) = 0
    · have : ((a / 2 ^ s * 2 ^ s : ℕ) : ℚ) = 0 := by linarith
      rw [this, hzero, zero_div, zero_mul, sub_zero]
    · field_simp
      linarith
  have hratio : (0 : ℚ) ≤ a / b := div_nonneg ha' hb'.le
  have hleft : (a : ℚ) / b * ((a % 2 ^ s : ℕ) / a) ≤ a / b * dropped s a b :=
    mul_le_mul_of_nonneg_left (le_max_left _ _) hratio
  have hright : (a : ℚ) / b * ((b % 2 ^ s : ℕ) / (b / 2 ^ s * 2 ^ s : ℕ)) ≤ a / b * dropped s a b :=
    mul_le_mul_of_nonneg_left (le_max_right _ _) hratio
  rw [hquot, abs_le]
  constructor
  · have hge : ((a / 2 ^ s * 2 ^ s : ℕ) : ℚ) / b ≤
        (a / 2 ^ s * 2 ^ s : ℕ) / (b / 2 ^ s * 2 ^ s : ℕ) :=
      div_le_div_of_nonneg_left (Nat.cast_nonneg _) hkept (by linarith)
    linarith
  · have hle : ((a / 2 ^ s * 2 ^ s : ℕ) : ℚ) / (b / 2 ^ s * 2 ^ s : ℕ) ≤
        a / (b / 2 ^ s * 2 ^ s : ℕ) :=
      div_le_div_of_nonneg_right (by linarith) hkept.le
    linarith

theorem dropped_le_half (ha : 0 < a / 2 ^ s) (hb : 1 < b / 2 ^ s) : dropped s a b ≤ 1 / 2 := by
  have ha_eq := Nat.div_add_mod' a (2 ^ s)
  have ha_high : 1 * 2 ^ s ≤ a / 2 ^ s * 2 ^ s := Nat.mul_le_mul_right _ ha
  have hb_high : 2 * 2 ^ s ≤ b / 2 ^ s * 2 ^ s := Nat.mul_le_mul_right _ hb
  rw [dropped, max_le_iff]
  constructor
  · have hpos : (0 : ℚ) < a := by exact_mod_cast (show 0 < a by omega)
    rw [div_le_iff₀ hpos]
    have hle : (2 : ℚ) * (a % 2 ^ s : ℕ) ≤ a := by
      exact_mod_cast (show 2 * (a % 2 ^ s) ≤ a by omega)
    linarith
  · have hpos : (0 : ℚ) < (b / 2 ^ s * 2 ^ s : ℕ) := by
      exact_mod_cast (show 0 < b / 2 ^ s * 2 ^ s by omega)
    rw [div_le_iff₀ hpos]
    have hle : (2 : ℚ) * (b % 2 ^ s : ℕ) ≤ (b / 2 ^ s * 2 ^ s : ℕ) := by
      exact_mod_cast (show 2 * (b % 2 ^ s) ≤ b / 2 ^ s * 2 ^ s by omega)
    linarith

theorem abs_nearestDiv_pow_sub_le (hb : 0 < b / 2 ^ s) :
    |(nearestDiv (a / 2 ^ s) (b / 2 ^ s) : ℚ) - a / b| ≤ 1 / 2 + a / b * dropped s a b := by
  have hround := abs_nearestDiv_sub_le (a := a / 2 ^ s) hb
  have hdrop := abs_div_pow_sub_le (a := a) hb
  have htri := abs_sub_le (nearestDiv (a / 2 ^ s) (b / 2 ^ s) : ℚ)
    ((a / 2 ^ s : ℕ) / (b / 2 ^ s : ℕ)) (a / b)
  linarith

end Qcacld.Lib
