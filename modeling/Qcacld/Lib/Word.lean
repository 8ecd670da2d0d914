/-
Little-endian words in memory, and the fields that masks and shifts cut out of them.
-/
import Mathlib.Data.Nat.Bitwise

set_option autoImplicit false

namespace Qcacld.Lib

/-- The word at address `a`, lowest byte first. -/
def le32 (mem : Nat → UInt8) (a : Nat) : UInt32 :=
  UInt32.ofNat ((mem a).toNat + 2 ^ 8 * (mem (a + 1)).toNat + 2 ^ 16 * (mem (a + 2)).toNat +
    2 ^ 24 * (mem (a + 3)).toNat)

theorem toNat_le32 (mem : Nat → UInt8) (a : Nat) :
    (le32 mem a).toNat = (mem a).toNat + 2 ^ 8 * (mem (a + 1)).toNat +
      2 ^ 16 * (mem (a + 2)).toNat + 2 ^ 24 * (mem (a + 3)).toNat := by
  have h0 := (mem a).toNat_lt
  have h1 := (mem (a + 1)).toNat_lt
  have h2 := (mem (a + 2)).toNat_lt
  have h3 := (mem (a + 3)).toNat_lt
  apply Nat.mod_eq_of_lt
  omega

theorem toNat_field (w mask lsb : UInt32) (k n : Nat) (hk : k < 32) (hlsb : lsb.toNat = k)
    (hmask : mask.toNat = (2 ^ n - 1) <<< k) :
    ((w &&& mask) >>> lsb).toNat = w.toNat / 2 ^ k % 2 ^ n := by
  rw [UInt32.toNat_shiftRight, UInt32.toNat_and, hlsb, hmask, Nat.mod_eq_of_lt hk,
    Nat.shiftRight_and_distrib, Nat.shiftLeft_shiftRight, Nat.and_two_pow_sub_one_eq_mod,
    Nat.shiftRight_eq_div_pow]

end Qcacld.Lib
