/-
The CMAC of a message, for any block cipher on 128 bits.

The last block is masked with one key if it is whole and with another one if it had to be padded.
-/
import Mathlib.Data.List.GetD

set_option autoImplicit false

namespace Qcacld.Lib.Cmac

open List

/-! ## Blocks as bytes -/

/-- The first byte is the highest. -/
def ofBytes : List UInt8 → BitVec 128
  | [] => 0
  | b :: bytes => b.toBitVec.setWidth 128 <<< (8 * bytes.length) ||| ofBytes bytes

def toBytes (x : BitVec 128) : List UInt8 :=
  List.ofFn fun i : Fin 16 => UInt8.ofBitVec (x.extractLsb' (8 * (15 - i)) 8)

theorem length_toBytes (x : BitVec 128) : (toBytes x).length = 16 := length_ofFn

theorem getLsbD_ofBytes (bytes : List UInt8) {i : Nat} (h : i < 128) :
    (ofBytes bytes).getLsbD i = (decide (i < 8 * bytes.length) &&
      (bytes.getD (bytes.length - 1 - i / 8) 0).toBitVec.getLsbD (i % 8)) := by
  induction bytes with
  | nil => simp [ofBytes]
  | cons b bytes ih =>
    rw [ofBytes, BitVec.getLsbD_or, ih, BitVec.getLsbD_shiftLeft, BitVec.getLsbD_setWidth,
      length_cons, decide_eq_true h, Bool.true_and]
    by_cases hlow : i < 8 * bytes.length
    · have hplace : bytes.length + 1 - 1 - i / 8 = bytes.length - 1 - i / 8 + 1 := by omega
      rw [decide_eq_true hlow, hplace, getD_cons_succ,
        decide_eq_true (by omega : i < 8 * (bytes.length + 1))]
      rfl
    · rw [decide_eq_false hlow, Bool.false_and, Bool.or_false]
      by_cases hfirst : i < 8 * (bytes.length + 1)
      · have hplace : bytes.length + 1 - 1 - i / 8 = 0 := by omega
        have hbit : i - 8 * bytes.length = i % 8 := by omega
        rw [decide_eq_true hfirst, hplace, getD_cons_zero, hbit,
          decide_eq_true (by omega : i % 8 < 128)]
        rfl
      · rw [decide_eq_false hfirst, BitVec.getLsbD_of_ge b.toBitVec _ (by omega)]; simp

theorem toBytes_ofBytes {bytes : List UInt8} (h : bytes.length = 16) :
    toBytes (ofBytes bytes) = bytes := by
  apply ext_getElem
  · rw [length_toBytes, h]
  intro i hi hi'
  simp only [toBytes, List.getElem_ofFn]
  apply UInt8.toBitVec_inj.mp
  apply BitVec.eq_of_getLsbD_eq
  intro j hj
  have hplace : bytes.length - 1 - (8 * (15 - i) + j) / 8 = i := by omega
  have hbit : (8 * (15 - i) + j) % 8 = j := by omega
  have hin : 8 * (15 - i) + j < 8 * bytes.length := by omega
  rw [BitVec.getLsbD_extractLsb', getLsbD_ofBytes bytes (by omega), hplace, hbit, decide_eq_true hj,
    decide_eq_true hin, Bool.true_and, Bool.true_and, getD_eq_getElem bytes 0 hi']

/-! ## The code -/

section

variable (encrypt : BitVec 128 → BitVec 128)

def double (x : BitVec 128) : BitVec 128 := if x.msb then x <<< 1 ^^^ 0x87 else x <<< 1

/-- For a last block that is whole. -/
def wholeKey : BitVec 128 := double (encrypt 0)

/-- For a last block that is padded. -/
def paddedKey : BitVec 128 := double (wholeKey encrypt)

/-- A single one and as many zeros as a block needs. -/
def pad (bytes : List UInt8) : List UInt8 := bytes ++ 0x80 :: replicate (15 - bytes.length) 0

def chain (x : BitVec 128) (m : List UInt8) : BitVec 128 :=
  if 16 < m.length then chain (encrypt (x ^^^ ofBytes (m.take 16))) (m.drop 16)
  else if m.length = 16 then encrypt (x ^^^ (ofBytes m ^^^ wholeKey encrypt))
  else encrypt (x ^^^ (ofBytes (pad m) ^^^ paddedKey encrypt))
termination_by m.length
decreasing_by
  rw [length_drop]; omega

def cmac (m : List UInt8) : BitVec 128 := chain encrypt 0 m

variable {encrypt} {x : BitVec 128} {m : List UInt8}

theorem chain_whole (h : m.length = 16) :
    chain encrypt x m = encrypt (x ^^^ (ofBytes m ^^^ wholeKey encrypt)) := by
  rw [chain, if_neg (by omega), if_pos h]

theorem chain_padded (h : m.length < 16) :
    chain encrypt x m = encrypt (x ^^^ (ofBytes (pad m) ^^^ paddedKey encrypt)) := by
  rw [chain, if_neg (by omega), if_neg (by omega)]

theorem chain_blocks (n : Nat) (h : 16 * n < m.length) :
    chain encrypt x m = chain encrypt
      ((range n).foldl (fun x i => encrypt (x ^^^ ofBytes ((m.drop (16 * i)).take 16))) x)
      (m.drop (16 * n)) := by
  induction n with
  | zero => rfl
  | succ n ih =>
    rw [ih (by omega), range_succ, foldl_append, chain,
      if_pos (by rw [length_drop]; omega), drop_drop, Nat.mul_succ]
    rfl

end

end Qcacld.Lib.Cmac
