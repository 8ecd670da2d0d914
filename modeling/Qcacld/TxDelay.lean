/-
Delays of transmitted frames: `ol_tx_send.c`.

The number of frames may be shifted away, and what is added for rounding may carry out of 32 bits.
Where neither happens, the average is right up to the bits that are shifted out, and only there.
-/
import Qcacld.Lib.NearestDiv
import Qcacld.Lib.Run

set_option autoImplicit false

namespace Qcacld.TxDelay

open Lib Function

/-! ## The average -/

def shiftLoop : Nat → UInt64 → Nat → UInt64 × Nat
  | 0, sum, shift => (sum, shift)
  | n + 1, sum, shift =>
    if sum >>> 32 ≠ 0 then shiftLoop n (sum >>> 1) (shift + 1) else (sum, shift)

/-- A shift of the 32-bit number by 32 is not defined, and neither is a division by zero. -/
def ol_tx_delay_avg (sum : UInt64) (num : UInt32) : Option UInt32 :=
  let (sum, shift) := shiftLoop 32 sum 0
  let sum32 := sum.toUInt32
  if shift < 32 then
    let num := num >>> UInt32.ofNat shift
    if num = 0 then none
    else some ((sum32 + (num >>> 1)) / num)
  else none

/-! ## The sums -/

/-- `avgs` of `struct ol_tx_delay_data`. -/
structure Avgs where
  transmit_sum_ticks : UInt64
  queue_sum_ticks : UInt64
  transmit_num : UInt32
  queue_num : UInt32

def Avgs.zero : Avgs := ⟨0, 0, 0, 0⟩

structure Cat where
  copies : Bool → Avgs
  in_progress_idx : Bool
  avg_start_time_ticks : UInt32

structure Delay where
  cats : Nat → Cat
  tx_compl_timestamp_ticks : UInt32
  avg_period_ticks : UInt32

/-- The frames that wait no longer, with their `entry_timestamp_ticks`. -/
def Avgs.addQueued (now_ticks : UInt32) : List UInt32 → Avgs → Avgs
  | [], a => a
  | entry :: entries, a =>
    Avgs.addQueued now_ticks entries { a with
      queue_sum_ticks := a.queue_sum_ticks + (now_ticks - entry).toUInt64
      queue_num := a.queue_num + 1 }

def Avgs.addTransmit (tx_compl_timestamp_ticks now_ticks : UInt32) (num_msdus : Nat) (a : Avgs) :
    Avgs :=
  if tx_compl_timestamp_ticks = 0 then a
  else { a with
    transmit_sum_ticks := a.transmit_sum_ticks + (now_ticks - tx_compl_timestamp_ticks).toUInt64
    transmit_num := a.transmit_num + UInt32.ofNat num_msdus }

/-- A message of the target: its status, the category of its first frame, which may have none, and
the frames. -/
structure Completion where
  now_ticks : UInt32
  cat : Option Nat
  ok : Bool
  entries : List UInt32

/-- The counters of packets are left out. -/
def ol_tx_delay_compute (d : Delay) (m : Completion) : Delay :=
  match m.cat with
  | none => d
  | some cat =>
    if m.ok then
      let c := d.cats cat
      let avgs := ((c.copies c.in_progress_idx).addTransmit d.tx_compl_timestamp_ticks m.now_ticks
        m.entries.length).addQueued m.now_ticks m.entries
      let c := { c with copies := update c.copies c.in_progress_idx avgs }
      let c :=
        if m.now_ticks - c.avg_start_time_ticks > d.avg_period_ticks then
          { copies := update c.copies (!c.in_progress_idx) .zero
            in_progress_idx := !c.in_progress_idx
            avg_start_time_ticks := m.now_ticks }
        else c
      { d with
        cats := update d.cats cat c
        tx_compl_timestamp_ticks := m.now_ticks }
    else d

/-- A query, with what the kernel makes milliseconds of ticks with: the queue delay and the transmit
delay. -/
def ol_tx_delay (cdf_system_ticks_to_msecs : UInt32 → UInt32) (d : Delay) (category : Nat) :
    Option (UInt32 × UInt32) :=
  let c := d.cats category
  let avgs := c.copies (!c.in_progress_idx)
  let delay (sum : UInt64) (num : UInt32) : Option UInt32 :=
    if num > 0 then
      (ol_tx_delay_avg sum num).map fun avg => cdf_system_ticks_to_msecs (avg * 1000)
    else some 0
  (delay avgs.queue_sum_ticks avgs.queue_num).bind fun queue =>
    (delay avgs.transmit_sum_ticks avgs.transmit_num).map fun transmit => (queue, transmit)

def init (avg_period_ticks : UInt32) : Delay where
  cats _ := ⟨fun _ => .zero, false, 0⟩
  tx_compl_timestamp_ticks := 0
  avg_period_ticks := avg_period_ticks

/-! ## What the loop does -/

/-- By how many bits the sum is longer than 32. -/
def excess (sum : UInt64) : Nat := sum.toNat.log2 - 31

theorem excess_le (sum : UInt64) : excess sum ≤ 32 := by
  have hlt : sum.toNat < 2 ^ 64 := sum.toNat_lt
  by_cases hzero : sum.toNat = 0
  · rw [excess, hzero, Nat.log2_zero]; omega
  · have hlog := (Nat.log2_lt hzero).mpr hlt
    rw [excess]; omega

theorem shiftRight_ne_zero (sum : UInt64) : sum >>> 32 ≠ 0 ↔ 2 ^ 32 ≤ sum.toNat := by
  rw [Ne, ← UInt64.toNat_inj, UInt64.toNat_shiftRight]
  change ¬sum.toNat >>> 32 = 0 ↔ _
  omega

theorem toNat_shiftRight_one (sum : UInt64) : (sum >>> 1).toNat = sum.toNat / 2 := by
  change sum.toNat >>> 1 = _
  rw [Nat.shiftRight_eq_div_pow, pow_one]

variable {sum : UInt64}

theorem excess_eq_zero (hsum : sum.toNat < 2 ^ 32) : excess sum = 0 := by
  by_cases hzero : sum.toNat = 0
  · rw [excess, hzero, Nat.log2_zero]
  · have hlog := (Nat.log2_lt hzero).mpr hsum
    rw [excess]; omega

theorem excess_shiftRight (hsum : 2 ^ 32 ≤ sum.toNat) : excess sum = excess (sum >>> 1) + 1 := by
  have hlog : 32 ≤ sum.toNat.log2 := (Nat.le_log2 (by omega)).mpr hsum
  have hdef := Nat.log2_def sum.toNat
  rw [if_pos (by omega)] at hdef
  rw [excess, excess, toNat_shiftRight_one]; omega

theorem shiftLoop_eq (n : Nat) (sum : UInt64) (shift : Nat) (hn : excess sum ≤ n) :
    (shiftLoop n sum shift).1.toNat = sum.toNat / 2 ^ excess sum ∧
      (shiftLoop n sum shift).2 = shift + excess sum := by
  induction n generalizing sum shift with
  | zero => rw [Nat.le_zero.mp hn, pow_zero, Nat.div_one]; exact ⟨rfl, rfl⟩
  | succ n ih =>
    rw [shiftLoop]
    by_cases hsum : 2 ^ 32 ≤ sum.toNat
    · rw [if_pos ((shiftRight_ne_zero sum).mpr hsum)]
      have hover := excess_shiftRight hsum
      obtain ⟨hval, hshift⟩ := ih (sum >>> 1) (shift + 1) (by omega)
      rw [hval, hshift, hover, toNat_shiftRight_one, Nat.div_div_eq_div_mul, pow_succ']
      exact ⟨rfl, by omega⟩
    · rw [if_neg fun h => hsum ((shiftRight_ne_zero sum).mp h),
        excess_eq_zero (by omega), pow_zero, Nat.div_one]
      exact ⟨rfl, rfl⟩

theorem div_excess_lt (sum : UInt64) : sum.toNat / 2 ^ excess sum < 2 ^ 32 := by
  by_cases hzero : sum.toNat = 0
  · rw [hzero, Nat.zero_div]; exact Nat.two_pow_pos 32
  · have hlt : sum.toNat < 2 ^ (sum.toNat.log2 + 1) := Nat.lt_log2_self
    rw [Nat.div_lt_iff_lt_mul (Nat.two_pow_pos _), ← pow_add]
    apply Nat.lt_of_lt_of_le hlt
    apply Nat.pow_le_pow_right Nat.two_pos
    rw [excess]; omega

theorem ol_tx_delay_avg_none {num : UInt32} (h : num.toNat < 2 ^ excess sum) :
    ol_tx_delay_avg sum num = none := by
  have hshift := (shiftLoop_eq 32 sum 0 (excess_le sum)).2
  rw [Nat.zero_add] at hshift
  rw [ol_tx_delay_avg]
  dsimp only
  rw [hshift]
  by_cases hlt : excess sum < 32
  · rw [if_pos hlt, if_pos]
    rw [← UInt32.toNat_inj, UInt32.toNat_shiftRight,
      UInt32.toNat_ofNat_of_lt' (show excess sum < 2 ^ 32 by omega), Nat.mod_eq_of_lt hlt,
      Nat.shiftRight_eq_div_pow, Nat.div_eq_of_lt h]
    rfl
  · rw [if_neg hlt]

theorem ol_tx_delay_avg_some {num : UInt32} (h : 2 ^ excess sum ≤ num.toNat) :
    ∃ r, ol_tx_delay_avg sum num = some r ∧
      r.toNat = (sum.toNat / 2 ^ excess sum + num.toNat / 2 ^ excess sum / 2) % 2 ^ 32 /
        (num.toNat / 2 ^ excess sum) := by
  have hnum : num.toNat < 2 ^ 32 := num.toNat_lt
  have hlt : excess sum < 32 := (Nat.pow_lt_pow_iff_right (by omega)).mp (h.trans_lt hnum)
  obtain ⟨hval, hshift⟩ := shiftLoop_eq 32 sum 0 (excess_le sum)
  rw [Nat.zero_add] at hshift
  have hden : (num >>> UInt32.ofNat (excess sum)).toNat = num.toNat / 2 ^ excess sum := by
    rw [UInt32.toNat_shiftRight, UInt32.toNat_ofNat_of_lt' (show excess sum < 2 ^ 32 by omega),
      Nat.mod_eq_of_lt hlt, Nat.shiftRight_eq_div_pow]
  have hhalf (n : UInt32) : (n >>> 1).toNat = n.toNat / 2 := by
    change n.toNat >>> 1 = _
    rw [Nat.shiftRight_eq_div_pow, pow_one]
  have hpos : 0 < num.toNat / 2 ^ excess sum := Nat.div_pos h (Nat.two_pow_pos _)
  rw [ol_tx_delay_avg]
  dsimp only
  rw [hshift, if_pos hlt, if_neg]
  · refine ⟨_, rfl, ?_⟩
    rw [UInt32.toNat_div, UInt32.toNat_add, hhalf, hden, UInt64.toNat_toUInt32, hval,
      Nat.mod_eq_of_lt (div_excess_lt sum)]
  · rw [← UInt32.toNat_inj, hden]; exact hpos.ne'

/-! ## Where the average is right -/

/-- The average, rounded, up to the bits that are shifted out. -/
def Averages (sum : UInt64) (num r : UInt32) : Prop :=
  |(r.toNat : ℚ) - sum.toNat / num.toNat| ≤
    1 / 2 + sum.toNat / num.toNat * dropped (excess sum) sum.toNat num.toNat

/-- The number is not shifted away, and there is room for rounding. -/
def Fits (sum : UInt64) (num : UInt32) : Prop :=
  2 ^ excess sum ≤ num.toNat ∧
    sum.toNat / 2 ^ excess sum + num.toNat / 2 ^ excess sum / 2 < 2 ^ 32

theorem carry_large {num : UInt32} (hnum : 2 ^ excess sum ≤ num.toNat)
    (hcarry : 2 ^ 32 ≤ sum.toNat / 2 ^ excess sum + num.toNat / 2 ^ excess sum / 2) :
    1 / 2 + (sum.toNat / num.toNat : ℚ) * dropped (excess sum) sum.toNat num.toNat <
      sum.toNat / num.toNat := by
  have hnum32 : num.toNat < 2 ^ 32 := num.toNat_lt
  have hsum32 := div_excess_lt sum
  have hnum_le := Nat.div_le_self num.toNat (2 ^ excess sum)
  by_cases hover : excess sum = 0
  · rw [hover, pow_zero, Nat.div_one, Nat.div_one] at hcarry
    rw [hover, pow_zero, Nat.div_one] at hsum32
    have hpos : (0 : ℚ) < num.toNat := by
      exact_mod_cast (show 0 < num.toNat by omega)
    have hlt : (num.toNat : ℚ) < 2 * sum.toNat := by
      exact_mod_cast (show num.toNat < 2 * sum.toNat by omega)
    rw [hover, dropped, pow_zero, Nat.mod_one, Nat.mod_one, Nat.cast_zero, zero_div, zero_div,
      max_self, mul_zero, add_zero, lt_div_iff₀ hpos]
    linarith
  · -- the number has lost a bit at least, and what is lost of both is no more than half
    have hhalf : dropped (excess sum) sum.toNat num.toNat ≤ 1 / 2 :=
      dropped_le_half (by omega) (by omega)
    have hpow : 2 ≤ 2 ^ excess sum := by
      calc 2 = 2 ^ 1 := rfl
        _ ≤ 2 ^ excess sum := Nat.pow_le_pow_right Nat.two_pos (by omega)
    have hsum := Nat.div_add_mod' sum.toNat (2 ^ excess sum)
    have hden := Nat.div_add_mod' num.toNat (2 ^ excess sum)
    have hlt : num.toNat < sum.toNat := by
      generalize 2 ^ excess sum = P at *
      generalize sum.toNat / P = A at *
      generalize num.toNat / P = B at *
      have hA : 2 ^ 31 * P ≤ A * P := Nat.mul_le_mul_right P (by omega)
      omega
    have hpos : (0 : ℚ) < num.toNat := by
      exact_mod_cast (show 0 < num.toNat from (Nat.two_pow_pos _).trans_le hnum)
    have hone : (1 : ℚ) < sum.toNat / num.toNat := by
      rw [one_lt_div hpos]
      exact_mod_cast hlt
    have hle := mul_le_mul_of_nonneg_left hhalf (show (0 : ℚ) ≤ sum.toNat / num.toNat by linarith)
    linarith

/-- **The average of the delays.** It is right if and only if the sum and the number fit. -/
theorem delay_avg_iff (sum : UInt64) (num : UInt32) :
    (∃ r, ol_tx_delay_avg sum num = some r ∧ Averages sum num r) ↔ Fits sum num := by
  by_cases hshift : 2 ^ excess sum ≤ num.toNat
  · obtain ⟨r, hr, hval⟩ := ol_tx_delay_avg_some hshift
    have hpos : 0 < num.toNat / 2 ^ excess sum := Nat.div_pos hshift (Nat.two_pow_pos _)
    have hdef : (∃ r', ol_tx_delay_avg sum num = some r' ∧ Averages sum num r') ↔
        Averages sum num r := by
      rw [hr]; exact ⟨fun ⟨r', heq, hav⟩ => Option.some.inj heq ▸ hav, fun hav => ⟨r, rfl, hav⟩⟩
    rw [hdef, Fits, and_iff_right hshift]
    by_cases hfits : sum.toNat / 2 ^ excess sum + num.toNat / 2 ^ excess sum / 2 < 2 ^ 32
    · apply iff_of_true ?_ hfits
      rw [Nat.mod_eq_of_lt hfits] at hval
      rw [Averages, hval]; exact abs_nearestDiv_pow_sub_le hpos
    · apply iff_of_false ?_ hfits
      -- what is left of the carry is below the divisor
      have hzero : r.toNat = 0 := by
        have hsum32 := div_excess_lt sum
        rw [hval]
        apply Nat.div_eq_of_lt
        omega
      have hlarge := carry_large hshift (by omega)
      rw [Averages, hzero, Nat.cast_zero, zero_sub, abs_neg, not_le]
      exact hlarge.trans_le (le_abs_self _)
  · rw [ol_tx_delay_avg_none (by omega)]
    exact iff_of_false (fun ⟨_, h, _⟩ => nomatch h) fun h => hshift h.1

/-- Frames that have waited long: the average of three is none, and that of two is zero. -/
theorem delay_avg_lost :
    ol_tx_delay id (ol_tx_delay_compute (init 5000) ⟨0xFFFFFFFF, some 0, true, [0, 0, 0]⟩) 0 =
        none ∧
      ol_tx_delay id
          (ol_tx_delay_compute (init 5000) ⟨0xFFFFFFFF, some 0, true, [0, 0xFFFFFFFF]⟩) 0 =
        some (0, 0) ∧
      (¬∃ r, ol_tx_delay_avg 0x2FFFFFFFD 3 = some r ∧ Averages 0x2FFFFFFFD 3 r) ∧
      ¬∃ r, ol_tx_delay_avg 0xFFFFFFFF 2 = some r ∧ Averages 0xFFFFFFFF 2 r := by
  refine ⟨by decide +kernel, by decide +kernel, ?_, ?_⟩
  · rintro ⟨r, hr, -⟩
    have hnone : ol_tx_delay_avg 0x2FFFFFFFD 3 = none := by decide +kernel
    exact absurd (hr.symm.trans hnone) (Option.some_ne_none r)
  · rintro ⟨r, hr, hav⟩
    have hzero : ol_tx_delay_avg 0xFFFFFFFF 2 = some 0 := by decide +kernel
    obtain rfl := Option.some.inj (hr.symm.trans hzero)
    refine absurd hav (not_le.mpr ?_)
    rw [UInt32.toNat_zero, Nat.cast_zero, zero_sub, abs_neg]
    exact (carry_large (by decide +kernel) (by decide +kernel)).trans_le (le_abs_self _)

end Qcacld.TxDelay
