/-
The 64-bit timestamps of radar pulses, of `dfs_process_radarevent.c`.

The low part of the last pulse is stored in a field of 16 bits, although it has 32: a wrap is taken
to have happened if the low part is no more than the last 16 bits of the one before. The pulses are
those that get as far as this; the ones that are passed over before leave the fields alone.
-/
import Mathlib.Data.UInt
import Mathlib.Data.List.Chain

set_option autoImplicit false

namespace Qcacld.DfsTimestamp

open List

def DFS_TSMASK : Nat := 0xFFFFFFFF
def DFS_TSSHIFT : Nat := 32

/-- `re_full_ts` has 64 bits, `re_ts` 32 and `re_dur` 8. -/
structure Event where
  re_full_ts : Nat
  re_ts : Nat
  re_dur : Nat

/-- What `struct dfs_info` holds of the last pulse. -/
structure DfsInfo where
  rn_lastfull_ts : Nat
  rn_last_ts : Nat
  rn_last_unique_ts : Nat
  rn_tsPrefix : Nat

def sub64 (a b : Nat) : Nat := (a + 2 ^ 64 - b) % 2 ^ 64

/-- `(DFS_TSMASK - rn_last_ts) + 1 + re_ts`, which is computed in 32 bits. -/
def firstWrap (last_ts re_ts : Nat) : Nat := (DFS_TSMASK - last_ts + 1 + re_ts) % 2 ^ 32

/-- The change of `rn_tsPrefix` when the low part is taken to have wrapped. -/
def wrapped (rinfo : DfsInfo) (re : Event) : Nat :=
  let rn_tsPrefix := (rinfo.rn_tsPrefix + 1 <<< DFS_TSSHIFT) % 2 ^ 64
  -- now, see if it's been more than 1 wrap
  let deltafull_ts := sub64 re.re_full_ts rinfo.rn_lastfull_ts
  let deltafull_ts :=
    if deltafull_ts > firstWrap rinfo.rn_last_ts re.re_ts then
      sub64 deltafull_ts (firstWrap rinfo.rn_last_ts re.re_ts)
    else deltafull_ts
  let deltafull_ts := deltafull_ts >>> DFS_TSSHIFT
  if deltafull_ts > 1 then (rn_tsPrefix + (deltafull_ts - 1) <<< DFS_TSSHIFT) % 2 ^ 64
  else rn_tsPrefix

/-- The change when it is not. -/
def unwrapped (rinfo : DfsInfo) (re : Event) : Nat :=
  let deltafull_ts := sub64 re.re_full_ts rinfo.rn_lastfull_ts
  if deltafull_ts > DFS_TSMASK then
    (rinfo.rn_tsPrefix + (deltafull_ts >>> DFS_TSSHIFT - 1) <<< DFS_TSSHIFT) % 2 ^ 64
  else rinfo.rn_tsPrefix

/-- A pulse updates the fields; `this_ts` is its time before the duration is taken off. -/
def reconstruct (rinfo : DfsInfo) (re : Event) : DfsInfo × Nat :=
  let rn_tsPrefix :=
    -- either not started, or 64-bit rollover exactly to zero
    if rinfo.rn_lastfull_ts = 0 then 0
    else if re.re_ts ≤ rinfo.rn_last_ts then wrapped rinfo re
    else unwrapped rinfo re
  let rn_last_unique_ts :=
    if rinfo.rn_lastfull_ts = 0 ∨ re.re_dur = 0 ∧ re.re_ts = rinfo.rn_last_unique_ts then
      rinfo.rn_last_unique_ts
    else re.re_ts
  -- `rn_last_ts` has 16 bits
  (⟨re.re_full_ts, re.re_ts % 2 ^ 16, rn_last_unique_ts, rn_tsPrefix⟩, rn_tsPrefix ||| re.re_ts)

def times : DfsInfo → List Event → List (Nat × Nat)
  | _, [] => []
  | rinfo, re :: events =>
    (re.re_full_ts, (reconstruct rinfo re).2) :: times (reconstruct rinfo re).1 events

def DfsInfo.zero : DfsInfo := ⟨0, 0, 0, 0⟩

/-! ## One pulse -/

variable {rinfo : DfsInfo} {re : Event} {last : Nat}

/-- The number of wraps that a pulse at the full time `full` counts. -/
def counted (last full : Nat) : Nat :=
  if full % 2 ^ 32 ≤ last % 2 ^ 16 then
    max 1 ((full - last - (if full - last > firstWrap (last % 2 ^ 16) (full % 2 ^ 32) then
      firstWrap (last % 2 ^ 16) (full % 2 ^ 32) else 0)) / 2 ^ 32)
  else (full - last) / 2 ^ 32 - 1

/-- The fields after a pulse at the full time `last`. -/
structure After (rinfo : DfsInfo) (last : Nat) : Prop where
  lastfull_eq : rinfo.rn_lastfull_ts = last
  last_eq : rinfo.rn_last_ts = last % 2 ^ 16
  prefix_lt : rinfo.rn_tsPrefix < 2 ^ 64
  prefix_mod : rinfo.rn_tsPrefix % 2 ^ 32 = 0
  prefix_zero : last = 0 → rinfo.rn_tsPrefix = 0

/-- The low part of the time goes with the full time. -/
structure Stamped (re : Event) : Prop where
  full_lt : re.re_full_ts < 2 ^ 64
  ts_eq : re.re_ts = re.re_full_ts % 2 ^ 32

instance (re : Event) : Decidable (Stamped re) :=
  decidable_of_iff (re.re_full_ts < 2 ^ 64 ∧ re.re_ts = re.re_full_ts % 2 ^ 32)
    ⟨fun h => ⟨h.1, h.2⟩, fun h => ⟨h.full_lt, h.ts_eq⟩⟩

theorem sub64_eq {a b : Nat} (h : b ≤ a) (ha : a < 2 ^ 64) : sub64 a b = a - b := by
  unfold sub64; omega

theorem shift_eq (n : Nat) : n <<< DFS_TSSHIFT = n * 2 ^ 32 ∧ n >>> DFS_TSSHIFT = n / 2 ^ 32 :=
  ⟨Nat.shiftLeft_eq _ _, Nat.shiftRight_eq_div_pow _ _⟩

theorem wrapped_eq (h : After rinfo last) (hre : Stamped re) (hle : last ≤ re.re_full_ts)
    (hts : re.re_ts ≤ rinfo.rn_last_ts) :
    wrapped rinfo re =
      (rinfo.rn_tsPrefix + counted last re.re_full_ts * 2 ^ 32) % 2 ^ 64 := by
  have hfull := hre.full_lt
  rw [h.last_eq, hre.ts_eq] at hts
  unfold wrapped counted
  rw [h.lastfull_eq, h.last_eq, hre.ts_eq, if_pos hts, sub64_eq hle hfull]
  generalize firstWrap (last % 2 ^ 16) (re.re_full_ts % 2 ^ 32) = first
  have hsub : (if re.re_full_ts - last > first then sub64 (re.re_full_ts - last) first
      else re.re_full_ts - last) =
      re.re_full_ts - last - if re.re_full_ts - last > first then first else 0 := by
    split
    · rename_i hgt
      exact sub64_eq (Nat.le_of_lt hgt) (Nat.lt_of_le_of_lt (Nat.sub_le _ _) hfull)
    · rfl
  dsimp only
  rw [hsub]
  simp only [shift_eq]
  generalize (re.re_full_ts - last - if re.re_full_ts - last > first then first else 0) / 2 ^ 32 = n
  split <;> omega

theorem unwrapped_eq (h : After rinfo last) (hre : Stamped re) (hle : last ≤ re.re_full_ts)
    (hts : ¬ re.re_ts ≤ rinfo.rn_last_ts) :
    unwrapped rinfo re =
      (rinfo.rn_tsPrefix + counted last re.re_full_ts * 2 ^ 32) % 2 ^ 64 := by
  have hfull := hre.full_lt
  have hprefix := h.prefix_lt
  rw [h.last_eq, hre.ts_eq] at hts
  unfold unwrapped counted
  rw [h.lastfull_eq, if_neg hts, sub64_eq hle hfull]
  simp only [shift_eq, DFS_TSMASK]
  split <;> omega

/-- When the wraps are counted: once, in a step to the next value of the high part, if the low part
is no more than the last 16 bits of the one before (or any number of times, if the low part stays
the same); not at all, if it is more. -/
def Counted (last full : Nat) : Prop :=
  if last = 0 then full < 2 ^ 32
  else if full % 2 ^ 32 ≤ last % 2 ^ 16 then
    full / 2 ^ 32 = last / 2 ^ 32 + 1 ∨ full % 2 ^ 32 = last % 2 ^ 32 ∧ last < full
  else full / 2 ^ 32 = last / 2 ^ 32

theorem counted_eq_iff {full : Nat} (hle : last ≤ full) (hlast : last ≠ 0) :
    counted last full = full / 2 ^ 32 - last / 2 ^ 32 ↔ Counted last full := by
  unfold counted Counted
  split
  · have hfirst : firstWrap (last % 2 ^ 16) (full % 2 ^ 32) =
        if full % 2 ^ 32 = last % 2 ^ 16 then 0 else 2 ^ 32 - last % 2 ^ 16 + full % 2 ^ 32 := by
      unfold firstWrap DFS_TSMASK
      split <;> omega
    rw [hfirst]
    split <;> split <;> omega
  · omega

def Advances (prev next : Nat × Nat) : Prop := next.2 = (prev.2 + (next.1 - prev.1)) % 2 ^ 64

theorem after_zero : After DfsInfo.zero 0 := ⟨rfl, rfl, Nat.two_pow_pos 64, rfl, fun _ => rfl⟩

theorem prefix_reconstruct (h : After rinfo last) (hre : Stamped re) (hle : last ≤ re.re_full_ts) :
    (reconstruct rinfo re).1.rn_tsPrefix =
      if last = 0 then 0
      else (rinfo.rn_tsPrefix + counted last re.re_full_ts * 2 ^ 32) % 2 ^ 64 := by
  unfold reconstruct
  rw [h.lastfull_eq]
  split
  · rfl
  · split
    · rename_i hts; exact wrapped_eq h hre hle hts
    · rename_i hts; exact unwrapped_eq h hre hle hts

theorem After.reconstruct (h : After rinfo last) (hre : Stamped re) (hle : last ≤ re.re_full_ts) :
    After (reconstruct rinfo re).1 re.re_full_ts where
  lastfull_eq := rfl
  last_eq := by
    show re.re_ts % 2 ^ 16 = _
    rw [hre.ts_eq]; omega
  prefix_lt := by
    rw [prefix_reconstruct h hre hle]
    split
    · exact Nat.two_pow_pos 64
    · exact Nat.mod_lt _ (Nat.two_pow_pos 64)
  prefix_mod := by
    have hmod := h.prefix_mod
    rw [prefix_reconstruct h hre hle]
    split <;> omega
  prefix_zero := by
    intro hzero
    rw [prefix_reconstruct h hre hle, if_pos]; exact Nat.le_zero.mp (hzero ▸ hle)

theorem time_reconstruct (h : After rinfo last) (hre : Stamped re) (hle : last ≤ re.re_full_ts) :
    (reconstruct rinfo re).2 =
      (reconstruct rinfo re).1.rn_tsPrefix + re.re_full_ts % 2 ^ 32 := by
  have hmod := (h.reconstruct hre hle).prefix_mod
  have hlow : re.re_ts < 2 ^ 32 := by rw [hre.ts_eq]; exact Nat.mod_lt _ (Nat.two_pow_pos 32)
  have hshift : (reconstruct rinfo re).1.rn_tsPrefix =
      ((reconstruct rinfo re).1.rn_tsPrefix / 2 ^ 32) <<< 32 := by rw [Nat.shiftLeft_eq]; omega
  show (reconstruct rinfo re).1.rn_tsPrefix ||| re.re_ts = _
  rw [hshift, ← Nat.shiftLeft_add_eq_or_of_lt hlow, hre.ts_eq]

theorem advances_iff (h : After rinfo last) (hre : Stamped re) (hle : last ≤ re.re_full_ts) :
    Advances (last, rinfo.rn_tsPrefix + last % 2 ^ 32) (re.re_full_ts, (reconstruct rinfo re).2) ↔
      Counted last re.re_full_ts := by
  have hfull := hre.full_lt
  have hmod := h.prefix_mod
  unfold Advances
  rw [time_reconstruct h hre hle, prefix_reconstruct h hre hle]
  by_cases hlast : last = 0
  · rw [if_pos hlast, h.prefix_zero hlast]
    unfold Counted
    rw [if_pos hlast]; omega
  · rw [if_neg hlast, ← counted_eq_iff hle hlast]
    have hcounted : counted last re.re_full_ts < 2 ^ 32 := by
      unfold counted
      split <;> omega
    omega

/-! ## A sequence of pulses -/

/-- The full times are not less than `last` and do not go back. -/
def InOrder (last : Nat) (events : List Event) : Prop :=
  (last :: events.map Event.re_full_ts).IsChain (· ≤ ·)

theorem times_after {events : List Event} (h : After rinfo last)
    (hevents : ∀ re ∈ events, Stamped re) (horder : InOrder last events) :
    ((last, rinfo.rn_tsPrefix + last % 2 ^ 32) :: times rinfo events).IsChain Advances ↔
      (last :: events.map Event.re_full_ts).IsChain Counted := by
  induction events generalizing rinfo last with
  | nil => exact ⟨fun _ => isChain_singleton _, fun _ => isChain_singleton _⟩
  | cons re events ih =>
    have hre := hevents re mem_cons_self
    unfold InOrder at horder
    rw [map_cons, isChain_cons_cons] at horder
    have hrest := ih (h.reconstruct hre horder.1)
      (fun re' hre' => hevents re' (mem_cons_of_mem _ hre')) horder.2
    rw [← time_reconstruct h hre horder.1] at hrest
    rw [map_cons, isChain_cons_cons, ← hrest, ← advances_iff h hre horder.1]
    exact isChain_cons_cons

/-- **The times of any sequence of pulses** advance as the full times do exactly if the wraps
between each pulse and the next are counted. -/
theorem times_advance_iff (events : List Event) (hevents : ∀ re ∈ events, Stamped re)
    (horder : (events.map Event.re_full_ts).IsChain (· ≤ ·)) :
    (times DfsInfo.zero events).IsChain Advances ↔
      (events.map Event.re_full_ts).IsChain Counted := by
  cases events with
  | nil => exact ⟨fun _ => isChain_nil, fun _ => isChain_nil⟩
  | cons re events =>
    have hre := hevents re mem_cons_self
    have hrest := times_after (after_zero.reconstruct hre (Nat.zero_le _))
      (fun re' hre' => hevents re' (mem_cons_of_mem _ hre')) horder
    rwa [← time_reconstruct after_zero hre (Nat.zero_le _)] at hrest

/-- Three pulses, with a wrap between the second and the third. -/
def onceWrapped : List Event :=
  [⟨0xFFFF0007, 0xFFFF0007, 4⟩, ⟨0xFFFF0107, 0xFFFF0107, 4⟩, ⟨0x100000105, 0x105, 4⟩]

theorem times_onceWrapped :
    (∀ re ∈ onceWrapped, Stamped re) ∧ (onceWrapped.map Event.re_full_ts).IsChain (· ≤ ·) ∧
      (times DfsInfo.zero onceWrapped).IsChain Advances := by
  have hstamped : ∀ re ∈ onceWrapped, Stamped re := by decide
  have horder : (onceWrapped.map Event.re_full_ts).IsChain (· ≤ ·) := by decide
  refine ⟨hstamped, horder, (times_advance_iff onceWrapped hstamped horder).mpr ?_⟩
  unfold onceWrapped; simp [Counted]

/-- The low part has wrapped, to a value above the last 16 bits of the one before. -/
def lostWrap : List Event := [⟨0xFFFF0000, 0xFFFF0000, 4⟩, ⟨0x100000005, 0x5, 4⟩]

theorem lostWrap_not_counted :
    (∀ re ∈ lostWrap, Stamped re) ∧ (lostWrap.map Event.re_full_ts).IsChain (· ≤ ·) ∧
      times DfsInfo.zero lostWrap = [(0xFFFF0000, 0xFFFF0000), (0x100000005, 0x5)] ∧
      ¬ (times DfsInfo.zero lostWrap).IsChain Advances := by
  have htimes : times DfsInfo.zero lostWrap = [(0xFFFF0000, 0xFFFF0000), (0x100000005, 0x5)] := by
    decide
  refine ⟨by decide, by decide, htimes, ?_⟩
  unfold Advances; decide

end Qcacld.DfsTimestamp
