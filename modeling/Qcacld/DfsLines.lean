/-
The pulse buffers of the DFS radar detector: `dfs_bindetects.c`, `dfs_fcc_bin5.c`,
`dfs_process_radarevent.c` and `dfs_init.c`.

The sizes are powers of two, so that an index masked with the size less one is the index modulo the
size. The segments and the radar types and filters are indices into `dl`, `pulses` and `b5radars`:
`dl .SEG1 i j` is `rf_dl_ext_seg` of the filter `j` of `dfs_radarf[i]`. Left out are `dl_last_ts`,
which none of these functions read, and what `dfs_bin_check` does for a pattern that is not fixed,
where it does not write to the line.
-/
import Mathlib.Data.UInt
import Qcacld.Lib.Line
import Qcacld.Lib.Run

set_option autoImplicit false

namespace Qcacld.DfsLines

open Lib

def DFS_MAX_DL_SIZE : Nat := 64
def DFS_MAX_DL_MASK : Nat := 0x3F
def DFS_MAX_B5_SIZE : Nat := 128
def DFS_MAX_PULSE_BUFFER_SIZE : Nat := 1024
def DFS_MAX_PULSE_BUFFER_MASK : Nat := 0x3ff
def DFS_MAX_RADAR_TYPES : Nat := 32

def DFS_BIN5_PRI_LOWER_LIMIT : UInt64 := 990
def DFS_BIN5_PRI_HIGHER_LIMIT : UInt64 := 2010
def DFS_BIN5_BRI_LOWER_LIMIT : UInt64 := 300000

def DFS_EXT_CHAN_LOADING_THRESH : Int := 30
def DFS_DEFAULT_PRI_MARGIN : Int := 6
def DFS_DEFAULT_FIXEDPATTERN_PRI_MARGIN : Int := 4

/-! ## Data -/

inductive Seg where
  | SEG0
  | SEG1
  deriving DecidableEq

structure DelayElem where
  de_time : UInt32
  de_dur : UInt8
  de_rssi : UInt8
  de_ts : UInt64
  deriving DecidableEq

structure PulseParams where
  p_time : UInt64
  p_dur : UInt8
  p_rssi : UInt8

structure Bin5Elem where
  be_ts : UInt64
  be_rssi : UInt32
  be_dur : UInt32

structure Event where
  re_dur : UInt8
  re_rssi : UInt8

structure Filter where
  rf_numpulses : UInt32
  rf_minpri : UInt32
  rf_maxpri : UInt32
  rf_threshold : UInt32
  rf_filterlen : UInt32
  rf_patterntype : UInt32
  deriving DecidableEq

/-- What the functions read and do not change. `b5radars_null` is the time before any radar
pulses are configured; a radar type that is not there has no filters. -/
structure Conf where
  hw_bd_qca6174 : Bool
  b5radars_null : Bool
  ft_numfilters : Nat → Nat
  rf : Nat → Nat → Filter
  rn_numbin5radars : Nat
  b5_timewindow : Nat → UInt32

structure State where
  conf : Conf
  ic_80p80_both_dfs : Bool
  dl : Seg → Nat → Nat → Line DelayElem
  pulses : Seg → Line PulseParams
  b5radars : Seg → Nat → Line Bin5Elem

def zeroDelay : DelayElem := ⟨0, 0, 0, 0⟩
def zeroPulse : PulseParams := ⟨0, 0, 0⟩
def zeroBin5 : Bin5Elem := ⟨0, 0, 0⟩

def State.init (conf : Conf) (both : Bool) : State where
  conf := conf
  ic_80p80_both_dfs := both
  dl := fun _ _ _ => .empty DFS_MAX_DL_SIZE fun _ => zeroDelay
  pulses := fun _ => .empty DFS_MAX_PULSE_BUFFER_SIZE fun _ => zeroPulse
  b5radars := fun _ _ => .empty DFS_MAX_B5_SIZE fun _ => zeroBin5

/-! ## Delay lines -/

def trimWindow (this_ts : UInt64) (filterlen : UInt32) :
    (k n index : Nat) → Line DelayElem → Line DelayElem
  | 0, _, _, dl => dl
  | k + 1, n, index, dl =>
    let index := (index + DFS_MAX_DL_MASK) % DFS_MAX_DL_SIZE
    let window := (this_ts - (dl.elems index).de_ts).toUInt32
    if filterlen < window then
      { dl with firstelem := (index + 1) % DFS_MAX_DL_SIZE, numelems := n + 1 }
    else
      trimWindow this_ts filterlen k (n + 1) index dl

def dfs_add_pulse (rf : Filter) (dl : Line DelayElem) (re : Event) (deltaT : UInt32)
    (this_ts : UInt64) : Line DelayElem :=
  let dl := dl.insert DFS_MAX_DL_SIZE ⟨deltaT, re.re_dur, re.re_rssi, this_ts⟩
  trimWindow this_ts rf.rf_filterlen (dl.numelems - 1) 0 dl.lastelem dl

def dfs_reset_delayline (dl : Line DelayElem) : Line DelayElem :=
  { dl with
    elems := fun _ => zeroDelay
    lastelem := DFS_MAX_DL_MASK
    inserted := [] }

/-! ## Fixed patterns -/

def adjust_per_chan_busy (ext_chan_busy value : Int) : Int :=
  if DFS_EXT_CHAN_LOADING_THRESH < ext_chan_busy then
    ((ext_chan_busy - DFS_EXT_CHAN_LOADING_THRESH) * value).tdiv 100
  else 0

def adjust_pri_per_chan_busy (ext_chan_busy pri_margin : Int) : Int :=
  adjust_per_chan_busy ext_chan_busy pri_margin

def adjust_thresh_per_chan_busy (ext_chan_busy thresh : Int) : Int :=
  adjust_per_chan_busy ext_chan_busy thresh

/-- `ext_chan_busy` is 0 for a channel that is not HT40. -/
def dfs_get_pri_margin (ext_chan_busy : Int) (is_fixed_pattern : Bool) : Int :=
  let pri_margin :=
    if is_fixed_pattern then DFS_DEFAULT_FIXEDPATTERN_PRI_MARGIN else DFS_DEFAULT_PRI_MARGIN
  pri_margin - adjust_pri_per_chan_busy ext_chan_busy pri_margin

def dfs_get_filter_threshold (ext_chan_busy : Int) (rf : Filter) : Int :=
  let thresh := (rf.rf_threshold.toNat : Int)
  thresh + adjust_thresh_per_chan_busy ext_chan_busy thresh

def DFS_DIFF (a b : UInt32) : UInt32 := max a b - min a b

/-- The index of the first element before `start_ts`, going back from `index`. -/
def patternStart (pl : Line PulseParams) (start_ts : UInt64) : (i index : Nat) → Nat
  | 0, index => index
  | i + 1, index =>
    let index := (index + DFS_MAX_PULSE_BUFFER_MASK) % DFS_MAX_PULSE_BUFFER_SIZE
    if start_ts ≤ (pl.elems index).p_time then patternStart pl start_ts i index else index

/-- The inner loop of `dfs_bin_fixedpattern_check`: where it has stopped, and whether there is a
pulse in the window. -/
def patternWindow (pl : Line PulseParams) (refpri dur : UInt32) (window_start window_end : UInt64) :
    (i index : Nat) → Nat × Bool
  | 0, index => (index, false)
  | i + 1, index =>
    let prev_event_ts := (pl.elems index).p_time
    let index := (index + 1) % DFS_MAX_PULSE_BUFFER_SIZE
    let event_ts := (pl.elems index).p_time
    let next_event_ts := (pl.elems ((index + 1) % DFS_MAX_PULSE_BUFFER_SIZE)).p_time
    let p_dur := (pl.elems index).p_dur.toUInt32
    if event_ts ≤ window_end ∧ window_start ≤ event_ts then
      if p_dur = 1 ∨ (dur ≠ 1 ∧ DFS_DIFF p_dur dur ≤ 2) then (index, true)
      else patternWindow pl refpri dur window_start window_end i index
    else if window_end < event_ts then
      ((index + DFS_MAX_PULSE_BUFFER_MASK) % DFS_MAX_PULSE_BUFFER_SIZE, false)
    else if event_ts = prev_event_ts ∧
        (refpri.toUInt64 < next_event_ts - event_ts ∨ next_event_ts - event_ts = 0) ∧
        (p_dur = 1 ∨ (p_dur ≠ 1 ∧ DFS_DIFF p_dur dur ≤ 2)) then
      (index, true)
    else
      patternWindow pl refpri dur window_start window_end i index

def patternCount (pl : Line PulseParams) (refpri dur : UInt32) (start_ts : UInt64)
    (primargin : Int) : (k n index numpulses : Nat) → Nat
  | 0, _, _, numpulses => numpulses
  | k + 1, n, index, numpulses =>
    let margin := UInt64.ofInt (primargin + n)
    let window_start := (start_ts + UInt64.ofNat (refpri.toNat * n)) - margin
    let r := patternWindow pl refpri dur window_start (window_start + 2 * margin)
      pl.numelems index
    patternCount pl refpri dur start_ts primargin k (n + 1) r.1
      (if r.2 then numpulses + 1 else numpulses)

def dfs_bin_fixedpattern_check (ext_chan_busy : Int) (rf : Filter) (pl : Line PulseParams)
    (dur : UInt32) : Bool :=
  let primargin := dfs_get_pri_margin ext_chan_busy (rf.rf_patterntype = 1)
  let refpri := (rf.rf_minpri + rf.rf_maxpri) / 2
  let end_ts := (pl.elems pl.lastelem).p_time
  let start_ts := end_ts - (refpri * rf.rf_numpulses).toUInt64
  let index := patternStart pl start_ts pl.numelems pl.lastelem
  let numpulses := patternCount pl refpri dur start_ts primargin
    (rf.rf_numpulses.toNat + 1) 0 index 0
  dfs_get_filter_threshold ext_chan_busy rf ≤ numpulses

/-- What it does to the delay line. -/
def dfs_bin_check (ext_chan_busy : Int) (rf : Filter) (pl : Option (Line PulseParams))
    (dl : Line DelayElem) (deltaT width : UInt32) : Option (Line DelayElem) :=
  if dl.numelems < (rf.rf_threshold - 1).toNat then some dl
  else if rf.rf_filterlen < deltaT then some dl
  else if rf.rf_patterntype = 1 then
    pl.map fun pl =>
      if dfs_bin_fixedpattern_check ext_chan_busy rf pl width then
        { dl with numelems := 0, inserted := [] }
      else dl
  else some dl

/-! ## Bin 5 lines -/

def bin5Rejected (br : Line Bin5Elem) (thists : UInt64) : Prop :=
  br.numelems ≠ 0 ∧
    let tsDelta := thists - (br.elems br.lastelem).be_ts
    tsDelta < DFS_BIN5_PRI_LOWER_LIMIT ∨
      (DFS_BIN5_PRI_HIGHER_LIMIT < tsDelta ∧ tsDelta < DFS_BIN5_BRI_LOWER_LIMIT)
deriving Decidable

/-- The `while` loop of `dfs_bin5_addpulse`; `k` is `br_numelems - 1`. -/
def trimOldest (thists : UInt64) (timewindow : UInt32) :
    (k : Nat) → Line Bin5Elem → Line Bin5Elem
  | 0, br => br
  | k + 1, br =>
    if timewindow.toUInt64 < thists - (br.elems br.firstelem).be_ts then
      trimOldest thists timewindow k
        { br with
          numelems := br.numelems - 1
          firstelem := (br.firstelem + 1) % DFS_MAX_B5_SIZE }
    else br

def dfs_bin5_addpulse (timewindow : UInt32) (br : Line Bin5Elem) (re : Event) (thists : UInt64) :
    Line Bin5Elem :=
  if bin5Rejected br thists then br
  else
    let br := br.insert DFS_MAX_B5_SIZE ⟨thists, re.re_rssi.toUInt32, re.re_dur.toUInt32⟩
    trimOldest thists timewindow (br.numelems - 1) br

/-! ## Steps -/

/-- The segment whose delay line and pulse line `dfs_add_pulse` and `dfs_bin_check` use. -/
def State.segOf (s : State) (seg_id : Seg) : Seg :=
  if s.ic_80p80_both_dfs then seg_id else .SEG0

/-- A chip without support for a second segment has no buffers for it. -/
def Conf.hasSeg (conf : Conf) (seg : Seg) : Prop := conf.hw_bd_qca6174 = false ∨ seg = .SEG0
deriving Decidable

/-- The segment that `dfs_reset_alldelaylines` resets. -/
def Conf.resetSeg (conf : Conf) (seg_id : Seg) : Seg :=
  if conf.hw_bd_qca6174 then .SEG0 else seg_id

def State.setDl (s : State) (seg : Seg) (i j : Nat) (dl : Line DelayElem) : State :=
  { s with
    dl := fun seg' i' j' => if seg' = seg ∧ i' = i ∧ j' = j then dl else s.dl seg' i' j' }

def State.setPulses (s : State) (seg : Seg) (pl : Line PulseParams) : State :=
  { s with pulses := fun seg' => if seg' = seg then pl else s.pulses seg' }

def State.setB5 (s : State) (seg : Seg) (p : Nat) (br : Line Bin5Elem) : State :=
  { s with
    b5radars := fun seg' p' => if seg' = seg ∧ p' = p then br else s.b5radars seg' p' }

def Conf.hasFilter (conf : Conf) (i j : Nat) : Prop :=
  i < DFS_MAX_RADAR_TYPES ∧ j < conf.ft_numfilters i
deriving Decidable

def dfs_reset_alldelaylines (s : State) (seg_id : Seg) : State :=
  if s.conf.b5radars_null then s
  else
    let seg := s.conf.resetSeg seg_id
    { s with
      -- the pulses themselves stay in the buffer
      pulses := fun seg' =>
        if seg' = seg then .empty DFS_MAX_PULSE_BUFFER_SIZE (s.pulses seg').elems
        else s.pulses seg'
      dl := fun seg' i j =>
        if seg' = seg ∧ s.conf.hasFilter i j then .empty DFS_MAX_DL_SIZE fun _ => zeroDelay
        else s.dl seg' i j
      b5radars := fun seg' p =>
        if seg' = seg ∧ p < s.conf.rn_numbin5radars then
          .empty DFS_MAX_B5_SIZE fun _ => zeroBin5
        else s.b5radars seg' p }

inductive Op where
  /-- The channel changes. -/
  | set_channel (ic_80p80_both_dfs : Bool)
  /-- `dfs_process_radarevent` puts a pulse on the pulse line. -/
  | add_pulseline (seg_id : Seg) (re : Event) (this_ts : UInt64)
  | add_pulse (i j : Nat) (re : Event) (deltaT : UInt32) (this_ts : UInt64) (seg_id : Seg)
  | bin_check (i j : Nat) (ext_chan_busy : Int) (deltaT width : UInt32) (seg_id : Seg)
  | bin5_addpulse (seg_id : Seg) (p : Nat) (re : Event) (thists : UInt64)
  | reset_delayline (seg : Seg) (i j : Nat)
  | reset_alldelaylines (seg_id : Seg)

/-- There is no next state where the code would use a filter or a line that is not there. -/
def step (s : State) : Op → Option State
  | .set_channel both => some { s with ic_80p80_both_dfs := both }
  | .add_pulseline seg_id re this_ts =>
    let seg := s.segOf seg_id
    if s.conf.hasSeg seg then
      some (s.setPulses seg ((s.pulses seg).insert DFS_MAX_PULSE_BUFFER_SIZE
        ⟨this_ts, re.re_dur, re.re_rssi⟩))
    else none
  | .add_pulse i j re deltaT this_ts seg_id =>
    let seg := s.segOf seg_id
    if s.conf.hasFilter i j then
      some (s.setDl seg i j (dfs_add_pulse (s.conf.rf i j) (s.dl seg i j) re deltaT this_ts))
    else none
  | .bin_check i j ext_chan_busy deltaT width seg_id =>
    let seg := s.segOf seg_id
    let pl := if s.conf.hasSeg seg then some (s.pulses seg) else none
    if s.conf.hasFilter i j then
      (dfs_bin_check ext_chan_busy (s.conf.rf i j) pl (s.dl seg i j) deltaT width).map
        (s.setDl seg i j)
    else none
  | .bin5_addpulse seg_id p re thists =>
    let seg := s.segOf seg_id
    if s.conf.hasSeg seg ∧ s.conf.b5radars_null = false ∧ p < s.conf.rn_numbin5radars then
      some (s.setB5 seg p
        (dfs_bin5_addpulse (s.conf.b5_timewindow p) (s.b5radars seg p) re thists))
    else none
  | .reset_delayline seg i j =>
    if s.conf.hasFilter i j then some (s.setDl seg i j (dfs_reset_delayline (s.dl seg i j)))
    else none
  | .reset_alldelaylines seg_id => some (dfs_reset_alldelaylines s seg_id)

open List Option

/-! The indices of every line agree, its elements are the most recent ones that were inserted since
it was emptied, and after an insertion all of them are near the new one (`Agree`). -/

variable {s s' : State}

def delayNear (filterlen : UInt32) (new e : DelayElem) : Prop :=
  new.de_ts - e.de_ts ≤ filterlen.toUInt64

def bin5Near (timewindow : UInt32) (new e : Bin5Elem) : Prop :=
  new.be_ts - e.be_ts ≤ timewindow.toUInt64

structure Agree (s : State) : Prop where
  dl : ∀ seg i j, (s.dl seg i j).Kept DFS_MAX_DL_SIZE ∧
    (s.dl seg i j).Near DFS_MAX_DL_SIZE (delayNear (s.conf.rf i j).rf_filterlen)
  pulses : ∀ seg, (s.pulses seg).Kept DFS_MAX_PULSE_BUFFER_SIZE
  b5radars : ∀ seg p, (s.b5radars seg p).Kept DFS_MAX_B5_SIZE ∧
    (s.b5radars seg p).Near DFS_MAX_B5_SIZE (bin5Near (s.conf.b5_timewindow p))

/-- The newest element out of the filter length seems to be inside of it in 32 bits. -/
def Truncated (filterlen : UInt32) (dl : Line DelayElem) (this_ts : UInt64) : Prop :=
  ((dl.rest DFS_MAX_DL_SIZE).reverse.find? fun e =>
    decide (filterlen.toUInt64 < this_ts - e.de_ts)).any
      fun e => decide ((this_ts - e.de_ts).toUInt32 ≤ filterlen)
deriving Decidable

def Ordered (timewindow : UInt32) (br : Line Bin5Elem) (thists : UInt64) : Prop :=
  (br.rest DFS_MAX_B5_SIZE).Pairwise fun older newer =>
    thists - older.be_ts ≤ timewindow.toUInt64 → thists - newer.be_ts ≤ timewindow.toUInt64
deriving Decidable

def Ok (s : State) : Op → Prop
  | .add_pulse i j _ _ this_ts seg_id =>
    (s.dl (s.segOf seg_id) i j).Ready DFS_MAX_DL_SIZE ∧
      ¬Truncated (s.conf.rf i j).rf_filterlen (s.dl (s.segOf seg_id) i j) this_ts
  | .bin5_addpulse seg_id p _ thists =>
    bin5Rejected (s.b5radars (s.segOf seg_id) p) thists ∨
      Ordered (s.conf.b5_timewindow p) (s.b5radars (s.segOf seg_id) p) thists
  | .reset_delayline seg i j => (s.dl seg i j).numelems = 0
  | _ => True

instance (s : State) (op : Op) : Decidable (Ok s op) := by
  unfold Ok
  split <;> infer_instance

/-! ## Delay lines -/

section Delay

variable {dl : Line DelayElem} {this_ts : UInt64} {filterlen : UInt32}

theorem trimWindow_eq_drop (this_ts : UInt64) (filterlen : UInt32)
    (h : dl.Kept DFS_MAX_DL_SIZE) {k n index : Nat}
    (hindex : index = (dl.firstelem + k) % DFS_MAX_DL_SIZE) (hnum : n + k + 1 = dl.numelems) :
    ∃ m ≤ k, trimWindow this_ts filterlen k n index dl = dl.drop DFS_MAX_DL_SIZE m ∧
      ∀ p, m ≤ p → p < k →
        (this_ts - (dl.elems ((dl.firstelem + p) % DFS_MAX_DL_SIZE)).de_ts).toUInt32 ≤
          filterlen := by
  induction k generalizing n index with
  | zero =>
    refine ⟨0, Nat.le_refl 0, ?_, ?_⟩
    · exact (Line.drop_zero h).symm
    · intro p _ hp; omega
  | succ k ih =>
    have hprev : (index + DFS_MAX_DL_MASK) % DFS_MAX_DL_SIZE =
        (dl.firstelem + k) % DFS_MAX_DL_SIZE := by
      rw [hindex, Nat.mod_add_mod]
      simp only [DFS_MAX_DL_MASK, DFS_MAX_DL_SIZE]
      omega
    rw [trimWindow, hprev]
    split
    next =>
      -- the elements after this one stay
      refine ⟨k + 1, Nat.le_refl _, ?_, fun p hp hlt => by omega⟩
      rw [Nat.mod_add_mod, Nat.add_assoc, Line.drop, show dl.numelems - (k + 1) = n + 1 by omega]
    next hin =>
      obtain ⟨m, hm, hdrop, hwin⟩ := ih (n := n + 1) rfl (by omega)
      refine ⟨m, by omega, hdrop, fun p hp hlt => ?_⟩
      rcases Nat.lt_succ_iff_lt_or_eq.mp hlt with hlt | rfl
      · exact hwin p hp hlt
      · exact UInt32.not_lt.mp hin

theorem within_of_not_truncated (h : ¬Truncated filterlen dl this_ts) {kept : List DelayElem}
    (hkept : kept <:+ dl.rest DFS_MAX_DL_SIZE)
    (hwin : ∀ e ∈ kept, (this_ts - e.de_ts).toUInt32 ≤ filterlen) :
    ∀ e ∈ kept, this_ts - e.de_ts ≤ filterlen.toUInt64 := by
  intro e he
  by_contra hout
  apply h
  obtain ⟨older, holder⟩ := hkept
  have hfind : (kept.reverse.find? fun e =>
      decide (filterlen.toUInt64 < this_ts - e.de_ts)).isSome := by
    rw [find?_isSome]; exact ⟨e, mem_reverse.mpr he, decide_eq_true (UInt64.not_le.mp hout)⟩
  obtain ⟨x, hx⟩ := isSome_iff_exists.mp hfind
  have hxin : x ∈ kept := mem_reverse.mp (mem_of_find?_eq_some hx)
  rw [Truncated, ← holder, reverse_append, find?_append, hx]; exact decide_eq_true (hwin x hxin)

theorem delay_kept (rf : Filter) (h : dl.Kept DFS_MAX_DL_SIZE) (hready : dl.Ready DFS_MAX_DL_SIZE)
    (htrunc : ¬Truncated rf.rf_filterlen dl this_ts) (re : Event) (deltaT : UInt32) :
    (dfs_add_pulse rf dl re deltaT this_ts).Kept DFS_MAX_DL_SIZE ∧
      (dfs_add_pulse rf dl re deltaT this_ts).Near DFS_MAX_DL_SIZE (delayNear rf.rf_filterlen) := by
  rw [dfs_add_pulse]
  generalize hnew : DelayElem.mk deltaT re.re_dur re.re_rssi this_ts = new
  have hts : new.de_ts = this_ts := hnew ▸ rfl
  have hins := h.insert hready new
  have hpos : 0 < (dl.insert DFS_MAX_DL_SIZE new).numelems :=
    Line.insert_numelems_pos (by decide)
  have hindex : (dl.insert DFS_MAX_DL_SIZE new).lastelem =
      ((dl.insert DFS_MAX_DL_SIZE new).firstelem +
        ((dl.insert DFS_MAX_DL_SIZE new).numelems - 1)) % DFS_MAX_DL_SIZE := by
    rw [hins.last_eq hpos, Nat.add_sub_assoc hpos]
  obtain ⟨m, hm, hdrop, hwin⟩ :=
    trimWindow_eq_drop this_ts rf.rf_filterlen hins (n := 0) hindex (by omega)
  rw [hdrop]
  have hrest := h.length_rest hready (a := new)
  refine ⟨hins.drop (by omega), h.near_insert_drop hready (by omega) ?_ ?_⟩
  · rw [delayNear, UInt64.sub_self]; exact UInt64.zero_le
  · rw [← hts] at hwin htrunc
    apply within_of_not_truncated htrunc (drop_suffix m _)
    intro e he
    obtain ⟨p, hp, rfl⟩ := getElem_of_mem he
    rw [length_drop] at hp
    rw [getElem_drop, h.getElem_rest hready new]
    exact hwin (m + p) (Nat.le_add_right m p) (by omega)

end Delay

/-! ## Bin 5 lines -/

section Bin5

variable {br : Line Bin5Elem}

theorem trimOldest_eq_drop (thists : UInt64) (timewindow : UInt32)
    (h : br.Kept DFS_MAX_B5_SIZE) {k : Nat} (hnum : k + 1 = br.numelems) :
    ∃ m ≤ k, trimOldest thists timewindow k br = br.drop DFS_MAX_B5_SIZE m ∧
      (m < k → thists - (br.elems ((br.firstelem + m) % DFS_MAX_B5_SIZE)).be_ts ≤
        timewindow.toUInt64) := by
  induction k generalizing br with
  | zero => exact ⟨0, Nat.le_refl 0, (Line.drop_zero h).symm, fun hlt => absurd hlt (by omega)⟩
  | succ k ih =>
    rw [trimOldest]
    split
    next =>
      have hone : { br with
          numelems := br.numelems - 1
          firstelem := (br.firstelem + 1) % DFS_MAX_B5_SIZE } = br.drop DFS_MAX_B5_SIZE 1 := rfl
      rw [hone]
      obtain ⟨m, hm, hdrop, hwin⟩ := ih (h.drop (k := 1) (by omega))
        (show k + 1 = br.numelems - 1 by omega)
      refine ⟨m + 1, by omega, ?_, fun hlt => ?_⟩
      · rw [hdrop]
        simp only [Line.drop, Nat.mod_add_mod, Nat.sub_sub, Nat.add_assoc, Nat.add_comm 1 m]
      · have hm := hwin (by omega)
        simp only [Line.drop, Nat.mod_add_mod] at hm
        rwa [Nat.add_assoc, Nat.add_comm 1 m] at hm
    next hin =>
      refine ⟨0, Nat.zero_le _, (Line.drop_zero h).symm, fun _ => ?_⟩
      rw [Nat.add_zero, Nat.mod_eq_of_lt h.first_lt]; exact UInt64.not_lt.mp hin

theorem bin5_kept {timewindow : UInt32} {thists : UInt64} (h : br.Kept DFS_MAX_B5_SIZE)
    (hnear : br.Near DFS_MAX_B5_SIZE (bin5Near timewindow)) (hready : br.Ready DFS_MAX_B5_SIZE)
    (hord : bin5Rejected br thists ∨ Ordered timewindow br thists) (re : Event) :
    (dfs_bin5_addpulse timewindow br re thists).Kept DFS_MAX_B5_SIZE ∧
      (dfs_bin5_addpulse timewindow br re thists).Near DFS_MAX_B5_SIZE (bin5Near timewindow) ∧
      (dfs_bin5_addpulse timewindow br re thists).Ready DFS_MAX_B5_SIZE := by
  rw [dfs_bin5_addpulse]
  split
  next => exact ⟨h, hnear, hready⟩
  next hacc =>
    have hord := hord.resolve_left hacc
    generalize hnew : Bin5Elem.mk thists re.re_rssi.toUInt32 re.re_dur.toUInt32 = new
    have hts : new.be_ts = thists := hnew ▸ rfl
    have hins := h.insert hready new
    have hpos : 0 < (br.insert DFS_MAX_B5_SIZE new).numelems :=
      Line.insert_numelems_pos (by decide)
    obtain ⟨m, hm, hdrop, hwin⟩ := trimOldest_eq_drop thists timewindow hins
      (k := (br.insert DFS_MAX_B5_SIZE new).numelems - 1) (by omega)
    rw [hdrop]
    have hrest := h.length_rest hready (a := new)
    refine ⟨hins.drop (by omega), h.near_insert_drop hready (by omega) ?_ ?_, ?_⟩
    · rw [bin5Near, UInt64.sub_self]; exact UInt64.zero_le
    · -- the first element that stays is inside of the window, and so are those after it
      intro e he
      rw [← hts] at hwin hord
      have hm : m < (br.rest DFS_MAX_B5_SIZE).length := by
        by_contra hge
        rw [drop_of_length_le (Nat.le_of_not_lt hge)] at he
        cases he
      have hfirst := hwin (by omega)
      rw [← h.getElem_rest hready new hm] at hfirst
      rw [drop_eq_getElem_cons hm] at he
      have hpair := List.Pairwise.sublist (drop_sublist m _) hord
      rw [drop_eq_getElem_cons hm, pairwise_cons] at hpair
      rcases mem_cons.mp he with rfl | hlater
      · exact hfirst
      · exact hpair.1 e hlater hfirst
    · intro h0
      have hleft : (br.insert DFS_MAX_B5_SIZE new).numelems - m = 0 := h0
      omega

end Bin5

/-! ## Runs -/

/-- A pulse line or a bin 5 line can always take the next element. -/
structure Inv (s : State) : Prop extends Agree s where
  pulses_ready : ∀ seg, (s.pulses seg).Ready DFS_MAX_PULSE_BUFFER_SIZE
  b5radars_ready : ∀ seg p, (s.b5radars seg p).Ready DFS_MAX_B5_SIZE

theorem Inv.init (conf : Conf) (both : Bool) : Inv (State.init conf both) where
  dl := fun _ _ _ => ⟨Line.kept_empty (by decide), Line.near_of_empty rfl⟩
  pulses := fun _ => Line.kept_empty (by decide)
  b5radars := fun _ _ => ⟨Line.kept_empty (by decide), Line.near_of_empty rfl⟩
  pulses_ready := fun _ => Line.ready_empty (by decide)
  b5radars_ready := fun _ _ => Line.ready_empty (by decide)

theorem Inv.setDl (h : Inv s) {seg : Seg} {i j : Nat} {dl : Line DelayElem}
    (hdl : dl.Kept DFS_MAX_DL_SIZE ∧
      dl.Near DFS_MAX_DL_SIZE (delayNear (s.conf.rf i j).rf_filterlen)) :
    Inv (s.setDl seg i j dl) := by
  refine { h with dl := ?_ }
  intro seg' i' j'
  simp only [State.setDl]
  split
  next heq => obtain ⟨-, rfl, rfl⟩ := heq; exact hdl
  next => exact h.dl seg' i' j'

theorem Inv.setPulses (h : Inv s) {seg : Seg} {pl : Line PulseParams}
    (hpl : pl.Kept DFS_MAX_PULSE_BUFFER_SIZE) (hready : pl.Ready DFS_MAX_PULSE_BUFFER_SIZE) :
    Inv (s.setPulses seg pl) := by
  refine { h with pulses := ?_, pulses_ready := ?_ }
  all_goals
    intro seg'
    simp only [State.setPulses]
    split
  · exact hpl
  · exact h.pulses seg'
  · exact hready
  · exact h.pulses_ready seg'

theorem Inv.setB5 (h : Inv s) {seg : Seg} {p : Nat} {br : Line Bin5Elem}
    (hbr : br.Kept DFS_MAX_B5_SIZE ∧
      br.Near DFS_MAX_B5_SIZE (bin5Near (s.conf.b5_timewindow p)) ∧
      br.Ready DFS_MAX_B5_SIZE) : Inv (s.setB5 seg p br) := by
  refine { h with b5radars := ?_, b5radars_ready := ?_ }
  all_goals
    intro seg' p'
    simp only [State.setB5]
    split
  next heq => obtain ⟨-, rfl⟩ := heq; exact ⟨hbr.1, hbr.2.1⟩
  · exact h.b5radars seg' p'
  · exact hbr.2.2
  · exact h.b5radars_ready seg' p'

theorem bin_check_kept {ext_chan_busy : Int} {rf : Filter} {pl : Option (Line PulseParams)}
    {dl dl' : Line DelayElem} {deltaT width : UInt32} {near : DelayElem → DelayElem → Prop}
    (h : dl.Kept DFS_MAX_DL_SIZE ∧ dl.Near DFS_MAX_DL_SIZE near)
    (hcheck : dfs_bin_check ext_chan_busy rf pl dl deltaT width = some dl') :
    dl'.Kept DFS_MAX_DL_SIZE ∧ dl'.Near DFS_MAX_DL_SIZE near := by
  have hcases : dl' = dl ∨ dl' = { dl with numelems := 0, inserted := [] } := by
    rw [dfs_bin_check] at hcheck
    split at hcheck
    · exact .inl (some.inj hcheck).symm
    split at hcheck
    · exact .inl (some.inj hcheck).symm
    split at hcheck
    · obtain ⟨line, -, heq⟩ := map_eq_some_iff.mp hcheck
      split at heq
      · exact .inr heq.symm
      · exact .inl heq.symm
    · exact .inl (some.inj hcheck).symm
  rcases hcases with rfl | rfl
  · exact h
  · exact ⟨Line.kept_of_empty h.1.first_lt rfl, Line.near_of_empty rfl⟩

theorem Inv.reset_alldelaylines (h : Inv s) (seg_id : Seg) :
    Inv (dfs_reset_alldelaylines s seg_id) := by
  rw [dfs_reset_alldelaylines]
  split
  · exact h
  · refine ⟨⟨?_, ?_, ?_⟩, ?_, ?_⟩
    · intro seg i j
      dsimp only
      split
      · exact ⟨Line.kept_empty (by decide), Line.near_of_empty rfl⟩
      · exact h.dl seg i j
    · intro seg
      dsimp only
      split
      · exact Line.kept_empty (by decide)
      · exact h.pulses seg
    · intro seg p
      dsimp only
      split
      · exact ⟨Line.kept_empty (by decide), Line.near_of_empty rfl⟩
      · exact h.b5radars seg p
    · intro seg
      dsimp only
      split
      · exact Line.ready_empty (by decide)
      · exact h.pulses_ready seg
    · intro seg p
      dsimp only
      split
      · exact Line.ready_empty (by decide)
      · exact h.b5radars_ready seg p

theorem Inv.step (op : Op) (h : Inv s) (hok : Ok s op) (hstep : step s op = some s') : Inv s' := by
  cases op with
  | set_channel both => cases hstep; exact { h with }
  | add_pulseline seg_id re this_ts =>
    obtain ⟨-, heq⟩ := ite_none_right_eq_some.mp hstep
    cases heq
    exact h.setPulses ((h.pulses _).insert (h.pulses_ready _) _) (Line.insert_ready (by decide))
  | add_pulse i j re deltaT this_ts seg_id =>
    obtain ⟨-, heq⟩ := ite_none_right_eq_some.mp hstep
    cases heq
    exact h.setDl (delay_kept _ (h.dl _ i j).1 hok.1 hok.2 re deltaT)
  | bin_check i j ext_chan_busy deltaT width seg_id =>
    obtain ⟨-, heq⟩ := ite_none_right_eq_some.mp hstep
    obtain ⟨dl', hcheck, rfl⟩ := map_eq_some_iff.mp heq
    exact h.setDl (bin_check_kept (h.dl _ i j) hcheck)
  | bin5_addpulse seg_id p re thists =>
    obtain ⟨-, heq⟩ := ite_none_right_eq_some.mp hstep
    cases heq
    have hb5 := h.b5radars (s.segOf seg_id) p
    exact h.setB5 (bin5_kept hb5.1 hb5.2 (h.b5radars_ready _ p) hok re)
  | reset_delayline seg i j =>
    obtain ⟨-, heq⟩ := ite_none_right_eq_some.mp hstep
    cases heq
    exact h.setDl ⟨Line.kept_of_empty (h.dl seg i j).1.first_lt hok, Line.near_of_empty hok⟩
  | reset_alldelaylines seg_id => cases hstep; exact h.reset_alldelaylines seg_id

/-- **The pulse buffers.** In every run whose steps are `Ok`, the lines hold the most recent
pulses. -/
theorem lines_kept (conf : Conf) (both : Bool) (ops : List Op)
    (h : run (guarded Ok step) (State.init conf both) ops = some s) : Agree s :=
  (guarded_run_invariant (fun _ op _ hs hok hstep => hs.step op hok hstep)
    (Inv.init conf both) h).toAgree

/-- The filter of `dfs_fcc_radars` for FCC type 6, with a fixed pattern, and the bin 5 radar. -/
def fccType6 : Conf where
  hw_bd_qca6174 := true
  b5radars_null := false
  ft_numfilters := fun i => if i = 0 then 1 else 0
  rf := fun _ _ => ⟨9, 326, 340, 5, 3060, 1⟩
  rn_numbin5radars := 1
  b5_timewindow := fun _ => 12000000

def pattern : Nat → UInt64 → List Op
  | 0, _ => []
  | n + 1, ts =>
    .add_pulseline .SEG0 ⟨1, 20⟩ ts :: .add_pulse 0 0 ⟨1, 20⟩ 333 ts .SEG0 :: pattern n (ts + 333)

/-- A detection, the reset that `dfs_process_radarevent` makes after it, and further pulses. -/
theorem lines_kept_reset :
    ∃ s, run (guarded Ok step) (State.init fccType6 false)
      (pattern 5 10000 ++ [.bin_check 0 0 0 333 1 .SEG0, .reset_alldelaylines .SEG0] ++
        pattern 2 11665 ++ [.bin5_addpulse .SEG0 0 ⟨60, 30⟩ 20000]) = some s ∧
      (s.dl .SEG0 0 0).numelems = 2 ∧ (s.b5radars .SEG0 0).numelems = 1 ∧ Agree s := by
  refine exists_of_tested (fun s => (s.dl .SEG0 0 0).numelems = 2 ∧ (s.b5radars .SEG0 0).numelems =
      1) (by decide +kernel) fun s hs ⟨hdl, hb5⟩ => ?_
  exact ⟨hdl, hb5, lines_kept _ _ _ hs⟩

/-- Without the reset, the next pulse after a detection is not where the indices say; and a pulse
2^32 microseconds after the line was used finds the old ones near. -/
theorem lines_not_kept :
    (∃ s, run step (State.init fccType6 false)
      (pattern 5 10000 ++ [.bin_check 0 0 0 333 1 .SEG0] ++ pattern 1 11665) = some s ∧
      (s.dl .SEG0 0 0).numelems = 1 ∧ (s.dl .SEG0 0 0).firstelem = 0 ∧
      (s.dl .SEG0 0 0).lastelem = 5 ∧ ¬Agree s) ∧
    ∃ s, run step (State.init fccType6 false)
      (pattern 1 10000 ++ pattern 1 (10000 + 2 ^ 32 + 333)) = some s ∧
      (s.dl .SEG0 0 0).numelems = 2 ∧ ¬Agree s := by
  constructor
  · refine exists_of_tested (fun s => (s.dl .SEG0 0 0).numelems = 1 ∧ (s.dl .SEG0 0 0).firstelem = 0
        ∧ (s.dl .SEG0 0 0).lastelem = 5) (by decide +kernel) fun s hs ⟨hnum, hfirst, hlast⟩ => ?_
    refine ⟨hnum, hfirst, hlast, fun hagree => ?_⟩
    have hwrong := (hagree.dl .SEG0 0 0).1.last_eq (by omega)
    rw [hnum, hfirst, hlast] at hwrong; exact absurd hwrong (by decide)
  · refine exists_of_tested (fun s => (s.dl .SEG0 0 0).numelems = 2 ∧ s.conf.rf 0 0 = fccType6.rf 0
        0 ∧ (s.dl .SEG0 0 0).inserted.getLast? = some ⟨333, 1, 20, 10000 + 2 ^ 32 + 333⟩ ∧ ⟨333, 1,
        20, 10000⟩ ∈ (s.dl .SEG0 0 0).contents DFS_MAX_DL_SIZE) (by decide +kernel) fun s hs ⟨hnum,
        hrf, hlast, hmem⟩ => ?_
    refine ⟨hnum, fun hagree => ?_⟩
    have hwrong := (hagree.dl .SEG0 0 0).2 _ hlast _ hmem
    rw [hrf] at hwrong
    revert hwrong
    rw [delayNear]; decide

end Qcacld.DfsLines
