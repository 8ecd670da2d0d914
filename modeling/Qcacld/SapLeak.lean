/-
The leakage of a channel into those that are in the non-occupancy list: the tables of `sap_fsm.c`,
`sap_find_target_channel_in_channel_matrix` and `sap_mark_leaking_ch`.

For each channel of the list that is not available, the candidates are walked along its row of the
table, both in increasing order. The walk ends at the first candidate that leaks, and at the first
that the row does not have.
-/
import Qcacld.CdsConc
import Qcacld.SapNol
import Qcacld.Lib.Strike

set_option autoImplicit false

namespace Qcacld.SapLeak

open CdsConc (ChWidth)
open SapNol (SapDfsNolInfo NUM_5GHZ_CHANNELS)

def SAP_TX_LEAKAGE_THRES : Nat := 310
def SAP_TX_LEAKAGE_MAX : Nat := 1000
def SAP_TX_LEAKAGE_MIN : Nat := 200
def SAP_TX_LEAKAGE_AUTO_MIN : Nat := 210

structure SapTxLeakInfo where
  leak_chan : UInt8
  leak_lvl : Nat

structure SapChanMatrixInfo where
  channel : UInt8
  chan_matrix : List SapTxLeakInfo

/-! ## The tables -/

/-- The channels of a row, in the order of its entries. -/
def leak_chans : List UInt8 :=
  [36, 40, 44, 48, 52, 56, 60, 64, 100, 104, 108, 112, 116, 120, 124, 128, 132, 136, 140, 144]

def levels (channel : UInt8) (lvls : List Nat) : SapChanMatrixInfo :=
  ⟨channel, leak_chans.zipWith SapTxLeakInfo.mk lvls⟩

abbrev MIN : Nat := SAP_TX_LEAKAGE_MIN
abbrev MAX : Nat := SAP_TX_LEAKAGE_MAX
abbrev AUTO_MIN : Nat := SAP_TX_LEAKAGE_AUTO_MIN

/-- The row of channel 140 has one entry less in the source, and ends in one of zeros. -/
def ht80_chan : List SapChanMatrixInfo :=
  [levels 52 [148, 199, 193, 197, MIN, 153, 137, 134, 358, 350, 404, 344, 424, 429, 437, 435, MAX,
     MAX, MAX, MIN],
   levels 56 [171, 178, 171, 178, MIN, MIN, MIN, 280, 351, 376, 362, 362, 403, 397, MAX, MAX, MAX,
     MAX, MAX, MIN],
   levels 60 [156, 146, MIN, MIN, 180, MIN, MIN, MIN, 376, 360, MAX, MAX, 395, 399, MAX, MAX, MAX,
     MAX, MAX, MIN],
   levels 64 [217, 221, MIN, MIN, 176, 176, MIN, MIN, 384, 390, MAX, MAX, 375, 374, MAX, MAX, MAX,
     MAX, MAX, MIN],
   levels 100 [357, 326, 321, 326, 378, 396, MAX, MAX, MIN, MIN, 196, 116, 166, MIN, MIN, MIN, MIN,
     MIN, MIN, MIN],
   levels 104 [325, 325, 305, 352, 411, 411, MAX, MAX, MIN, MIN, MIN, 460, 198, MIN, MIN, MIN, MIN,
     MIN, MIN, MIN],
   levels 108 [304, 332, 310, 335, 431, 391, MAX, MAX, 280, MIN, MIN, MIN, 185, MIN, MIN, MIN, MIN,
     MIN, MIN, MIN],
   levels 112 [327, 335, 331, 345, 367, 401, MAX, MAX, 131, 132, MIN, MIN, 189, MIN, MIN, MIN, MIN,
     MIN, MIN, MIN],
   levels 116 [384, 372, 389, 396, 348, 336, MAX, MAX, 172, 169, MIN, MIN, MIN, MIN, MIN, MIN, MIN,
     MIN, MIN, MIN],
   levels 120 [395, 419, 439, 407, 321, 334, MAX, MAX, 134, 186, MIN, MIN, MIN, MIN, MIN, 159, MIN,
     MIN, MIN, MIN],
   levels 124 [469, 433, 434, 435, 332, 345, MAX, MAX, 146, 177, MIN, MIN, 350, MIN, MIN, 138, MIN,
     MIN, MIN, MIN],
   levels 128 [408, 434, 449, 444, 341, 374, MAX, MAX, 205, 208, MIN, MIN, 142, MIN, MIN, MIN, MIN,
     MIN, MIN, MIN],
   levels 132 [MAX, MAX, MAX, MAX, MAX, MAX, MIN, MIN, MIN, MIN, MIN, MIN, MIN, MIN, MIN, MIN, MIN,
     MIN, MIN, MIN],
   levels 136 [MAX, MAX, MAX, MAX, MAX, MAX, MIN, MIN, MIN, MIN, MIN, MIN, MIN, MIN, MIN, MIN, MIN,
     MIN, MIN, MIN],
   ⟨140, (leak_chans.erase 140 ++ [0]).zipWith SapTxLeakInfo.mk [MAX, MAX, MAX, MAX, MAX, MAX, MIN,
     MIN, MIN, MIN, MIN, MIN, MIN, MIN, MIN, MIN, MIN, MIN, MIN, 0]⟩]

def ht40_chan : List SapChanMatrixInfo :=
  [levels 52 [AUTO_MIN, AUTO_MIN, 230, 230, MIN, MIN, AUTO_MIN, AUTO_MIN, 625, 323, 646, 646, MAX,
     MAX, MAX, MAX, MAX, MAX, MAX, MIN],
   levels 56 [AUTO_MIN, AUTO_MIN, AUTO_MIN, AUTO_MIN, MIN, MIN, MIN, MIN, 611, 611, 617, 617, MAX,
     MAX, MAX, MAX, MAX, MAX, MAX, MIN],
   levels 60 [AUTO_MIN, AUTO_MIN, AUTO_MIN, AUTO_MIN, 190, 190, MIN, MIN, 608, 608, 623, 623, MAX,
     MAX, MAX, MAX, MAX, MAX, MAX, MIN],
   levels 64 [AUTO_MIN, AUTO_MIN, AUTO_MIN, AUTO_MIN, 295, 295, MIN, MIN, 594, 594, 625, 625, MAX,
     MAX, MAX, MAX, MAX, MAX, MAX, MIN],
   levels 100 [618, 618, 604, 604, 596, 596, 584, 584, MIN, MIN, 299, 299, AUTO_MIN, AUTO_MIN,
     AUTO_MIN, AUTO_MIN, 538, 538, 598, MIN],
   levels 104 [636, 636, 601, 601, 616, 616, 584, 584, MIN, MIN, MIN, MIN, AUTO_MIN, AUTO_MIN,
     AUTO_MIN, AUTO_MIN, 553, 553, 568, MIN],
   levels 108 [600, 600, 627, 627, 611, 611, 611, 611, 214, 214, MIN, MIN, AUTO_MIN, AUTO_MIN,
     AUTO_MIN, AUTO_MIN, AUTO_MIN, AUTO_MIN, 534, MIN],
   levels 112 [645, 645, 641, 641, 618, 618, 612, 612, 293, 293, MIN, MIN, MIN, MIN, AUTO_MIN,
     AUTO_MIN, AUTO_MIN, AUTO_MIN, 521, MIN],
   levels 116 [661, 661, 624, 624, 634, 634, 611, 611, AUTO_MIN, AUTO_MIN, 217, 217, MIN, MIN,
     AUTO_MIN, AUTO_MIN, AUTO_MIN, AUTO_MIN, AUTO_MIN, MIN],
   levels 120 [667, 667, 645, 645, 633, 633, 619, 619, AUTO_MIN, AUTO_MIN, 291, 291, MIN, MIN, MIN,
     MIN, AUTO_MIN, AUTO_MIN, AUTO_MIN, MIN],
   levels 124 [676, 676, 668, 668, 595, 595, 622, 622, AUTO_MIN, AUTO_MIN, AUTO_MIN, AUTO_MIN, 225,
     225, MIN, MIN, AUTO_MIN, AUTO_MIN, AUTO_MIN, MIN],
   levels 128 [678, 678, 664, 664, 651, 651, 643, 643, AUTO_MIN, AUTO_MIN, AUTO_MIN, AUTO_MIN, 293,
     293, MIN, MIN, MIN, MIN, AUTO_MIN, MIN],
   levels 132 [689, 689, 669, 669, 662, 662, 609, 609, 538, 538, AUTO_MIN, AUTO_MIN, AUTO_MIN,
     AUTO_MIN, 247, 247, MIN, MIN, MIN, MIN],
   levels 136 [703, 703, 688, MIN, 671, 671, 658, 658, 504, 504, AUTO_MIN, AUTO_MIN, AUTO_MIN,
     AUTO_MIN, 289, 289, MIN, MIN, MIN, MIN],
   levels 140 [695, 695, 684, 684, 664, 664, 658, 658, 601, 601, 545, 545, AUTO_MIN, AUTO_MIN,
     AUTO_MIN, AUTO_MIN, 262, 262, MIN, MIN]]

def ht20_chan : List SapChanMatrixInfo :=
  [levels 52 [AUTO_MIN, 286, 225, 121, MIN, MIN, 300, AUTO_MIN, 637, MAX, MAX, MAX, MAX, MAX, MAX,
     MAX, MAX, MAX, MAX, MIN],
   levels 56 [468, AUTO_MIN, AUTO_MIN, 206, MIN, MIN, MIN, MIN, MAX, MAX, MAX, MAX, MAX, MAX, MAX,
     MAX, MAX, MAX, MAX, MIN],
   levels 60 [507, 440, AUTO_MIN, 313, MIN, MIN, MIN, MIN, MAX, MAX, MAX, MAX, MAX, MAX, MAX, MAX,
     MAX, MAX, MAX, MIN],
   levels 64 [516, 520, 506, AUTO_MIN, 301, 258, MIN, MIN, 620, 617, MAX, MAX, MAX, MAX, MAX, MAX,
     MAX, MAX, MAX, MIN],
   levels 100 [616, 601, 604, 589, 612, 592, 590, 582, MIN, 131, AUTO_MIN, AUTO_MIN, AUTO_MIN, 522,
     571, 589, 593, 598, 594, MIN],
   levels 104 [622, 624, 618, 610, MAX, MAX, MAX, MAX, MIN, MIN, MIN, 463, 483, 503, 523, 565, 570,
     588, 585, MIN],
   levels 108 [620, 638, 611, 614, MAX, MAX, MAX, MAX, 477, MIN, MIN, MIN, 477, 497, 517, 537, 557,
     577, 603, MIN],
   levels 112 [636, 623, 638, 628, MAX, MAX, MAX, 606, 501, 481, MIN, MIN, MIN, 481, 501, 421, 541,
     561, 583, MIN],
   levels 116 [646, 648, 633, 634, MAX, MAX, 615, 594, 575, 554, 534, MIN, MIN, MIN, MIN, MIN, 534,
     554, 574, MIN],
   levels 120 [643, 649, 654, 629, MAX, 621, MAX, MAX, 565, 545, 525, 505, MIN, MIN, MIN, 505, 525,
     545, 565, MIN],
   levels 124 [638, 657, 663, 649, MAX, MAX, MAX, MAX, 581, 561, 541, 521, 499, MIN, MIN, MIN, 499,
     519, 539, MIN],
   levels 128 [651, 651, 674, 640, MAX, MAX, MAX, MAX, 603, 560, 540, 520, 499, 479, MIN, MIN, MIN,
     479, 499, MIN],
   levels 132 [643, 668, 651, 657, MAX, MAX, MAX, MAX, MAX, 602, 578, 570, 550, 530, 510, MIN, MIN,
     MIN, 490, MIN],
   levels 136 [654, 667, 666, 642, MAX, MAX, MAX, MAX, MAX, MAX, MAX, 596, 555, 535, 515, 495, MIN,
     MIN, MIN, MIN],
   levels 140 [679, 673, 667, 656, 634, 663, 662, 660, MAX, MAX, MAX, 590, 573, 553, 533, 513, 490,
     MIN, MIN, MIN]]

/-! ## Marking -/

/-- The table of a width; a width that has none falls back to that of 20 MHz. -/
def chan_matrix_of : ChWidth → List SapChanMatrixInfo
  | .CH_WIDTH_40MHZ => ht40_chan
  | .CH_WIDTH_80MHZ => ht80_chan
  | _ => ht20_chan

def sap_find_target_channel_in_channel_matrix (ch_width : ChWidth) (NOL_channel : UInt8) :
    Option (List SapTxLeakInfo) :=
  ((chan_matrix_of ch_width).find? (fun m => decide (m.channel = NOL_channel))).map
    SapChanMatrixInfo.chan_matrix

/-- The loop over `j` and `k`, on the candidates and the entries of the row that are left. -/
def mark_row : List UInt8 → List SapTxLeakInfo → List UInt8
  | [], _ => []
  | ch :: lst, [] => ch :: lst
  | ch :: lst, info :: row =>
    if ch = 0 then ch :: mark_row lst (info :: row)
    else if info.leak_chan ≠ ch then mark_row (ch :: lst) row
    -- the candidate is removed, and the loop is left
    else if info.leak_lvl ≤ SAP_TX_LEAKAGE_THRES then 0 :: lst
    else ch :: mark_row lst row
termination_by lst row => lst.length + row.length

def in_nol (nol : SapDfsNolInfo) : Bool := decide (nol.radar_status_flag = .UNAVAILABLE)

def mark_entries (ch_width : ChWidth) (nol : Nat → SapDfsNolInfo) :
    List Nat → List UInt8 → Bool × List UInt8
  | [], lst => (true, lst)
  | i :: is, lst =>
    if in_nol (nol i) = false then mark_entries ch_width nol is lst
    else
      match sap_find_target_channel_in_channel_matrix ch_width (nol i).dfs_channel_number with
      | none => (false, lst)
      | some target_chan_matrix =>
        mark_entries ch_width nol is (mark_row lst target_chan_matrix)

def sap_mark_leaking_ch (ch_width : ChWidth) (nol : Nat → SapDfsNolInfo)
    (temp_ch_lst : List UInt8) : Bool × List UInt8 :=
  mark_entries ch_width nol (List.range NUM_5GHZ_CHANNELS) temp_ch_lst

open List
open CdsConc (ChWidth)
open SapNol (SapDfsNolInfo NUM_5GHZ_CHANNELS)
open Lib.Strike

/-! One candidate at most is removed for each channel of the non-occupancy list. -/

/-- Candidates in increasing order, of which those that are zero are removed already. -/
structure Candidates where
  lst : List UInt8
  size : lst.length < 256
  increasing : lst.Pairwise fun a b => a ≠ 0 → b ≠ 0 → a < b

/-! ## What the marking is for -/

/-- The leakage of `ch` into `NOL_channel` in the table of the width. -/
def level (ch_width : ChWidth) (NOL_channel ch : UInt8) : Option Nat :=
  match sap_find_target_channel_in_channel_matrix ch_width NOL_channel with
  | none => none
  | some row => (row.find? (fun info => decide (info.leak_chan = ch))).map SapTxLeakInfo.leak_lvl

/-- The level is there and at or below the threshold. -/
def leaks_into (ch_width : ChWidth) (NOL_channel ch : UInt8) : Bool :=
  match level ch_width NOL_channel ch with
  | none => false
  | some lvl => decide (lvl ≤ SAP_TX_LEAKAGE_THRES)

/-- The level is there and above the threshold. -/
def clear_of (ch_width : ChWidth) (NOL_channel ch : UInt8) : Bool :=
  match level ch_width NOL_channel ch with
  | none => false
  | some lvl => decide (SAP_TX_LEAKAGE_THRES < lvl)

def leaks (ch_width : ChWidth) (nol : Nat → SapDfsNolInfo) (ch : UInt8) : Bool :=
  (range NUM_5GHZ_CHANNELS).any fun i =>
    in_nol (nol i) && leaks_into ch_width (nol i).dfs_channel_number ch

/-- When the marking succeeds, those that leak are zero and all others as they were. -/
def MarksRight (ch_width : ChWidth) (nol : Nat → SapDfsNolInfo) (lst : List UInt8) : Prop :=
  ∀ lst', sap_mark_leaking_ch ch_width nol lst = (true, lst') →
    lst' = lst.map fun ch => if leaks ch_width nol ch = true then 0 else ch

/-! ## One row -/

def verdict (row : List SapTxLeakInfo) (ch : UInt8) : Verdict :=
  match row.find? (fun info => decide (info.leak_chan = ch)) with
  | none => .stop
  | some info => if info.leak_lvl ≤ SAP_TX_LEAKAGE_THRES then .hit else .pass

def RowSorted (row : List SapTxLeakInfo) : Prop :=
  row.Pairwise fun a b => b.leak_chan ≠ 0 → a.leak_chan < b.leak_chan
deriving Decidable

theorem ht80_chan_sorted : ∀ m ∈ ht80_chan, RowSorted m.chan_matrix := by decide +kernel
theorem ht40_chan_sorted : ∀ m ∈ ht40_chan, RowSorted m.chan_matrix := by decide +kernel
theorem ht20_chan_sorted : ∀ m ∈ ht20_chan, RowSorted m.chan_matrix := by decide +kernel

variable (ch_width : ChWidth)

theorem chan_matrix_of_sorted : ∀ m ∈ chan_matrix_of ch_width, RowSorted m.chan_matrix := by
  cases ch_width with
  | CH_WIDTH_40MHZ => exact ht40_chan_sorted
  | CH_WIDTH_80MHZ => exact ht80_chan_sorted
  | _ => exact ht20_chan_sorted

theorem row_sorted_of_find {ch_width : ChWidth} {NOL_channel : UInt8} {row : List SapTxLeakInfo}
    (h : sap_find_target_channel_in_channel_matrix ch_width NOL_channel = some row) :
    RowSorted row := by
  obtain ⟨m, hm, rfl⟩ := Option.map_eq_some_iff.mp h
  exact chan_matrix_of_sorted ch_width m (mem_of_find?_eq_some hm)

theorem mark_row_of_stop {ch : UInt8} (hne : ch ≠ 0) (lst : List UInt8) (row : List SapTxLeakInfo)
    (h : ∀ info ∈ row, info.leak_chan ≠ ch) : mark_row (ch :: lst) row = ch :: lst := by
  induction row with
  | nil => rw [mark_row]
  | cons info row ih =>
    rw [mark_row, if_neg hne, if_pos (h info mem_cons_self)]
    exact ih (fun i hi => h i (mem_cons_of_mem info hi))

theorem mark_row_of_found {ch : UInt8} (hne : ch ≠ 0) (lst : List UInt8)
    (pre : List SapTxLeakInfo) (info : SapTxLeakInfo) (post : List SapTxLeakInfo)
    (hpre : ∀ i ∈ pre, i.leak_chan ≠ ch) (hinfo : info.leak_chan = ch) :
    mark_row (ch :: lst) (pre ++ info :: post) =
      if info.leak_lvl ≤ SAP_TX_LEAKAGE_THRES then 0 :: lst else ch :: mark_row lst post := by
  induction pre with
  | nil => rw [nil_append, mark_row, if_neg hne, if_neg (not_not.mpr hinfo)]
  | cons i pre ih =>
    rw [cons_append, mark_row, if_neg hne, if_pos (hpre i mem_cons_self)]
    exact ih (fun j hj => hpre j (mem_cons_of_mem i hj))

theorem verdict_of_later {pre post : List SapTxLeakInfo} {info : SapTxLeakInfo} {ch : UInt8}
    (hsorted : RowSorted (pre ++ info :: post)) (hinfo : info.leak_chan ≠ 0)
    (hlt : info.leak_chan < ch) : verdict post ch = verdict (pre ++ info :: post) ch := by
  have hpre : pre.find? (fun i => decide (i.leak_chan = ch)) = none := by
    rw [find?_eq_none]
    intro i hi hch
    have hi' := (pairwise_append.mp hsorted).2.2 i hi info mem_cons_self hinfo
    rw [of_decide_eq_true hch] at hi'; exact UInt8.lt_asymm hlt hi'
  have hhead : (info :: post).find? (fun i => decide (i.leak_chan = ch)) =
      post.find? (fun i => decide (i.leak_chan = ch)) := by
    refine find?_cons_of_neg fun hch => ?_
    rw [of_decide_eq_true hch] at hlt; exact UInt8.lt_irrefl _ hlt
  rw [verdict, verdict, find?_append, hpre, Option.none_or, hhead]

theorem mark_row_eq (lst : List UInt8) (row : List SapTxLeakInfo) (hsorted : RowSorted row)
    (hlst : lst.Pairwise fun a b => a ≠ 0 → b ≠ 0 → a < b) :
    mark_row lst row = strike 0 (verdict row) lst := by
  induction lst generalizing row with
  | nil => rw [mark_row, strike]
  | cons ch lst ih =>
    obtain ⟨hch, hrest⟩ := pairwise_cons.mp hlst
    by_cases hzero : ch = 0
    · rw [strike, if_pos hzero, hzero]
      cases row with
      | nil =>
        have hstop : ∀ a ∈ lst, a ≠ 0 → verdict [] a ≠ .hit := fun _ _ _ => Verdict.noConfusion
        rw [mark_row, strike_eq_self 0 hstop]
      | cons info row => rw [mark_row, if_pos rfl, ih (info :: row) hsorted hrest]
    · rw [strike, if_neg hzero]
      cases hfind : row.find? (fun info => decide (info.leak_chan = ch)) with
      | none =>
        rw [verdict, hfind]
        refine mark_row_of_stop hzero lst row (fun info hinfo heq => ?_)
        exact find?_eq_none.mp hfind info hinfo (decide_eq_true heq)
      | some info =>
        obtain ⟨hinfo, pre, post, rfl, hpre⟩ := find?_eq_some_iff_append.mp hfind
        have hinfo' : info.leak_chan = ch := of_decide_eq_true hinfo
        rw [mark_row_of_found hzero lst pre info post (fun i hi => by simpa using hpre i hi)
          hinfo', verdict, hfind]
        dsimp only
        by_cases hlvl : info.leak_lvl ≤ SAP_TX_LEAKAGE_THRES
        · rw [if_pos hlvl, if_pos hlvl]
        · have hpost : RowSorted post :=
            (pairwise_cons.mp (pairwise_append.mp hsorted).2.1).2
          rw [if_neg hlvl, if_neg hlvl, ih post hpost hrest]
          refine congrArg (ch :: ·) (strike_congr 0 fun a ha hne => ?_)
          exact verdict_of_later hsorted (hinfo' ▸ hzero) (hinfo' ▸ hch a ha hzero hne)

/-! ## The whole list -/

/-- The round of entry `i`; one that is not in the list passes all by. -/
def round_of (ch_width : ChWidth) (nol : Nat → SapDfsNolInfo) (i : Nat) (ch : UInt8) : Verdict :=
  if in_nol (nol i) = false then .pass
  else
    match sap_find_target_channel_in_channel_matrix ch_width (nol i).dfs_channel_number with
    | none => .stop
    | some row => verdict row ch

theorem mark_entries_eq (nol : Nat → SapDfsNolInfo) (is : List Nat) (lst : List UInt8)
    (hlst : lst.Pairwise fun a b => a ≠ 0 → b ≠ 0 → a < b)
    (hrows : ∀ i ∈ is, in_nol (nol i) = true →
      sap_find_target_channel_in_channel_matrix ch_width (nol i).dfs_channel_number ≠ none) :
    mark_entries ch_width nol is lst = (true, strikes 0 (is.map (round_of ch_width nol)) lst) := by
  induction is generalizing lst with
  | nil => rfl
  | cons i is ih =>
    have hrest := fun j hj => hrows j (mem_cons_of_mem i hj)
    have hstrikes : strikes 0 ((i :: is).map (round_of ch_width nol)) lst =
        strikes 0 (is.map (round_of ch_width nol)) (strike 0 (round_of ch_width nol i) lst) := rfl
    rw [mark_entries, hstrikes]
    cases hin : in_nol (nol i) with
    | false =>
      have hpass : strike 0 (round_of ch_width nol i) lst = lst := by
        refine strike_eq_self 0 fun a _ _ => ?_
        rw [round_of, if_pos hin]; exact Verdict.noConfusion
      rw [if_pos rfl, hpass]; exact ih lst hlst hrest
    | true =>
      cases hfind : sap_find_target_channel_in_channel_matrix ch_width
          (nol i).dfs_channel_number with
      | none => exact absurd hfind (hrows i mem_cons_self hin)
      | some row =>
        have hround : round_of ch_width nol i = verdict row := by
          funext ch
          rw [round_of, hin, if_neg (Bool.noConfusion), hfind]
        have hrow := mark_row_eq lst row (row_sorted_of_find hfind) hlst
        have hkept : (strike 0 (verdict row) lst).Pairwise fun a b => a ≠ 0 → b ≠ 0 → a < b :=
          pairwise_strike 0 (fun _ h => absurd rfl h) (fun _ _ h => absurd rfl h) hlst
        dsimp only
        rw [hrow, hround]; exact ih _ hkept hrest

theorem mark_entries_fails (nol : Nat → SapDfsNolInfo) (is : List Nat) (lst : List UInt8)
    {i : Nat} (hi : i ∈ is) (hin : in_nol (nol i) = true)
    (hnone : sap_find_target_channel_in_channel_matrix ch_width (nol i).dfs_channel_number = none) :
    (mark_entries ch_width nol is lst).1 = false := by
  induction is generalizing lst with
  | nil => cases hi
  | cons j is ih =>
    rw [mark_entries]
    rcases mem_cons.mp hi with rfl | hi
    · rw [hin, if_neg (Bool.noConfusion), hnone]
    · split
      · exact ih lst hi
      · split
        · rfl
        · exact ih _ hi

/-! ## When the marking is right -/

theorem round_of_eq (nol : Nat → SapDfsNolInfo) {i : Nat} (hin : in_nol (nol i) = true)
    (ch : UInt8) :
    round_of ch_width nol i ch =
      match level ch_width (nol i).dfs_channel_number ch with
      | none => .stop
      | some lvl => if lvl ≤ SAP_TX_LEAKAGE_THRES then .hit else .pass := by
  rw [round_of, level, hin, if_neg (Bool.noConfusion)]
  cases sap_find_target_channel_in_channel_matrix ch_width (nol i).dfs_channel_number with
  | none => rfl
  | some row =>
    dsimp only
    rw [verdict]
    cases row.find? (fun info => decide (info.leak_chan = ch)) with
    | none => rfl
    | some info => rfl

theorem round_of_hit_iff (nol : Nat → SapDfsNolInfo) (i : Nat) (ch : UInt8) :
    round_of ch_width nol i ch = .hit ↔
      in_nol (nol i) = true ∧ leaks_into ch_width (nol i).dfs_channel_number ch = true := by
  cases hin : in_nol (nol i) with
  | false => simp [round_of, hin]
  | true =>
    rw [round_of_eq ch_width nol hin, leaks_into, and_iff_right rfl]
    cases level ch_width (nol i).dfs_channel_number ch with
    | none => simp
    | some lvl => simp

theorem round_of_pass_iff (nol : Nat → SapDfsNolInfo) {i : Nat} (hin : in_nol (nol i) = true)
    (ch : UInt8) :
    round_of ch_width nol i ch = .pass ↔
      clear_of ch_width (nol i).dfs_channel_number ch = true := by
  rw [round_of_eq ch_width nol hin, clear_of]
  cases level ch_width (nol i).dfs_channel_number ch with
  | none => simp
  | some lvl => simp

theorem hit_rounds_iff (nol : Nat → SapDfsNolInfo) (ch : UInt8) :
    Hit ((range NUM_5GHZ_CHANNELS).map (round_of ch_width nol)) ch ↔
      leaks ch_width nol ch = true := by
  rw [leaks, any_eq_true]
  constructor
  · rintro ⟨v, hv, hhit⟩
    obtain ⟨i, hi, rfl⟩ := mem_map.mp hv
    exact ⟨i, hi, Bool.and_eq_true_iff.mpr ((round_of_hit_iff ch_width nol i ch).mp hhit)⟩
  · rintro ⟨i, hi, hleaks⟩
    exact ⟨_, mem_map_of_mem hi,
      (round_of_hit_iff ch_width nol i ch).mpr (Bool.and_eq_true_iff.mp hleaks)⟩

/-- To each candidate that leaks an entry of the list can be given into whose channel it leaks, so
that every candidate before it that is not clear of that channel leaks as well, and has an earlier
entry. -/
def InTurn (ch_width : ChWidth) (nol : Nat → SapDfsNolInfo) (lst : List UInt8) : Prop :=
  ∃ entry : UInt8 → Nat, ∀ a ∈ lst, a ≠ 0 → leaks ch_width nol a = true →
    entry a < NUM_5GHZ_CHANNELS ∧ in_nol (nol (entry a)) = true ∧
      leaks_into ch_width (nol (entry a)).dfs_channel_number a = true ∧
      ∀ b ∈ lst, b ≠ 0 → b < a → clear_of ch_width (nol (entry a)).dfs_channel_number b = false →
        leaks ch_width nol b = true ∧ entry b < entry a

def HasRows (ch_width : ChWidth) (nol : Nat → SapDfsNolInfo) : Prop :=
  ∀ i < NUM_5GHZ_CHANNELS, in_nol (nol i) = true →
    sap_find_target_channel_in_channel_matrix ch_width (nol i).dfs_channel_number ≠ none

theorem Candidates.distinct (c : Candidates) : Distinct 0 c.lst := by
  refine c.increasing.imp fun {a b} hlt hne heq => ?_
  exact UInt8.lt_irrefl b (heq ▸ hlt hne (heq ▸ hne))

theorem Candidates.before_iff (c : Candidates) {pre post : List UInt8} {a b : UInt8}
    (hlst : c.lst = pre ++ a :: post) (ha : a ≠ 0) (hb : b ≠ 0) : b ∈ pre ↔ b ∈ c.lst ∧ b < a := by
  have hinc := c.increasing
  rw [hlst] at hinc ⊢
  obtain ⟨_, hpost, hpre⟩ := pairwise_append.mp hinc
  constructor
  · intro hmem; exact ⟨mem_append_left _ hmem, hpre b hmem a mem_cons_self hb ha⟩
  · rintro ⟨hmem, hlt⟩
    rcases mem_append.mp hmem with hmem | hmem
    · exact hmem
    · rcases mem_cons.mp hmem with rfl | hmem
      · exact absurd hlt (UInt8.lt_irrefl _)
      · exact absurd hlt (UInt8.lt_asymm ((pairwise_cons.mp hpost).1 b hmem ha hb))

theorem getElem?_rounds_iff (nol : Nat → SapDfsNolInfo) (i : Nat) (v : UInt8 → Verdict) :
    ((range NUM_5GHZ_CHANNELS).map (round_of ch_width nol))[i]? = some v ↔
      i < NUM_5GHZ_CHANNELS ∧ round_of ch_width nol i = v := by
  rw [getElem?_map, Option.map_eq_some_iff]
  simp only [getElem?_eq_some_iff, length_range, getElem_range]
  constructor
  · rintro ⟨j, ⟨hj, rfl⟩, rfl⟩; exact ⟨hj, rfl⟩
  · rintro ⟨hi, rfl⟩; exact ⟨i, ⟨hi, rfl⟩, rfl⟩

theorem scheduled_iff (nol : Nat → SapDfsNolInfo) (c : Candidates) :
    Scheduled 0 ((range NUM_5GHZ_CHANNELS).map (round_of ch_width nol)) c.lst ↔
      InTurn ch_width nol c.lst := by
  refine exists_congr fun entry => ?_
  constructor
  · intro h a ha hne hleaks
    obtain ⟨pre, post, hlst⟩ := append_of_mem ha
    obtain ⟨v, hv, hhit, hbefore⟩ :=
      h pre a post hlst hne ((hit_rounds_iff ch_width nol a).mpr hleaks)
    obtain ⟨hi, rfl⟩ := (getElem?_rounds_iff ch_width nol _ _).mp hv
    obtain ⟨hin, hinto⟩ := (round_of_hit_iff ch_width nol (entry a) a).mp hhit
    refine ⟨hi, hin, hinto, fun b hb hbne hlt hclear => ?_⟩
    have hpass : round_of ch_width nol (entry a) b ≠ .pass := by
      rw [Ne, round_of_pass_iff ch_width nol hin, hclear]; exact Bool.noConfusion
    obtain ⟨hbhit, hearlier⟩ :=
      hbefore b ((c.before_iff hlst hne hbne).mpr ⟨hb, hlt⟩) hbne hpass
    exact ⟨(hit_rounds_iff ch_width nol b).mp hbhit, hearlier⟩
  · intro h pre a post hlst hne hhit
    have ha : a ∈ c.lst := hlst ▸ mem_append_right pre mem_cons_self
    obtain ⟨hi, hin, hinto, hbefore⟩ := h a ha hne ((hit_rounds_iff ch_width nol a).mp hhit)
    refine ⟨_, (getElem?_rounds_iff ch_width nol _ _).mpr ⟨hi, rfl⟩,
      (round_of_hit_iff ch_width nol (entry a) a).mpr ⟨hin, hinto⟩, fun b hb hbne hpass => ?_⟩
    obtain ⟨hmem, hlt⟩ := (c.before_iff hlst hne hbne).mp hb
    have hclear : clear_of ch_width (nol (entry a)).dfs_channel_number b = false :=
      Bool.eq_false_iff.mpr (mt (round_of_pass_iff ch_width nol hin b).mpr hpass)
    obtain ⟨hbleaks, hearlier⟩ := hbefore b hmem hbne hlt hclear
    exact ⟨(hit_rounds_iff ch_width nol b).mpr hbleaks, hearlier⟩

/-- The marking is right exactly if it fails for want of a row, or the candidates that leak can be
removed one after the other. -/
theorem marks_right_iff (ch_width : ChWidth) (nol : Nat → SapDfsNolInfo) (c : Candidates) :
    MarksRight ch_width nol c.lst ↔
      ¬HasRows ch_width nol ∨ InTurn ch_width nol c.lst := by
  by_cases hrows : HasRows ch_width nol
  · have heq := mark_entries_eq ch_width nol (range NUM_5GHZ_CHANNELS) c.lst c.increasing
      (fun i hi => hrows i (mem_range.mp hi))
    rw [or_iff_right (not_not.mpr hrows), ← scheduled_iff, ← strikes_eq_iff 0 c.distinct]
    simp only [hit_rounds_iff]
    rw [MarksRight, sap_mark_leaking_ch, heq]
    constructor
    · intro h; exact h _ rfl
    · rintro h lst' hlst'
      rw [← h]; exact (Prod.mk.inj hlst').2.symm
  · rw [or_iff_left_of_imp (fun _ => hrows)]
    refine iff_of_true (fun lst' hlst' => ?_) hrows
    obtain ⟨i, hi, hin, hnone⟩ : ∃ i < NUM_5GHZ_CHANNELS, in_nol (nol i) = true ∧
        sap_find_target_channel_in_channel_matrix ch_width (nol i).dfs_channel_number = none := by
      simpa [HasRows] using hrows
    have hfails := mark_entries_fails ch_width nol (range NUM_5GHZ_CHANNELS) c.lst
      (mem_range.mpr hi) hin hnone
    rw [sap_mark_leaking_ch] at hlst'
    rw [hlst'] at hfails; contradiction

def nol_100 (i : Nat) : SapDfsNolInfo :=
  if i = 0 then ⟨100, .UNAVAILABLE, 0⟩ else ⟨0, .USABLE, 0⟩

/-- Of three candidates that leak into channel 100 the first one is removed. -/
theorem marks_first_of_three :
    ¬MarksRight .CH_WIDTH_80MHZ nol_100
      (Candidates.mk [100, 104, 108] (by decide) (by decide)).lst := by
  intro h
  have hrows : ∀ i ∈ range NUM_5GHZ_CHANNELS, in_nol (nol_100 i) = true →
      sap_find_target_channel_in_channel_matrix .CH_WIDTH_80MHZ (nol_100 i).dfs_channel_number ≠
        none := by decide +kernel
  have hmark : sap_mark_leaking_ch .CH_WIDTH_80MHZ nol_100 [100, 104, 108] =
      (true, [0, 104, 108]) := by
    rw [sap_mark_leaking_ch, mark_entries_eq _ _ _ _ (by decide) hrows]; decide +kernel
  exact absurd (h _ hmark) (by decide +kernel)

end Qcacld.SapLeak
