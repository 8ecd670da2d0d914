/-
The parser of the PHY error frames of the baseband, of `dfs_phyerr_tlv.c`.

The walk over the records checks the claimed length against the end of the frame from the place of
the header, not from the place behind it, and the parsers of the two kinds of record that are looked
into copy a fixed number of bytes, whatever length the record has. The memory is a function of the
offset from the start of the frame, the bytes behind the end included. What
`dfs_process_phyerr_bb_tlv` computes from the channel for the frequencies of the event is left out:
it reads nothing of the frame.
-/
import Qcacld.Lib.Logged

set_option autoImplicit false

namespace Qcacld.DfsPhyerrTlv

open Lib

/-! ## Reads -/

/-- `size` bytes from `offset` on are read for the part of the frame from `start` to `stop`. -/
structure Read where
  offset : Nat
  size : Nat
  start : Nat
  stop : Nat
  deriving DecidableEq

/-- The read is inside the part that it is for and inside a frame of `len` bytes. -/
def Read.Inside (len : Nat) (r : Read) : Prop :=
  r.start ≤ r.offset ∧ r.offset + r.size ≤ r.stop ∧ r.offset + r.size ≤ len

instance (len : Nat) : DecidablePred (Read.Inside len) :=
  fun r => inferInstanceAs (Decidable (r.start ≤ r.offset ∧ _))

def dword (buf : Nat → UInt8) (i : Nat) : UInt32 :=
  (buf i).toUInt32 ||| (buf (i + 1)).toUInt32 <<< 8 ||| (buf (i + 2)).toUInt32 <<< 16 |||
    (buf (i + 3)).toUInt32 <<< 24

/-- `OS_MEMCPY` of `n` words at `i`, for the part that starts there and has `len` bytes. -/
def copy (buf : Nat → UInt8) (i n len : Nat) : Logged Read (Nat → UInt32) :=
  emit [⟨i, 4 * n, i, i + len⟩] fun k => dword buf (i + 4 * k)

def MS (v mask shift : UInt32) : UInt32 := (v &&& mask) >>> shift

def TLV_LEN (hdr : UInt32) : Nat := (MS hdr 0x0000FFFF 0).toNat
def TLV_SIG (hdr : UInt32) : UInt32 := MS hdr 0x00FF0000 16

def TAG_ID_SEARCH_FFT_REPORT : UInt32 := 0xFB
def TAG_ID_RADAR_PULSE_SUMMARY : UInt32 := 0xF8
def DFS3_RADAR_PULSE_SUMMARY_TLV_LENGTH : Nat := 20

/-! ## What is parsed -/

inductive SummaryVersion where
  | none
  | DFS_RADAR_SUMMARY_REPORT_VERSION_2
  | DFS_RADAR_SUMMARY_REPORT_VERSION_3
  deriving DecidableEq

structure RxRadarStatus where
  raw_tsf : UInt32
  tsf_offset : UInt32
  rssi : UInt8
  pulse_duration : UInt32
  is_chirp : Bool
  delta_peak : Int
  delta_diff : UInt32
  sidx : Int
  freq_offset : Int
  agc_total_gain : UInt32
  agc_mb_gain : UInt32
  radar_subchan_mask : UInt32
  rsu_version : SummaryVersion
  pulse_height : UInt32
  triggering_agc_event : UInt32
  pulse_rssi : UInt32
  radar_fft_pri80_inband_power : UInt32
  radar_fft_ext80_inband_power : UInt32
  radar_80p80_segid : UInt32

structure RxSearchFftReport where
  total_gain_db : UInt32
  base_pwr_db : UInt32
  fft_chn_idx : UInt32
  peak_sidx : Int
  relpwr_db : UInt32
  avgpwr_db : UInt32
  peak_mag : UInt32
  num_str_bins_ib : UInt32

/-- The fields of `struct ath_dfs` and of its channel that the parser uses. -/
structure AthDfs where
  ath_dfs_false_rssi_thres : Int
  ath_dfs_peak_mag : Int
  /-- `IEEE80211_IS_CHAN_11AC_VHT80`. -/
  vht80 : Bool
  /-- `ieee80211_chan2freq`. -/
  freq : Int
  /-- `ic_vhtop_ch_freq_seg1`. -/
  freq_centre : Int

def sign_extend_32 (v nb : UInt32) : Int :=
  let m := 1 <<< (nb - 1)
  (((v &&& (1 <<< nb - 1)) ^^^ m) - m).toInt32.toInt

def calc_freq_offset (sindex : Int) (is_oversampling : Bool) : Int :=
  if is_oversampling then sindex * (44000 / 128) else sindex * (40000 / 128)

/-! ## The parsers of a record -/

def dfs3_summary (rsu : RxRadarStatus) (rs : Nat → UInt32) : RxRadarStatus :=
  let sidx := sign_extend_32 (MS (rs 0) 0x000003FF 0) 10
  { rsu with
    rsu_version := .DFS_RADAR_SUMMARY_REPORT_VERSION_3
    tsf_offset := MS (rs 1) 0x0000FF00 8
    pulse_duration := MS (rs 1) 0x000000FF 0
    is_chirp := MS (rs 0) 0x80000000 31 ≠ 0
    sidx := sidx
    freq_offset := calc_freq_offset sidx false
    delta_peak := sign_extend_32 (MS (rs 0) 0x0000FC00 10) 6
    delta_diff := MS (rs 0) 0x000F0000 16
    agc_total_gain := MS (rs 0) 0x3FF00000 20
    agc_mb_gain := MS (rs 1) 0x7F000000 24
    radar_subchan_mask := MS (rs 1) 0x00FF0000 16
    pulse_height := MS (rs 2) 0x000003FF 0
    triggering_agc_event := MS (rs 3) 0xC0000000 30
    pulse_rssi := MS (rs 3) 0x3FFC0000 18
    radar_fft_pri80_inband_power := MS (rs 4) 0x1FFF8000 15
    radar_fft_ext80_inband_power := MS (rs 4) 0x00007FFE 1
    radar_80p80_segid := MS (rs 4) 0x00000001 0 }

def dfs2_summary (rsu : RxRadarStatus) (rs : Nat → UInt32) : RxRadarStatus :=
  let sidx := sign_extend_32 (MS (rs 0) 0x000003FF 0) 10
  { rsu with
    rsu_version := .DFS_RADAR_SUMMARY_REPORT_VERSION_2
    tsf_offset := MS (rs 1) 0x0000FF00 8
    pulse_duration := MS (rs 1) 0x000000FF 0
    is_chirp := MS (rs 0) 0x80000000 31 ≠ 0
    sidx := sidx
    -- `PERE_IS_OVERSAMPLING` is 1
    freq_offset := calc_freq_offset sidx true
    delta_peak := sign_extend_32 (MS (rs 0) 0x0000FC00 10) 6
    delta_diff := MS (rs 0) 0x000F0000 16
    agc_total_gain := MS (rs 0) 0x3FF00000 20
    agc_mb_gain := MS (rs 1) 0x7F000000 24 }

def fix_duration (dfs : AthDfs) (rsu : RxRadarStatus) : RxRadarStatus :=
  if dfs.vht80 ∧ (dfs.freq - dfs.freq_centre).natAbs = 30 ∧ !rsu.is_chirp ∧ rsu.sidx.natAbs ≤ 4 ∧
      rsu.pulse_duration > 20 then
    { rsu with pulse_duration := 20 }
  else rsu

def radar_summary_parse (dfs : AthDfs) (mem : Nat → UInt8) (buf len : Nat) (rsu : RxRadarStatus) :
    Logged Read RxRadarStatus := do
  -- a length that is too short is only traced
  if len = DFS3_RADAR_PULSE_SUMMARY_TLV_LENGTH then
    let dfs3_rs ← copy mem buf 5 len
    pure (fix_duration dfs (dfs3_summary rsu dfs3_rs))
  else
    let rs ← copy mem buf 2 len
    pure (fix_duration dfs (dfs2_summary rsu rs))

def radar_fft_search_report_parse (mem : Nat → UInt8) (buf len : Nat) :
    Logged Read RxSearchFftReport := do
  let rs ← copy mem buf 2 len
  pure
    { total_gain_db := MS (rs 0) 0xFF800000 23
      base_pwr_db := MS (rs 0) 0x007FC000 14
      fft_chn_idx := MS (rs 0) 0x00003000 12
      peak_sidx := sign_extend_32 (MS (rs 0) 0x00000FFF 0) 12
      relpwr_db := MS (rs 1) 0xFC000000 26
      avgpwr_db := MS (rs 1) 0x03FC0000 18
      peak_mag := MS (rs 1) 0x0003FF00 8
      num_str_bins_ib := MS (rs 1) 0x000000FF 0 }

/-! ## The walk over the records -/

/-- The locals of `tlv_parse_frame` and what it fills in. -/
structure Walk where
  i : Nat
  first_tlv : Bool
  false_detect : Bool
  rs : RxRadarStatus
  rsfr : RxSearchFftReport

/-- The `switch` over the kind of the record, with `i` behind the header. -/
def parse_payload (dfs : AthDfs) (mem : Nat → UInt8) (rssi : UInt8) (hdr : UInt32) (w : Walk) :
    Logged Read Walk :=
  if TLV_SIG hdr = TAG_ID_RADAR_PULSE_SUMMARY then do
    let rs ← radar_summary_parse dfs mem w.i (TLV_LEN hdr) w.rs
    pure { w with rs := rs }
  else if TLV_SIG hdr = TAG_ID_SEARCH_FFT_REPORT then do
    let rsfr ← radar_fft_search_report_parse mem w.i (TLV_LEN hdr)
    pure
      { w with
        rsfr := rsfr
        false_detect :=
          w.false_detect ||
            (w.first_tlv && (rssi.toNat : Int) = dfs.ath_dfs_false_rssi_thres &&
              (rsfr.peak_mag.toNat : Int) < 2 * dfs.ath_dfs_peak_mag) }
  else pure w

def tlv_parse_loop (dfs : AthDfs) (mem : Nat → UInt8) (len : Nat) (rssi : UInt8) :
    Nat → Walk → Logged Read (Option (Bool × Walk))
  | 0, _ => pure none
  | fuel + 1, w =>
    if w.i < len ∧ w.false_detect = false then
      if len - w.i < 4 then pure (some (false, w))
      else do
        let hdr ← copy mem w.i 1 4
        if TLV_LEN (hdr 0) + w.i ≥ len then pure (some (!w.false_detect, w))
        else do
          let next ← parse_payload dfs mem rssi (hdr 0) { w with i := w.i + 4 }
          tlv_parse_loop dfs mem len rssi fuel
            { next with i := next.i + TLV_LEN (hdr 0), first_tlv := false }
    else pure (some (!w.false_detect, w))

def tlv_parse_frame (dfs : AthDfs) (rs : RxRadarStatus) (rsfr : RxSearchFftReport)
    (mem : Nat → UInt8) (len : Nat) (rssi : UInt8) : Logged Read (Option (Bool × Walk)) :=
  tlv_parse_loop dfs mem len rssi (len + 1) ⟨0, true, false, rs, rsfr⟩

structure PhyErr where
  fulltsf : UInt64
  is_pri : Bool
  is_ext : Bool
  is_dc : Bool
  is_early : Bool
  do_check_chirp : Bool
  is_hw_chirp : Bool
  is_sw_chirp : Bool
  rs_tstamp : UInt32
  rssi : UInt8
  dur : UInt8
  sidx : Int
  radar_80p80_segid : UInt32

/-- `OS_MEMZERO` of the status. -/
def RxRadarStatus.zero : RxRadarStatus :=
  ⟨0, 0, 0, 0, false, 0, 0, 0, 0, 0, 0, 0, .none, 0, 0, 0, 0, 0, 0⟩

def phyErr (fulltsf : UInt64) (rs : RxRadarStatus) : PhyErr where
  fulltsf := fulltsf
  is_pri := true
  is_ext := false
  is_dc := false
  is_early := false
  do_check_chirp := true
  is_hw_chirp := rs.is_chirp
  is_sw_chirp := false
  rs_tstamp := rs.raw_tsf - rs.tsf_offset
  rssi := rs.rssi
  dur := rs.pulse_duration.toUInt8
  sidx := rs.sidx
  radar_80p80_segid :=
    if rs.rsu_version = .DFS_RADAR_SUMMARY_REPORT_VERSION_3 then rs.radar_80p80_segid else 0

/-- The event that is made of a frame that is not rejected; `rsfr` is not initialized. The outer
`none` is a walk that does not end. -/
def dfs_process_phyerr_bb_tlv (dfs : AthDfs) (rsfr : RxSearchFftReport) (buf : Nat → UInt8)
    (datalen : UInt16) (rssi : UInt8) (rs_tstamp : UInt32) (fulltsf : UInt64) :
    Logged Read (Option (Option PhyErr)) := do
  let rs := { RxRadarStatus.zero with rssi := rssi, raw_tsf := rs_tstamp }
  let parsed ← tlv_parse_frame dfs rs rsfr buf datalen.toNat rssi
  pure (parsed.map fun p => if p.1 then some (phyErr fulltsf p.2.rs) else none)

/-! ## The records of a frame -/

def Parsed (mem : Nat → UInt8) (len i : Nat) : Prop :=
  i + 4 ≤ len ∧ TLV_LEN (dword mem i) + i < len

def copied (hdr : UInt32) : Option Nat :=
  if TLV_SIG hdr = TAG_ID_RADAR_PULSE_SUMMARY then
    some (if TLV_LEN hdr = DFS3_RADAR_PULSE_SUMMARY_TLV_LENGTH then 20 else 8)
  else if TLV_SIG hdr = TAG_ID_SEARCH_FFT_REPORT then some 8
  else none

def Rejecting (dfs : AthDfs) (mem : Nat → UInt8) (rssi : UInt8) (i : Nat) : Prop :=
  i = 0 ∧ TLV_SIG (dword mem i) = TAG_ID_SEARCH_FFT_REPORT ∧
    (rssi.toNat : Int) = dfs.ath_dfs_false_rssi_thres ∧
    ((MS (dword mem (i + 8)) 0x0003FF00 8).toNat : Int) < 2 * dfs.ath_dfs_peak_mag

def Next (dfs : AthDfs) (mem : Nat → UInt8) (len : Nat) (rssi : UInt8) (i j : Nat) : Prop :=
  Parsed mem len i ∧ ¬Rejecting dfs mem rssi i ∧ j = i + 4 + TLV_LEN (dword mem i)

def Roomy (mem : Nat → UInt8) (len i : Nat) : Prop :=
  Parsed mem len i →
    ∀ n ∈ copied (dword mem i), n ≤ TLV_LEN (dword mem i) ∧ i + 4 + n ≤ len

def AllRoomy (dfs : AthDfs) (mem : Nat → UInt8) (len : Nat) (rssi : UInt8) (i : Nat) : Prop :=
  ∀ j, Relation.ReflTransGen (Next dfs mem len rssi) i j → Roomy mem len j

section Walk

variable {dfs : AthDfs} {mem : Nat → UInt8} {len : Nat} {rssi : UInt8}

theorem allRoomy_of_not_next {i : Nat} (h : ∀ j, ¬Next dfs mem len rssi i j) :
    AllRoomy dfs mem len rssi i ↔ Roomy mem len i := by
  constructor
  · intro hall; exact hall i .refl
  · intro hroomy j hj
    rcases Relation.ReflTransGen.cases_head hj with heq | ⟨k, hk, -⟩
    · rwa [← heq]
    · exact absurd hk (h k)

theorem allRoomy_of_next {i j : Nat} (h : Next dfs mem len rssi i j) :
    AllRoomy dfs mem len rssi i ↔ Roomy mem len i ∧ AllRoomy dfs mem len rssi j := by
  constructor
  · intro hall; exact ⟨hall i .refl, fun k hk => hall k (.head h hk)⟩
  · rintro ⟨hroomy, hrest⟩ k hk
    rcases Relation.ReflTransGen.cases_head hk with heq | ⟨l, hl, hlk⟩
    · rwa [← heq]
    · -- there is one way to go from a record
      rw [hl.2.2, ← h.2.2] at hlk; exact hrest k hlk

theorem within_copy {i n l : Nat} :
    Within (Read.Inside len) (copy mem i n l) ↔ 4 * n ≤ l ∧ i + 4 * n ≤ len := by
  unfold Within copy
  rw [log_emit, List.forall_mem_singleton]
  constructor
  · rintro ⟨-, hstop, hlen⟩; exact ⟨Nat.le_of_add_le_add_left hstop, hlen⟩
  · rintro ⟨hstop, hlen⟩; exact ⟨Nat.le_refl i, Nat.add_le_add_left hstop i, hlen⟩

theorem within_summary {buf l : Nat} {rsu : RxRadarStatus} :
    Within (Read.Inside len) (radar_summary_parse dfs mem buf l rsu) ↔
      (if l = DFS3_RADAR_PULSE_SUMMARY_TLV_LENGTH then 20 else 8) ≤ l ∧
        buf + (if l = DFS3_RADAR_PULSE_SUMMARY_TLV_LENGTH then 20 else 8) ≤ len := by
  unfold radar_summary_parse
  split
  · exact within_bind_pure.trans within_copy
  · exact within_bind_pure.trans within_copy

theorem within_search {buf l : Nat} :
    Within (Read.Inside len) (radar_fft_search_report_parse mem buf l) ↔
      8 ≤ l ∧ buf + 8 ≤ len := within_bind_pure.trans within_copy

theorem within_payload {hdr : UInt32} {w : Walk} :
    Within (Read.Inside len) (parse_payload dfs mem rssi hdr w) ↔
      ∀ n ∈ copied hdr, n ≤ TLV_LEN hdr ∧ w.i + n ≤ len := by
  unfold parse_payload copied
  split
  · rw [within_bind_pure, within_summary]; simp
  · split
    · rw [within_bind_pure, within_search]; simp
    · simp [within_pure]

theorem payload_i (hdr : UInt32) (w : Walk) : (val (parse_payload dfs mem rssi hdr w)).i = w.i := by
  unfold parse_payload
  split
  · rfl
  · split <;> rfl

theorem payload_false_detect {i : Nat} {w : Walk} (hfirst : w.first_tlv = decide (i = 0))
    (hdetect : w.false_detect = false) (hi : w.i = i + 4) :
    (val (parse_payload dfs mem rssi (dword mem i) w)).false_detect = true ↔
      Rejecting dfs mem rssi i := by
  unfold parse_payload Rejecting
  split
  · rename_i hsummary
    rw [hsummary]
    constructor
    · intro htrue; exact absurd (hdetect.symm.trans htrue) Bool.false_ne_true
    · rintro ⟨-, hsearch, -⟩; exact absurd hsearch (by decide)
  · split
    · rename_i hsearch
      have hmag : (val (radar_fft_search_report_parse mem w.i (TLV_LEN (dword mem i)))).peak_mag =
          MS (dword mem (i + 8)) 0x0003FF00 8 := by rw [hi]; rfl
      rw [val_bind, val_pure, hmag, hdetect, hfirst]
      simp only [Bool.false_or, Bool.and_eq_true, decide_eq_true_eq]
      constructor
      · rintro ⟨⟨hzero, hthres⟩, hpeak⟩; exact ⟨hzero, hsearch, hthres, hpeak⟩
      · rintro ⟨hzero, -, hthres, hpeak⟩; exact ⟨⟨hzero, hthres⟩, hpeak⟩
    · rename_i hsearch
      constructor
      · intro htrue; exact absurd (hdetect.symm.trans htrue) Bool.false_ne_true
      · intro hrejecting; exact absurd hrejecting.2.1 hsearch

def Walk.past (dfs : AthDfs) (mem : Nat → UInt8) (rssi : UInt8) (w : Walk) : Walk :=
  let next := val (parse_payload dfs mem rssi (dword mem w.i) { w with i := w.i + 4 })
  { next with i := next.i + TLV_LEN (dword mem w.i), first_tlv := false }

theorem past_i (dfs : AthDfs) (mem : Nat → UInt8) (rssi : UInt8) (w : Walk) :
    (w.past dfs mem rssi).i = w.i + 4 + TLV_LEN (dword mem w.i) :=
  congrArg (· + TLV_LEN (dword mem w.i)) (payload_i (dword mem w.i) { w with i := w.i + 4 })

theorem past_first_tlv (w : Walk) :
    (w.past dfs mem rssi).first_tlv = decide ((w.past dfs mem rssi).i = 0) := by
  have hpos : (w.past dfs mem rssi).i ≠ 0 := by
    rw [past_i]; exact Nat.ne_of_gt (Nat.lt_add_right _ (Nat.succ_pos _))
  rw [decide_eq_false hpos]; rfl

theorem past_false_detect {w : Walk} (hfirst : w.first_tlv = decide (w.i = 0))
    (hdetect : w.false_detect = false) :
    (w.past dfs mem rssi).false_detect = true ↔ Rejecting dfs mem rssi w.i := by
  have hwalk : (Walk.mk (w.i + 4) w.first_tlv w.false_detect w.rs w.rsfr).i = w.i + 4 := rfl
  exact payload_false_detect hfirst hdetect hwalk

theorem loop_parsed (fuel : Nat) {w : Walk} (hparsed : Parsed mem len w.i)
    (hdetect : w.false_detect = false) :
    val (tlv_parse_loop dfs mem len rssi (fuel + 1) w) =
        val (tlv_parse_loop dfs mem len rssi fuel (w.past dfs mem rssi)) ∧
      (Within (Read.Inside len) (tlv_parse_loop dfs mem len rssi (fuel + 1) w) ↔
        Roomy mem len w.i ∧
          Within (Read.Inside len)
            (tlv_parse_loop dfs mem len rssi fuel (w.past dfs mem rssi))) := by
  obtain ⟨hheader, hend⟩ := hparsed
  have hword : val (copy mem w.i 1 4) 0 = dword mem w.i := rfl
  have hroomy : Within (Read.Inside len)
      (parse_payload dfs mem rssi (dword mem w.i) { w with i := w.i + 4 }) ↔ Roomy mem len w.i := by
    rw [within_payload, Roomy, forall_prop_of_true ⟨hheader, hend⟩]
  have hopen : ¬TLV_LEN (dword mem w.i) + w.i ≥ len := Nat.not_le_of_lt hend
  have hinside : 4 * 1 ≤ 4 ∧ w.i + 4 * 1 ≤ len := ⟨Nat.le_refl 4, hheader⟩
  rw [tlv_parse_loop, if_pos ⟨by omega, hdetect⟩, if_neg (by omega)]
  constructor
  · rw [val_bind, hword, if_neg hopen]; rfl
  · rw [within_bind_iff, within_copy, and_iff_right hinside, hword, if_neg hopen, within_bind_iff,
      hroomy]
    rfl

theorem loop_stops (dfs : AthDfs) (len : Nat) (rssi : UInt8) {fuel : Nat} {w : Walk}
    (hfuel : 0 < fuel) (hnot : ¬Parsed mem len w.i ∨ w.false_detect = true) :
    (val (tlv_parse_loop dfs mem len rssi fuel w)).isSome ∧
      Within (Read.Inside len) (tlv_parse_loop dfs mem len rssi fuel w) := by
  obtain ⟨fuel, rfl⟩ := Nat.exists_eq_succ_of_ne_zero (Nat.ne_of_gt hfuel)
  rw [tlv_parse_loop]
  split
  · rename_i hcond
    obtain ⟨hi, hdetect⟩ := hcond
    have hnot : ¬Parsed mem len w.i := hnot.resolve_right (Bool.eq_false_iff.mp hdetect)
    split
    · exact ⟨rfl, within_pure _⟩
    · have hinside : 4 * 1 ≤ 4 ∧ w.i + 4 * 1 ≤ len := by omega
      have hend : TLV_LEN (val (copy mem w.i 1 4) 0) + w.i ≥ len :=
        Nat.le_of_not_lt fun hlt => hnot ⟨hinside.2, hlt⟩
      rw [val_bind, within_bind_iff, within_copy, if_pos hend]
      exact ⟨rfl, hinside, within_pure _⟩
  · exact ⟨rfl, within_pure _⟩

theorem loop_spec {fuel : Nat} {w : Walk} (hfuel : len - w.i < fuel)
    (hfirst : w.first_tlv = decide (w.i = 0)) (hdetect : w.false_detect = false) :
    (val (tlv_parse_loop dfs mem len rssi fuel w)).isSome ∧
      (Within (Read.Inside len) (tlv_parse_loop dfs mem len rssi fuel w) ↔
        AllRoomy dfs mem len rssi w.i) := by
  induction fuel generalizing w with
  | zero => exact absurd hfuel (Nat.not_lt_zero _)
  | succ fuel ih =>
    by_cases hparsed : Parsed mem len w.i
    · obtain ⟨hval, hwithin⟩ := loop_parsed fuel hparsed hdetect
      rw [hval, hwithin]
      have hpast := past_i dfs mem rssi w
      have hless : w.i + 4 ≤ len := hparsed.1
      by_cases hreject : Rejecting dfs mem rssi w.i
      · have htrue := (past_false_detect hfirst hdetect).mpr hreject
        have hfuel : 0 < fuel := by omega
        obtain ⟨hsome, hinside⟩ := loop_stops dfs len rssi hfuel (.inr htrue)
        rw [allRoomy_of_not_next fun j hj => hj.2.1 hreject]
        exact ⟨hsome, and_iff_left hinside⟩
      · have hfalse := Bool.eq_false_iff.mpr (mt (past_false_detect hfirst hdetect).mp hreject)
        have hnext : Next dfs mem len rssi w.i (w.past dfs mem rssi).i :=
          ⟨hparsed, hreject, hpast⟩
        have hfuel : len - (w.past dfs mem rssi).i < fuel := by omega
        obtain ⟨hsome, hrest⟩ := ih hfuel (past_first_tlv w) hfalse
        rw [allRoomy_of_next hnext, hrest]; exact ⟨hsome, Iff.rfl⟩
    · obtain ⟨hsome, hinside⟩ := loop_stops dfs len rssi fuel.succ_pos (.inl hparsed)
      have hroomy : AllRoomy dfs mem len rssi w.i := by
        rw [allRoomy_of_not_next fun j hj => hparsed hj.1]
        intro h; exact absurd h hparsed
      exact ⟨hsome, iff_of_true hinside hroomy⟩

end Walk

/-- The walk ends, and what is read is inside the record that it is read for and inside the frame
if and only if every record that the walk comes to has room for what is read for it. -/
theorem reads_inside_iff (dfs : AthDfs) (rsfr : RxSearchFftReport) (buf : Nat → UInt8)
    (datalen : UInt16) (rssi : UInt8) (rs_tstamp : UInt32) (fulltsf : UInt64) :
    (val (dfs_process_phyerr_bb_tlv dfs rsfr buf datalen rssi rs_tstamp fulltsf)).isSome ∧
        Within (Read.Inside datalen.toNat)
          (dfs_process_phyerr_bb_tlv dfs rsfr buf datalen rssi rs_tstamp fulltsf) ↔
      ∀ i, Relation.ReflTransGen (Next dfs buf datalen.toNat rssi) 0 i →
        Roomy buf datalen.toNat i := by
  have hfuel : datalen.toNat - 0 < datalen.toNat + 1 := Nat.lt_succ_self _
  obtain ⟨hsome, hwithin⟩ := loop_spec
    (w := ⟨0, true, false, { RxRadarStatus.zero with rssi := rssi, raw_tsf := rs_tstamp }, rsfr⟩)
    hfuel rfl rfl
  unfold dfs_process_phyerr_bb_tlv tlv_parse_frame
  rw [val_bind, val_pure, Option.isSome_map, within_bind_pure, hwithin]
  exact and_iff_right hsome

/-- Eight bytes: the header of a search report that claims three bytes, and four more. -/
def shortReport (i : Nat) : UInt8 :=
  if i = 0 then 3 else if i = 2 then 0xFB else 0

/-- The eight bytes that are copied for the report end four bytes behind the frame. -/
theorem shortReport_read_past :
    ¬((val (dfs_process_phyerr_bb_tlv ⟨50, 40, false, 5500, 5500⟩ ⟨0, 0, 0, 0, 0, 0, 0, 0⟩
          shortReport 8 30 0 0)).isSome ∧
        Within (Read.Inside 8)
          (dfs_process_phyerr_bb_tlv ⟨50, 40, false, 5500, 5500⟩ ⟨0, 0, 0, 0, 0, 0, 0, 0⟩
            shortReport 8 30 0 0)) := by
  rintro ⟨-, hwithin⟩
  have hread : Read.mk 4 8 4 7 ∈ log (dfs_process_phyerr_bb_tlv ⟨50, 40, false, 5500, 5500⟩
      ⟨0, 0, 0, 0, 0, 0, 0, 0⟩ shortReport 8 30 0 0) := by decide
  exact absurd (hwithin _ hread) (by decide)

end Qcacld.DfsPhyerrTlv
