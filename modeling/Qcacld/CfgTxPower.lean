/-
The regulatory power of a channel: `cfg_get_regulatory_max_transmit_power` in `cfg_api.c` and the
scan of `cfg_get_dot11d_transmit_power` under it.

The scan puts the power of each tuple it passes into the result before it asks whether the tuple
holds the channel, so a channel in no tuple is given the power of the last one. And the bound of the
scan is the length of the string less three, which wraps when the string is shorter. A read past the
end of the stored string ends a run as `outside`.
-/
import Mathlib.Data.List.Basic

set_option autoImplicit false

namespace Qcacld.CfgTxPower

open List

def WMA_MAX_TXPOWER_INVALID : Int8 := 127

def SIR_11A_CHANNEL_BEGIN : UInt8 := 34
def SIR_11A_CHANNEL_END : UInt8 := 165

def WNI_CFG_MAX_TX_POWER_2_4_LEN : Nat := 128
def WNI_CFG_MAX_TX_POWER_5_LEN : Nat := 128

/-! ## The stored strings -/

/-- A string parameter, which no writer of the store makes longer than its maximum. -/
structure CfgString (max_len : Nat) where
  str : List UInt8
  length_le : str.length ≤ max_len

/-- What the lookup reads of the store; `mem` is whether `cdf_mem_malloc` has memory to give. -/
structure Cfg where
  max_tx_power_2_4 : CfgString WNI_CFG_MAX_TX_POWER_2_4_LEN
  max_tx_power_5 : CfgString WNI_CFG_MAX_TX_POWER_5_LEN
  mem : Bool

structure MacChanInfo where
  firstChanNum : UInt8
  numChannels : UInt8
  maxTxPower : Int8

def sizeof_MacChanInfo : Nat := 3

def MacChanInfo.holds (info : MacChanInfo) (channel : UInt8) : Bool :=
  decide (info.firstChanNum ≤ channel ∧
    channel.toNat < info.firstChanNum.toNat + info.numChannels.toNat)

inductive RfBandMode where
  | eRF_BAND_UNKNOWN
  | eRF_BAND_2_4_GHZ
  | eRF_BAND_5_GHZ
deriving DecidableEq

def rf_band (channel : UInt8) : RfBandMode :=
  if channel ≥ SIR_11A_CHANNEL_BEGIN ∧ channel ≤ SIR_11A_CHANNEL_END then .eRF_BAND_5_GHZ
  else .eRF_BAND_2_4_GHZ

/-! ## The scan -/

/-- A run of the scan, which may not have ended within its fuel. -/
inductive Run where
  | running
  | outside
  | returned (maxTxPwr : Int8)
deriving DecidableEq

/-- `pCountryInfo[count++]`, three times. -/
def read_tuple (pCountryInfo : List UInt8) (count : UInt8) : Option MacChanInfo :=
  match pCountryInfo[count.toNat]?, pCountryInfo[(count + 1).toNat]?,
      pCountryInfo[(count + 2).toNat]? with
  | some firstChannel, some maxChannels, some maxTxPwr =>
    some ⟨firstChannel, maxChannels, maxTxPwr.toInt8⟩
  | _, _, _ => none

def scan (pCountryInfo : List UInt8) (channel : UInt8) : Nat → UInt8 → Int8 → Run
  | 0, _, _ => .running
  | n + 1, count, maxTxPwr =>
    -- `sizeof` makes the bound an unsigned of 64 bits, which wraps below a length of three
    if count.toUInt64 ≤ UInt64.ofNat pCountryInfo.length - UInt64.ofNat sizeof_MacChanInfo then
      match read_tuple pCountryInfo count with
      | none => .outside
      | some info =>
        if info.holds channel then .returned info.maxTxPower
        else scan pCountryInfo channel n (count + 3) info.maxTxPower
    else .returned maxTxPwr

def wlan_cfg_get_str {max_len : Nat} (cfg : CfgString max_len) (pLength : Nat) :
    Option (List UInt8) :=
  if pLength < cfg.str.length then none else some cfg.str

def cfg_get_dot11d_transmit_power {max_len : Nat} (mem : Bool) (cfg : CfgString max_len)
    (cfgLength : Nat) (channel : UInt8) (fuel : Nat) : Run :=
  if cfgLength < sizeof_MacChanInfo then .returned WMA_MAX_TXPOWER_INVALID
  else if mem = false then .returned WMA_MAX_TXPOWER_INVALID
  else
    match wlan_cfg_get_str cfg cfgLength with
    | none => .returned WMA_MAX_TXPOWER_INVALID
    | some pCountryInfo => scan pCountryInfo channel fuel 0 WMA_MAX_TXPOWER_INVALID

def cfg_get_regulatory_max_transmit_power (pMac : Cfg) (channel : UInt8) (fuel : Nat) : Run :=
  match rf_band channel with
  | .eRF_BAND_2_4_GHZ =>
    cfg_get_dot11d_transmit_power pMac.mem pMac.max_tx_power_2_4 WNI_CFG_MAX_TX_POWER_2_4_LEN
      channel fuel
  | .eRF_BAND_5_GHZ =>
    cfg_get_dot11d_transmit_power pMac.mem pMac.max_tx_power_5 WNI_CFG_MAX_TX_POWER_5_LEN
      channel fuel
  | .eRF_BAND_UNKNOWN => .returned WMA_MAX_TXPOWER_INVALID

/-! ## What the lookup is for -/

def tuples : List UInt8 → List MacChanInfo
  | firstChannel :: maxChannels :: maxTxPwr :: rest =>
    ⟨firstChannel, maxChannels, maxTxPwr.toInt8⟩ :: tuples rest
  | _ => []

def band_string (pMac : Cfg) (channel : UInt8) : List UInt8 :=
  if rf_band channel = .eRF_BAND_5_GHZ then pMac.max_tx_power_5.str
  else pMac.max_tx_power_2_4.str

/-- The power of the first tuple with the channel, or the marker. -/
def power_of (channel : UInt8) (infos : List MacChanInfo) : Int8 :=
  match infos.find? (·.holds channel) with
  | some info => info.maxTxPower
  | none => WMA_MAX_TXPOWER_INVALID

def Returns (pMac : Cfg) (channel : UInt8) (maxTxPwr : Int8) : Prop :=
  ∃ enough, ∀ fuel, enough ≤ fuel →
    cfg_get_regulatory_max_transmit_power pMac channel fuel = .returned maxTxPwr

/-! ## What the scan returns -/

def walked (channel : UInt8) : List MacChanInfo → Int8 → Int8
  | [], maxTxPwr => maxTxPwr
  | info :: infos, _ =>
    if info.holds channel then info.maxTxPower else walked channel infos info.maxTxPower

variable (str : List UInt8)

theorem tuples_eq_nil_of_short (h : str.length < 3) : tuples str = [] := by
  match str, h with
  | [], _ => rfl
  | [_], _ => rfl
  | [_, _], _ => rfl

theorem toNat_ofNat_add (c k : Nat) (hc : c + k ≤ 128) :
    (UInt8.ofNat c + UInt8.ofNat k).toNat = c + k := by
  rw [UInt8.toNat_add, UInt8.toNat_ofNat', UInt8.toNat_ofNat']; omega

theorem more_iff (len c : Nat) (hl : 3 ≤ len) (hlen : len ≤ 128) (hc : c ≤ 128) :
    (UInt8.ofNat c).toUInt64 ≤ UInt64.ofNat len - UInt64.ofNat sizeof_MacChanInfo ↔
      c + 3 ≤ len := by
  have hsub : (UInt64.ofNat len - UInt64.ofNat sizeof_MacChanInfo).toNat = len - 3 := by
    rw [UInt64.toNat_sub, UInt64.toNat_ofNat', UInt64.toNat_ofNat', sizeof_MacChanInfo]; omega
  rw [UInt64.le_iff_toNat_le, hsub, UInt8.toNat_toUInt64, UInt8.toNat_ofNat']; omega

theorem read_tuple_eq (c : Nat) (hlen : str.length ≤ 128) (h : c + 3 ≤ str.length) :
    ∃ info, read_tuple str (UInt8.ofNat c) = some info ∧
      tuples (str.drop c) = info :: tuples (str.drop (c + 3)) := by
  have h0 : c < str.length := by omega
  have h1 : c + 1 < str.length := by omega
  have h2 : c + 2 < str.length := by omega
  have e1 := toNat_ofNat_add c 1 (by omega)
  have e2 := toNat_ofNat_add c 2 (by omega)
  have hdrop : str.drop c = str[c] :: str[c + 1] :: str[c + 2] :: str.drop (c + 3) := by
    rw [drop_eq_getElem_cons h0, drop_eq_getElem_cons h1, drop_eq_getElem_cons h2]
  refine ⟨⟨str[c], str[c + 1], (str[c + 2]).toInt8⟩, ?_, ?_⟩
  · have e0' : (UInt8.ofNat c).toNat = c := by rw [UInt8.toNat_ofNat']; omega
    have e1' : (UInt8.ofNat c + 1).toNat = c + 1 := e1
    have e2' : (UInt8.ofNat c + 2).toNat = c + 2 := e2
    rw [read_tuple, e0', e1', e2', getElem?_eq_getElem h0, getElem?_eq_getElem h1,
      getElem?_eq_getElem h2]
  · rw [hdrop, tuples]

theorem scan_eq (channel : UInt8) (hl : 3 ≤ str.length) (hlen : str.length ≤ 128) (fuel c : Nat)
    (maxTxPwr : Int8) (hc : c ≤ str.length) (hfuel : str.length < c + 3 * fuel) :
    scan str channel fuel (UInt8.ofNat c) maxTxPwr =
      .returned (walked channel (tuples (str.drop c)) maxTxPwr) := by
  induction fuel generalizing c maxTxPwr with
  | zero => omega
  | succ fuel ih =>
    rw [scan]
    by_cases hmore : c + 3 ≤ str.length
    · obtain ⟨info, hread, htuples⟩ := read_tuple_eq str c hlen hmore
      rw [if_pos ((more_iff str.length c hl hlen (by omega)).mpr hmore), hread, htuples]
      dsimp only
      rw [walked]
      by_cases hholds : info.holds channel = true
      · rw [if_pos hholds, if_pos hholds]
      · rw [if_neg hholds, if_neg hholds]
        have hnext : UInt8.ofNat c + 3 = UInt8.ofNat (c + 3) := by rw [UInt8.ofNat_add]; rfl
        rw [hnext]; exact ih (c + 3) info.maxTxPower hmore (by omega)
    · rw [if_neg (mt (more_iff str.length c hl hlen (by omega)).mp hmore),
        tuples_eq_nil_of_short (str.drop c) (by rw [length_drop]; omega), walked]

theorem scan_short (channel : UInt8) (h : str.length < 3) (fuel : Nat) (maxTxPwr : Int8) :
    scan str channel (fuel + 1) 0 maxTxPwr = .outside := by
  have hread : read_tuple str 0 = none := by
    match str, h with
    | [], _ => rfl
    | [_], _ => rfl
    | [_, _], _ => rfl
  have hmore : (0 : UInt8).toUInt64 ≤ UInt64.ofNat str.length - UInt64.ofNat sizeof_MacChanInfo :=
    UInt64.zero_le
  rw [scan, if_pos hmore, hread]

theorem walked_eq (channel : UInt8) (infos : List MacChanInfo) (maxTxPwr : Int8) :
    walked channel infos maxTxPwr =
      match infos.find? (·.holds channel) with
      | some info => info.maxTxPower
      | none => (infos.getLast?.map (·.maxTxPower)).getD maxTxPwr := by
  induction infos generalizing maxTxPwr with
  | nil => rfl
  | cons info infos ih =>
    rw [walked, find?_cons]
    by_cases hholds : info.holds channel = true
    · rw [if_pos hholds, hholds]
    · rw [if_neg hholds, ih info.maxTxPower, Bool.eq_false_iff.mpr hholds]
      cases infos with
      | nil => rfl
      | cons next rest => rfl

/-! ## The lookup -/

theorem band_string_length_le (pMac : Cfg) (channel : UInt8) :
    (band_string pMac channel).length ≤ 128 := by
  rw [band_string]
  split
  · exact pMac.max_tx_power_5.length_le
  · exact pMac.max_tx_power_2_4.length_le

theorem cfg_get_dot11d_transmit_power_eq {max_len : Nat} (mem : Bool) (cfg : CfgString max_len)
    (hmax : 3 ≤ max_len) (channel : UInt8) (fuel : Nat) :
    cfg_get_dot11d_transmit_power mem cfg max_len channel fuel =
      if mem = false then .returned WMA_MAX_TXPOWER_INVALID
      else scan cfg.str channel fuel 0 WMA_MAX_TXPOWER_INVALID := by
  have hlen : ¬max_len < sizeof_MacChanInfo := Nat.not_lt.mpr hmax
  have hget : wlan_cfg_get_str cfg max_len = some cfg.str :=
    if_neg (Nat.not_lt.mpr cfg.length_le)
  rw [cfg_get_dot11d_transmit_power, if_neg hlen, hget]

theorem cfg_get_regulatory_max_transmit_power_eq (pMac : Cfg) (channel : UInt8) (fuel : Nat) :
    cfg_get_regulatory_max_transmit_power pMac channel fuel =
      if pMac.mem = false then .returned WMA_MAX_TXPOWER_INVALID
      else scan (band_string pMac channel) channel fuel 0 WMA_MAX_TXPOWER_INVALID := by
  have h5 := cfg_get_dot11d_transmit_power_eq pMac.mem pMac.max_tx_power_5 (by decide) channel fuel
  have h24 :=
    cfg_get_dot11d_transmit_power_eq pMac.mem pMac.max_tx_power_2_4 (by decide) channel fuel
  rw [cfg_get_regulatory_max_transmit_power, band_string]
  by_cases hband : channel ≥ SIR_11A_CHANNEL_BEGIN ∧ channel ≤ SIR_11A_CHANNEL_END
  · rw [rf_band, if_pos hband]; exact h5
  · rw [rf_band, if_neg hband]; exact h24

/-- With memory to be had, the string must hold a tuple, and one with the channel, unless the last
one carries the marker; without, the lookup gives the marker. -/
def Sound (pMac : Cfg) (channel : UInt8) : Prop :=
  let infos := tuples (band_string pMac channel)
  if pMac.mem = true then
    3 ≤ (band_string pMac channel).length ∧
      ((∃ info ∈ infos, info.holds channel = true) ∨
        ∀ info, infos.getLast? = some info → info.maxTxPower = WMA_MAX_TXPOWER_INVALID)
  else
    ∀ info, infos.find? (·.holds channel) = some info → info.maxTxPower = WMA_MAX_TXPOWER_INVALID

theorem scan_all (channel : UInt8) (hl : 3 ≤ str.length) (hlen : str.length ≤ 128) (fuel : Nat)
    (hfuel : 43 ≤ fuel) :
    scan str channel fuel 0 WMA_MAX_TXPOWER_INVALID =
      .returned (walked channel (tuples str) WMA_MAX_TXPOWER_INVALID) :=
  scan_eq str channel hl hlen fuel 0 WMA_MAX_TXPOWER_INVALID (Nat.zero_le _) (by omega)

theorem walked_eq_power_of_iff (channel : UInt8) (infos : List MacChanInfo) :
    walked channel infos WMA_MAX_TXPOWER_INVALID = power_of channel infos ↔
      (∃ info ∈ infos, info.holds channel = true) ∨
        ∀ info, infos.getLast? = some info → info.maxTxPower = WMA_MAX_TXPOWER_INVALID := by
  rw [walked_eq, power_of]
  cases hfind : infos.find? (·.holds channel) with
  | some info =>
    have hin := mem_of_find?_eq_some hfind
    have hholds := find?_some hfind
    simp only [true_iff]
    exact Or.inl ⟨info, hin, hholds⟩
  | none =>
    have hnone : ¬∃ info ∈ infos, info.holds channel = true := by
      rintro ⟨info, hin, hholds⟩; exact find?_eq_none.mp hfind info hin hholds
    rw [or_iff_right hnone]
    cases infos.getLast? with
    | none => simp
    | some last => simp

/-- The lookup returns the power of the first tuple with the channel, or the marker where there is
none, exactly in these cases. -/
theorem returns_power_iff (pMac : Cfg) (channel : UInt8) :
    Returns pMac channel (power_of channel (tuples (band_string pMac channel))) ↔
      Sound pMac channel := by
  have hlen := band_string_length_le pMac channel
  rw [Returns, Sound]
  simp only [cfg_get_regulatory_max_transmit_power_eq]
  by_cases hmem : pMac.mem = true
  · simp only [hmem, if_true, Bool.true_eq_false, if_false]
    by_cases hl : 3 ≤ (band_string pMac channel).length
    · rw [and_iff_right hl, ← walked_eq_power_of_iff]
      constructor
      · rintro ⟨enough, hall⟩
        have hret := hall (enough + 43) (by omega)
        rw [scan_all _ channel hl hlen _ (by omega)] at hret; exact Run.returned.inj hret
      · intro heq
        refine ⟨43, fun fuel hfuel => ?_⟩
        rw [scan_all _ channel hl hlen fuel hfuel, heq]
    · constructor
      · rintro ⟨enough, hall⟩
        have hret := hall (enough + 1) (by omega)
        rw [scan_short _ channel (by omega)] at hret; contradiction
      · rintro ⟨hl', _⟩; exact absurd hl' hl
  · have hmem' : pMac.mem = false := by simpa using hmem
    simp only [hmem', if_true, Bool.false_eq_true, if_false, Run.returned.injEq]
    rw [power_of]
    cases hfind : (tuples (band_string pMac channel)).find? (·.holds channel) with
    | none => simp
    | some info =>
      simp only [Option.some.injEq, forall_eq']
      constructor
      · rintro ⟨enough, hall⟩; exact (hall enough (Nat.le_refl _)).symm
      · intro heq; exact ⟨0, fun _ _ => heq.symm⟩

/-- The strings the store is filled with: `0x1, 0xe, 0x14` and `0x24, 0x7e, 0x14`. -/
def static_cfg : Cfg :=
  ⟨⟨[0x1, 0xe, 0x14], by decide⟩, ⟨[0x24, 0x7e, 0x14], by decide⟩, true⟩

/-- Channel 165 is past the 126 channels from 36 on, and is given their power. -/
theorem static_cfg_165 :
    ¬Returns static_cfg 165 (power_of 165 (tuples (band_string static_cfg 165))) := by
  rintro ⟨enough, hall⟩
  have hret := hall (enough + 43) (by omega)
  exact absurd (Run.returned.inj hret) (by decide)

end Qcacld.CfgTxPower
