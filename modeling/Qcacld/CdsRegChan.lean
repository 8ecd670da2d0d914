/-
The channels of a regulatory domain and the choice of a bonded channel: `cds_reg_service.c`.

The flags come from the kernel; `NO_20MHZ` and the others are whether the bit is set. A lookup of a
channel that is not in the table, and a bonded channel that was never found, are `none`.

Both loops go down the widths until one has a state that allows it. So they find the first width of
`widths` for which a test holds, and `Outcome` says so by `find?`: `step_down_5g_run` is by
induction on the widths that are left. What is asked for is the first width that is `permitted`,
and the two tests are compared: `segment_permitted` is when the state of one segment is usable, but
`taken` also looks at the second segment for every width.
-/
import Qcacld.CdsConc

set_option autoImplicit false

namespace Qcacld.CdsRegChan

open CdsConc (ChWidth)

/-! ## The table -/

inductive ChannelState
  | DISABLE
  | DFS
  | ENABLE
  | INVALID
  deriving DecidableEq

def ChannelState.val : ChannelState → Nat
  | .DISABLE => 0
  | .DFS => 1
  | .ENABLE => 2
  | .INVALID => 3

/-- The state and the flags of a channel. No channel of the table is given the invalid state. -/
structure RegulatoryChannel where
  state : ChannelState
  NO_10MHZ : Bool
  NO_20MHZ : Bool
  NO_HT40 : Bool
  NO_80MHZ : Bool
  NO_160MHZ : Bool
  state_ne : state ≠ .INVALID

def chan_mapping : List Nat :=
  [1, 2, 3, 4, 5, 6, 7, 8, 9, 10, 11, 12, 13, 14,
   36, 40, 44, 48, 52, 56, 60, 64,
   100, 104, 108, 112, 116, 120, 124, 128, 132, 136, 140, 144,
   149, 153, 157, 161, 165,
   170, 171, 172, 173, 174, 175, 176, 177, 178, 179, 180, 181, 182, 183, 184]

abbrev RegChannels := Nat → RegulatoryChannel

def CDS_IS_CHANNEL_24GHZ (chan_num : Nat) : Bool := decide (1 ≤ chan_num ∧ chan_num ≤ 14)
def CDS_IS_CHANNEL_5GHZ (chan_num : Nat) : Bool := decide (36 ≤ chan_num ∧ chan_num ≤ 184)

def cds_get_channel_enum (chan_num : Nat) : Option Nat :=
  chan_mapping.findIdx? (fun n => decide (n = chan_num))

def cds_get_channel_state (reg_channels : RegChannels) (chan_num : Nat) : ChannelState :=
  match cds_get_channel_enum chan_num with
  | none => .INVALID
  | some chan_enum => (reg_channels chan_enum).state

/-! ## Bonded channels -/

structure BondedChan where
  start_ch : Nat
  end_ch : Nat

def bonded_chan_40mhz_array : List BondedChan :=
  [⟨36, 40⟩, ⟨44, 48⟩, ⟨52, 56⟩, ⟨60, 64⟩, ⟨100, 104⟩, ⟨108, 112⟩, ⟨116, 120⟩, ⟨124, 128⟩,
   ⟨132, 136⟩, ⟨140, 144⟩, ⟨149, 153⟩, ⟨157, 161⟩]

def bonded_chan_80mhz_array : List BondedChan :=
  [⟨36, 48⟩, ⟨52, 64⟩, ⟨100, 112⟩, ⟨116, 128⟩, ⟨132, 144⟩, ⟨149, 161⟩]

def bonded_chan_160mhz_array : List BondedChan := [⟨36, 64⟩, ⟨100, 128⟩]

def BondedChan.holds (b : BondedChan) (ch : Nat) : Bool :=
  decide (b.start_ch ≤ ch ∧ ch ≤ b.end_ch)

/-- The channels from `start_ch` on, in steps of four. -/
def BondedChan.chans (b : BondedChan) : List Nat :=
  (List.range ((b.end_ch - b.start_ch) / 4 + 1)).map fun i => b.start_ch + 4 * i

/-- `if (a < b) b = a`. -/
def lower (a b : ChannelState) : ChannelState := if a.val < b.val then a else b

/-- The bonded channel that is found, and the least of the states of its channels. -/
def cds_search_5g_bonded_chan_array (reg_channels : RegChannels) (oper_chan : Nat)
    (bonded_chan_ar : List BondedChan) : Option BondedChan × ChannelState :=
  match bonded_chan_ar.find? (·.holds oper_chan) with
  | none => (none, .INVALID)
  | some b =>
    (some b, b.chans.foldl (fun chan_state ch =>
      lower (cds_get_channel_state reg_channels ch) chan_state) .INVALID)

def cds_search_5g_bonded_channel (reg_channels : RegChannels) (chan_num : Nat) :
    ChWidth → Option BondedChan × ChannelState
  | .CH_WIDTH_80P80MHZ =>
    cds_search_5g_bonded_chan_array reg_channels chan_num bonded_chan_80mhz_array
  | .CH_WIDTH_160MHZ =>
    cds_search_5g_bonded_chan_array reg_channels chan_num bonded_chan_160mhz_array
  | .CH_WIDTH_80MHZ =>
    cds_search_5g_bonded_chan_array reg_channels chan_num bonded_chan_80mhz_array
  | .CH_WIDTH_40MHZ =>
    cds_search_5g_bonded_chan_array reg_channels chan_num bonded_chan_40mhz_array
  | _ => (none, cds_get_channel_state reg_channels chan_num)

/-- Whether the flags of a channel allow a width. -/
def bw_enabled (channel : RegulatoryChannel) : ChWidth → Bool
  | .CH_WIDTH_5MHZ => true
  | .CH_WIDTH_10MHZ => !channel.NO_10MHZ
  | .CH_WIDTH_20MHZ => !channel.NO_20MHZ
  | .CH_WIDTH_40MHZ => !channel.NO_HT40
  | .CH_WIDTH_80MHZ => !channel.NO_80MHZ
  | .CH_WIDTH_160MHZ => !channel.NO_160MHZ
  | .CH_WIDTH_80P80MHZ => !channel.NO_80MHZ
  | _ => false

/-- The state with the flags of the channel, which is looked up only if it is of use. -/
def with_flags (reg_channels : RegChannels) (chan_num : Nat) (ch_width : ChWidth)
    (chan_state : ChannelState) : Option ChannelState :=
  if chan_state = .INVALID ∨ chan_state = .DISABLE then some chan_state
  else
    match cds_get_channel_enum chan_num with
    | none => none
    | some chan_enum =>
      if bw_enabled (reg_channels chan_enum) ch_width then some chan_state else some .DISABLE

def ChWidth_val : ChWidth → Nat
  | .CH_WIDTH_20MHZ => 0
  | .CH_WIDTH_40MHZ => 1
  | .CH_WIDTH_80MHZ => 2
  | .CH_WIDTH_160MHZ => 3
  | .CH_WIDTH_80P80MHZ => 4
  | .CH_WIDTH_5MHZ => 5
  | .CH_WIDTH_10MHZ => 6
  | .CH_WIDTH_INVALID => 7
  | .CH_WIDTH_MAX => 8

def cds_get_2g_bonded_channel_state (reg_channels : RegChannels) (oper_ch : Nat)
    (ch_width : ChWidth) (sec_ch : Nat) : Option ChannelState :=
  if ChWidth_val .CH_WIDTH_40MHZ < ChWidth_val ch_width then some .INVALID
  else if ch_width = .CH_WIDTH_40MHZ ∧ (sec_ch + 4 ≠ oper_ch ∨ oper_ch + 4 ≠ sec_ch) then
    some .INVALID
  else
    let chan_state2 :=
      if ch_width = .CH_WIDTH_40MHZ then cds_get_channel_state reg_channels sec_ch else .INVALID
    if ch_width = .CH_WIDTH_40MHZ ∧ chan_state2 = .INVALID then some chan_state2
    else
      with_flags reg_channels oper_ch ch_width
        (lower chan_state2 (cds_get_channel_state reg_channels oper_ch))

def cds_get_5g_bonded_channel_state (reg_channels : RegChannels) (chan_num : Nat)
    (ch_width : ChWidth) : Option ChannelState :=
  if ChWidth_val .CH_WIDTH_80P80MHZ < ChWidth_val ch_width then some .INVALID
  else
    with_flags reg_channels chan_num ch_width
      (cds_search_5g_bonded_channel reg_channels chan_num ch_width).2

/-! ## The parameters of a channel -/

def PHY_SINGLE_CHANNEL_CENTERED : UInt8 := 0
def PHY_DOUBLE_CHANNEL_LOW_PRIMARY : UInt8 := 1
def PHY_DOUBLE_CHANNEL_HIGH_PRIMARY : UInt8 := 3

structure ChParams where
  ch_width : ChWidth
  sec_ch_offset : UInt8
  center_freq_seg0 : UInt8
  center_freq_seg1 : UInt8

/-- The table ends with 10 MHz; what is after it is not asked for. -/
def next_lower_bw : ChWidth → ChWidth
  | .CH_WIDTH_80P80MHZ => .CH_WIDTH_160MHZ
  | .CH_WIDTH_160MHZ => .CH_WIDTH_80MHZ
  | .CH_WIDTH_80MHZ => .CH_WIDTH_40MHZ
  | .CH_WIDTH_40MHZ => .CH_WIDTH_20MHZ
  | .CH_WIDTH_20MHZ => .CH_WIDTH_10MHZ
  | .CH_WIDTH_10MHZ => .CH_WIDTH_5MHZ
  | .CH_WIDTH_5MHZ => .CH_WIDTH_INVALID
  | .CH_WIDTH_INVALID => .CH_WIDTH_INVALID
  | .CH_WIDTH_MAX => .CH_WIDTH_INVALID

/-- How many widths there are from this one down. -/
def widths_left : ChWidth → Nat
  | .CH_WIDTH_MAX => 8
  | .CH_WIDTH_80P80MHZ => 7
  | .CH_WIDTH_160MHZ => 6
  | .CH_WIDTH_80MHZ => 5
  | .CH_WIDTH_40MHZ => 4
  | .CH_WIDTH_20MHZ => 3
  | .CH_WIDTH_10MHZ => 2
  | .CH_WIDTH_5MHZ => 1
  | .CH_WIDTH_INVALID => 0

theorem widths_left_next_lt {w : ChWidth} (h : w ≠ .CH_WIDTH_INVALID) :
    widths_left (next_lower_bw w) < widths_left w := by
  cases w with
  | CH_WIDTH_INVALID => exact absurd rfl h
  | _ => decide

/-- `ch_params->center_freq_seg1 - 2`, as an argument of 16 bits. -/
def second_chan (ch_params : ChParams) : Nat :=
  (ch_params.center_freq_seg1.toNat + (65536 - 2)) % 65536

/-- What is done with a width that is taken. -/
def take_5g_width (oper_ch : Nat) (ch_params : ChParams) (bonded_chan_ptr : Option BondedChan) :
    Option ChParams :=
  match bonded_chan_ptr with
  | none => none
  | some b =>
    let sec_ch_offset :=
      if ChWidth_val ch_params.ch_width ≤ ChWidth_val .CH_WIDTH_20MHZ then
        PHY_SINGLE_CHANNEL_CENTERED
      else if ch_params.ch_width = .CH_WIDTH_40MHZ then
        if oper_ch = b.start_ch then PHY_DOUBLE_CHANNEL_LOW_PRIMARY
        else PHY_DOUBLE_CHANNEL_HIGH_PRIMARY
      else ch_params.sec_ch_offset
    some { ch_params with
      sec_ch_offset := sec_ch_offset
      center_freq_seg0 := UInt8.ofNat ((b.start_ch + b.end_ch) / 2) }

/-- The loop. -/
def step_down_5g (reg_channels : RegChannels) (oper_ch : Nat) (ch_params : ChParams)
    (chan_state2 : ChannelState) (bonded_chan_ptr : Option BondedChan) : Option ChParams :=
  if _h : ch_params.ch_width = .CH_WIDTH_INVALID then some ch_params
  else
    let bonded_chan_ptr :=
      (cds_search_5g_bonded_channel reg_channels oper_ch ch_params.ch_width).1.or bonded_chan_ptr
    match cds_get_5g_bonded_channel_state reg_channels oper_ch ch_params.ch_width,
        (if ch_params.ch_width = .CH_WIDTH_80P80MHZ then
          cds_get_5g_bonded_channel_state reg_channels (second_chan ch_params) .CH_WIDTH_80MHZ
        else some chan_state2) with
    | some chan_state, some chan_state2 =>
      let chan_state := lower chan_state2 chan_state
      if chan_state = .ENABLE ∨ chan_state = .DFS then
        take_5g_width oper_ch ch_params bonded_chan_ptr
      else
        step_down_5g reg_channels oper_ch
          { ch_params with ch_width := next_lower_bw ch_params.ch_width } chan_state2
          bonded_chan_ptr
    | _, _ => none
termination_by widths_left ch_params.ch_width
decreasing_by exact widths_left_next_lt _h

def cds_set_5g_channel_params (reg_channels : RegChannels) (oper_ch : Nat)
    (ch_params : ChParams) : Option ChParams :=
  let ch_params :=
    if ChWidth_val ch_params.ch_width ≤ ChWidth_val .CH_WIDTH_MAX then
      { ch_params with ch_width := .CH_WIDTH_80P80MHZ }
    else ch_params
  step_down_5g reg_channels oper_ch ch_params .ENABLE none

/-- The loop of `cds_set_2g_channel_params`. -/
def step_down_2g (reg_channels : RegChannels) (oper_ch sec_ch_2g : Nat) (ch_params : ChParams) :
    Option ChParams :=
  if _h : ch_params.ch_width = .CH_WIDTH_INVALID then some ch_params
  else
    match cds_get_2g_bonded_channel_state reg_channels oper_ch ch_params.ch_width sec_ch_2g with
    | none => none
    | some chan_state =>
      if chan_state = .ENABLE then
        some { ch_params with
          sec_ch_offset :=
            if ch_params.ch_width = .CH_WIDTH_40MHZ then
              if oper_ch < sec_ch_2g then PHY_DOUBLE_CHANNEL_LOW_PRIMARY
              else PHY_DOUBLE_CHANNEL_HIGH_PRIMARY
            else PHY_SINGLE_CHANNEL_CENTERED }
      else
        step_down_2g reg_channels oper_ch sec_ch_2g
          { ch_params with ch_width := next_lower_bw ch_params.ch_width }
termination_by widths_left ch_params.ch_width
decreasing_by exact widths_left_next_lt _h

def cds_set_2g_channel_params (reg_channels : RegChannels) (oper_ch : Nat) (ch_params : ChParams)
    (sec_ch_2g : Nat) : Option ChParams :=
  let ch_params :=
    if ChWidth_val ch_params.ch_width ≤ ChWidth_val .CH_WIDTH_MAX then
      { ch_params with ch_width := .CH_WIDTH_80P80MHZ }
    else ch_params
  step_down_2g reg_channels oper_ch sec_ch_2g ch_params

def cds_set_channel_params (reg_channels : RegChannels) (oper_ch sec_ch_2g : Nat)
    (ch_params : ChParams) : Option ChParams :=
  if CDS_IS_CHANNEL_5GHZ oper_ch then cds_set_5g_channel_params reg_channels oper_ch ch_params
  else if CDS_IS_CHANNEL_24GHZ oper_ch then
    cds_set_2g_channel_params reg_channels oper_ch ch_params sec_ch_2g
  else some ch_params

open List

/-! Which channel is chosen: the width that is asked for is not looked at, and of the second segment
a state is kept that is in the way of all narrower widths. -/

/-- A channel of the table. -/
structure OperChannel where
  num : Nat
  mem : num ∈ chan_mapping

/-- The widths, each followed by its `next_lower_bw`. -/
def widths : List ChWidth :=
  [.CH_WIDTH_80P80MHZ, .CH_WIDTH_160MHZ, .CH_WIDTH_80MHZ, .CH_WIDTH_40MHZ, .CH_WIDTH_20MHZ,
    .CH_WIDTH_10MHZ, .CH_WIDTH_5MHZ]

/-- The widths from this one down. -/
def widths_from (ch_width : ChWidth) : List ChWidth :=
  widths.drop (7 - widths_left ch_width)

/-! ## The choice on 5 GHz -/

def usable (s : ChannelState) : Bool := decide (s = .ENABLE ∨ s = .DFS)

def bonded_ar : ChWidth → List BondedChan
  | .CH_WIDTH_80P80MHZ => bonded_chan_80mhz_array
  | .CH_WIDTH_160MHZ => bonded_chan_160mhz_array
  | .CH_WIDTH_80MHZ => bonded_chan_80mhz_array
  | .CH_WIDTH_40MHZ => bonded_chan_40mhz_array
  | _ => []

/-- The bonded channel of a width that a channel belongs to. -/
def bonded_of (ch : Nat) (w : ChWidth) : Option BondedChan := (bonded_ar w).find? (·.holds ch)

/-- The channels of the group around a channel; there is none if it is not in one of that width. -/
def group (ch : Nat) : ChWidth → List Nat
  | .CH_WIDTH_20MHZ => [ch]
  | .CH_WIDTH_10MHZ => [ch]
  | .CH_WIDTH_5MHZ => [ch]
  | w => (bonded_of ch w).elim [] BondedChan.chans

/-- All of the group can be used, and the flags of the channel allow the width. -/
def segment_permitted (rc : RegChannels) (ch : Nat) (w : ChWidth) : Bool :=
  match cds_get_channel_enum ch with
  | none => false
  | some chan_enum =>
    !(group ch w).isEmpty &&
      (group ch w).all (fun c => usable (cds_get_channel_state rc c)) &&
      bw_enabled (rc chan_enum) w

/-- For 80+80 MHz there is a second segment, that of `center_freq_seg1`. -/
def permitted_5g (rc : RegChannels) (oper_ch : Nat) (ch_params : ChParams) (w : ChWidth) : Bool :=
  segment_permitted rc oper_ch w &&
    (decide (w ≠ .CH_WIDTH_80P80MHZ) ||
      segment_permitted rc (second_chan ch_params) .CH_WIDTH_80MHZ)

/-- The width to be chosen: the first one that is permitted. -/
def widest_5g (rc : RegChannels) (oper_ch : Nat) (ch_params : ChParams) : ChWidth :=
  ((widths_from ch_params.ch_width).find?
    (permitted_5g rc oper_ch ch_params)).getD .CH_WIDTH_INVALID

/-- Which channel of its pair of 40 MHz the operating channel is. -/
def sec_ch_offset_5g (oper_ch : Nat) : ChWidth → UInt8
  | .CH_WIDTH_20MHZ => PHY_SINGLE_CHANNEL_CENTERED
  | .CH_WIDTH_10MHZ => PHY_SINGLE_CHANNEL_CENTERED
  | .CH_WIDTH_5MHZ => PHY_SINGLE_CHANNEL_CENTERED
  | _ => match bonded_of oper_ch .CH_WIDTH_40MHZ with
    | none => PHY_SINGLE_CHANNEL_CENTERED
    | some b =>
      if oper_ch = b.start_ch then PHY_DOUBLE_CHANNEL_LOW_PRIMARY
      else PHY_DOUBLE_CHANNEL_HIGH_PRIMARY

def center_5g (oper_ch : Nat) (w : ChWidth) : UInt8 :=
  match bonded_of oper_ch w with
  | none => UInt8.ofNat oper_ch
  | some b => UInt8.ofNat ((b.start_ch + b.end_ch) / 2)

/-- The parameters are those of width `w`; if there is none, the others do not matter. -/
def Describes (w : ChWidth) (sec_ch_offset center_freq_seg0 : UInt8) (out : ChParams) : Prop :=
  out.ch_width = w ∧
    (w ≠ .CH_WIDTH_INVALID →
      out.sec_ch_offset = sec_ch_offset ∧ out.center_freq_seg0 = center_freq_seg0)

/-! ## States -/

theorem usable_iff (s : ChannelState) : usable s = true ↔ s ≠ .DISABLE ∧ s ≠ .INVALID := by
  cases s <;> decide

theorem lower_eq_disable_iff (a b : ChannelState) :
    lower a b = .DISABLE ↔ a = .DISABLE ∨ b = .DISABLE := by
  cases a <;> cases b <;> decide

theorem lower_eq_invalid_iff (a b : ChannelState) :
    lower a b = .INVALID ↔ a = .INVALID ∧ b = .INVALID := by
  cases a <;> cases b <;> decide

theorem channel_enum_of_mem {ch : Nat} (h : ch ∈ chan_mapping) :
    ∃ e, cds_get_channel_enum ch = some e := by
  rw [cds_get_channel_enum, ← Option.isSome_iff_exists, findIdx?_isSome]
  exact any_eq_true.mpr ⟨ch, h, decide_eq_true rfl⟩

variable (rc : RegChannels)

theorem channel_state_ne_invalid {ch : Nat} (h : ch ∈ chan_mapping) :
    cds_get_channel_state rc ch ≠ .INVALID := by
  obtain ⟨e, he⟩ := channel_enum_of_mem h
  rw [cds_get_channel_state, he]; exact (rc e).state_ne

/-- The lowest state is disabled if one of the states is. -/
theorem foldl_lower_eq_disable_iff (l : List Nat) (s : ChannelState) :
    l.foldl (fun chan_state ch => lower (cds_get_channel_state rc ch) chan_state) s =
        .DISABLE ↔
      s = .DISABLE ∨ ∃ ch ∈ l, cds_get_channel_state rc ch = .DISABLE := by
  induction l generalizing s with
  | nil => simp
  | cons ch l ih =>
    rw [foldl_cons, ih, lower_eq_disable_iff]
    simp only [mem_cons, exists_eq_or_imp]
    tauto

/-- And it is invalid only if all of them are. -/
theorem foldl_lower_eq_invalid_iff (l : List Nat) (s : ChannelState) :
    l.foldl (fun chan_state ch => lower (cds_get_channel_state rc ch) chan_state) s =
        .INVALID ↔
      s = .INVALID ∧ ∀ ch ∈ l, cds_get_channel_state rc ch = .INVALID := by
  induction l generalizing s with
  | nil => simp
  | cons ch l ih =>
    rw [foldl_cons, ih, lower_eq_invalid_iff]
    simp only [forall_mem_cons]
    tauto

theorem bonded_chans_mem (w : ChWidth) :
    ∀ b ∈ bonded_ar w, b.chans ≠ [] ∧ ∀ ch ∈ b.chans, ch ∈ chan_mapping := by
  cases w <;> decide +kernel

theorem bonded_center_ne (w : ChWidth) :
    ∀ b ∈ bonded_ar w, ∀ ch ∈ chan_mapping, b.holds ch = true →
      UInt8.ofNat ((b.start_ch + b.end_ch) / 2) ≠ UInt8.ofNat ch := by
  cases w <;> decide +kernel

variable {w : ChWidth}

theorem bonded_of_spec {ch : Nat} {b : BondedChan} (h : bonded_of ch w = some b) :
    b ∈ bonded_ar w ∧ b.holds ch = true :=
  ⟨mem_of_find?_eq_some h, find?_some (p := fun b : BondedChan => b.holds ch) h⟩

/-- The state of a bonded channel is usable if all its channels are. -/
theorem bonded_state {b : BondedChan} (hb : b ∈ bonded_ar w) :
    let s := b.chans.foldl (fun chan_state ch =>
      lower (cds_get_channel_state rc ch) chan_state) .INVALID
    s ≠ .INVALID ∧ (s ≠ .DISABLE ↔
      b.chans.all (fun c => usable (cds_get_channel_state rc c)) = true) := by
  obtain ⟨hne, hmem⟩ := bonded_chans_mem w b hb
  have hinvalid : ∀ ch ∈ b.chans, cds_get_channel_state rc ch ≠ .INVALID :=
    fun ch hch => channel_state_ne_invalid rc (hmem ch hch)
  refine ⟨?_, ?_⟩
  · rw [Ne, foldl_lower_eq_invalid_iff]
    rintro ⟨_, hall⟩
    obtain ⟨ch, hch⟩ := exists_mem_of_ne_nil _ hne
    exact hinvalid ch hch (hall ch hch)
  · rw [Ne, foldl_lower_eq_disable_iff, all_eq_true]
    constructor
    · intro hno ch hch
      rw [usable_iff]; exact ⟨fun hdis => hno (Or.inr ⟨ch, hch, hdis⟩), hinvalid ch hch⟩
    · rintro hall (hdis | ⟨ch, hch, hdis⟩)
      · contradiction
      · exact ((usable_iff _).mp (hall ch hch)).1 hdis

/-! ## The state for a width -/

theorem with_flags_of_bad (ch : Nat) (w : ChWidth) {s : ChannelState} (h : usable s = false) :
    with_flags rc ch w s = some s := by
  refine if_pos ?_
  cases s with
  | INVALID => exact Or.inl rfl
  | DISABLE => exact Or.inr rfl
  | _ => contradiction

theorem with_flags_of_usable {ch e : Nat} (w : ChWidth) {s : ChannelState} (h : usable s = true)
    (he : cds_get_channel_enum ch = some e) :
    with_flags rc ch w s =
      if bw_enabled (rc e) w then some s else some .DISABLE := by
  have hnot : ¬(s = .INVALID ∨ s = .DISABLE) := by
    rintro (rfl | rfl) <;> contradiction
  rw [with_flags, if_neg hnot, he]

theorem group_eq (ch : Nat) (har : bonded_ar w ≠ []) :
    group ch w = (bonded_of ch w).elim [] BondedChan.chans := by
  cases w with
  | CH_WIDTH_40MHZ | CH_WIDTH_80MHZ | CH_WIDTH_160MHZ | CH_WIDTH_80P80MHZ => rfl
  | _ => exact absurd rfl har

theorem search_eq (ch : Nat) (har : bonded_ar w ≠ []) :
    cds_search_5g_bonded_channel rc ch w =
      cds_search_5g_bonded_chan_array rc ch (bonded_ar w) := by
  cases w with
  | CH_WIDTH_40MHZ | CH_WIDTH_80MHZ | CH_WIDTH_160MHZ | CH_WIDTH_80P80MHZ => rfl
  | _ => exact absurd rfl har

/-- The search finds a usable state exactly when the group around the channel is usable. -/
theorem search_usable_iff (ch : Nat) (hw : ChWidth_val w ≤ 4) :
    usable (cds_search_5g_bonded_channel rc ch w).2 = true ↔
      (group ch w).isEmpty = false ∧
        (group ch w).all (fun c => usable (cds_get_channel_state rc c)) = true := by
  by_cases har : bonded_ar w = []
  · cases w with
    | CH_WIDTH_20MHZ => simp [cds_search_5g_bonded_channel, group]
    | CH_WIDTH_40MHZ | CH_WIDTH_80MHZ | CH_WIDTH_160MHZ | CH_WIDTH_80P80MHZ => contradiction
    | _ => exact absurd hw (by decide)
  · rw [search_eq rc ch har, group_eq ch har, cds_search_5g_bonded_chan_array]
    cases hb : bonded_of ch w with
    | none =>
      rw [bonded_of] at hb
      rw [hb]; simp [usable]
    | some b =>
      have hmem := (bonded_of_spec hb).1
      obtain ⟨hne, hiff⟩ := bonded_state rc hmem
      rw [bonded_of] at hb
      rw [hb]
      dsimp only [Option.elim_some]
      rw [usable_iff, and_iff_left hne, hiff, and_iff_right]
      exact isEmpty_eq_false_iff.mpr (bonded_chans_mem w b hmem).1

/-- The state for a width is usable exactly when its segment is permitted. -/
theorem state_5g_usable_iff (ch : Nat) (hw : ChWidth_val w ≤ 4) {s : ChannelState}
    (h : cds_get_5g_bonded_channel_state rc ch w = some s) :
    usable s = true ↔ segment_permitted rc ch w = true := by
  have hval : ¬ChWidth_val .CH_WIDTH_80P80MHZ < ChWidth_val w := Nat.not_lt.mpr hw
  have hsearch := search_usable_iff rc ch hw
  rw [cds_get_5g_bonded_channel_state, if_neg hval] at h
  rw [segment_permitted]
  cases hu : usable (cds_search_5g_bonded_channel rc ch w).2 with
  | false =>
    rw [hu, Bool.false_eq_true, false_iff] at hsearch
    rw [with_flags_of_bad rc ch w hu] at h
    rw [← Option.some.inj h, hu]
    cases cds_get_channel_enum ch with
    | none => exact Iff.rfl
    | some e =>
      refine iff_of_false Bool.noConfusion fun hand => ?_
      simp only [Bool.and_eq_true, Bool.not_eq_true'] at hand
      exact hsearch hand.1
  | true =>
    obtain ⟨hempty, hall⟩ := hsearch.mp hu
    cases he : cds_get_channel_enum ch with
    | none =>
      have hnot : ¬((cds_search_5g_bonded_channel rc ch w).2 = .INVALID ∨
          (cds_search_5g_bonded_channel rc ch w).2 = .DISABLE) := by
        obtain ⟨hd, hi⟩ := (usable_iff _).mp hu
        exact not_or.mpr ⟨hi, hd⟩
      rw [with_flags, if_neg hnot, he] at h; contradiction
    | some e =>
      rw [with_flags_of_usable rc w hu he] at h
      dsimp only
      rw [hempty, hall, Bool.not_false, Bool.true_and, Bool.true_and]
      cases hbw : bw_enabled (rc e) w with
      | true => rw [hbw, if_pos rfl] at h; rw [← Option.some.inj h, hu]
      | false =>
        rw [hbw, if_neg Bool.noConfusion] at h
        rw [← Option.some.inj h]; exact Iff.rfl

/-- A channel of the table has a state for every width. -/
theorem state_5g_exists (oper : OperChannel) (w : ChWidth) :
    ∃ s, cds_get_5g_bonded_channel_state rc oper.num w = some s := by
  obtain ⟨e, he⟩ := channel_enum_of_mem oper.mem
  rw [cds_get_5g_bonded_channel_state]
  split
  · exact ⟨_, rfl⟩
  · rw [with_flags]
    split
    · exact ⟨_, rfl⟩
    · rw [he]
      dsimp only
      split
      · exact ⟨_, rfl⟩
      · exact ⟨_, rfl⟩

/-! ## The loop on 5 GHz -/

/-- The test of the loop, in which `s2` is the state of the second segment. -/
def taken (rc : RegChannels) (oper_ch : Nat) (s2 : ChannelState) (w : ChWidth) : Bool :=
  match cds_get_5g_bonded_channel_state rc oper_ch w with
  | none => false
  | some chan_state => usable (lower s2 chan_state)

/-- What is pointed to is a bonded channel that holds the operating channel. -/
def Around (oper_ch : Nat) (ptr : Option BondedChan) : Prop :=
  ∀ b, ptr = some b → ∃ w, b ∈ bonded_ar w ∧ b.holds oper_ch = true

theorem search_fst (ch : Nat) (w : ChWidth) :
    (cds_search_5g_bonded_channel rc ch w).1 = bonded_of ch w := by
  by_cases har : bonded_ar w = []
  · cases w with
    | CH_WIDTH_40MHZ | CH_WIDTH_80MHZ | CH_WIDTH_160MHZ | CH_WIDTH_80P80MHZ => contradiction
    | _ => rfl
  · rw [search_eq rc ch har, bonded_of, cds_search_5g_bonded_chan_array]
    cases (bonded_ar w).find? (·.holds ch) with
    | none => rfl
    | some b => rfl

theorem around_none (oper_ch : Nat) : Around oper_ch none := by intro b hb; contradiction

theorem around_or {oper_ch : Nat} {ptr : Option BondedChan} (h : Around oper_ch ptr) :
    Around oper_ch ((bonded_of oper_ch w).or ptr) := by
  intro b hb
  cases hw : bonded_of oper_ch w with
  | none => rw [hw, Option.none_or] at hb; exact h b hb
  | some b' => rw [hw, Option.some_or] at hb; exact ⟨w, Option.some.inj hb ▸ bonded_of_spec hw⟩

variable {ch_params : ChParams}

/-- **Step lemma** of the loop: a width is taken, or the next lower one is tried. -/
theorem step_down_5g_eq (oper : OperChannel) (s2 : ChannelState) {old : ChannelState}
    {ptr : Option BondedChan} (hne : ch_params.ch_width ≠ .CH_WIDTH_INVALID)
    (h2 : (if ch_params.ch_width = .CH_WIDTH_80P80MHZ then
      cds_get_5g_bonded_channel_state rc (second_chan ch_params) .CH_WIDTH_80MHZ
      else some old) = some s2) :
    step_down_5g rc oper.num ch_params old ptr =
      if taken rc oper.num s2 ch_params.ch_width = true then
        take_5g_width oper.num ch_params ((bonded_of oper.num ch_params.ch_width).or ptr)
      else
        step_down_5g rc oper.num { ch_params with ch_width := next_lower_bw ch_params.ch_width } s2
          ((bonded_of oper.num ch_params.ch_width).or ptr) := by
  obtain ⟨s, hs⟩ := state_5g_exists rc oper ch_params.ch_width
  rw [step_down_5g, dif_neg hne, h2, search_fst, taken, hs]
  dsimp only
  by_cases hu : lower s2 s = .ENABLE ∨ lower s2 s = .DFS
  · rw [if_pos hu, if_pos (by simpa [usable] using hu)]
  · rw [if_neg hu, if_neg (by simpa [usable] using hu)]

theorem widths_from_eq (h : w ≠ .CH_WIDTH_INVALID) (hmax : w ≠ .CH_WIDTH_MAX) :
    widths_from w = w :: widths_from (next_lower_bw w) ∧
      widths_left (next_lower_bw w) + 1 = widths_left w ∧ next_lower_bw w ≠ .CH_WIDTH_MAX ∧
      next_lower_bw w ≠ .CH_WIDTH_80P80MHZ := by
  cases w with
  | CH_WIDTH_INVALID => exact absurd rfl h
  | CH_WIDTH_MAX => exact absurd rfl hmax
  | _ => decide

/-- What the loop comes to: no width, or one whose own bonded channel it points to, if there is
one, and otherwise to one of a wider width. -/
def Outcome (rc : RegChannels) (oper_ch : Nat) (s2 : ChannelState)
    (ch_params : ChParams) (ws : List ChWidth) (result : Option ChParams) : Prop :=
  match ws.find? (taken rc oper_ch s2) with
  | none => result = some { ch_params with ch_width := .CH_WIDTH_INVALID }
  | some w =>
    ∃ ptr, Around oper_ch ptr ∧ (∀ b, bonded_of oper_ch w = some b → ptr = some b) ∧
      result = take_5g_width oper_ch { ch_params with ch_width := w } ptr

variable {s2 : ChannelState}

/-- One width more in front. -/
theorem outcome_cons {oper_ch : Nat} {ws : List ChWidth} {ptr : Option BondedChan}
    (hptr : Around oper_ch ptr) {result : Option ChParams}
    (hrest : Outcome rc oper_ch s2 ch_params ws result) :
    Outcome rc oper_ch s2 ch_params (w :: ws) (if taken rc oper_ch s2 w = true then
        take_5g_width oper_ch { ch_params with ch_width := w } ((bonded_of oper_ch w).or ptr)
      else result) := by
  rw [Outcome]
  by_cases htaken : taken rc oper_ch s2 w = true
  · rw [find?_cons_of_pos htaken, if_pos htaken]
    refine ⟨_, around_or hptr, fun b hb => ?_, rfl⟩
    rw [hb, Option.some_or]
  · rw [find?_cons_of_neg htaken, if_neg htaken]; exact hrest

/-- Below 80+80 MHz, the loop takes the first width it can. -/
theorem step_down_5g_run (oper : OperChannel) (s2 : ChannelState) (ch_params : ChParams)
    (n : Nat) (w : ChWidth) (ptr : Option BondedChan) (hn : widths_left w = n)
    (hmax : w ≠ .CH_WIDTH_MAX) (hw : w ≠ .CH_WIDTH_80P80MHZ) (hptr : Around oper.num ptr) :
    Outcome rc oper.num s2 ch_params (widths_from w)
      (step_down_5g rc oper.num { ch_params with ch_width := w } s2 ptr) := by
  induction n generalizing w ptr with
  | zero =>
    have hinvalid : w = .CH_WIDTH_INVALID := by
      cases w with
      | CH_WIDTH_INVALID => rfl
      | _ => exact absurd hn (by decide)
    rw [hinvalid, step_down_5g, dif_pos rfl]; exact rfl
  | succ n ih =>
    have hne : w ≠ .CH_WIDTH_INVALID := by rintro rfl; exact absurd hn.symm (Nat.succ_ne_zero n)
    obtain ⟨hfrom, hleft, hmax', hw'⟩ := widths_from_eq hne hmax
    rw [hfrom, step_down_5g_eq rc oper s2 hne (if_neg hw)]
    exact outcome_cons rc hptr (ih (next_lower_bw w) _ (by omega) hmax' hw' (around_or hptr))

theorem set_5g_run (oper : OperChannel) (ch_params : ChParams)
    (h2 : cds_get_5g_bonded_channel_state rc (second_chan ch_params) .CH_WIDTH_80MHZ = some s2) :
    Outcome rc oper.num s2 ch_params widths (cds_set_5g_channel_params rc oper.num ch_params) := by
  have hval : ChWidth_val ch_params.ch_width ≤ ChWidth_val .CH_WIDTH_MAX := by
    cases ch_params.ch_width <;> decide
  rw [cds_set_5g_channel_params, if_pos hval, step_down_5g_eq rc oper s2
    ChWidth.noConfusion (by rw [if_pos rfl]; exact h2)]
  exact outcome_cons rc (around_none oper.num)
    (step_down_5g_run rc oper s2 ch_params 6 .CH_WIDTH_160MHZ _ rfl
      ChWidth.noConfusion ChWidth.noConfusion (around_or (around_none oper.num)))

theorem set_5g_none (oper_ch : Nat) (ch_params : ChParams)
    (h2 : cds_get_5g_bonded_channel_state rc (second_chan ch_params) .CH_WIDTH_80MHZ = none) :
    cds_set_5g_channel_params rc oper_ch ch_params = none := by
  have hval : ChWidth_val ch_params.ch_width ≤ ChWidth_val .CH_WIDTH_MAX := by
    cases ch_params.ch_width <;> decide
  have hsecond : second_chan { ch_params with ch_width := .CH_WIDTH_80P80MHZ } =
      second_chan ch_params := rfl
  rw [cds_set_5g_channel_params, if_pos hval, step_down_5g,
    dif_neg ChWidth.noConfusion, if_pos rfl, hsecond, h2]
  cases cds_get_5g_bonded_channel_state rc oper_ch .CH_WIDTH_80P80MHZ with
  | none => rfl
  | some s => rfl

/-! ## When the choice on 5 GHz is right -/

/-- The widest permitted width, with its own offset and centre. -/
def Meets_5g (rc : RegChannels) (oper_ch : Nat) (ch_params out : ChParams) : Prop :=
  let w := widest_5g rc oper_ch ch_params
  Describes w (sec_ch_offset_5g oper_ch w) (center_5g oper_ch w) out

/-- No width wider than `w` passes the test. -/
def NoneWider (rc : RegChannels) (oper_ch : Nat) (s2 : ChannelState) (w : ChWidth) : Prop :=
  ∀ w' ∈ widths.takeWhile (fun v => decide (v ≠ w)),
    taken rc oper_ch s2 w' = false

/-- The second segment has a state, and: if a width is permitted, the widest one is of 40 MHz or
more, no wider one is taken, the second segment is not disabled, and what `sec_ch_offset` holds
already is right unless the width is 40 MHz; if none is permitted, none is taken. -/
def Sound_5g (rc : RegChannels) (oper_ch : Nat) (ch_params : ChParams) : Prop :=
  ∃ s2,
    cds_get_5g_bonded_channel_state rc (second_chan ch_params) .CH_WIDTH_80MHZ =
      some s2 ∧
    NoneWider rc oper_ch s2 (widest_5g rc oper_ch ch_params) ∧
    (widest_5g rc oper_ch ch_params ≠ .CH_WIDTH_INVALID →
      bonded_ar (widest_5g rc oper_ch ch_params) ≠ [] ∧ s2 ≠ .DISABLE ∧
        (widest_5g rc oper_ch ch_params ≠ .CH_WIDTH_40MHZ →
          ch_params.sec_ch_offset =
            sec_ch_offset_5g oper_ch (widest_5g rc oper_ch ch_params)))

theorem find?_eq_some_iff_before {α : Type} [DecidableEq α] (q : α → Bool) (l : List α) (a : α) :
    l.find? q = some a ↔
      a ∈ l ∧ q a = true ∧ ∀ b ∈ l.takeWhile (fun v => decide (v ≠ a)), q b = false := by
  induction l with
  | nil => simp
  | cons b l ih =>
    by_cases hba : b = a
    · subst hba
      cases hq : q b with
      | true => simp [hq]
      | false =>
        have hnot : l.find? q ≠ some b := by
          intro h
          exact absurd (find?_some h) (by rw [hq]; exact Bool.noConfusion)
        simp [hq, hnot]
    · have hne : a ≠ b := Ne.symm hba
      rw [takeWhile_cons_of_pos (by simpa using hba), forall_mem_cons]
      cases hq : q b with
      | true => simp [hq, hba]
      | false => simp [hq, ih, hne]

theorem widest_5g_permitted {rc : RegChannels} {oper_ch : Nat}
    (h : widest_5g rc oper_ch ch_params ≠ .CH_WIDTH_INVALID) :
    permitted_5g rc oper_ch ch_params (widest_5g rc oper_ch ch_params) = true ∧
      widest_5g rc oper_ch ch_params ∈ widths := by
  rw [widest_5g] at h ⊢
  cases hfind : (widths_from ch_params.ch_width).find? (permitted_5g rc oper_ch ch_params) with
  | none => rw [hfind] at h; exact absurd rfl h
  | some w => exact ⟨find?_some hfind, mem_of_mem_drop (mem_of_find?_eq_some hfind)⟩

theorem val_le_of_bonded (h : bonded_ar w ≠ []) : ChWidth_val w ≤ 4 := by
  cases w with
  | CH_WIDTH_40MHZ | CH_WIDTH_80MHZ | CH_WIDTH_160MHZ | CH_WIDTH_80P80MHZ => decide
  | _ => exact absurd rfl h

theorem bonded_of_permitted {rc : RegChannels} {ch : Nat} (har : bonded_ar w ≠ [])
    (h : segment_permitted rc ch w = true) : ∃ b, bonded_of ch w = some b := by
  rw [segment_permitted] at h
  cases he : cds_get_channel_enum ch with
  | none => rw [he] at h; contradiction
  | some e =>
    rw [he] at h
    simp only [Bool.and_eq_true, Bool.not_eq_true'] at h
    cases hb : bonded_of ch w with
    | some b => exact ⟨b, rfl⟩
    | none => rw [group_eq ch har, hb] at h; exact absurd h.1.1 Bool.noConfusion

/-- Unless the second segment is disabled, a permitted width of 40 MHz or more is taken. -/
theorem taken_of_permitted (oper : OperChannel) (har : bonded_ar w ≠ [])
    (h : segment_permitted rc oper.num w = true) (h2 : s2 ≠ .DISABLE) :
    taken rc oper.num s2 w = true := by
  obtain ⟨s, hs⟩ := state_5g_exists rc oper w
  have hu := (state_5g_usable_iff rc oper.num (val_le_of_bonded har) hs).mpr h
  obtain ⟨hd, hi⟩ := (usable_iff s).mp hu
  rw [taken, hs]
  rw [usable_iff, Ne, Ne, lower_eq_disable_iff, lower_eq_invalid_iff]
  exact ⟨not_or.mpr ⟨h2, hd⟩, fun hand => hi hand.2⟩

/-- A disabled second segment is in the way of every width. -/
theorem not_taken_of_disable (oper_ch : Nat) (w : ChWidth) :
    taken rc oper_ch .DISABLE w = false := by
  rw [taken]
  cases cds_get_5g_bonded_channel_state rc oper_ch w with
  | none => rfl
  | some s => cases s <;> rfl

theorem take_5g_width_eq (oper_ch : Nat) (ch_params : ChParams) (w : ChWidth) (b : BondedChan) :
    ∃ out, take_5g_width oper_ch { ch_params with ch_width := w } (some b) = some out ∧
      out.ch_width = w ∧ out.center_freq_seg0 = UInt8.ofNat ((b.start_ch + b.end_ch) / 2) ∧
      (bonded_ar w ≠ [] → w ≠ .CH_WIDTH_40MHZ → out.sec_ch_offset = ch_params.sec_ch_offset) ∧
      (w = .CH_WIDTH_40MHZ → out.sec_ch_offset =
        if oper_ch = b.start_ch then PHY_DOUBLE_CHANNEL_LOW_PRIMARY
        else PHY_DOUBLE_CHANNEL_HIGH_PRIMARY) := by
  refine ⟨_, rfl, rfl, rfl, fun har hne => ?_, fun h40 => ?_⟩
  · cases w with
    | CH_WIDTH_80MHZ | CH_WIDTH_160MHZ | CH_WIDTH_80P80MHZ => rfl
    | CH_WIDTH_40MHZ => exact absurd rfl hne
    | _ => exact absurd rfl har
  · subst h40; rfl

theorem ne_invalid_of_mem_widths (h : w ∈ widths) : w ≠ .CH_WIDTH_INVALID := by
  rintro rfl; exact absurd h (by decide)

/-- If the outcome is right, the parameters were sound: the width that was taken is the widest. -/
theorem sound_of_meets_5g (oper : OperChannel) (ch_params out : ChParams)
    (hout : cds_set_5g_channel_params rc oper.num ch_params = some out)
    (hmeets : Meets_5g rc oper.num ch_params out) : Sound_5g rc oper.num ch_params := by
  obtain ⟨hwidth, hdescribed⟩ := hmeets
  cases h2 : cds_get_5g_bonded_channel_state rc (second_chan ch_params) .CH_WIDTH_80MHZ with
  | none => rw [set_5g_none rc oper.num ch_params h2] at hout; contradiction
  | some s2 =>
    have hrun := set_5g_run rc oper ch_params h2
    rw [Outcome, hout] at hrun
    refine ⟨s2, h2, ?_⟩
    cases hf : widths.find? (taken rc oper.num s2) with
    | none =>
      rw [hf] at hrun
      have hinvalid : widest_5g rc oper.num ch_params = .CH_WIDTH_INVALID := by
        rw [← hwidth, Option.some.inj hrun]
      refine ⟨fun w hw => ?_, fun hne => absurd hinvalid hne⟩
      exact Bool.eq_false_iff.mpr (find?_eq_none.mp hf w (takeWhile_subset _ hw))
    | some w =>
      rw [hf] at hrun
      obtain ⟨ptr, haround, hown, htake⟩ := hrun
      obtain ⟨hmem, htaken, hbefore⟩ := (find?_eq_some_iff_before _ _ _).mp hf
      cases ptr with
      | none => exact absurd htake (Option.some_ne_none out)
      | some b =>
        obtain ⟨out', hout', hw', hseg, hsec, _⟩ :=
          take_5g_width_eq oper.num ch_params w b
        rw [hout'] at htake
        rw [Option.some.inj htake] at hwidth hdescribed
        have hW : widest_5g rc oper.num ch_params = w := hwidth.symm.trans hw'
        rw [hW] at hdescribed ⊢
        obtain ⟨hsec', hseg'⟩ := hdescribed (ne_invalid_of_mem_widths hmem)
        -- the centre that is left is that of a bonded channel, so the group is one
        have har : bonded_ar w ≠ [] := by
          intro hnil
          obtain ⟨v, hb, hholds⟩ := haround b rfl
          have hcenter : center_5g oper.num w = UInt8.ofNat oper.num := by
            rw [center_5g, bonded_of, hnil]; rfl
          exact bonded_center_ne v b hb oper.num oper.mem hholds
            (hseg.symm.trans (hseg'.trans hcenter))
        refine ⟨hbefore, fun _ => ⟨har, ?_, fun hne => ?_⟩⟩
        · rintro rfl
          rw [not_taken_of_disable] at htaken; exact absurd htaken Bool.noConfusion
        · rw [← hsec', hsec har hne]

/-- Conversely the widest permitted width is the first to be taken. -/
theorem meets_5g_of_sound (oper : OperChannel) (ch_params : ChParams)
    (h : Sound_5g rc oper.num ch_params) :
    ∃ out, cds_set_5g_channel_params rc oper.num ch_params = some out ∧
      Meets_5g rc oper.num ch_params out := by
  obtain ⟨s2, h2, hwider, hgood⟩ := h
  have hrun := set_5g_run rc oper ch_params h2
  rw [Outcome] at hrun
  by_cases hinvalid : widest_5g rc oper.num ch_params = .CH_WIDTH_INVALID
  · have hall : widths.takeWhile (fun v => decide (v ≠ .CH_WIDTH_INVALID)) = widths := rfl
    have hnone : widths.find? (taken rc oper.num s2) = none := by
      rw [NoneWider, hinvalid, hall] at hwider
      exact find?_eq_none.mpr fun w hw => Bool.eq_false_iff.mp (hwider w hw)
    rw [hnone] at hrun
    refine ⟨_, hrun, ?_⟩
    rw [Meets_5g, hinvalid]; exact ⟨rfl, fun hne => absurd rfl hne⟩
  · obtain ⟨hpermitted, hmem⟩ := widest_5g_permitted hinvalid
    obtain ⟨har, hs2, hsec⟩ := hgood hinvalid
    rw [permitted_5g, Bool.and_eq_true] at hpermitted
    generalize hW : widest_5g rc oper.num ch_params = w at *
    have hfind : widths.find? (taken rc oper.num s2) = some w :=
      (find?_eq_some_iff_before _ _ _).mpr
        ⟨hmem, taken_of_permitted rc oper har hpermitted.1 hs2, hwider⟩
    rw [hfind] at hrun
    obtain ⟨ptr, _, hown, htake⟩ := hrun
    obtain ⟨b, hb⟩ := bonded_of_permitted har hpermitted.1
    obtain ⟨out, hout, hw', hseg, hsec', hsec40⟩ := take_5g_width_eq oper.num ch_params w b
    rw [hown b hb, hout] at htake
    refine ⟨out, htake, ?_⟩
    rw [Meets_5g, hW]
    refine ⟨hw', fun _ => ⟨?_, ?_⟩⟩
    · by_cases h40 : w = .CH_WIDTH_40MHZ
      · have hoffset : sec_ch_offset_5g oper.num .CH_WIDTH_40MHZ =
            match bonded_of oper.num .CH_WIDTH_40MHZ with
            | none => PHY_SINGLE_CHANNEL_CENTERED
            | some b =>
              if oper.num = b.start_ch then PHY_DOUBLE_CHANNEL_LOW_PRIMARY
              else PHY_DOUBLE_CHANNEL_HIGH_PRIMARY := rfl
        rw [hsec40 h40, h40, hoffset, ← h40, hb]
      · rw [hsec' har h40, hsec h40]
    · rw [hseg, center_5g, hb]

/-! ## The choice on 2.4 GHz -/

def permitted_2g (rc : RegChannels) (oper_ch sec_ch : Nat) (w : ChWidth) : Bool :=
  match cds_get_channel_enum oper_ch with
  | none => false
  | some chan_enum =>
    decide (cds_get_channel_state rc oper_ch = .ENABLE) &&
      bw_enabled (rc chan_enum) w &&
      (match w with
      | .CH_WIDTH_40MHZ =>
        decide ((sec_ch = oper_ch + 4 ∨ oper_ch = sec_ch + 4) ∧
          CDS_IS_CHANNEL_24GHZ sec_ch = true ∧
          cds_get_channel_state rc sec_ch = .ENABLE)
      | .CH_WIDTH_20MHZ => true
      | .CH_WIDTH_10MHZ => true
      | .CH_WIDTH_5MHZ => true
      | _ => false)

def widest_2g (rc : RegChannels) (oper_ch sec_ch : Nat) (ch_params : ChParams) :
    ChWidth :=
  ((widths_from ch_params.ch_width).find?
    (permitted_2g rc oper_ch sec_ch)).getD .CH_WIDTH_INVALID

def sec_ch_offset_2g (oper_ch sec_ch : Nat) (w : ChWidth) : UInt8 :=
  if w = .CH_WIDTH_40MHZ then
    if oper_ch < sec_ch then PHY_DOUBLE_CHANNEL_LOW_PRIMARY else PHY_DOUBLE_CHANNEL_HIGH_PRIMARY
  else PHY_SINGLE_CHANNEL_CENTERED

def center_2g (oper_ch sec_ch : Nat) (w : ChWidth) : UInt8 :=
  if w = .CH_WIDTH_40MHZ then UInt8.ofNat ((oper_ch + sec_ch) / 2) else UInt8.ofNat oper_ch

/-- The same on 2.4 GHz. -/
def Meets_2g (rc : RegChannels) (oper_ch sec_ch : Nat) (ch_params out : ChParams) :
    Prop :=
  let w := widest_2g rc oper_ch sec_ch ch_params
  Describes w (sec_ch_offset_2g oper_ch sec_ch w) (center_2g oper_ch sec_ch w) out

/-- The widest width that is permitted is 20 MHz, and `center_freq_seg0` holds the channel already;
or none is permitted, also not 20 MHz where it is not asked for. -/
def Sound_2g (rc : RegChannels) (oper_ch sec_ch : Nat) (ch_params : ChParams) : Prop :=
  (widest_2g rc oper_ch sec_ch ch_params = .CH_WIDTH_20MHZ ∧
    ch_params.center_freq_seg0 = UInt8.ofNat oper_ch) ∨
  (widest_2g rc oper_ch sec_ch ch_params = .CH_WIDTH_INVALID ∧
    permitted_2g rc oper_ch sec_ch .CH_WIDTH_20MHZ = false)

theorem with_flags_enable {ch e : Nat} (w : ChWidth) (st : ChannelState)
    (he : cds_get_channel_enum ch = some e) :
    ∃ s, with_flags rc ch w st = some s ∧
      (s = .ENABLE ↔ st = .ENABLE ∧ bw_enabled (rc e) w = true) := by
  cases hu : usable st with
  | false =>
    refine ⟨_, with_flags_of_bad rc ch w hu, ?_⟩
    have hne : st ≠ .ENABLE := by rintro rfl; exact absurd hu (by decide)
    exact iff_of_false hne (fun hand => hne hand.1)
  | true =>
    rw [with_flags_of_usable rc w hu he]
    cases bw_enabled (rc e) w with
    | true => exact ⟨st, rfl, by simp⟩
    | false => exact ⟨.DISABLE, rfl, by simp⟩

/-- 20 MHz is the only width for which a state of 2.4 GHz is one of an enabled channel: the channels
cannot be four apart both ways, and 5 and 10 MHz count as wider than 40 MHz. -/
theorem state_2g_eq (oper : OperChannel) (sec_ch : Nat) (w : ChWidth) :
    ∃ s, cds_get_2g_bonded_channel_state rc oper.num w sec_ch = some s ∧
      (s = .ENABLE ↔ w = .CH_WIDTH_20MHZ ∧
        permitted_2g rc oper.num sec_ch .CH_WIDTH_20MHZ = true) := by
  have hinvalid : ∀ w, w ≠ .CH_WIDTH_20MHZ →
      cds_get_2g_bonded_channel_state rc oper.num w sec_ch = some .INVALID →
      ∃ s, cds_get_2g_bonded_channel_state rc oper.num w sec_ch = some s ∧
        (s = .ENABLE ↔ w = .CH_WIDTH_20MHZ ∧
          permitted_2g rc oper.num sec_ch .CH_WIDTH_20MHZ = true) := by
    intro w hw hs; exact ⟨_, hs, iff_of_false ChannelState.noConfusion (fun hand => hw hand.1)⟩
  cases w with
  | CH_WIDTH_20MHZ =>
    obtain ⟨e, he⟩ := channel_enum_of_mem oper.mem
    have hlower : lower .INVALID (cds_get_channel_state rc oper.num) =
        cds_get_channel_state rc oper.num := by
      cases cds_get_channel_state rc oper.num <;> rfl
    have hstate : cds_get_2g_bonded_channel_state rc oper.num .CH_WIDTH_20MHZ sec_ch =
        with_flags rc oper.num .CH_WIDTH_20MHZ
          (cds_get_channel_state rc oper.num) :=
      congrArg (with_flags rc oper.num .CH_WIDTH_20MHZ) hlower
    obtain ⟨s, hs, hiff⟩ := with_flags_enable rc .CH_WIDTH_20MHZ
      (cds_get_channel_state rc oper.num) he
    refine ⟨s, hstate.trans hs, hiff.trans ?_⟩
    rw [permitted_2g, he]; simp
  | CH_WIDTH_40MHZ =>
    have hsec : sec_ch + 4 ≠ oper.num ∨ oper.num + 4 ≠ sec_ch := by omega
    refine hinvalid _ ChWidth.noConfusion ?_
    rw [cds_get_2g_bonded_channel_state, if_neg (Nat.lt_irrefl _), if_pos ⟨rfl, hsec⟩]
  | _ => exact hinvalid _ ChWidth.noConfusion rfl

theorem step_down_2g_run (oper : OperChannel) (sec_ch : Nat) (ch_params : ChParams) (n : Nat)
    (w : ChWidth) (hn : widths_left w = n) (hmax : w ≠ .CH_WIDTH_MAX) :
    step_down_2g rc oper.num sec_ch { ch_params with ch_width := w } =
      if .CH_WIDTH_20MHZ ∈ widths_from w ∧
          permitted_2g rc oper.num sec_ch .CH_WIDTH_20MHZ = true then
        some { ch_params with
          ch_width := .CH_WIDTH_20MHZ
          sec_ch_offset := PHY_SINGLE_CHANNEL_CENTERED }
      else some { ch_params with ch_width := .CH_WIDTH_INVALID } := by
  induction n generalizing w with
  | zero =>
    have hinvalid : w = .CH_WIDTH_INVALID := by
      cases w with
      | CH_WIDTH_INVALID => rfl
      | _ => exact absurd hn (by decide)
    rw [hinvalid, step_down_2g, dif_pos rfl, if_neg (fun hand => absurd hand.1 (by decide))]
  | succ n ih =>
    have hne : w ≠ .CH_WIDTH_INVALID := by rintro rfl; exact absurd hn.symm (Nat.succ_ne_zero n)
    obtain ⟨hfrom, hleft, hmax', _⟩ := widths_from_eq hne hmax
    obtain ⟨s, hs, hiff⟩ := state_2g_eq rc oper sec_ch w
    rw [step_down_2g, dif_neg hne, hs]
    dsimp only
    by_cases hen : s = .ENABLE
    · obtain ⟨rfl, hpermitted⟩ := hiff.mp hen
      have h40 : ¬ChWidth.CH_WIDTH_20MHZ = .CH_WIDTH_40MHZ := ChWidth.noConfusion
      rw [if_pos hen, if_neg h40, if_pos ⟨by decide, hpermitted⟩]
    · rw [if_neg hen, ih (next_lower_bw w) (by omega) hmax', hfrom]
      refine if_congr ?_ rfl rfl
      rw [mem_cons, or_and_right, or_iff_right]
      rintro ⟨rfl, hpermitted⟩; exact hen (hiff.mpr ⟨rfl, hpermitted⟩)

/-- On 2.4 GHz the loop ends at 20 MHz or at none: a state of 40 MHz is never enabled. -/
theorem set_2g_eq (oper : OperChannel) (sec_ch : Nat) (ch_params : ChParams) :
    cds_set_2g_channel_params rc oper.num ch_params sec_ch =
      if permitted_2g rc oper.num sec_ch .CH_WIDTH_20MHZ = true then
        some { ch_params with
          ch_width := .CH_WIDTH_20MHZ
          sec_ch_offset := PHY_SINGLE_CHANNEL_CENTERED }
      else some { ch_params with ch_width := .CH_WIDTH_INVALID } := by
  have hval : ChWidth_val ch_params.ch_width ≤ ChWidth_val .CH_WIDTH_MAX := by
    cases ch_params.ch_width <;> decide
  rw [cds_set_2g_channel_params, if_pos hval,
    step_down_2g_run rc oper sec_ch ch_params 7 .CH_WIDTH_80P80MHZ rfl
      ChWidth.noConfusion]
  refine if_congr ?_ rfl rfl
  exact and_iff_right (by decide)

theorem widest_2g_permitted {rc : RegChannels} {oper_ch sec_ch : Nat}
    (hw : w ≠ .CH_WIDTH_INVALID) (h : widest_2g rc oper_ch sec_ch ch_params = w) :
    permitted_2g rc oper_ch sec_ch w = true := by
  rw [widest_2g] at h
  cases hfind : (widths_from ch_params.ch_width).find? (permitted_2g rc oper_ch sec_ch) with
  | none => rw [hfind] at h; exact absurd h.symm hw
  | some v => rw [hfind, Option.getD_some] at h; exact h ▸ find?_some hfind

/-- So what is right there is a width of 20 MHz, or none. -/
theorem meets_2g_iff (oper : OperChannel) (sec_ch : Nat) (ch_params : ChParams) :
    (∃ out, cds_set_2g_channel_params rc oper.num ch_params sec_ch = some out ∧
      Meets_2g rc oper.num sec_ch ch_params out) ↔
      Sound_2g rc oper.num sec_ch ch_params := by
  rw [set_2g_eq, Sound_2g]
  simp only [Meets_2g, Describes]
  by_cases h20 : permitted_2g rc oper.num sec_ch .CH_WIDTH_20MHZ = true
  · rw [if_pos h20]
    constructor
    · rintro ⟨out, hout, hwidth, hdescribed⟩
      rw [← Option.some.inj hout] at hwidth hdescribed
      rw [← hwidth] at hdescribed ⊢
      exact Or.inl ⟨rfl, (hdescribed ChWidth.noConfusion).2⟩
    · rintro (⟨hW, hcenter⟩ | ⟨_, hno⟩)
      · refine ⟨_, rfl, ?_⟩
        rw [hW]; exact ⟨rfl, fun _ => ⟨rfl, hcenter⟩⟩
      · exact absurd h20 (Bool.eq_false_iff.mp hno)
  · rw [if_neg h20]
    constructor
    · rintro ⟨out, hout, hwidth, _⟩
      rw [← Option.some.inj hout] at hwidth
      exact Or.inr ⟨hwidth.symm, Bool.eq_false_iff.mpr h20⟩
    · rintro (⟨hW, _⟩ | ⟨hW, _⟩)
      · exact absurd (widest_2g_permitted ChWidth.noConfusion hW) h20
      · refine ⟨_, rfl, ?_⟩
        rw [hW]; exact ⟨rfl, fun hne => absurd rfl hne⟩

/-! ## The choice -/

def Meets (rc : RegChannels) (oper_ch sec_ch : Nat) (ch_params out : ChParams) : Prop :=
  if CDS_IS_CHANNEL_5GHZ oper_ch = true then Meets_5g rc oper_ch ch_params out
  else Meets_2g rc oper_ch sec_ch ch_params out

def Sound (rc : RegChannels) (oper_ch sec_ch : Nat) (ch_params : ChParams) : Prop :=
  if CDS_IS_CHANNEL_5GHZ oper_ch = true then Sound_5g rc oper_ch ch_params
  else Sound_2g rc oper_ch sec_ch ch_params

theorem band_of_mem :
    ∀ ch ∈ chan_mapping, CDS_IS_CHANNEL_5GHZ ch = false → CDS_IS_CHANNEL_24GHZ ch = true := by
  decide +kernel

/-- The parameters are those of the widest permitted width exactly in these cases. -/
theorem params_right_iff (rc : RegChannels) (oper : OperChannel) (sec_ch_2g : Nat)
    (ch_params : ChParams) :
    (∃ out, cds_set_channel_params rc oper.num sec_ch_2g ch_params = some out ∧
      Meets rc oper.num sec_ch_2g ch_params out) ↔
      Sound rc oper.num sec_ch_2g ch_params := by
  rw [cds_set_channel_params, Sound]
  simp only [Meets]
  cases hband : CDS_IS_CHANNEL_5GHZ oper.num with
  | true =>
    constructor
    · rintro ⟨out, hout, hmeets⟩; exact sound_of_meets_5g rc oper ch_params out hout hmeets
    · exact meets_5g_of_sound rc oper ch_params
  | false =>
    simp only [Bool.false_eq_true, if_false, band_of_mem oper.num oper.mem hband, if_true]
    exact meets_2g_iff rc oper sec_ch_2g ch_params

def all_enabled : RegChannels := fun _ =>
  ⟨.ENABLE, false, false, false, false, false, ChannelState.noConfusion⟩

/-- 20 MHz on channel 36 becomes 80+80 MHz, with no second segment. -/
theorem all_enabled_36 :
    ¬∃ out, cds_set_channel_params all_enabled 36 0 ⟨.CH_WIDTH_20MHZ, 0, 0, 0⟩ = some out ∧
      Meets all_enabled 36 0 ⟨.CH_WIDTH_20MHZ, 0, 0, 0⟩ out := by
  rintro ⟨out, hout, hmeets⟩
  have hset : cds_set_5g_channel_params all_enabled 36 ⟨.CH_WIDTH_20MHZ, 0, 0, 0⟩ = some out := hout
  have hwidth : out.ch_width = widest_5g all_enabled 36 ⟨.CH_WIDTH_20MHZ, 0, 0, 0⟩ := hmeets.1
  have hwidest : widest_5g all_enabled 36 ⟨.CH_WIDTH_20MHZ, 0, 0, 0⟩ = .CH_WIDTH_20MHZ := by
    decide +kernel
  have hsecond : cds_get_5g_bonded_channel_state all_enabled
      (second_chan ⟨.CH_WIDTH_20MHZ, 0, 0, 0⟩) .CH_WIDTH_80MHZ = some .INVALID := by decide +kernel
  have hrun := set_5g_run all_enabled ⟨36, by decide⟩ ⟨.CH_WIDTH_20MHZ, 0, 0, 0⟩ hsecond
  have hfind : widths.find? (taken all_enabled 36 .INVALID) = some .CH_WIDTH_80P80MHZ := by
    decide +kernel
  rw [Outcome, hfind, hset] at hrun
  obtain ⟨ptr, _, _, htake⟩ := hrun
  cases ptr with
  | none => exact absurd htake (Option.some_ne_none out)
  | some b =>
    obtain ⟨out', hout', hw', _⟩ :=
      take_5g_width_eq 36 ⟨.CH_WIDTH_20MHZ, 0, 0, 0⟩ .CH_WIDTH_80P80MHZ b
    rw [hout'] at htake
    rw [Option.some.inj htake, hw', hwidest] at hwidth; exact ChWidth.noConfusion hwidth

end Qcacld.CdsRegChan
