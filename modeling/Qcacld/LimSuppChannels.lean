/-
The supported channels of an association request: the element as `dot11f_unpack_ie_supp_channels`
and `convert_supp_channels` take it from the frame, and `lim_convert_supported_channels` in
`lim_process_assoc_req_frame.c`.

An element of 96 bytes is turned away unread, whatever it stands for. A read past the declared
length and a write past the end of the list are `none` here.
-/
import Mathlib.Data.UInt

set_option autoImplicit false

namespace Qcacld.LimSuppChannels

open List

def SIR_MAX_SUPPORTED_CHANNEL_LIST : Nat := 96

def SIR_11A_CHANNEL_BEGIN : UInt8 := 34
def SIR_11A_CHANNEL_END : UInt8 := 165
def SIR_11B_CHANNEL_BEGIN : UInt8 := 1
def SIR_11B_CHANNEL_END : UInt8 := 14
def SIR_11A_FREQUENCY_OFFSET : UInt8 := 4
def SIR_11B_FREQUENCY_OFFSET : UInt8 := 1

def DOT11F_PARSE_SUCCESS : UInt32 := 0x0
def DOT11F_SKIPPED_BAD_IE : UInt32 := 0x8
def DOT11F_DUPLICATE_IE : UInt32 := 0x20

/-! ## The element -/

/-- `tDot11fIESuppChannels`; `bands` are its 96 bytes. -/
structure IESuppChannels where
  present : Bool
  num_bands : UInt8
  bands : List UInt8

def dot11f_unpack_ie_supp_channels (pBuf : List UInt8) (pDst : IESuppChannels) :
    IESuppChannels × UInt32 :=
  let num_bands := UInt8.ofNat (pBuf.length / 2)
  if pBuf.length > 48 * 2 then
    ({ pDst with present := false, num_bands := num_bands }, DOT11F_SKIPPED_BAD_IE)
  else
    (⟨true, num_bands, pBuf ++ pDst.bands.drop pBuf.length⟩,
      if pDst.present = true then DOT11F_DUPLICATE_IE else DOT11F_PARSE_SUCCESS)

/-- `tSirMacSupportedChannelIE`, of whose channels only those within `length` are held. -/
structure MacSupportedChannelIE where
  type : UInt8
  length : UInt8
  supportedChannels : List UInt8

def convert_supp_channels (pNew : IESuppChannels) : MacSupportedChannelIE :=
  ⟨36, pNew.num_bands * 2, pNew.bands.take (pNew.num_bands * 2).toNat⟩

/-! ## The expansion -/

inductive RFBand where
  | SIR_BAND_UNKNOWN
  | SIR_BAND_2_4_GHZ
  | SIR_BAND_5_GHZ

def lim_get_rf_band (channel : UInt8) : RFBand :=
  if channel ≥ SIR_11A_CHANNEL_BEGIN ∧ channel ≤ SIR_11A_CHANNEL_END then .SIR_BAND_5_GHZ
  else if channel ≥ SIR_11B_CHANNEL_BEGIN ∧ channel ≤ SIR_11B_CHANNEL_END then .SIR_BAND_2_4_GHZ
  else .SIR_BAND_UNKNOWN

/-- The step from one channel to the next. -/
def channel_offset (first_ch_no : UInt8) : Option UInt8 :=
  match lim_get_rf_band first_ch_no with
  | .SIR_BAND_5_GHZ => some SIR_11A_FREQUENCY_OFFSET
  | .SIR_BAND_2_4_GHZ => some SIR_11B_FREQUENCY_OFFSET
  | .SIR_BAND_UNKNOWN => none

structure SupChnl where
  numChnl : UInt8
  channelList : List UInt8
  length_eq : channelList.length = SIR_MAX_SUPPORTED_CHANNEL_LIST

structure Out where
  channelList : List UInt8
  index : Nat

def put (out : Out) (ch : UInt8) : Option Out :=
  if out.index < out.channelList.length then
    some ⟨out.channelList.set out.index ch, out.index + 1⟩
  else none

def subband (channel_offset : UInt8) : Nat → UInt8 → Out → Option Out
  | 0, _, out => some out
  | n + 1, next_ch_no, out =>
    match put out (next_ch_no + channel_offset) with
    | none => none
    | some out =>
      if out.index ≥ SIR_MAX_SUPPORTED_CHANNEL_LIST then some out
      else subband channel_offset n (next_ch_no + channel_offset) out

def subbands : List UInt8 → Out → Option Out
  | [], out => some out
  | [_], _ => none
  | first_ch_no :: chn_count :: rest, out =>
    match put out first_ch_no with
    | none => none
    | some out =>
      if out.index ≥ SIR_MAX_SUPPORTED_CHANNEL_LIST then some out
      else if chn_count ≤ 1 then subbands rest out
      else
        match channel_offset first_ch_no with
        | none => subbands rest out
        | some offset =>
          match subband offset (chn_count.toNat - 1) first_ch_no out with
          | none => none
          | some out =>
            if out.index ≥ SIR_MAX_SUPPORTED_CHANNEL_LIST then some out
            else subbands rest out

/-- `numChnl` and the list after the function. -/
def lim_convert_supported_channels (assoc_ind : SupChnl) (assoc_req : MacSupportedChannelIE) :
    Option (UInt8 × List UInt8) :=
  if assoc_req.length.toNat ≥ SIR_MAX_SUPPORTED_CHANNEL_LIST then
    some (0, assoc_ind.channelList)
  else
    match subbands assoc_req.supportedChannels ⟨assoc_ind.channelList, 0⟩ with
    | none => none
    | some out =>
      if out.index ≥ SIR_MAX_SUPPORTED_CHANNEL_LIST then some (0, out.channelList)
      else some (UInt8.ofNat out.index, out.channelList)

/-! ## What is written -/

/-- The list begins with `chs`, and this is all that has been written. -/
structure Holds (out : Out) (chs : List UInt8) : Prop where
  length_eq : out.channelList.length = SIR_MAX_SUPPORTED_CHANNEL_LIST
  index_eq : out.index = chs.length
  index_le : chs.length ≤ SIR_MAX_SUPPORTED_CHANNEL_LIST
  take_eq : out.channelList.take chs.length = chs

def fit (chs : List UInt8) : List UInt8 := chs.take SIR_MAX_SUPPORTED_CHANNEL_LIST

variable {out : Out} {chs : List UInt8}

theorem fit_of_lt (h : chs.length ≤ SIR_MAX_SUPPORTED_CHANNEL_LIST) : fit chs = chs :=
  take_of_length_le h

theorem fit_append (chs more : List UInt8) (h : SIR_MAX_SUPPORTED_CHANNEL_LIST ≤ chs.length) :
    fit (chs ++ more) = fit chs :=
  take_append_of_le_length h

theorem fit_fit_append (chs more : List UInt8) : fit (fit chs ++ more) = fit (chs ++ more) := by
  by_cases h : chs.length ≤ SIR_MAX_SUPPORTED_CHANNEL_LIST
  · rw [fit_of_lt h]
  · have hle : SIR_MAX_SUPPORTED_CHANNEL_LIST ≤ chs.length := Nat.le_of_not_le h
    have hlen : (fit chs).length = SIR_MAX_SUPPORTED_CHANNEL_LIST := by
      unfold fit
      rw [length_take, Nat.min_eq_left hle]
    rw [fit_append chs more hle, fit_append (fit chs) more (Nat.le_of_eq hlen.symm),
      fit_of_lt (Nat.le_of_eq hlen)]

theorem Holds.full (h : Holds out chs) (hfull : out.index ≥ SIR_MAX_SUPPORTED_CHANNEL_LIST)
    (more : List UInt8) : Holds out (fit (chs ++ more)) := by
  rw [h.index_eq] at hfull
  rw [fit_append chs more hfull, fit_of_lt h.index_le]; exact h

theorem put_spec (h : Holds out chs) (hroom : out.index < SIR_MAX_SUPPORTED_CHANNEL_LIST)
    (ch : UInt8) : ∃ out', put out ch = some out' ∧ Holds out' (chs ++ [ch]) := by
  have hlt : out.index < out.channelList.length := h.length_eq ▸ hroom
  have hlen : (chs ++ [ch]).length = out.index + 1 := by
    rw [length_append, length_singleton, h.index_eq]
  refine ⟨_, if_pos hlt, ?_, hlen.symm, ?_, ?_⟩
  · rw [length_set]; exact h.length_eq
  · rw [hlen]; exact hroom
  · have htake := h.take_eq
    rw [← h.index_eq] at htake
    rw [hlen, take_succ_eq_append_getElem (by rwa [length_set]), getElem_set_self,
      take_set_of_le (Nat.le_refl _), htake]

def nextChannels (offset : UInt8) : Nat → UInt8 → List UInt8
  | 0, _ => []
  | n + 1, next_ch_no => (next_ch_no + offset) :: nextChannels offset n (next_ch_no + offset)

theorem subband_spec (offset : UInt8) (n : Nat) (next_ch_no : UInt8) (h : Holds out chs)
    (hroom : out.index < SIR_MAX_SUPPORTED_CHANNEL_LIST) :
    ∃ out', subband offset n next_ch_no out = some out' ∧
      Holds out' (fit (chs ++ nextChannels offset n next_ch_no)) := by
  induction n generalizing out chs next_ch_no with
  | zero =>
    refine ⟨out, rfl, ?_⟩
    rw [show nextChannels offset 0 next_ch_no = [] from rfl, append_nil, fit_of_lt h.index_le]
    exact h
  | succ n ih =>
    obtain ⟨out₁, hput, h₁⟩ := put_spec h hroom (next_ch_no + offset)
    unfold subband nextChannels
    rw [hput, append_cons]
    dsimp only
    split
    · rename_i hfull; exact ⟨out₁, rfl, h₁.full hfull _⟩
    · rename_i hroom₁; exact ih _ h₁ (Nat.lt_of_not_le hroom₁)

def channels (first_ch_no chn_count : UInt8) : List UInt8 :=
  match channel_offset first_ch_no with
  | none => [first_ch_no]
  | some offset => first_ch_no :: nextChannels offset (chn_count.toNat - 1) first_ch_no

/-- The channels of an element; a last byte without a count does not belong to one. -/
def expansion : List UInt8 → List UInt8
  | first_ch_no :: chn_count :: rest => channels first_ch_no chn_count ++ expansion rest
  | _ => []

theorem channels_of_le_one {first_ch_no chn_count : UInt8} (h : chn_count ≤ 1) :
    channels first_ch_no chn_count = [first_ch_no] := by
  have hzero : chn_count.toNat - 1 = 0 := Nat.sub_eq_zero_of_le (UInt8.le_iff_toNat_le.mp h)
  unfold channels
  rw [hzero]
  split <;> rfl

theorem subbands_spec (bytes : List UInt8) (heven : bytes.length % 2 = 0) (h : Holds out chs)
    (hroom : out.index < SIR_MAX_SUPPORTED_CHANNEL_LIST) :
    ∃ out', subbands bytes out = some out' ∧ Holds out' (fit (chs ++ expansion bytes)) := by
  induction bytes using expansion.induct generalizing out chs with
  | case1 first_ch_no chn_count rest ih =>
    have heven' : rest.length % 2 = 0 := by rw [length_cons, length_cons] at heven; omega
    obtain ⟨out₁, hput, h₁⟩ := put_spec h hroom first_ch_no
    unfold subbands expansion
    rw [hput]
    dsimp only
    split
    · -- the first channel has filled the list
      rename_i hfull
      refine ⟨out₁, rfl, ?_⟩
      have hcons : ∃ more, channels first_ch_no chn_count = first_ch_no :: more := by
        unfold channels
        split
        · exact ⟨_, rfl⟩
        · exact ⟨_, rfl⟩
      obtain ⟨more, hmore⟩ := hcons
      rw [hmore, cons_append, append_cons]; exact h₁.full hfull _
    · rename_i hroom₁
      have hroom₁ := Nat.lt_of_not_le hroom₁
      split
      · rename_i hone
        rw [channels_of_le_one hone, singleton_append, append_cons]; exact ih heven' h₁ hroom₁
      · unfold channels
        split
        · rw [singleton_append, append_cons]; exact ih heven' h₁ hroom₁
        · rename_i offset _
          obtain ⟨out₂, hband, h₂⟩ :=
            subband_spec offset (chn_count.toNat - 1) first_ch_no h₁ hroom₁
          rw [hband, cons_append, append_cons, ← append_assoc]
          dsimp only
          split
          · rename_i hfull
            refine ⟨out₂, rfl, ?_⟩
            rw [← fit_fit_append]; exact h₂.full hfull _
          · rename_i hroom₂
            rw [← fit_fit_append]; exact ih heven' h₂ (Nat.lt_of_not_le hroom₂)
  | case2 bytes hshort =>
    have hnil : bytes = [] := by
      match bytes with
      | [] => rfl
      | [_] => cases heven
      | first_ch_no :: chn_count :: rest => exact absurd rfl (hshort first_ch_no chn_count rest)
    subst hnil
    refine ⟨out, rfl, ?_⟩
    rw [show expansion [] = [] from rfl, append_nil, fit_of_lt h.index_le]; exact h

/-! ## The channels of a subband -/

/-- `first`, `first + step`, and so on; channel numbers have 8 bits. -/
def run (first_ch_no chn_count step : UInt8) : List UInt8 :=
  (range chn_count.toNat).map fun k => UInt8.ofNat (first_ch_no.toNat + k * step.toNat)

theorem nextChannels_eq (offset : UInt8) (n : Nat) (next_ch_no : UInt8) :
    nextChannels offset n next_ch_no =
      (range n).map fun k => UInt8.ofNat (next_ch_no.toNat + (k + 1) * offset.toNat) := by
  induction n generalizing next_ch_no with
  | zero => rfl
  | succ n ih =>
    unfold nextChannels
    rw [ih, range_succ_eq_map, map_cons, map_map]
    congr 1
    · rw [Nat.zero_add, Nat.one_mul, UInt8.ofNat_add, UInt8.ofNat_toNat, UInt8.ofNat_toNat]
    · apply map_congr_left
      intro k _
      rw [Function.comp_apply, Nat.succ_eq_add_one, Nat.succ_mul (k + 1), Nat.add_comm (_ * _),
        ← Nat.add_assoc, UInt8.ofNat_add, UInt8.ofNat_add (_ + _), UInt8.ofNat_add,
        UInt8.ofNat_toNat, UInt8.ofNat_toNat, UInt8.ofNat_toNat]

theorem channels_eq {first_ch_no chn_count step : UInt8} (hcount : 1 ≤ chn_count)
    (hstep : channel_offset first_ch_no = some step) :
    channels first_ch_no chn_count = run first_ch_no chn_count step := by
  have hpos : 1 ≤ chn_count.toNat := UInt8.le_iff_toNat_le.mp hcount
  obtain ⟨n, hn⟩ := Nat.exists_eq_add_of_le' hpos
  unfold channels run
  rw [hstep, hn]
  dsimp only
  rw [nextChannels_eq, Nat.add_sub_cancel, range_succ_eq_map, map_cons, map_map,
    Nat.zero_mul, Nat.add_zero, UInt8.ofNat_toNat]
  rfl

/-- A subband: its first channel, the number of its channels and the step between them. -/
structure Subband where
  first_ch_no : UInt8
  chn_count : UInt8
  step : UInt8
  count_pos : 1 ≤ chn_count
  known : channel_offset first_ch_no = some step

def Subband.bytes (s : Subband) : List UInt8 := [s.first_ch_no, s.chn_count]

def Subband.run (s : Subband) : List UInt8 :=
  LimSuppChannels.run s.first_ch_no s.chn_count s.step

theorem length_flatMap_bytes (subs : List Subband) :
    (subs.flatMap Subband.bytes).length = 2 * subs.length := by
  induction subs with
  | nil => rfl
  | cons s subs ih =>
    rw [flatMap_cons, length_append, ih, length_cons, Nat.mul_succ, Nat.add_comm]; rfl

theorem expansion_bytes (subs : List Subband) :
    expansion (subs.flatMap Subband.bytes) = subs.flatMap Subband.run := by
  induction subs with
  | nil => rfl
  | cons s subs ih =>
    rw [flatMap_cons, flatMap_cons, ← ih]
    show channels s.first_ch_no s.chn_count ++ _ = _
    rw [channels_eq s.count_pos s.known]; rfl

theorem length_run (subs : List Subband) :
    (subs.flatMap Subband.run).length = (subs.map fun s => s.chn_count.toNat).sum := by
  induction subs with
  | nil => rfl
  | cons s subs ih =>
    rw [flatMap_cons, length_append, ih, map_cons, sum_cons]
    unfold Subband.run LimSuppChannels.run
    rw [length_map, length_range]

/-! ## The function on what the parser accepts -/

theorem convert_unpack {pDst : IESuppChannels} {ie : List UInt8}
    (h : (dot11f_unpack_ie_supp_channels ie pDst).1.present = true) :
    let req := convert_supp_channels (dot11f_unpack_ie_supp_channels ie pDst).1
    ie.length ≤ SIR_MAX_SUPPORTED_CHANNEL_LIST ∧ req.length.toNat = 2 * (ie.length / 2) ∧
      req.supportedChannels = ie.take (2 * (ie.length / 2)) := by
  unfold dot11f_unpack_ie_supp_channels at h ⊢
  by_cases hlong : ie.length > 48 * 2
  · rw [if_pos hlong] at h; cases h
  · rw [if_neg hlong]
    have hlen : (UInt8.ofNat (ie.length / 2) * 2).toNat = 2 * (ie.length / 2) := by
      show ie.length / 2 % 2 ^ 8 * 2 % 2 ^ 8 = _
      omega
    refine ⟨Nat.le_of_not_lt hlong, hlen, ?_⟩
    unfold convert_supp_channels
    rw [hlen]
    apply take_append_of_le_length
    omega

/-- **What the function makes** of an element of fewer than 96 bytes. -/
theorem lim_convert_supported_channels_spec (ind : SupChnl) {req : MacSupportedChannelIE}
    (hlen : req.length.toNat < SIR_MAX_SUPPORTED_CHANNEL_LIST)
    (heven : req.supportedChannels.length % 2 = 0) :
    ∃ numChnl list, lim_convert_supported_channels ind req = some (numChnl, list) ∧
      list.length = SIR_MAX_SUPPORTED_CHANNEL_LIST ∧
      if (expansion req.supportedChannels).length < SIR_MAX_SUPPORTED_CHANNEL_LIST then
        numChnl.toNat = (expansion req.supportedChannels).length ∧
          list.take numChnl.toNat = expansion req.supportedChannels
      else numChnl = 0 := by
  have hstart : Holds ⟨ind.channelList, 0⟩ [] := ⟨ind.length_eq, rfl, Nat.zero_le _, rfl⟩
  obtain ⟨out, hrun, hout⟩ := subbands_spec req.supportedChannels heven hstart (Nat.succ_pos _)
  rw [nil_append] at hout
  have hindex : out.index =
      min SIR_MAX_SUPPORTED_CHANNEL_LIST (expansion req.supportedChannels).length := by
    rw [hout.index_eq]; exact length_take
  unfold lim_convert_supported_channels
  rw [if_neg (Nat.not_le_of_lt hlen), hrun]
  dsimp only
  by_cases hroom : (expansion req.supportedChannels).length < SIR_MAX_SUPPORTED_CHANNEL_LIST
  · rw [Nat.min_eq_right (Nat.le_of_lt hroom)] at hindex
    have hnum : (UInt8.ofNat out.index).toNat = (expansion req.supportedChannels).length := by
      rw [UInt8.toNat_ofNat', hindex]; exact Nat.mod_eq_of_lt (Nat.lt_trans hroom (by decide))
    have htake := hout.take_eq
    rw [fit_of_lt (Nat.le_of_lt hroom)] at htake
    rw [if_neg (by omega)]
    refine ⟨_, _, rfl, hout.length_eq, ?_⟩
    rw [if_pos hroom, hnum]; exact ⟨rfl, htake⟩
  · rw [Nat.min_eq_left (Nat.le_of_not_lt hroom)] at hindex
    rw [if_pos (Nat.le_of_eq hindex.symm)]
    refine ⟨_, _, rfl, hout.length_eq, ?_⟩
    rw [if_neg hroom]

/-- Whatever the length of the element, the function reads within it and writes within the list.
An element of fewer than 96 bytes that is made of subbands comes out as their channels, with
channel numbers of 8 bits, or as no channels if there are 96 or more; a longer one as none. -/
theorem supported_channels_expanded (pDst : IESuppChannels) (ie : List UInt8) (ind : SupChnl)
    (haccepted : (dot11f_unpack_ie_supp_channels ie pDst).1.present = true) :
    ∃ numChnl list,
      lim_convert_supported_channels ind
        (convert_supp_channels (dot11f_unpack_ie_supp_channels ie pDst).1) =
          some (numChnl, list) ∧
      list.length = SIR_MAX_SUPPORTED_CHANNEL_LIST ∧
      (ie.length ≥ SIR_MAX_SUPPORTED_CHANNEL_LIST → numChnl = 0) ∧
      ∀ subs : List Subband, ie = subs.flatMap Subband.bytes →
        ie.length < SIR_MAX_SUPPORTED_CHANNEL_LIST →
        let count := (subs.map fun s => s.chn_count.toNat).sum
        (count < SIR_MAX_SUPPORTED_CHANNEL_LIST →
          numChnl.toNat = count ∧ list.take count = subs.flatMap Subband.run) ∧
        (count ≥ SIR_MAX_SUPPORTED_CHANNEL_LIST → numChnl = 0) := by
  obtain ⟨hle, hlen, hbytes⟩ := convert_unpack haccepted
  generalize convert_supp_channels (dot11f_unpack_ie_supp_channels ie pDst).1 = req at *
  by_cases hlong : ie.length = SIR_MAX_SUPPORTED_CHANNEL_LIST
  · refine ⟨0, ind.channelList, ?_, ind.length_eq, fun _ => rfl, ?_⟩
    · unfold lim_convert_supported_channels
      rw [hlen, hlong]; rfl
    · intro subs _ hlt; exact absurd hlong (Nat.ne_of_lt hlt)
  · have hshort : ie.length < SIR_MAX_SUPPORTED_CHANNEL_LIST := Nat.lt_of_le_of_ne hle hlong
    have heven : req.supportedChannels.length % 2 = 0 := by rw [hbytes, length_take]; omega
    have hroom : req.length.toNat < SIR_MAX_SUPPORTED_CHANNEL_LIST := by omega
    obtain ⟨numChnl, list, hrun, hlist, hout⟩ :=
      lim_convert_supported_channels_spec ind hroom heven
    refine ⟨numChnl, list, hrun, hlist, fun hge => absurd hshort (Nat.not_lt_of_le hge), ?_⟩
    intro subs hsubs _ count
    have hall : req.supportedChannels = subs.flatMap Subband.bytes := by
      rw [hbytes, ← hsubs]
      apply take_of_length_le
      have htwice := length_flatMap_bytes subs
      rw [← hsubs] at htwice; omega
    rw [hall, expansion_bytes, length_run] at hout
    constructor
    · intro hcount
      rw [if_pos hcount] at hout
      obtain ⟨hnum, htake⟩ := hout
      rw [hnum] at htake; exact ⟨hnum, htake⟩
    · intro hfull; rwa [if_neg (Nat.not_lt_of_le hfull)] at hout

def noChannels : IESuppChannels := ⟨false, 0, replicate 96 0⟩

def emptyList : SupChnl := ⟨0, replicate 96 0, rfl⟩

def twoSubbands : List Subband := [⟨1, 3, 1, by decide, by decide⟩, ⟨36, 2, 4, by decide, by decide⟩]

theorem twoSubbands_expanded :
    ∃ list, lim_convert_supported_channels emptyList (convert_supp_channels
        (dot11f_unpack_ie_supp_channels (twoSubbands.flatMap Subband.bytes) noChannels).1) =
          some (5, list) ∧ list.take 5 = [1, 2, 3, 36, 40] := by
  obtain ⟨numChnl, list, hrun, _, _, hsubs⟩ :=
    supported_channels_expanded noChannels (twoSubbands.flatMap Subband.bytes) emptyList (by decide)
  obtain ⟨hnum, hlist⟩ := (hsubs twoSubbands rfl (by decide)).1 (by decide)
  rw [show numChnl = 5 from UInt8.toNat_inj.mp hnum] at hrun; exact ⟨list, hrun, hlist⟩

/-- 48 subbands of one channel each come out as no channels; and of 24 channels from channel 165,
the last is not channel 257. -/
theorem subbands_not_expanded :
    (lim_convert_supported_channels emptyList (convert_supp_channels
      (dot11f_unpack_ie_supp_channels ((replicate 48 [36, 1]).flatten) noChannels).1)).map
        Prod.fst = some 0 ∧
    ((lim_convert_supported_channels emptyList (convert_supp_channels
      (dot11f_unpack_ie_supp_channels [165, 24] noChannels).1)).map
        fun r => (r.2.map UInt8.toNat).getD 23 0) = some 1 := by decide +kernel

end Qcacld.LimSuppChannels
