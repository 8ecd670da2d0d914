/-
The channels that are to be avoided, taken out of a preferred channel list:
`cds_update_with_safe_channel_list` in `cds_concurrency.c`.

The channels and their weights are written back from copies, both with `safe_channel_count` as the
index, and it is advanced for each of them. `cnss_get_wlan_unsafe_channel` is given the size of the
buffer it fills. A write past the end of an array is `none` here.
-/
import Qcacld.Lib.Fill

set_option autoImplicit false

namespace Qcacld.CdsSafeChan

open Lib.Fill List

def MAX_NUM_CHAN : Nat := 128

/-- A preferred channel list of a caller, in its arrays. -/
structure Pcl where
  pcl_channels : List UInt8
  len : Nat
  weight_list : List UInt8
  weight_len : Nat
  len_le : len ≤ pcl_channels.length
  len_le_max : len ≤ MAX_NUM_CHAN
  max_le : MAX_NUM_CHAN ≤ weight_list.length
  weight_len_le : weight_len ≤ weight_list.length

/-- What `cnss_get_wlan_unsafe_channel` filled the buffer with. -/
structure UnsafeChannels where
  chans : List UInt16
  length_le : chans.length ≤ MAX_NUM_CHAN

/-- The arrays and the counter while the loop writes to them. -/
structure Out where
  pcl_channels : List UInt8
  weight_list : List UInt8
  safe_channel_count : Nat

def is_unsafe (unsafe_channel_list : List UInt16) (ch : UInt8) : Bool :=
  unsafe_channel_list.any (fun u => decide (ch.toUInt16 = u))

def keep_channel (weight_len : Nat) (out : Out) (ch weight : UInt8) : Option Out :=
  match put out.pcl_channels out.safe_channel_count ch with
  | none => none
  | some pcl_channels =>
    let count := out.safe_channel_count + 1
    if count < weight_len then
      match put out.weight_list count weight with
      | none => none
      | some weight_list => some ⟨pcl_channels, weight_list, count + 1⟩
    else some ⟨pcl_channels, out.weight_list, count⟩

/-- The loop over `i`, on the channels of the copies that are left, each with its weight. -/
def keep_channels (unsafe_channel_list : List UInt16) (weight_len : Nat) :
    List (UInt8 × UInt8) → Out → Option Out
  | [], out => some out
  | (ch, weight) :: rest, out =>
    if is_unsafe unsafe_channel_list ch then
      keep_channels unsafe_channel_list weight_len rest out
    else
      match keep_channel weight_len out ch weight with
      | none => none
      | some out => keep_channels unsafe_channel_list weight_len rest out

def zeroed (n : Nat) (l : List UInt8) : List UInt8 := replicate n 0 ++ l.drop n

def Pcl.pairs (pcl : Pcl) : List (UInt8 × UInt8) :=
  (pcl.pcl_channels.take pcl.len).zip (pcl.weight_list.take MAX_NUM_CHAN)

/-- The list and its length are in the result's `pcl_channels` and `safe_channel_count`. -/
def cds_update_with_safe_channel_list (pcl : Pcl) (unsafe_channels : UnsafeChannels) :
    Option Out :=
  let current_channel_count := min pcl.len MAX_NUM_CHAN
  if unsafe_channels.chans.length = 0 then some ⟨pcl.pcl_channels, pcl.weight_list, pcl.len⟩
  else
    keep_channels unsafe_channels.chans pcl.weight_len
      ((pcl.pcl_channels.take current_channel_count).zip (pcl.weight_list.take MAX_NUM_CHAN))
      ⟨zeroed current_channel_count pcl.pcl_channels, zeroed pcl.weight_len pcl.weight_list, 0⟩

/-! ## What the update is for -/

/-- The channels that are not to be avoided, each with its weight, in their order. -/
def Pcl.safe (pcl : Pcl) (unsafe_channels : UnsafeChannels) : List (UInt8 × UInt8) :=
  pcl.pairs.filter (fun p => ! is_unsafe unsafe_channels.chans p.1)

def Holds (weight_len : Nat) (out : Out) (safe : List (UInt8 × UInt8)) : Prop :=
  out.safe_channel_count = safe.length ∧
    out.pcl_channels.take safe.length = safe.map Prod.fst ∧
    (out.weight_list.take safe.length).take weight_len = (safe.map Prod.snd).take weight_len

/-! ## What the loop writes -/

def kept (weight_len : Nat) : List (UInt8 × UInt8) → Out → Option Out
  | [], out => some out
  | (ch, weight) :: rest, out =>
    match keep_channel weight_len out ch weight with
    | none => none
    | some out => kept weight_len rest out

theorem keep_channels_eq (unsafe_channel_list : List UInt16) (weight_len : Nat)
    (l : List (UInt8 × UInt8)) (out : Out) :
    keep_channels unsafe_channel_list weight_len l out =
      kept weight_len (l.filter (fun p => ! is_unsafe unsafe_channel_list p.1)) out := by
  induction l generalizing out with
  | nil => rfl
  | cons p rest ih =>
    obtain ⟨ch, weight⟩ := p
    rw [keep_channels]
    by_cases hun : is_unsafe unsafe_channel_list ch = true
    · rw [if_pos hun, ih, filter_cons_of_neg (by simpa using hun)]
    · rw [if_neg hun, filter_cons_of_pos (by simpa using hun), kept]
      cases keep_channel weight_len out ch weight with
      | none => rfl
      | some out => exact ih out

variable {weight_len : Nat}

theorem keep_channel_of_full {out : Out} (ch weight : UInt8)
    (hw : weight_len ≤ out.safe_channel_count + 1)
    (hroom : out.safe_channel_count < out.pcl_channels.length) :
    keep_channel weight_len out ch weight =
      some ⟨out.pcl_channels.set out.safe_channel_count ch, out.weight_list,
        out.safe_channel_count + 1⟩ := by
  rw [keep_channel, put_eq hroom]
  dsimp only
  rw [if_neg (Nat.not_lt.mpr hw)]

theorem kept_of_full (l : List (UInt8 × UInt8)) {out : Out}
    (hw : weight_len ≤ out.safe_channel_count + 1)
    (hroom : out.safe_channel_count + l.length ≤ out.pcl_channels.length) :
    kept weight_len l out =
      (putAll out.pcl_channels out.safe_channel_count (l.map Prod.fst)).map
        (fun pcl_channels => ⟨pcl_channels, out.weight_list,
          out.safe_channel_count + l.length⟩) := by
  induction l generalizing out with
  | nil => rfl
  | cons p rest ih =>
    obtain ⟨ch, weight⟩ := p
    rw [length_cons] at hroom
    rw [kept, keep_channel_of_full ch weight hw (by omega), map_cons, putAll, put_eq (by omega)]
    dsimp only
    rw [ih (by dsimp only; omega) (by dsimp only; rw [length_set]; omega), length_cons,
      Nat.add_assoc, Nat.add_comm 1]

theorem keep_channel_count {out out' : Out} {ch weight : UInt8}
    (h : keep_channel weight_len out ch weight = some out') :
    out'.safe_channel_count =
      out.safe_channel_count + 1 + (if out.safe_channel_count + 1 < weight_len then 1 else 0) := by
  rw [keep_channel] at h
  cases hput : put out.pcl_channels out.safe_channel_count ch with
  | none => rw [hput] at h; contradiction
  | some pcl_channels =>
    rw [hput] at h
    dsimp only at h
    by_cases hw : out.safe_channel_count + 1 < weight_len
    · rw [if_pos hw] at h ⊢
      cases hput' : put out.weight_list (out.safe_channel_count + 1) weight with
      | none => rw [hput'] at h; contradiction
      | some weight_list =>
        rw [hput'] at h; exact (congrArg Out.safe_channel_count (Option.some.inj h)).symm
    · rw [if_neg hw] at h ⊢
      exact (congrArg Out.safe_channel_count (Option.some.inj h)).symm

theorem kept_count_ge {l : List (UInt8 × UInt8)} {out out' : Out}
    (h : kept weight_len l out = some out') :
    out.safe_channel_count + l.length ≤ out'.safe_channel_count := by
  induction l generalizing out with
  | nil => exact Nat.le_of_eq (congrArg Out.safe_channel_count (Option.some.inj h))
  | cons p rest ih =>
    obtain ⟨ch, weight⟩ := p
    rw [kept] at h
    cases hkeep : keep_channel weight_len out ch weight with
    | none => rw [hkeep] at h; contradiction
    | some out₁ =>
      rw [hkeep] at h
      have hcount := keep_channel_count hkeep
      have hrest := ih h
      rw [length_cons]; omega

theorem kept_count_ne (hw : 2 ≤ weight_len) {l : List (UInt8 × UInt8)} (hl : l ≠ [])
    {out out' : Out} (hzero : out.safe_channel_count = 0) (h : kept weight_len l out = some out') :
    out'.safe_channel_count ≠ l.length := by
  match l, hl with
  | (ch, weight) :: rest, _ =>
    rw [kept] at h
    cases hkeep : keep_channel weight_len out ch weight with
    | none => rw [hkeep] at h; contradiction
    | some out₁ =>
      rw [hkeep] at h
      have hcount := keep_channel_count hkeep
      have hrest := kept_count_ge h
      have hroom : out.safe_channel_count + 1 < weight_len := by omega
      rw [if_pos hroom] at hcount
      rw [length_cons]; omega

/-! ## The update -/

variable (pcl : Pcl)

theorem Pcl.pairs_eq :
    pcl.pairs = (pcl.pcl_channels.take pcl.len).zip (pcl.weight_list.take pcl.len) := by
  have hlen := pcl.len_le
  have hmax := pcl.len_le_max
  have hw := pcl.max_le
  have hmin : min (pcl.pcl_channels.take pcl.len).length
      (pcl.weight_list.take MAX_NUM_CHAN).length = pcl.len := by
    rw [length_take, length_take]; omega
  rw [pairs, zip_eq_zip_take_min, hmin, take_take, take_take, Nat.min_self, Nat.min_eq_left hmax]

theorem Pcl.lengths_take :
    (pcl.pcl_channels.take pcl.len).length = pcl.len ∧
      (pcl.weight_list.take pcl.len).length = pcl.len := by
  have hlen := pcl.len_le
  have hmax := pcl.len_le_max
  have hw := pcl.max_le
  rw [length_take, length_take]; omega

theorem Pcl.pairs_fst : pcl.pairs.map Prod.fst = pcl.pcl_channels.take pcl.len := by
  rw [pairs_eq, map_fst_zip (Nat.le_of_eq (pcl.lengths_take.1.trans pcl.lengths_take.2.symm))]

theorem Pcl.pairs_snd : pcl.pairs.map Prod.snd = pcl.weight_list.take pcl.len := by
  rw [pairs_eq, map_snd_zip (Nat.le_of_eq (pcl.lengths_take.2.trans pcl.lengths_take.1.symm))]

theorem Pcl.pairs_length : pcl.pairs.length = pcl.len := by
  rw [← length_map Prod.fst, pairs_fst, pcl.lengths_take.1]

theorem Pcl.safe_length_le (u : UnsafeChannels) :
    (pcl.safe u).length ≤ pcl.len :=
  Nat.le_trans (length_filter_le _ _) (Nat.le_of_eq pcl.pairs_length)

theorem length_zeroed {n : Nat} {l : List UInt8} (h : n ≤ l.length) :
    (zeroed n l).length = l.length := by
  rw [zeroed, length_append, length_replicate, length_drop]; omega

theorem holds_of_nothing_unsafe (u : UnsafeChannels) (h : u.chans = []) :
    Holds pcl.weight_len ⟨pcl.pcl_channels, pcl.weight_list, pcl.len⟩ (pcl.safe u) := by
  have hsafe : pcl.safe u = pcl.pairs := by
    rw [Pcl.safe, h]; exact filter_eq_self.mpr (fun _ _ => rfl)
  rw [Holds, hsafe, pcl.pairs_length, pcl.pairs_fst, pcl.pairs_snd]; exact ⟨rfl, rfl, rfl⟩

theorem update_eq (u : UnsafeChannels) (h : u.chans ≠ []) :
    cds_update_with_safe_channel_list pcl u =
      kept pcl.weight_len (pcl.safe u)
        ⟨zeroed pcl.len pcl.pcl_channels, zeroed pcl.weight_len pcl.weight_list, 0⟩ := by
  have hlen : ¬u.chans.length = 0 := fun h0 => h (length_eq_zero_iff.mp h0)
  rw [cds_update_with_safe_channel_list, Nat.min_eq_left pcl.len_le_max]
  rw [if_neg hlen, keep_channels_eq, Pcl.safe, Pcl.pairs]

theorem update_of_full (u : UnsafeChannels) (h : u.chans ≠ []) (hw : pcl.weight_len ≤ 1) :
    ∃ out, cds_update_with_safe_channel_list pcl u = some out ∧
      out.safe_channel_count = (pcl.safe u).length ∧
      out.pcl_channels.take (pcl.safe u).length = (pcl.safe u).map Prod.fst ∧
      out.weight_list = zeroed pcl.weight_len pcl.weight_list := by
  have hsafe := pcl.safe_length_le u
  have hlen := pcl.len_le
  have hfit : 0 + ((pcl.safe u).map Prod.fst).length ≤
      (zeroed pcl.len pcl.pcl_channels).length := by rw [length_zeroed hlen, length_map]; omega
  rw [update_eq pcl u h, kept_of_full (pcl.safe u) hw (by rwa [length_map] at hfit),
    putAll_eq _ hfit]
  refine ⟨_, rfl, ?_, ?_, rfl⟩
  · exact Nat.zero_add _
  · exact take_left' (length_map _)

/-- Nothing is to be avoided, or everything is; or there are no weights to be kept, or one, that
the first safe channel does not have. -/
def Sound (pcl : Pcl) (unsafe_channels : UnsafeChannels) : Prop :=
  unsafe_channels.chans = [] ∨ pcl.safe unsafe_channels = [] ∨ pcl.weight_len = 0 ∨
    (pcl.weight_len = 1 ∧ ∀ p, (pcl.safe unsafe_channels).head? = some p → p.2 = 0)

theorem holds_of_full_iff {out : Out} (safe : List (UInt8 × UInt8)) (hs : safe ≠ [])
    (hw : pcl.weight_len ≤ 1) (hcount : out.safe_channel_count = safe.length)
    (hchans : out.pcl_channels.take safe.length = safe.map Prod.fst)
    (hweights : out.weight_list = zeroed pcl.weight_len pcl.weight_list) :
    Holds pcl.weight_len out safe ↔
      pcl.weight_len = 0 ∨ (pcl.weight_len = 1 ∧ ∀ p, safe.head? = some p → p.2 = 0) := by
  rw [Holds, and_iff_right hcount, and_iff_right hchans, hweights]
  rcases Nat.le_one_iff_eq_zero_or_eq_one.mp hw with hzero | hone
  · simp [hzero]
  · match safe, hs with
    | (ch, weight) :: rest, _ => simp [hone, zeroed, eq_comm]

/-- The safe channels are left, with their weights, exactly in these cases. -/
theorem update_right_iff (pcl : Pcl) (u : UnsafeChannels) :
    (∃ out, cds_update_with_safe_channel_list pcl u = some out ∧
      Holds pcl.weight_len out (pcl.safe u)) ↔ Sound pcl u := by
  rw [Sound]
  by_cases hnone : u.chans = []
  · rw [or_iff_left_of_imp (fun _ => hnone)]
    refine iff_of_true ⟨_, ?_, holds_of_nothing_unsafe pcl u hnone⟩ hnone
    rw [cds_update_with_safe_channel_list, if_pos (length_eq_zero_iff.mpr hnone)]
  · rw [or_iff_right hnone]
    by_cases hsafe : pcl.safe u = []
    · refine iff_of_true ⟨_, by rw [update_eq pcl u hnone, hsafe, kept], ?_⟩ (Or.inl hsafe)
      rw [hsafe]; exact ⟨rfl, rfl, rfl⟩
    · rw [or_iff_right hsafe]
      by_cases hw : pcl.weight_len ≤ 1
      · obtain ⟨out, hupdate, hcount, hchans, hweights⟩ := update_of_full pcl u hnone hw
        rw [← holds_of_full_iff pcl (pcl.safe u) hsafe hw hcount hchans hweights, hupdate]
        constructor
        · rintro ⟨out', heq, hholds⟩; exact Option.some.inj heq ▸ hholds
        · intro hholds; exact ⟨out, rfl, hholds⟩
      · have hfalse : ¬(pcl.weight_len = 0 ∨ (pcl.weight_len = 1 ∧
            ∀ p, (pcl.safe u).head? = some p → p.2 = 0)) := by
          rintro (hzero | ⟨hone, _⟩) <;> omega
        refine iff_of_false ?_ hfalse
        rintro ⟨out, hupdate, hholds⟩
        rw [update_eq pcl u hnone] at hupdate
        exact kept_count_ne (by omega) hsafe rfl hupdate hholds.1

/-- Channels 1, 6 and 11 with their weights, and room for all weights. -/
def three_channels : Pcl :=
  ⟨1 :: 6 :: 11 :: replicate 125 0, 3, 255 :: 235 :: 215 :: replicate 125 0, 128,
    by simp, by decide, by simp [MAX_NUM_CHAN], by simp⟩

/-- With channel 149 to be avoided, which is not on the list, six places are taken. -/
theorem three_channels_149 :
    ¬∃ out, cds_update_with_safe_channel_list three_channels ⟨[149], by decide⟩ = some out ∧
      Holds three_channels.weight_len out (three_channels.safe ⟨[149], by decide⟩) := by
  rintro ⟨out, hupdate, hcount, _⟩
  have hsix : (cds_update_with_safe_channel_list three_channels ⟨[149], by decide⟩).map
      Out.safe_channel_count = some 6 := by decide +kernel
  have hthree : (three_channels.safe ⟨[149], by decide⟩).length = 3 := by decide +kernel
  rw [hupdate, Option.map_some, hcount, hthree] at hsix
  exact absurd (Option.some.inj hsix) (by decide)

end Qcacld.CdsSafeChan
