/-
The matching rate set of a station: `lim_populate_matching_rate_set` in `lim_assoc_utils.c`.

Rates are compared without the bit that marks a basic rate, so that the marker is a rate of the
highest code. A table is the list of the entries that are in use; a write past its end is `none`.
The rates of the MCS sets, which come after this, are left out.
-/
import Mathlib.Data.List.Nodup
import Mathlib.Data.List.Perm.Basic

set_option autoImplicit false

namespace Qcacld.LimRates

open List

def SIR_MAC_RATESET_EID_MAX : Nat := 12
def SIR_NUM_11B_RATES : Nat := 4
def SIR_NUM_11A_RATES : Nat := 8
def WNI_CFG_PHY_MODE_11G : UInt32 := 2

/-- `SIR_MAC_RATE_6` to `SIR_MAC_RATE_54`. -/
def arates : List UInt8 := [0x0C, 0x12, 0x18, 0x24, 0x30, 0x48, 0x60, 0x6C]

/-- `SIR_MAC_RATE_1`, `SIR_MAC_RATE_2`, `SIR_MAC_RATE_5_5` and `SIR_MAC_RATE_11`. -/
def brates : List UInt8 := [0x02, 0x04, 0x0B, 0x16]

def sirIsArate (x : UInt8) : Bool := arates.contains x

structure RateSets where
  phy_mode : UInt32
  rateSet : List UInt8
  extRateSet : List UInt8
  oper_rate_set : List UInt8
  ext_rate_set : List UInt8

/-- `tSirSupportedRates`; the entries that have not been written are zero. -/
structure SupportedRates where
  llbRates : List UInt8
  llaRates : List UInt8
  is_arate : Bool
deriving DecidableEq

inductive Outcome where
  | failure
  | success (rates : SupportedRates)
deriving DecidableEq

def push (table : List UInt8) (r : UInt8) : Option (List UInt8) :=
  if table.length < SIR_MAC_RATESET_EID_MAX then some (table ++ [r]) else none

def pushAll : List UInt8 → List UInt8 → Option (List UInt8)
  | [], table => some table
  | r :: rest, table =>
    match push table r with
    | none => none
    | some table => pushAll rest table

/-! ## The sort -/

def findMin : List UInt8 → Nat → Nat → Nat → Nat × Nat
  | [], _, val, min => (val, min)
  | r :: rest, j, val, min =>
    if (r &&& 0x7f).toNat < val then findMin rest (j + 1) (r &&& 0x7f).toNat j
    else findMin rest (j + 1) val min

def sortLoop : Nat → List UInt8 → List UInt8 → Option (List UInt8)
  | 0, _, temp_rate_set2 => some temp_rate_set2
  | n + 1, temp_rate_set, temp_rate_set2 =>
    let min := (findMin temp_rate_set 0 0xff 0).2
    match temp_rate_set[min]? with
    | none => none
    | some r =>
      match push temp_rate_set2 r with
      | none => none
      | some temp_rate_set2 => sortLoop n (temp_rate_set.set min 0xff) temp_rate_set2

/-! ## The rates of the peer -/

def addMissing (tail : List UInt8) : List UInt8 → List UInt8 → Option (List UInt8)
  | [], temp_rate_set => some temp_rate_set
  | r :: rest, temp_rate_set =>
    if tail.any fun t => t &&& 0x7f == r &&& 0x7f then addMissing tail rest temp_rate_set
    else
      match push temp_rate_set r with
      | none => none
      | some temp_rate_set =>
        if temp_rate_set.length ≥ SIR_MAC_RATESET_EID_MAX then some temp_rate_set
        else addMissing tail rest temp_rate_set

def collect (oper_rate_set ext_rate_set : List UInt8) : Option (List UInt8) :=
  match pushAll (oper_rate_set.take SIR_MAC_RATESET_EID_MAX) [] with
  | none => none
  | some temp_rate_set =>
    if ext_rate_set ≠ [] ∧ oper_rate_set.length + ext_rate_set.length > 12 ∧
        oper_rate_set.length < 12 then
      addMissing temp_rate_set (ext_rate_set.take SIR_MAC_RATESET_EID_MAX) temp_rate_set
    else if ext_rate_set ≠ [] ∧ oper_rate_set.length + ext_rate_set.length ≤ 12 then
      pushAll (ext_rate_set.take SIR_MAC_RATESET_EID_MAX) temp_rate_set
    else
      -- relying only on the supported rate set IE
      some temp_rate_set

/-! ## The match -/

def addRate (rates : SupportedRates) (r : UInt8) : SupportedRates :=
  if sirIsArate (r &&& 0x7f) = true ∧ rates.llaRates.length < SIR_NUM_11A_RATES then
    { rates with llaRates := rates.llaRates ++ [r], is_arate := true }
  else if rates.llbRates.length < SIR_NUM_11B_RATES ∧ ¬ sirIsArate (r &&& 0x7f) = true then
    { rates with llbRates := rates.llbRates ++ [r] }
  else rates

/-- The loop over `i`; the one over `j` is left at the first rate that is the same. -/
def matchRates (temp_rate_set : List UInt8) : List UInt8 → SupportedRates → SupportedRates
  | [], rates => rates
  | r :: rest, rates =>
    matchRates temp_rate_set rest
      (if temp_rate_set.any fun t => r &&& 0x7f == t &&& 0x7f then addRate rates r else rates)

def lim_populate_matching_rate_set (s : RateSets) : Option Outcome :=
  let ext := if s.phy_mode = WNI_CFG_PHY_MODE_11G then s.extRateSet else []
  if s.rateSet.length + ext.length > 12 then some .failure
  else
    match pushAll ext s.rateSet with
    | none => none
    | some temp_rate_set =>
      match sortLoop temp_rate_set.length temp_rate_set [] with
      | none => none
      | some temp_rate_set2 =>
        match collect s.oper_rate_set s.ext_rate_set with
        | none => none
        | some temp_rate_set =>
          some (.success (matchRates (temp_rate_set.take SIR_MAC_RATESET_EID_MAX)
            (temp_rate_set2.take SIR_MAC_RATESET_EID_MAX) ⟨[], [], false⟩))

/-! ## Codes -/

/-- A rate without the bit that marks a basic rate. -/
def code (r : UInt8) : Nat := (r &&& 0x7f).toNat

def markCode : Nat := 127

theorem code_le (r : UInt8) : code r ≤ markCode := by unfold code; exact Nat.and_le_right

theorem code_inj {r t : UInt8} : (r &&& 0x7f == t &&& 0x7f) = true ↔ code r = code t := by
  rw [beq_iff_eq]; exact UInt8.toNat_inj.symm

def codes (rates : List UInt8) : List Nat := rates.map code

def acodes : List Nat := codes arates

def bcodes : List Nat := codes brates

theorem mem_codes {c : Nat} {rates : List UInt8} : c ∈ codes rates ↔ ∃ r ∈ rates, code r = c :=
  mem_map

theorem any_same {r : UInt8} {rates : List UInt8} :
    (rates.any fun t => r &&& 0x7f == t &&& 0x7f) = true ↔ code r ∈ codes rates := by
  rw [any_eq_true, mem_codes]
  apply exists_congr
  intro t
  apply and_congr_right
  intro _
  rw [code_inj]; exact eq_comm

theorem sirIsArate_iff (r : UInt8) : sirIsArate (r &&& 0x7f) = true ↔ code r ∈ acodes := by
  have hcodes : ∀ a ∈ arates, a &&& 0x7f = a := by decide +kernel
  unfold sirIsArate acodes
  rw [contains_iff_mem, mem_codes]
  constructor
  · intro h
    refine ⟨_, h, ?_⟩
    unfold code
    rw [hcodes _ h]
  · rintro ⟨a, ha, hcode⟩
    have heq : a &&& 0x7f = r &&& 0x7f := UInt8.toNat_inj.mp hcode
    rw [← heq, hcodes a ha]; exact ha

theorem pushAll_eq {rates table : List UInt8}
    (h : table.length + rates.length ≤ SIR_MAC_RATESET_EID_MAX) :
    pushAll rates table = some (table ++ rates) := by
  induction rates generalizing table with
  | nil => rw [append_nil]; rfl
  | cons r rest ih =>
    rw [length_cons] at h
    have hpush : push table r = some (table ++ [r]) := if_pos (by omega)
    unfold pushAll
    rw [hpush, append_cons table r rest]
    apply ih
    rw [length_append, length_singleton]; omega

/-! ## What the sort makes -/

/-- `min` is the first place of the lowest code `val`. -/
structure Lowest (table : List UInt8) (val min : Nat) : Prop where
  at_min : ∃ r, table[min]? = some r ∧ code r = val
  le : ∀ r ∈ table, val ≤ code r
  first : ∀ k r, k < min → table[k]? = some r → val < code r

theorem Lowest.next {table : List UInt8} {val min : Nat} (h : Lowest table val min) (r : UInt8) :
    Lowest (table ++ [r]) (if code r < val then code r else val)
      (if code r < val then table.length else min) := by
  obtain ⟨t, hget, ht⟩ := h.at_min
  have hlt : min < table.length := (List.getElem?_eq_some_iff.mp hget).1
  split
  · rename_i hless
    refine ⟨⟨r, getElem?_concat_length, rfl⟩, ?_, ?_⟩
    · intro x hx
      rcases mem_append.mp hx with hx | hx
      · exact Nat.le_of_lt (Nat.lt_of_lt_of_le hless (h.le x hx))
      · exact Nat.le_of_eq (congrArg code (mem_singleton.mp hx).symm)
    · intro k x hk hx
      rw [getElem?_append_left hk] at hx
      exact Nat.lt_of_lt_of_le hless (h.le x (mem_of_getElem? hx))
  · rename_i hge
    refine ⟨⟨t, ?_, ht⟩, ?_, ?_⟩
    · rw [getElem?_append_left hlt]; exact hget
    · intro x hx
      rcases mem_append.mp hx with hx | hx
      · exact h.le x hx
      · rw [mem_singleton.mp hx]; exact Nat.le_of_not_lt hge
    · intro k x hk hx
      rw [getElem?_append_left (Nat.lt_trans hk hlt)] at hx; exact h.first k x hk hx

theorem findMin_lowest {rest table : List UInt8} {val min : Nat} (h : Lowest table val min) :
    Lowest (table ++ rest) (findMin rest table.length val min).1
      (findMin rest table.length val min).2 := by
  induction rest generalizing table val min with
  | nil => rw [append_nil]; exact h
  | cons r rest ih =>
    have hnext := ih (h.next r)
    rw [length_append, length_singleton] at hnext
    rw [append_cons]
    unfold findMin
    unfold code at hnext
    split
    · rename_i hless
      rw [if_pos hless, if_pos hless] at hnext; exact hnext
    · rename_i hge
      rw [if_neg hge, if_neg hge] at hnext; exact hnext

theorem findMin_spec {table : List UInt8} (h : table ≠ []) :
    ∃ val, Lowest table val (findMin table 0 0xff 0).2 := by
  cases table with
  | nil => exact absurd rfl h
  | cons r rest =>
    have hfirst : Lowest [r] (code r) 0 := by
      refine ⟨⟨r, rfl, rfl⟩, ?_, ?_⟩
      · intro x hx; exact Nat.le_of_eq (congrArg code (mem_singleton.mp hx).symm)
      · intro k x hk; exact absurd hk (Nat.not_lt_zero k)
    have hless : (r &&& 0x7f).toNat < 0xff := Nat.lt_of_le_of_lt (code_le r) (by decide)
    have hrest : Lowest (r :: rest) (findMin rest 1 (code r) 0).1 (findMin rest 1 (code r) 0).2 :=
      findMin_lowest hfirst
    unfold findMin
    rw [if_pos hless]; exact ⟨_, hrest⟩

/-- The marker, in a table of which the first rate has the code of the marker, is this rate. -/
def markOf (own : List UInt8) : UInt8 :=
  match own with
  | [] => 0xff
  | a :: _ => if code a = markCode then a else 0xff

theorem code_marker : code 0xff = markCode := by decide

structure Sorting (own table out : List UInt8) : Prop where
  length_eq : table.length = own.length
  slot : ∀ (i : Nat) (x : UInt8), table[i]? = some x → own[i]? = some x ∨ x = 0xff
  sorted : (codes out).Pairwise (· ≤ ·)
  below : ∀ r ∈ out, ∀ x ∈ table, code r ≤ code x
  perm : (codes out ++ codes table).Perm (codes own ++ replicate out.length markCode)
  taken : ∀ r ∈ out, code r ≠ markCode → r ∈ own
  marked : ∀ r ∈ out, code r = markCode → r = markOf own
  head : ∀ a : UInt8, own[0]? = some a → code a = markCode →
    table[0]? = some a ∨ ∃ r ∈ out, code r = markCode

section Sorting

variable {own table out : List UInt8} {val min : Nat} {r : UInt8}

theorem sorting_start (own : List UInt8) : Sorting own own [] where
  length_eq := rfl
  slot _ _ h := Or.inl h
  sorted := Pairwise.nil
  below _ h := absurd h not_mem_nil
  perm := by rw [length_nil, replicate_zero, append_nil]; exact Perm.refl _
  taken _ h := absurd h not_mem_nil
  marked _ h := absurd h not_mem_nil
  head _ h _ := Or.inl h

def countBelow (cs : List Nat) : Nat := cs.countP fun c => c < markCode

theorem Sorting.countBelow_add (h : Sorting own table out) :
    countBelow (codes out) + countBelow (codes table) = countBelow (codes own) := by
  have hcount := h.perm.countP_eq fun c => decide (c < markCode)
  rw [countP_append, countP_append, countP_replicate] at hcount; exact hcount

theorem Lowest.all_marked (hlow : Lowest table val min) (hval : val = markCode) :
    ∀ x ∈ table, code x = markCode := fun x hx =>
  Nat.le_antisymm (code_le x) (hval ▸ hlow.le x hx)

theorem countBelow_eq_zero (h : ∀ x ∈ table, code x = markCode) : countBelow (codes table) = 0 := by
  unfold countBelow
  rw [countP_eq_zero]
  intro c hc
  obtain ⟨x, hx, rfl⟩ := mem_codes.mp hc
  rw [h x hx]; decide

theorem length_le_countBelow (hnodup : (codes own).Nodup) :
    own.length ≤ countBelow (codes own) + 1 := by
  have hone : (codes own).count markCode ≤ 1 := nodup_iff_count_le_one.mp hnodup _
  have hsplit := length_eq_countP_add_countP (fun c => decide (c < markCode)) (l := codes own)
  have hmark : (codes own).countP (fun c => decide ¬ decide (c < markCode) = true) =
      (codes own).count markCode := by
    apply countP_congr
    intro c hc
    obtain ⟨x, _, rfl⟩ := mem_codes.mp hc
    have hle := code_le x
    rw [beq_iff_eq, decide_eq_true_iff, decide_eq_true_iff]; omega
  unfold countBelow
  unfold codes at hsplit ⊢
  rw [length_map] at hsplit
  unfold codes at hmark hone; omega

theorem Sorting.marked_step (h : Sorting own table out) (hnodup : (codes own).Nodup)
    (hmore : out.length < own.length) (hlow : Lowest table val min) (hget : table[min]? = some r)
    (hr : code r = val) (hval : val = markCode) : r = markOf own := by
  have hall : ∀ x ∈ table, code x = markCode := hlow.all_marked hval
  have hzero : min = 0 := by
    by_contra hne
    obtain ⟨hlt, _⟩ := List.getElem?_eq_some_iff.mp hget
    have hfirst : table[0]? = some (table.get ⟨0, Nat.zero_lt_of_lt hlt⟩) :=
      getElem?_eq_getElem _
    have hless := hlow.first 0 _ (Nat.pos_of_ne_zero hne) hfirst
    rw [hall _ (mem_of_getElem? hfirst), hval] at hless; exact absurd hless (Nat.lt_irrefl _)
  rw [hzero] at hget
  cases own with
  | nil => exact absurd hmore (Nat.not_lt_zero _)
  | cons a rest =>
    unfold markOf
    dsimp only
    split
    · rename_i ha
      rcases h.head a rfl ha with hhead | ⟨x, hx, hmark⟩
      · rw [hget] at hhead; exact Option.some.inj hhead
      · -- with the highest code taken already, nothing would be left to take
        have hsum := h.countBelow_add
        have hlen := length_le_countBelow hnodup
        have hout : countBelow (codes out) < out.length := by
          rw [← length_map code]
          apply Nat.lt_of_le_of_ne countP_le_length
          intro heq
          have hbelow := countP_eq_length.mp heq (code x) (mem_map_of_mem hx)
          rw [hmark] at hbelow; exact absurd hbelow (by decide)
        rw [countBelow_eq_zero hall] at hsum; omega
    · rename_i ha
      rcases h.slot 0 r hget with hslot | hslot
      · rw [Option.some.inj hslot, hr] at ha; exact absurd hval ha
      · exact hslot

theorem Sorting.step (h : Sorting own table out) (hnodup : (codes own).Nodup)
    (hmore : out.length < own.length) (hlow : Lowest table val min) (hget : table[min]? = some r)
    (hr : code r = val) : Sorting own (table.set min 0xff) (out ++ [r]) where
  length_eq := by rw [length_set]; exact h.length_eq
  slot i x hx := by
    by_cases hi : min = i
    · subst hi
      rw [List.getElem?_set_self (List.getElem?_eq_some_iff.mp hget).1] at hx
      exact Or.inr (Option.some.inj hx).symm
    · rw [getElem?_set_ne hi] at hx; exact h.slot i x hx
  sorted := by
    unfold codes
    rw [map_append, pairwise_append]
    refine ⟨h.sorted, pairwise_singleton _ _, ?_⟩
    intro c hc d hd
    obtain ⟨x, hx, rfl⟩ := mem_codes.mp hc
    rw [mem_singleton.mp hd]; exact h.below x hx r (mem_of_getElem? hget)
  below x hx y hy := by
    rcases mem_or_eq_of_mem_set hy with hy | rfl
    · rcases mem_append.mp hx with hx | hx
      · exact h.below x hx y hy
      · rw [mem_singleton.mp hx, hr]; exact hlow.le y hy
    · exact code_le x
  perm := by
    have hlt := (List.getElem?_eq_some_iff.mp hget).1
    have hsplit : table = table.take min ++ r :: table.drop (min + 1) := by
      rw [← (List.getElem?_eq_some_iff.mp hget).2, List.getElem_cons_drop, List.take_append_drop]
    have hperm := h.perm
    rw [hsplit] at hperm
    rw [set_eq_take_append_cons_drop, if_pos hlt]
    rw [perm_iff_count] at hperm ⊢
    intro c
    have hcount := hperm c
    unfold codes at hcount ⊢
    rw [length_append, length_singleton, replicate_succ]
    simp only [map_append, map_cons, map_nil, count_append, count_cons,
      count_nil, code_marker] at hcount ⊢
    omega
  taken x hx hne := by
    rcases mem_append.mp hx with hx | hx
    · exact h.taken x hx hne
    · rw [mem_singleton.mp hx] at hne ⊢
      rcases h.slot min r hget with hslot | hslot
      · exact mem_of_getElem? hslot
      · rw [hslot] at hne; exact absurd code_marker hne
  marked x hx hmark := by
    rcases mem_append.mp hx with hx | hx
    · exact h.marked x hx hmark
    · rw [mem_singleton.mp hx] at hmark ⊢
      exact h.marked_step hnodup hmore hlow hget hr (hr.symm.trans hmark)
  head a ha hmark := by
    rcases h.head a ha hmark with hhead | ⟨x, hx, hxmark⟩
    · by_cases hmin : min = 0
      · rw [hmin, hhead] at hget
        rw [← Option.some.inj hget]; exact Or.inr ⟨a, mem_append_right _ mem_cons_self, hmark⟩
      · rw [getElem?_set_ne hmin]; exact Or.inl hhead
    · exact Or.inr ⟨x, mem_append_left _ hx, hxmark⟩

/-- The rates of a table in the order of their codes. -/
structure SortedOf (own out : List UInt8) : Prop where
  perm : (codes out).Perm (codes own)
  sorted : (codes out).Pairwise (· ≤ ·)
  taken : ∀ r ∈ out, code r ≠ markCode → r ∈ own
  marked : ∀ r ∈ out, code r = markCode → r = markOf own

theorem Sorting.finish (h : Sorting own table out) (hlen : out.length = own.length) :
    SortedOf own out := by
  have hall : ∀ x ∈ table, code x = markCode := by
    by_contra hsome
    push Not at hsome
    obtain ⟨x, hx, hne⟩ := hsome
    have hless : code x < markCode := Nat.lt_of_le_of_ne (code_le x) hne
    have hout : countBelow (codes out) = out.length := by
      unfold countBelow codes
      rw [← length_map code, countP_eq_length]
      intro c hc
      obtain ⟨y, hy, rfl⟩ := mem_map.mp hc
      rw [decide_eq_true_iff]; exact Nat.lt_of_le_of_lt (h.below y hy x hx) hless
    have hsum := h.countBelow_add
    have hpos : 0 < countBelow (codes table) :=
      countP_pos_iff.mpr ⟨code x, mem_map_of_mem hx, decide_eq_true hless⟩
    have hown : countBelow (codes own) ≤ (codes own).length := countP_le_length
    unfold codes at hown
    rw [length_map] at hown
    unfold codes at hsum hpos hout; omega
  have htable : codes table = replicate out.length markCode := by
    unfold codes
    rw [eq_replicate_iff, length_map, h.length_eq, hlen]
    refine ⟨rfl, fun c hc => ?_⟩
    obtain ⟨x, hx, rfl⟩ := mem_map.mp hc
    exact hall x hx
  have hperm := h.perm
  rw [htable, perm_append_right_iff] at hperm; exact ⟨hperm, h.sorted, h.taken, h.marked⟩

theorem sortLoop_sorting (hown : own.length ≤ SIR_MAC_RATESET_EID_MAX)
    (hnodup : (codes own).Nodup) (n : Nat) (h : Sorting own table out)
    (hlen : out.length + n = own.length) :
    ∃ out', sortLoop n table out = some out' ∧ SortedOf own out' := by
  induction n generalizing table out with
  | zero => exact ⟨out, rfl, h.finish hlen⟩
  | succ n ih =>
    have hmore : out.length < own.length := by omega
    have hne : table ≠ [] := by
      intro hnil
      have htable := h.length_eq
      rw [hnil] at htable
      rw [← htable] at hmore; exact absurd hmore (Nat.not_lt_zero _)
    obtain ⟨val, hlow⟩ := findMin_spec hne
    obtain ⟨r, hget, hr⟩ := hlow.at_min
    have hpush : push out r = some (out ++ [r]) :=
      if_pos (Nat.lt_of_lt_of_le hmore hown)
    unfold sortLoop
    dsimp only
    rw [hget]
    dsimp only
    rw [hpush]
    apply ih (h.step hnodup hmore hlow hget hr)
    rw [length_append, length_singleton]; omega

/-- **The sort** stays within its tables and puts the rates in the order of their codes, though the
marker has a code of its own. -/
theorem sortLoop_spec (hown : own.length ≤ SIR_MAC_RATESET_EID_MAX) (hnodup : (codes own).Nodup) :
    ∃ out, sortLoop own.length own [] = some out ∧ SortedOf own out :=
  sortLoop_sorting hown hnodup own.length (sorting_start own) (Nat.zero_add _)

end Sorting

/-! ## What is collected of the peer -/

def missing (oper ext : List UInt8) : List UInt8 := ext.filter fun r => code r ∉ codes oper

def collected (oper ext : List UInt8) : List UInt8 :=
  if oper.length + ext.length ≤ 12 then oper ++ ext
  else oper ++ (missing oper ext).take (12 - oper.length)

theorem addMissing_eq (tail rest table : List UInt8) (h : table.length < 12) :
    addMissing tail rest table =
      some (table ++ (missing tail rest).take (12 - table.length)) := by
  induction rest generalizing table with
  | nil => unfold addMissing missing; rw [filter_nil, take_nil, append_nil]
  | cons r rest ih =>
    unfold addMissing missing
    rw [filter_cons]
    by_cases hin : code r ∈ codes tail
    · rw [if_pos, if_neg]
      · exact ih table h
      · rw [decide_eq_true_iff]; exact fun hnot => hnot hin
      · rw [any_eq_true]
        obtain ⟨t, ht, hcode⟩ := mem_codes.mp hin
        exact ⟨t, ht, code_inj.mpr hcode⟩
    · have hpush : push table r = some (table ++ [r]) := if_pos h
      have hlen : (table ++ [r]).length = table.length + 1 := by
        rw [length_append, length_singleton]
      obtain ⟨k, hk⟩ : ∃ k, 12 - table.length = k + 1 := ⟨12 - table.length - 1, by omega⟩
      rw [if_neg, if_pos (decide_eq_true hin), hpush]
      · dsimp only
        rw [hk, take_succ_cons]
        split
        · rename_i hfull
          have hzero : k = 0 := by
            exact Nat.le_zero.mp (by unfold SIR_MAC_RATESET_EID_MAX at hfull; omega)
          rw [hzero, take_zero]
        · rename_i hroom
          have hlt : (table ++ [r]).length < 12 := Nat.lt_of_not_le hroom
          have hleft : 12 - (table.length + 1) = k := by omega
          rw [ih (table ++ [r]) hlt, hlen, hleft, append_assoc, singleton_append]; rfl
      · rw [any_eq_true]
        rintro ⟨t, ht, hcode⟩; exact hin (mem_codes.mpr ⟨t, ht, code_inj.mp hcode⟩)

theorem collect_eq {oper ext : List UInt8} (hoper : oper.length ≤ SIR_MAC_RATESET_EID_MAX)
    (hext : ext.length ≤ SIR_MAC_RATESET_EID_MAX) :
    collect oper ext = some (collected oper ext) := by
  have hpush : pushAll oper [] = some oper := pushAll_eq (by rwa [length_nil, Nat.zero_add])
  unfold collect collected
  rw [take_of_length_le hoper, take_of_length_le hext, hpush]
  dsimp only
  by_cases hfits : oper.length + ext.length ≤ 12
  · rw [if_neg (fun h => absurd h.2.1 (Nat.not_lt_of_le hfits)), if_pos hfits]
    by_cases hnil : ext = []
    · rw [if_neg (fun h => h.1 hnil), hnil, append_nil]
    · rw [if_pos ⟨hnil, hfits⟩]; exact pushAll_eq hfits
  · have hnil : ext ≠ [] := by rintro rfl; exact hfits hoper
    rw [if_neg hfits]
    by_cases hroom : oper.length < 12
    · rw [if_pos ⟨hnil, Nat.lt_of_not_le hfits, hroom⟩]; exact addMissing_eq oper ext oper hroom
    · rw [if_neg (fun h => hroom h.2.2), if_neg (fun h => hfits h.2),
        Nat.sub_eq_zero_of_le (Nat.le_of_not_lt hroom), take_zero, append_nil]

theorem length_collected {oper ext : List UInt8} (hoper : oper.length ≤ SIR_MAC_RATESET_EID_MAX) :
    (collected oper ext).length ≤ SIR_MAC_RATESET_EID_MAX := by
  unfold collected
  split
  · rw [length_append]; assumption
  · have hle : ((missing oper ext).take (12 - oper.length)).length ≤ 12 - oper.length :=
      length_take_le _ _
    rw [length_append]
    unfold SIR_MAC_RATESET_EID_MAX at hoper ⊢
    omega

/-! ## What is matched -/

def common (own peer : List UInt8) : List UInt8 := own.filter fun r => code r ∈ codes peer

def onlyA (rates : List UInt8) : List UInt8 := rates.filter fun r => code r ∈ acodes

def noneA (rates : List UInt8) : List UInt8 := rates.filter fun r => code r ∉ acodes

theorem matchRates_eq (peer : List UInt8) (own : List UInt8) (rates : SupportedRates) :
    (matchRates peer own rates).llbRates = rates.llbRates ++
        (noneA (common own peer)).take (SIR_NUM_11B_RATES - rates.llbRates.length) ∧
      (matchRates peer own rates).llaRates = rates.llaRates ++
        (onlyA (common own peer)).take (SIR_NUM_11A_RATES - rates.llaRates.length) := by
  induction own generalizing rates with
  | nil =>
    unfold matchRates common noneA onlyA
    rw [filter_nil, filter_nil, filter_nil, take_nil, take_nil, append_nil, append_nil]
    exact ⟨rfl, rfl⟩
  | cons r own ih =>
    have hany : (peer.any fun t => r &&& 0x7f == t &&& 0x7f) = true ↔ code r ∈ codes peer :=
      any_same
    unfold matchRates
    by_cases hin : code r ∈ codes peer
    · have hcommon : common (r :: own) peer = r :: common own peer :=
        filter_cons_of_pos (decide_eq_true hin)
      rw [if_pos (hany.mpr hin), hcommon, (ih _).1, (ih _).2]
      have hadd := sirIsArate_iff r
      by_cases ha : code r ∈ acodes
      · have hskip : noneA (r :: common own peer) = noneA (common own peer) := by
          apply filter_cons_of_neg
          rw [decide_eq_true_iff]; exact fun hnot => hnot ha
        have hkeep : onlyA (r :: common own peer) = r :: onlyA (common own peer) :=
          filter_cons_of_pos (decide_eq_true ha)
        rw [hskip, hkeep]
        unfold addRate
        by_cases hroom : rates.llaRates.length < SIR_NUM_11A_RATES
        · obtain ⟨k, hk⟩ : ∃ k, SIR_NUM_11A_RATES - rates.llaRates.length = k + 1 :=
            ⟨SIR_NUM_11A_RATES - rates.llaRates.length - 1, by omega⟩
          rw [if_pos ⟨hadd.mpr ha, hroom⟩]
          have hleft : SIR_NUM_11A_RATES - (rates.llaRates.length + 1) = k := by omega
          rw [length_append, length_singleton, hk, hleft, take_succ_cons,
            append_assoc, singleton_append]
          exact ⟨rfl, rfl⟩
        · rw [if_neg (fun h => hroom h.2), if_neg (fun h => h.2 (hadd.mpr ha)),
            Nat.sub_eq_zero_of_le (Nat.le_of_not_lt hroom), take_zero, take_zero]
          exact ⟨rfl, rfl⟩
      · have hskip : onlyA (r :: common own peer) = onlyA (common own peer) := by
          apply filter_cons_of_neg
          rw [decide_eq_true_iff]; exact ha
        have hkeep : noneA (r :: common own peer) = r :: noneA (common own peer) :=
          filter_cons_of_pos (decide_eq_true ha)
        rw [hskip, hkeep]
        unfold addRate
        rw [if_neg (fun h => ha (hadd.mp h.1))]
        by_cases hroom : rates.llbRates.length < SIR_NUM_11B_RATES
        · obtain ⟨k, hk⟩ : ∃ k, SIR_NUM_11B_RATES - rates.llbRates.length = k + 1 :=
            ⟨SIR_NUM_11B_RATES - rates.llbRates.length - 1, by omega⟩
          rw [if_pos ⟨hroom, fun h => ha (hadd.mp h)⟩]
          have hleft : SIR_NUM_11B_RATES - (rates.llbRates.length + 1) = k := by omega
          rw [length_append, length_singleton, hk, hleft, take_succ_cons,
            append_assoc, singleton_append]
          exact ⟨rfl, rfl⟩
        · rw [if_neg (fun h => hroom h.1), Nat.sub_eq_zero_of_le (Nat.le_of_not_lt hroom),
            take_zero, take_zero]
          exact ⟨rfl, rfl⟩
    · have hcommon : common (r :: own) peer = common own peer := by
        apply filter_cons_of_neg
        rw [decide_eq_true_iff]; exact hin
      rw [if_neg (fun h => hin (hany.mp h)), hcommon]; exact ih rates

/-! ## The function -/

def RateSets.own (s : RateSets) : List UInt8 :=
  s.rateSet ++ if s.phy_mode = WNI_CFG_PHY_MODE_11G then s.extRateSet else []

/-- At most 12 distinct rates of the session, and sets of at most 12 distinct rates each of the
peer. Rates that differ in the bit that marks a basic rate are the same. -/
structure Allowed (s : RateSets) : Prop where
  own_le : s.own.length ≤ SIR_MAC_RATESET_EID_MAX
  own_nodup : (codes s.own).Nodup
  oper_le : s.oper_rate_set.length ≤ SIR_MAC_RATESET_EID_MAX
  oper_nodup : (codes s.oper_rate_set).Nodup
  ext_le : s.ext_rate_set.length ≤ SIR_MAC_RATESET_EID_MAX
  ext_nodup : (codes s.ext_rate_set).Nodup

def RateSets.peer (s : RateSets) : List UInt8 := collected s.oper_rate_set s.ext_rate_set

/-- **The function** stays within its tables, and takes the first 8 a/g rates and the first 4 others
of the session's rates that are collected of the peer. -/
theorem lim_populate_matching_rate_set_spec {s : RateSets} (h : Allowed s) :
    ∃ sorted rates, lim_populate_matching_rate_set s = some (.success rates) ∧
      SortedOf s.own sorted ∧
      rates.llbRates = (noneA (common sorted s.peer)).take SIR_NUM_11B_RATES ∧
      rates.llaRates = (onlyA (common sorted s.peer)).take SIR_NUM_11A_RATES := by
  have hown := h.own_le
  unfold RateSets.own at hown
  rw [length_append] at hown
  have hpush := pushAll_eq hown
  obtain ⟨sorted, hsort, hsorted⟩ := sortLoop_spec h.own_le h.own_nodup
  have hlen : sorted.length ≤ SIR_MAC_RATESET_EID_MAX := by
    have hperm := hsorted.perm.length_eq
    unfold codes at hperm
    rw [length_map, length_map] at hperm; exact hperm ▸ h.own_le
  unfold RateSets.own at hsort
  unfold lim_populate_matching_rate_set
  rw [if_neg (show ¬ _ > 12 from Nat.not_lt_of_le hown), hpush]
  dsimp only
  rw [hsort]
  rw [collect_eq h.oper_le h.ext_le]
  dsimp only
  rw [take_of_length_le (length_collected h.oper_le), take_of_length_le hlen]
  have hmatch := matchRates_eq s.peer sorted ⟨[], [], false⟩
  exact ⟨sorted, _, rfl, hsorted, hmatch.1, hmatch.2⟩

end Qcacld.LimRates
