/-
What `lim_populate_matching_rate_set` makes of two rate sets.

The legacy rates in both sets come out if the peer has at most 12, and no other rate takes a place
in the table of b rates (`FitsWell`).
-/
import Mathlib.Data.List.Dedup
import Qcacld.Lib.Increasing
import Qcacld.LimRates

set_option autoImplicit false

namespace Qcacld.LimRates

open Lib List

/-! ## The result by codes -/

theorem codes_perm {l l' : List UInt8} (h : l.Perm l') : (codes l).Perm (codes l') := h.map code

def ordered (own : List UInt8) : List Nat := (codes own).insertionSort (· ≤ ·)

/-- The rates of the session in both sets that are not a/g rates, or are. -/
def bMatch (s : RateSets) : List Nat :=
  (ordered s.own).filter fun c => c ∈ codes s.peer ∧ c ∉ acodes

def aMatch (s : RateSets) : List Nat :=
  (ordered s.own).filter fun c => c ∈ codes s.peer ∧ c ∈ acodes

variable {c : Nat}

theorem mem_ordered {own : List UInt8} : c ∈ ordered own ↔ c ∈ codes own :=
  mem_insertionSort _

theorem ordered_increasing {own : List UInt8} (h : (codes own).Nodup) :
    (ordered own).Pairwise (· < ·) := by
  have hnodup : (ordered own).Nodup := (perm_insertionSort _ _).nodup_iff.mpr h
  have hle : (ordered own).Pairwise (· ≤ ·) := pairwise_insertionSort _ _
  exact hle.imp₂ (fun _ _ hle hne => Nat.lt_of_le_of_ne hle hne) hnodup

theorem codes_sorted {own sorted : List UInt8} (h : SortedOf own sorted) :
    codes sorted = ordered own := by
  have hperm : (codes sorted).Perm (ordered own) :=
    h.perm.trans (perm_insertionSort _ _).symm
  exact hperm.eq_of_pairwise' h.sorted (pairwise_insertionSort _ _)

theorem ordered_perm {own own' : List UInt8} (h : own.Perm own') : ordered own = ordered own' := by
  have hperm : (ordered own).Perm (ordered own') :=
    (perm_insertionSort _ _).trans ((codes_perm h).trans (perm_insertionSort _ _).symm)
  exact hperm.eq_of_pairwise' (pairwise_insertionSort _ _) (pairwise_insertionSort _ _)

theorem mem_bMatch {s : RateSets} :
    c ∈ bMatch s ↔ c ∈ codes s.own ∧ c ∈ codes s.peer ∧ c ∉ acodes := by
  unfold bMatch
  rw [mem_filter, mem_ordered, decide_eq_true_iff]

theorem mem_aMatch {s : RateSets} :
    c ∈ aMatch s ↔ c ∈ codes s.own ∧ c ∈ codes s.peer ∧ c ∈ acodes := by
  unfold aMatch
  rw [mem_filter, mem_ordered, decide_eq_true_iff]

theorem bMatch_increasing {s : RateSets} (h : Allowed s) : (bMatch s).Pairwise (· < ·) :=
  (ordered_increasing h.own_nodup).filter _

/-- The tables by their codes, and where the rates in them come from. -/
structure Matched (s : RateSets) (rates : SupportedRates) : Prop where
  llb_codes : codes rates.llbRates = (bMatch s).take SIR_NUM_11B_RATES
  lla_codes : codes rates.llaRates = aMatch s
  taken : ∀ r ∈ rates.llbRates ++ rates.llaRates, code r ≠ markCode → r ∈ s.own
  marked : ∀ r ∈ rates.llbRates ++ rates.llaRates, code r = markCode → r = markOf s.own

theorem length_aMatch {s : RateSets} (h : Allowed s) : (aMatch s).length ≤ SIR_NUM_11A_RATES := by
  have hnodup : (aMatch s).Nodup :=
    ((ordered_increasing h.own_nodup).imp Nat.ne_of_lt).filter _
  have hsub : aMatch s ⊆ acodes := fun c hc => (mem_aMatch.mp hc).2.2
  exact (subperm_of_subset hnodup hsub).length_le

theorem populate_matched {s : RateSets} (h : Allowed s) :
    ∃ rates, lim_populate_matching_rate_set s = some (.success rates) ∧ Matched s rates := by
  obtain ⟨sorted, rates, hrun, hsorted, hllb, hlla⟩ := lim_populate_matching_rate_set_spec h
  have hfilter : ∀ p : Nat → Bool, codes (sorted.filter fun r => p (code r)) =
      (ordered s.own).filter p := by
    intro p
    rw [← codes_sorted hsorted]
    unfold codes
    rw [filter_map]; rfl
  have hb : codes (noneA (common sorted s.peer)) = bMatch s := by
    unfold noneA common bMatch
    rw [filter_filter, ← hfilter]
    congr 2
    funext r
    rw [Bool.decide_and, Bool.and_comm]
  have ha : codes (onlyA (common sorted s.peer)) = aMatch s := by
    unfold onlyA common aMatch
    rw [filter_filter, ← hfilter]
    congr 2
    funext r
    rw [Bool.decide_and, Bool.and_comm]
  have hmem : ∀ r ∈ rates.llbRates ++ rates.llaRates, r ∈ sorted := by
    intro r hr
    rw [mem_append, hllb, hlla] at hr
    rcases hr with hr | hr
    · exact mem_of_mem_filter (mem_of_mem_filter (mem_of_mem_take hr))
    · exact mem_of_mem_filter (mem_of_mem_filter (mem_of_mem_take hr))
  refine ⟨rates, hrun, ?_, ?_, ?_, ?_⟩
  · rw [hllb, ← hb]; exact map_take
  · have hlen := length_aMatch h
    rw [← ha] at hlen
    unfold codes at hlen
    rw [length_map] at hlen
    rw [hlla, take_of_length_le hlen, ha]
  · intro r hr; exact hsorted.taken r (hmem r hr)
  · intro r hr; exact hsorted.marked r (hmem r hr)

/-! ## Reordering -/

/-- The same sets, each in any order. -/
structure Reordered (s t : RateSets) : Prop where
  phy_mode : t.phy_mode = s.phy_mode
  rateSet : t.rateSet.Perm s.rateSet
  extRateSet : t.extRateSet.Perm s.extRateSet
  oper : t.oper_rate_set.Perm s.oper_rate_set
  ext : t.ext_rate_set.Perm s.ext_rate_set

theorem Reordered.own {s t : RateSets} (h : Reordered s t) : t.own.Perm s.own := by
  unfold RateSets.own
  rw [h.phy_mode]
  apply h.rateSet.append
  split
  · exact h.extRateSet
  · exact Perm.refl _

theorem Reordered.allowed {s t : RateSets} (h : Reordered s t) (hs : Allowed s) : Allowed t where
  own_le := h.own.length_eq ▸ hs.own_le
  own_nodup := (codes_perm h.own).nodup_iff.mpr hs.own_nodup
  oper_le := h.oper.length_eq ▸ hs.oper_le
  oper_nodup := (codes_perm h.oper).nodup_iff.mpr hs.oper_nodup
  ext_le := h.ext.length_eq ▸ hs.ext_le
  ext_nodup := (codes_perm h.ext).nodup_iff.mpr hs.ext_nodup

theorem Reordered.eq_of_code {s t : RateSets} (h : Reordered s t) (hs : Allowed s) {r r' : UInt8}
    (hr : r ∈ s.own) (hr' : r' ∈ t.own) (hcode : code r = code r') : r = r' :=
  inj_on_of_nodup_map hs.own_nodup hr (h.own.mem_iff.mp hr') hcode

theorem Reordered.tables_eq {s t : RateSets} (h : Reordered s t) (hs : Allowed s)
    {rates rates' : SupportedRates} (hm : Matched s rates) (hm' : Matched t rates')
    (hb : (bMatch t).take SIR_NUM_11B_RATES = (bMatch s).take SIR_NUM_11B_RATES)
    (ha : aMatch t = aMatch s)
    (hmark : markCode ∈ (bMatch s).take SIR_NUM_11B_RATES → markOf t.own = markOf s.own) :
    rates'.llbRates = rates.llbRates ∧ rates'.llaRates = rates.llaRates := by
  have hraw : ∀ r ∈ rates.llbRates ++ rates.llaRates,
      ∀ r' ∈ rates'.llbRates ++ rates'.llaRates, code r = code r' → r = r' := by
    intro r hr r' hr' hcode
    by_cases hmarked : code r = markCode
    · rw [hm.marked r hr hmarked, hm'.marked r' hr' (hcode.symm.trans hmarked)]
      apply (hmark ?_).symm
      rcases mem_append.mp hr with hr | hr
      · rw [← hm.llb_codes, ← hmarked]; exact mem_map_of_mem hr
      · have hin : code r ∈ aMatch s := by rw [← hm.lla_codes]; exact mem_map_of_mem hr
        have hacode := (mem_aMatch.mp hin).2.2
        rw [hmarked] at hacode; exact absurd hacode (by decide)
    · have hmarked' : code r' ≠ markCode := fun heq => hmarked (hcode.trans heq)
      exact h.eq_of_code hs (hm.taken r hr hmarked) (hm'.taken r' hr' hmarked') hcode
  constructor
  · apply (eq_of_map_eq (f := code) ?_ fun r hr r' hr' => ?_).symm
    · exact hm.llb_codes.trans (hb.symm.trans hm'.llb_codes.symm)
    · exact hraw r (mem_append_left _ hr) r' (mem_append_left _ hr')
  · apply (eq_of_map_eq (f := code) ?_ fun r hr r' hr' => ?_).symm
    · exact hm.lla_codes.trans (ha.symm.trans hm'.lla_codes.symm)
    · exact hraw r (mem_append_right _ hr) r' (mem_append_right _ hr')

/-! ## What is asked of the result -/

def RateSets.received (s : RateSets) : List UInt8 := s.oper_rate_set ++ s.ext_rate_set

def Fits (s : RateSets) : Prop :=
  s.received.length ≤ 12 ∨ (codes s.received).dedup.length ≤ 12
deriving Decidable

def bExpected (s : RateSets) : List Nat :=
  bcodes.filter fun c => c ∈ codes s.own ∧ c ∈ codes s.received

def aExpected (s : RateSets) : List Nat :=
  acodes.filter fun c => c ∈ codes s.own ∧ c ∈ codes s.received

def Exact (s : RateSets) (rates : SupportedRates) : Prop :=
  codes rates.llbRates = bExpected s ∧ codes rates.llaRates = aExpected s

/-- The tables have the legacy rates in both sets, if those of the peer fit, and do not depend on
the order of the rates in any set. -/
def Meets (s : RateSets) : Prop :=
  ∃ rates, lim_populate_matching_rate_set s = some (.success rates) ∧ (Fits s → Exact s rates) ∧
    ∀ t, Reordered s t → ∃ rates', lim_populate_matching_rate_set t = some (.success rates') ∧
      rates'.llbRates = rates.llbRates ∧ rates'.llaRates = rates.llaRates

/-- The rates in both sets that are not a/g rates are b rates; or all b rates are in both sets and
the others that are have higher codes. -/
def FitsWell (s : RateSets) : Prop :=
  (∀ c ∈ codes s.own, c ∈ codes s.received → c ∉ acodes → c ∈ bcodes) ∨
    (∀ c ∈ bcodes, c ∈ codes s.own ∧ c ∈ codes s.received) ∧
      ∀ c ∈ codes s.own, c ∈ codes s.received → c ∉ acodes → c ∉ bcodes → 22 < c

/-- At least four rates with a code below `c` that are not a/g rates are in the session's set and
in the operational set of the peer. -/
def Crowded (s : RateSets) (c : Nat) : Prop :=
  SIR_NUM_11B_RATES ≤ (codes s.own).countP fun d =>
    decide (d ∈ codes s.oper_rate_set ∧ d ∉ acodes) && decide (d < c)

/-- The rate 0x7f may or may not be the first of the session, by the order of its set. -/
def MarkMoves (s : RateSets) : Prop :=
  (0x7f ∈ s.rateSet ∧ 2 ≤ s.rateSet.length) ∨
    (s.rateSet = [] ∧ 0x7f ∈ s.own ∧ 2 ≤ s.own.length)

/-- Rates of the session that only the extended set of the peer has find no room in the tables, and
neither does the rate 0x7f if it can move. -/
def MoreWell (s : RateSets) : Prop :=
  (s.oper_rate_set.length < 12 → ∀ c ∈ codes s.ext_rate_set, c ∉ codes s.oper_rate_set →
    c ∈ codes s.own → c ∉ acodes ∧ Crowded s c) ∧
    (MarkMoves s → markCode ∈ codes s.oper_rate_set → Crowded s markCode)

def Well (s : RateSets) : Prop := if Fits s then FitsWell s else MoreWell s

variable {s t : RateSets}

/-! ## A peer with at most 12 rates -/

theorem mem_codes_append {l l' : List UInt8} :
    c ∈ codes (l ++ l') ↔ c ∈ codes l ∨ c ∈ codes l' := by
  unfold codes
  rw [map_append, mem_append]

theorem mem_missing {oper ext : List UInt8} :
    c ∈ codes (missing oper ext) ↔ c ∈ codes ext ∧ c ∉ codes oper := by
  unfold missing
  rw [mem_codes, mem_codes]
  constructor
  · rintro ⟨r, hr, rfl⟩
    rw [mem_filter, decide_eq_true_iff] at hr; exact ⟨⟨r, hr.1, rfl⟩, hr.2⟩
  · rintro ⟨⟨r, hr, rfl⟩, hnot⟩; exact ⟨r, mem_filter.mpr ⟨hr, decide_eq_true hnot⟩, rfl⟩

theorem missing_nodup (h : Allowed s) :
    (codes (missing s.oper_rate_set s.ext_rate_set)).Nodup :=
  h.ext_nodup.sublist (filter_sublist.map code)

theorem length_missing (h : Allowed s) (hfits : Fits s) (hmore : ¬ s.received.length ≤ 12) :
    (missing s.oper_rate_set s.ext_rate_set).length ≤ 12 - s.oper_rate_set.length := by
  have hdedup := hfits.resolve_left hmore
  have hnodup : (codes (s.oper_rate_set ++ missing s.oper_rate_set s.ext_rate_set)).Nodup := by
    unfold codes
    rw [map_append, nodup_append']
    refine ⟨h.oper_nodup, missing_nodup h, ?_⟩
    intro c hoper hmissing; exact (mem_missing.mp hmissing).2 hoper
  have hsub : codes (s.oper_rate_set ++ missing s.oper_rate_set s.ext_rate_set) ⊆
      (codes s.received).dedup := by
    intro c hc
    rw [mem_dedup]
    unfold RateSets.received
    rw [mem_codes_append] at hc ⊢
    exact hc.imp_right fun hc => (mem_missing.mp hc).1
  have hle := (subperm_of_subset hnodup hsub).length_le
  unfold codes at hle hdedup
  rw [length_map, length_append] at hle; omega

theorem mem_peer (h : Allowed s) (hfits : Fits s) : c ∈ codes s.peer ↔ c ∈ codes s.received := by
  unfold RateSets.peer collected
  by_cases hsum : s.oper_rate_set.length + s.ext_rate_set.length ≤ 12
  · rw [if_pos hsum]; rfl
  · have hmore : ¬ s.received.length ≤ 12 := by unfold RateSets.received; rwa [length_append]
    rw [if_neg hsum, take_of_length_le (length_missing h hfits hmore)]
    unfold RateSets.received
    rw [mem_codes_append, mem_codes_append, mem_missing]
    constructor
    · rintro (hc | hc)
      · exact Or.inl hc
      · exact Or.inr hc.1
    · intro hc
      by_cases hoper : c ∈ codes s.oper_rate_set
      · exact Or.inl hoper
      · exact Or.inr ⟨hc.resolve_left hoper, hoper⟩

theorem bcodes_increasing : bcodes.Pairwise (· < ·) := by decide

theorem acodes_increasing : acodes.Pairwise (· < ·) := by decide

theorem aMatch_eq (h : Allowed s) (hfits : Fits s) : aMatch s = aExpected s := by
  apply ((ordered_increasing h.own_nodup).filter _).eq_of_mem_iff (acodes_increasing.filter _)
  intro c
  show c ∈ aMatch s ↔ _
  rw [mem_aMatch, mem_peer h hfits, mem_filter, decide_eq_true_iff]
  tauto

theorem bMatch_eq_iff (h : Allowed s) (hfits : Fits s) :
    (bMatch s).take SIR_NUM_11B_RATES = bExpected s ↔ FitsWell s := by
  have hincr := bMatch_increasing h
  have hmem : ∀ {c : Nat}, c ∈ bMatch s ↔ c ∈ codes s.own ∧ c ∈ codes s.received ∧ c ∉ acodes := by
    intro c
    rw [mem_bMatch, mem_peer h hfits]
  have hexpected : ∀ {c : Nat}, c ∈ bExpected s ↔ c ∈ bMatch s ∧ c ∈ bcodes := by
    intro c
    have hna : c ∈ bcodes → c ∉ acodes := by
      intro hb ha; exact absurd ha ((show ∀ c ∈ bcodes, c ∉ acodes by decide) c hb)
    unfold bExpected
    rw [mem_filter, decide_eq_true_iff, hmem]
    tauto
  constructor
  · intro heq
    by_cases hall : ∀ c ∈ bMatch s, c ∈ bcodes
    · exact Or.inl fun c hown hpeer hna => hall c (hmem.mpr ⟨hown, hpeer, hna⟩)
    · push Not at hall
      obtain ⟨x, hx, hxb⟩ := hall
      have hout : x ∉ (bMatch s).take SIR_NUM_11B_RATES := by
        rw [heq, hexpected]; exact fun hin => hxb hin.2
      -- the table is full, and so of the four b rates
      have hfull : (bExpected s).length = 4 := by
        rw [← heq, length_take]
        apply Nat.min_eq_left
        by_contra hshort
        rw [take_of_length_le (Nat.le_of_not_le hshort)] at hout; exact hout hx
      have hbs : bExpected s = bcodes := by
        apply List.Sublist.eq_of_length (filter_sublist)
        exact hfull
      right
      constructor
      · intro c hc
        rw [← hbs, hexpected, hmem] at hc; exact ⟨hc.1.1, hc.1.2.1⟩
      · intro c hown hpeer hna hcb
        have hcin := hmem.mpr ⟨hown, hpeer, hna⟩
        have hcout : c ∉ (bMatch s).take SIR_NUM_11B_RATES := by
          rw [heq, hexpected]; exact fun hin => hcb hin.2
        by_contra hle
        have hlast : 22 ∈ (bMatch s).take SIR_NUM_11B_RATES := by rw [heq, hbs]; decide
        -- what is below one of the first four is one of them
        rw [mem_take_iff hincr] at hcout hlast
        apply hcout
        refine ⟨hcin, Nat.lt_of_le_of_lt (countP_mono_left ?_) hlast.2⟩
        intro y _ hy
        rw [decide_eq_true_iff] at hy ⊢
        omega
  · intro hwell
    apply (hincr.sublist (take_sublist _ _)).eq_of_mem_iff (bcodes_increasing.filter _)
    intro c
    show _ ↔ c ∈ bExpected s
    rw [mem_take_iff hincr, hexpected]
    rcases hwell with hall | ⟨hbs, habove⟩
    · have hsub : bMatch s ⊆ bcodes := fun c hc =>
        hall c (hmem.mp hc).1 (hmem.mp hc).2.1 (hmem.mp hc).2.2
      constructor
      · intro hc; exact ⟨hc.1, hsub hc.1⟩
      · intro hc
        refine ⟨hc.1, ?_⟩
        have hlen := (subperm_of_subset (hincr.imp Nat.ne_of_lt) hsub).length_le
        have hlt : (bMatch s).countP (fun y => y < c) < (bMatch s).length := by
          apply Nat.lt_of_le_of_ne countP_le_length
          intro heq
          have hself := countP_eq_length.mp heq c hc.1
          exact absurd (of_decide_eq_true hself) (Nat.lt_irrefl c)
        exact Nat.lt_of_lt_of_le hlt hlen
    · have hbin : ∀ b ∈ bcodes, b ∈ bMatch s := by
        intro b hb
        have hna := (show ∀ c ∈ bcodes, c ∉ acodes by decide) b hb
        exact hmem.mpr ⟨(hbs b hb).1, (hbs b hb).2, hna⟩
      constructor
      · intro hc
        refine ⟨hc.1, ?_⟩
        by_contra hcb
        have hgt := habove c (hmem.mp hc.1).1 (hmem.mp hc.1).2.1 (hmem.mp hc.1).2.2 hcb
        -- the four b rates are below
        have hfour : 4 ≤ (bMatch s).countP fun y => y < c := by
          rw [countP_eq_length_filter]
          apply (subperm_of_subset (bcodes_increasing.imp Nat.ne_of_lt) ?_).length_le
          intro b hb
          have hle := (show ∀ b ∈ bcodes, b ≤ 22 by decide) b hb
          exact mem_filter.mpr ⟨hbin b hb, decide_eq_true (by omega)⟩
        exact absurd hc.2 (Nat.not_lt_of_le hfour)
      · intro hc
        refine ⟨hc.1, ?_⟩
        have hsub : ∀ y ∈ (bMatch s).filter (fun y => y < c), y ∈ bcodes.erase 22 := by
          intro y hy
          rw [mem_filter, decide_eq_true_iff] at hy
          have hle := (show ∀ b ∈ bcodes, b ≤ 22 by decide) c hc.2
          have hyb : y ∈ bcodes := by
            by_contra hyb
            have hgt := habove y (hmem.mp hy.1).1 (hmem.mp hy.1).2.1 (hmem.mp hy.1).2.2 hyb
            omega
          exact (mem_erase_of_ne (by omega)).mpr hyb
        have hlen := (subperm_of_subset ((hincr.filter _).imp Nat.ne_of_lt) hsub).length_le
        rw [← countP_eq_length_filter] at hlen; exact Nat.lt_of_le_of_lt hlen (by decide)

theorem Reordered.received (h : Reordered s t) : t.received.Perm s.received :=
  h.oper.append h.ext

theorem Reordered.fits (h : Reordered s t) (hfits : Fits s) : Fits t := by
  unfold Fits at hfits ⊢
  rw [h.received.length_eq, (codes_perm h.received).dedup.length_eq]; exact hfits

theorem Reordered.bMatch_eq (h : Reordered s t)
    (hpeer : ∀ c, c ∈ codes t.peer ↔ c ∈ codes s.peer) : bMatch t = bMatch s := by
  unfold bMatch
  rw [ordered_perm h.own]
  apply filter_congr
  intro c _
  rw [decide_eq_decide, hpeer c]

theorem Reordered.aMatch_eq (h : Reordered s t)
    (hpeer : ∀ c, c ∈ codes t.peer ↔ c ∈ codes s.peer) : aMatch t = aMatch s := by
  unfold aMatch
  rw [ordered_perm h.own]
  apply filter_congr
  intro c _
  rw [decide_eq_decide, hpeer c]

theorem meets_iff_of_fits (h : Allowed s) (hfits : Fits s) : Meets s ↔ FitsWell s := by
  constructor
  · rintro ⟨rates, hrun, hexact, _⟩
    obtain ⟨rates', hrun', hm⟩ := populate_matched h
    rw [hrun] at hrun'
    cases hrun'
    rw [← bMatch_eq_iff h hfits, ← hm.llb_codes]; exact (hexact hfits).1
  · intro hwell
    obtain ⟨rates, hrun, hm⟩ := populate_matched h
    have hb := (bMatch_eq_iff h hfits).mpr hwell
    have ha := aMatch_eq h hfits
    refine ⟨rates, hrun, fun _ => ⟨hm.llb_codes.trans hb, hm.lla_codes.trans ha⟩, ?_⟩
    intro t ht
    have hallowed := ht.allowed h
    obtain ⟨rates', hrun', hm'⟩ := populate_matched hallowed
    have hpeer : ∀ c, c ∈ codes t.peer ↔ c ∈ codes s.peer := by
      intro c
      rw [mem_peer h hfits, mem_peer hallowed (ht.fits hfits)]
      exact (codes_perm ht.received).mem_iff
    refine ⟨rates', hrun', ht.tables_eq h hm hm' ?_ (ht.aMatch_eq hpeer) ?_⟩
    · rw [ht.bMatch_eq hpeer]
    · intro hmark
      rw [hb] at hmark; exact absurd (mem_of_mem_filter hmark) (by decide)

/-! ## A peer with more rates -/

theorem sum_of_not_fits (hmore : ¬ Fits s) :
    ¬ s.oper_rate_set.length + s.ext_rate_set.length ≤ 12 := by
  intro hsum
  apply hmore
  left
  unfold RateSets.received; rwa [length_append]

theorem peer_of_not_fits (hmore : ¬ Fits s) :
    s.peer = s.oper_rate_set ++
      (missing s.oper_rate_set s.ext_rate_set).take (12 - s.oper_rate_set.length) :=
  if_neg (sum_of_not_fits hmore)

theorem oper_subset_peer (hmore : ¬ Fits s) (hc : c ∈ codes s.oper_rate_set) :
    c ∈ codes s.peer := by rw [peer_of_not_fits hmore, mem_codes_append]; exact Or.inl hc

theorem mem_peer_more (hmore : ¬ Fits s) (hc : c ∈ codes s.peer)
    (hoper : c ∉ codes s.oper_rate_set) :
    s.oper_rate_set.length < 12 ∧ c ∈ codes s.ext_rate_set := by
  rw [peer_of_not_fits hmore, mem_codes_append] at hc
  have hmissing := hc.resolve_left hoper
  constructor
  · by_contra hfull
    rw [Nat.sub_eq_zero_of_le (Nat.le_of_not_lt hfull), take_zero] at hmissing
    cases hmissing
  · have hin : c ∈ codes (missing s.oper_rate_set s.ext_rate_set) :=
      ((take_sublist _ _).map code).subset hmissing
    exact (mem_missing.mp hin).1

/-- The session's rates in the operational set that are not a/g rates. -/
def bOper (s : RateSets) : List Nat :=
  (ordered s.own).filter fun c => c ∈ codes s.oper_rate_set ∧ c ∉ acodes

theorem bOper_increasing (h : Allowed s) : (bOper s).Pairwise (· < ·) :=
  (ordered_increasing h.own_nodup).filter _

theorem countP_ordered (own : List UInt8) (p : Nat → Bool) :
    (ordered own).countP p = (codes own).countP p :=
  (perm_insertionSort _ _).countP_eq p

theorem countP_bOper (s : RateSets) (c : Nat) :
    (bOper s).countP (fun d => d < c) = (codes s.own).countP fun d =>
      decide (d ∈ codes s.oper_rate_set ∧ d ∉ acodes) && decide (d < c) := by
  unfold bOper
  rw [countP_filter, countP_ordered]; exact countP_congr fun d _ => by rw [Bool.and_comm]

theorem Crowded.mono {c d : Nat} (h : Crowded s c) (hcd : c ≤ d) : Crowded s d := by
  apply Nat.le_trans h
  apply countP_mono_left
  intro x _ hx
  rw [Bool.and_eq_true, decide_eq_true_iff, decide_eq_true_iff] at hx ⊢
  exact ⟨hx.1, Nat.lt_of_lt_of_le hx.2 hcd⟩

def ExtHidden (s : RateSets) : Prop :=
  s.oper_rate_set.length < 12 → ∀ c ∈ codes s.ext_rate_set, c ∉ codes s.oper_rate_set →
    c ∈ codes s.own → c ∉ acodes ∧ Crowded s c

theorem ExtHidden.bMatch_eq (hhidden : ExtHidden s) (h : Allowed s) (hmore : ¬ Fits s) :
    (bMatch s).take SIR_NUM_11B_RATES = (bOper s).take SIR_NUM_11B_RATES := by
  apply take_filter_eq (ordered_increasing h.own_nodup)
  · intro c _ hc
    rw [decide_eq_true_iff] at hc ⊢
    exact ⟨oper_subset_peer hmore hc.1, hc.2⟩
  · intro c hown hpeer hoper
    rw [decide_eq_true_iff] at hpeer
    rw [decide_eq_false_iff_not] at hoper
    have hnot : c ∉ codes s.oper_rate_set := fun hin => hoper ⟨hin, hpeer.2⟩
    obtain ⟨hroom, hext⟩ := mem_peer_more hmore hpeer.1 hnot
    have hcrowded := (hhidden hroom c hext hnot (mem_ordered.mp hown)).2
    rw [countP_ordered]; exact hcrowded

theorem ExtHidden.aMatch_eq (hhidden : ExtHidden s) (hmore : ¬ Fits s) :
    aMatch s = (ordered s.own).filter fun c => c ∈ codes s.oper_rate_set ∧ c ∈ acodes := by
  apply filter_congr
  intro c hown
  rw [decide_eq_decide]
  constructor
  · rintro ⟨hpeer, ha⟩
    refine ⟨?_, ha⟩
    by_contra hnot
    obtain ⟨hroom, hext⟩ := mem_peer_more hmore hpeer hnot
    exact (hhidden hroom c hext hnot (mem_ordered.mp hown)).1 ha
  · rintro ⟨hoper, ha⟩; exact ⟨oper_subset_peer hmore hoper, ha⟩

theorem Reordered.symm (h : Reordered s t) : Reordered t s where
  phy_mode := h.phy_mode.symm
  rateSet := h.rateSet.symm
  extRateSet := h.extRateSet.symm
  oper := h.oper.symm
  ext := h.ext.symm

theorem Reordered.mem_oper (h : Reordered s t) :
    c ∈ codes t.oper_rate_set ↔ c ∈ codes s.oper_rate_set :=
  (codes_perm h.oper).mem_iff

theorem Reordered.crowded (h : Reordered s t) (hc : Crowded s c) : Crowded t c := by
  unfold Crowded
  rw [(codes_perm h.own).countP_eq]
  apply Nat.le_trans hc
  apply countP_mono_left
  intro d _ hd
  rw [Bool.and_eq_true, decide_eq_true_iff, h.mem_oper]
  rw [Bool.and_eq_true, decide_eq_true_iff] at hd; exact hd

theorem Reordered.extHidden (h : Reordered s t) (hs : ExtHidden s) : ExtHidden t := by
  intro hroom c hext hoper hown
  rw [h.oper.length_eq] at hroom
  obtain ⟨hna, hcrowded⟩ := hs hroom c ((codes_perm h.ext).mem_iff.mp hext)
    (fun hin => hoper (h.mem_oper.mpr hin)) ((codes_perm h.own).mem_iff.mp hown)
  exact ⟨hna, h.crowded hcrowded⟩

/-! ## The rate with the code of the marker -/

theorem code_eq_mark {r : UInt8} (h : code r = markCode) : r = 0x7f ∨ r = 0xff := by
  have hmod : r.toNat % 2 ^ 7 = 127 := by rw [← Nat.and_two_pow_sub_one_eq_mod]; exact h
  have hlt := r.toNat_lt
  rcases (by omega : r.toNat = 127 ∨ r.toNat = 255) with heq | heq
  · exact Or.inl (UInt8.toNat_inj.mp heq)
  · exact Or.inr (UInt8.toNat_inj.mp heq)

theorem markOf_eq (own : List UInt8) :
    markOf own = if own.head? = some 0x7f then 0x7f else 0xff := by
  cases own with
  | nil => rfl
  | cons a rest =>
    unfold markOf
    dsimp only
    rw [head?_cons]
    by_cases hmark : code a = markCode
    · rcases code_eq_mark hmark with rfl | rfl
      · rfl
      · rfl
    · have hne : ¬ some a = some 0x7f := by
        intro heq
        rw [Option.some.inj heq] at hmark; exact hmark (by decide)
      rw [if_neg hmark, if_neg hne]

theorem head_perm {l l' : List UInt8} {x : UInt8} (h : l'.Perm l) (hx : x ∈ l → l.length < 2) :
    l'.head? = some x ↔ l.head? = some x := by
  by_cases hin : x ∈ l
  · have hlen := hx hin
    match l with
    | [] => rw [h.eq_nil]
    | [y] => rw [perm_singleton.mp h]
    | _ :: _ :: _ => exact absurd hlen (by rw [length_cons, length_cons]; omega)
  · constructor
    · intro hhead; exact absurd (h.mem_iff.mp (mem_of_head? hhead)) hin
    · intro hhead; exact absurd (mem_of_head? hhead) hin

theorem own_of_nil (h : s.rateSet = []) :
    s.own = if s.phy_mode = WNI_CFG_PHY_MODE_11G then s.extRateSet else [] := by
  unfold RateSets.own
  rw [h, nil_append]

theorem head_own (h : s.rateSet ≠ []) : s.own.head? = s.rateSet.head? :=
  head?_append_of_ne_nil _ h

theorem Reordered.markOf_eq (h : Reordered s t) (hstays : ¬ MarkMoves s) :
    markOf t.own = markOf s.own := by
  have hhead : t.own.head? = some 0x7f ↔ s.own.head? = some 0x7f := by
    by_cases hnil : s.rateSet = []
    · apply head_perm h.own
      intro hin
      by_contra hlen
      exact hstays (Or.inr ⟨hnil, hin, Nat.le_of_not_lt hlen⟩)
    · have hnil' : t.rateSet ≠ [] := by
        intro heq
        have hperm := h.rateSet
        rw [heq] at hperm; exact hnil hperm.nil_eq.symm
      rw [head_own hnil, head_own hnil']
      apply head_perm h.rateSet
      intro hin
      by_contra hlen
      exact hstays (Or.inl ⟨hin, Nat.le_of_not_lt hlen⟩)
  rw [LimRates.markOf_eq, LimRates.markOf_eq]
  by_cases hs : s.own.head? = some 0x7f
  · rw [if_pos hs, if_pos (hhead.mpr hs)]
  · rw [if_neg hs, if_neg fun ht => hs (hhead.mp ht)]

theorem meets_of_moreWell (h : Allowed s) (hmore : ¬ Fits s) (hwell : MoreWell s) : Meets s := by
  have hhidden : ExtHidden s := hwell.1
  obtain ⟨rates, hrun, hm⟩ := populate_matched h
  refine ⟨rates, hrun, fun hfits => absurd hfits hmore, ?_⟩
  intro t ht
  have hallowed := ht.allowed h
  have hmore' : ¬ Fits t := fun hfits => hmore (ht.symm.fits hfits)
  have hhidden' := ht.extHidden hhidden
  obtain ⟨rates', hrun', hm'⟩ := populate_matched hallowed
  refine ⟨rates', hrun', ht.tables_eq h hm hm' ?_ ?_ ?_⟩
  · rw [hhidden.bMatch_eq h hmore, hhidden'.bMatch_eq hallowed hmore']
    unfold bOper
    rw [ordered_perm ht.own]
    congr 1
    apply filter_congr
    intro c _
    rw [decide_eq_decide, ht.mem_oper]
  · rw [hhidden.aMatch_eq hmore, hhidden'.aMatch_eq hmore', ordered_perm ht.own]
    apply filter_congr
    intro c _
    rw [decide_eq_decide, ht.mem_oper]
  · intro hmark
    rw [hhidden.bMatch_eq h hmore, mem_take_iff (bOper_increasing h)] at hmark
    have hoper := (of_decide_eq_true (mem_filter.mp hmark.1).2).1
    have hfew : ¬ Crowded s markCode := by
      unfold Crowded
      rw [← countP_bOper]; exact Nat.not_le_of_lt hmark.2
    exact ht.markOf_eq fun hmoves => hfew (hwell.2 hmoves hoper)

theorem Meets.same (hmeets : Meets s) (h : Allowed s) (ht : Reordered s t) :
    (bMatch t).take SIR_NUM_11B_RATES = (bMatch s).take SIR_NUM_11B_RATES ∧
      aMatch t = aMatch s := by
  obtain ⟨rates, hrun, _, horder⟩ := hmeets
  obtain ⟨rates', hrun', hllb, hlla⟩ := horder t ht
  obtain ⟨rates₁, hrun₁, hm⟩ := populate_matched h
  obtain ⟨rates₂, hrun₂, hm'⟩ := populate_matched (ht.allowed h)
  rw [hrun] at hrun₁
  cases hrun₁
  rw [hrun'] at hrun₂
  cases hrun₂
  rw [← hm.llb_codes, ← hm'.llb_codes, ← hm.lla_codes, ← hm'.lla_codes, hllb, hlla]
  exact ⟨rfl, rfl⟩

def RateSets.withExt (s : RateSets) (ext : List UInt8) : RateSets := { s with ext_rate_set := ext }

theorem reordered_withExt {ext : List UInt8} (h : ext.Perm s.ext_rate_set) :
    Reordered s (s.withExt ext) :=
  ⟨rfl, Perm.refl _, Perm.refl _, Perm.refl _, h⟩

theorem mem_peer_first (hmore : ¬ Fits s) (hroom : s.oper_rate_set.length < 12) {e : UInt8}
    {rest : List UInt8} (hext : s.ext_rate_set = e :: rest) (hnew : code e ∉ codes s.oper_rate_set) :
    code e ∈ codes s.peer := by
  obtain ⟨k, hk⟩ : ∃ k, 12 - s.oper_rate_set.length = k + 1 :=
    ⟨12 - s.oper_rate_set.length - 1, by omega⟩
  have hcons : missing s.oper_rate_set s.ext_rate_set = e :: missing s.oper_rate_set rest := by
    rw [hext]; exact filter_cons_of_pos (decide_eq_true hnew)
  rw [peer_of_not_fits hmore, hcons, hk, take_succ_cons, mem_codes_append]
  exact Or.inr mem_cons_self

theorem not_mem_peer_last (h : Allowed s) (hmore : ¬ Fits s) {e : UInt8} {rest : List UInt8}
    (hext : s.ext_rate_set = rest ++ [e]) (hnew : code e ∉ codes s.oper_rate_set) :
    code e ∉ codes s.peer := by
  have hlast : missing s.oper_rate_set s.ext_rate_set = missing s.oper_rate_set rest ++ [e] := by
    rw [hext]
    have hsingle : missing s.oper_rate_set [e] = [e] :=
      filter_cons_of_pos (decide_eq_true hnew)
    unfold missing at hsingle ⊢
    rw [filter_append, hsingle]
  have hmany : 12 - s.oper_rate_set.length ≤ (missing s.oper_rate_set rest).length := by
    have hdedup : 12 < (codes s.received).dedup.length := by
      by_contra hle
      exact hmore (Or.inr (Nat.le_of_not_lt hle))
    have hsub : (codes s.received).dedup ⊆
        codes (s.oper_rate_set ++ (missing s.oper_rate_set rest ++ [e])) := by
      intro c hc
      rw [mem_dedup] at hc
      unfold RateSets.received at hc
      rw [mem_codes_append] at hc ⊢
      by_cases hoper : c ∈ codes s.oper_rate_set
      · exact Or.inl hoper
      · rw [← hlast]; exact Or.inr (mem_missing.mpr ⟨hc.resolve_left hoper, hoper⟩)
    have hle := (subperm_of_subset (nodup_dedup _) hsub).length_le
    unfold codes at hle hdedup
    rw [length_map, length_append, length_append, length_singleton] at hle; omega
  have hnodup := h.ext_nodup
  rw [hext] at hnodup
  unfold codes at hnodup
  rw [map_append, nodup_append'] at hnodup
  rw [peer_of_not_fits hmore, hlast, take_append_of_le_length hmany, mem_codes_append]
  rintro (hin | hin)
  · exact hnew hin
  · have hrest : code e ∈ codes (missing s.oper_rate_set rest) :=
      ((take_sublist _ _).map code).subset hin
    exact hnodup.2.2 (mem_missing.mp hrest).1 mem_cons_self

theorem Meets.extHidden (hmeets : Meets s) (h : Allowed s) (hmore : ¬ Fits s) : ExtHidden s := by
  intro hroom c
  -- by the code of the rate, so that those below it are known not to show
  induction c using Nat.strong_induction_on with
  | _ c ih =>
    intro hext hoper hown
    obtain ⟨e, he, rfl⟩ := mem_codes.mp hext
    have hfirst := perm_cons_erase he
    have hlast : (s.ext_rate_set.erase e ++ [e]).Perm s.ext_rate_set :=
      (perm_append_singleton _ _).trans hfirst.symm
    have ht := reordered_withExt hfirst.symm
    have hu := reordered_withExt hlast
    have hmore' : ∀ {t : RateSets}, Reordered s t → ¬ Fits t := fun ht hfits =>
      hmore (ht.symm.fits hfits)
    have hin := mem_peer_first (hmore' ht) hroom rfl hoper
    have hout := not_mem_peer_last (hu.allowed h) (hmore' hu) rfl hoper
    obtain ⟨hbt, hat⟩ := hmeets.same h ht
    obtain ⟨hbu, hau⟩ := hmeets.same h hu
    have hna : code e ∉ acodes := by
      intro ha
      have hshown : code e ∈ aMatch (s.withExt (e :: s.ext_rate_set.erase e)) :=
        mem_aMatch.mpr ⟨hown, hin, ha⟩
      rw [hat, ← hau] at hshown; exact hout (mem_aMatch.mp hshown).2.1
    refine ⟨hna, ?_⟩
    by_contra hfew
    apply hout
    have hshown : code e ∈ (bMatch (s.withExt (e :: s.ext_rate_set.erase e))).take
        SIR_NUM_11B_RATES := by
      rw [mem_take_iff (bMatch_increasing (ht.allowed h))]
      refine ⟨mem_bMatch.mpr ⟨hown, hin, hna⟩, ?_⟩
      apply Nat.lt_of_le_of_lt _ (Nat.lt_of_not_le hfew)
      rw [← countP_bOper, countP_eq_length_filter, countP_eq_length_filter]
      have hnodup : ((bMatch (s.withExt (e :: s.ext_rate_set.erase e))).filter
          fun d => d < code e).Nodup :=
        ((bMatch_increasing (ht.allowed h)).filter _).imp Nat.ne_of_lt
      apply (subperm_of_subset hnodup ?_).length_le
      intro d hd
      obtain ⟨hd, hless⟩ := mem_filter.mp hd
      obtain ⟨hdown, hdpeer, hdna⟩ := mem_bMatch.mp hd
      apply mem_filter.mpr
      refine ⟨mem_filter.mpr ⟨mem_ordered.mpr hdown, ?_⟩, hless⟩
      apply decide_eq_true
      refine ⟨?_, hdna⟩
      by_contra hdoper
      have hdext := (mem_peer_more (hmore' ht) hdpeer hdoper).2
      have hcrowded := (ih d (of_decide_eq_true hless)
        ((codes_perm ht.ext).mem_iff.mp hdext) hdoper hdown).2
      exact hfew (hcrowded.mono (Nat.le_of_lt (of_decide_eq_true hless)))
    rw [hbt, ← hbu] at hshown; exact (mem_bMatch.mp (mem_of_mem_take hshown)).2.1

theorem MarkMoves.orders (hmoves : MarkMoves s) (h : Allowed s) :
    0x7f ∈ s.own ∧ ∃ t u, Reordered s t ∧ Reordered s u ∧
      markOf t.own = 0x7f ∧ markOf u.own = 0xff := by
  have hlist : ∀ l : List UInt8, l.Nodup → 0x7f ∈ l → 2 ≤ l.length →
      (l.erase 0x7f ++ [0x7f]).head? ≠ some 0x7f ∧ l.erase 0x7f ≠ [] := by
    intro l hnodup hin hlen
    have hne : l.erase 0x7f ≠ [] := by
      intro hnil
      have herase := length_erase_of_mem hin
      rw [hnil, length_nil] at herase; omega
    refine ⟨?_, hne⟩
    rw [head?_append_of_ne_nil _ hne]
    intro hhead; exact absurd (mem_of_head? hhead) hnodup.not_mem_erase
  have hnodup : s.own.Nodup := List.Nodup.of_map code h.own_nodup
  have hmark : ∀ l : List UInt8, (l.head? = some 0x7f → markOf l = 0x7f) ∧
      (l.head? ≠ some 0x7f → markOf l = 0xff) := by
    intro l
    rw [markOf_eq]; exact ⟨fun heq => if_pos heq, fun hne => if_neg hne⟩
  rcases hmoves with ⟨hin, hlen⟩ | ⟨hnil, hin, hlen⟩
  · have hsub : s.rateSet.Nodup := hnodup.sublist (sublist_append_left _ _)
    obtain ⟨hlast, hne⟩ := hlist s.rateSet hsub hin hlen
    have hfirst := perm_cons_erase hin
    refine ⟨mem_append_left _ hin, { s with rateSet := 0x7f :: s.rateSet.erase 0x7f },
      { s with rateSet := s.rateSet.erase 0x7f ++ [0x7f] }, ?_, ?_, ?_, ?_⟩
    · exact ⟨rfl, hfirst.symm, Perm.refl _, Perm.refl _, Perm.refl _⟩
    · exact ⟨rfl, (perm_append_singleton _ _).trans hfirst.symm, Perm.refl _,
        Perm.refl _, Perm.refl _⟩
    · exact (hmark _).1 rfl
    · apply (hmark _).2
      rw [head_own (append_ne_nil_of_left_ne_nil hne _)]; exact hlast
  · have hown := own_of_nil hnil
    have hphy : s.phy_mode = WNI_CFG_PHY_MODE_11G := by
      by_contra hphy
      rw [hown, if_neg hphy] at hin
      cases hin
    rw [if_pos hphy] at hown
    have hin' := hin
    rw [hown] at hnodup hin' hlen
    obtain ⟨hlast, _⟩ := hlist s.extRateSet hnodup hin' hlen
    have hfirst := perm_cons_erase hin'
    have hown' : ∀ ext : List UInt8, RateSets.own { s with extRateSet := ext } = ext := by
      intro ext
      unfold RateSets.own
      rw [hnil, if_pos hphy]; rfl
    refine ⟨hin, { s with extRateSet := 0x7f :: s.extRateSet.erase 0x7f },
      { s with extRateSet := s.extRateSet.erase 0x7f ++ [0x7f] }, ?_, ?_, ?_, ?_⟩
    · exact ⟨rfl, Perm.refl _, hfirst.symm, Perm.refl _, Perm.refl _⟩
    · exact ⟨rfl, Perm.refl _, (perm_append_singleton _ _).trans hfirst.symm,
        Perm.refl _, Perm.refl _⟩
    · rw [hown']; rfl
    · apply (hmark _).2
      rw [hown']; exact hlast

theorem Meets.moreWell (hmeets : Meets s) (h : Allowed s) (hmore : ¬ Fits s) : MoreWell s := by
  have hhidden := hmeets.extHidden h hmore
  refine ⟨hhidden, fun hmoves hoper => ?_⟩
  by_contra hfew
  obtain ⟨hin, t, u, ht, hu, htmark, humark⟩ := hmoves.orders h
  -- the rate is in the table of b rates, whatever the order
  have hshown : markCode ∈ (bMatch s).take SIR_NUM_11B_RATES := by
    rw [hhidden.bMatch_eq h hmore, mem_take_iff (bOper_increasing h), countP_bOper]
    refine ⟨?_, Nat.lt_of_not_le hfew⟩
    apply mem_filter.mpr
    exact ⟨mem_ordered.mpr (mem_codes.mpr ⟨0x7f, hin, by decide⟩), decide_eq_true ⟨hoper, by decide⟩⟩
  obtain ⟨rates, hrun, _, horder⟩ := hmeets
  have hmarked : ∀ {t : RateSets}, Reordered s t →
      ∀ r ∈ rates.llbRates, code r = markCode → r = markOf t.own := by
    intro t ht r hr hcode
    obtain ⟨rates₁, hrun₁, hllb, _⟩ := horder t ht
    obtain ⟨rates₂, hrun₂, hm⟩ := populate_matched (ht.allowed h)
    rw [hrun₁] at hrun₂
    cases hrun₂
    rw [← hllb] at hr; exact hm.marked r (mem_append_left _ hr) hcode
  obtain ⟨rates₁, hrun₁, hm⟩ := populate_matched h
  rw [hrun] at hrun₁
  cases hrun₁
  rw [← hm.llb_codes] at hshown
  obtain ⟨r, hr, hcode⟩ := mem_codes.mp hshown
  have hfirst := hmarked ht r hr hcode
  have hlast := hmarked hu r hr hcode
  rw [hfirst, htmark, humark] at hlast; exact absurd hlast (by decide)

/-- The function stays within its tables. It takes the legacy rates in both sets, whatever the
order of the rates in each set, exactly if the sets are as they should be: see `Well`. -/
theorem matching_rate_set_iff (s : RateSets) (h : Allowed s) :
    (∃ rates, lim_populate_matching_rate_set s = some (.success rates)) ∧ (Meets s ↔ Well s) := by
  obtain ⟨rates, hrun, _⟩ := populate_matched h
  refine ⟨⟨rates, hrun⟩, ?_⟩
  unfold Well
  by_cases hfits : Fits s
  · rw [if_pos hfits]; exact meets_iff_of_fits h hfits
  · rw [if_neg hfits]; exact ⟨fun hmeets => hmeets.moreWell h hfits, meets_of_moreWell h hfits⟩

def allLegacy : RateSets where
  phy_mode := WNI_CFG_PHY_MODE_11G
  rateSet := [0x82, 0x84, 0x8B, 0x96]
  extRateSet := [0x0C, 0x12, 0x18, 0x24, 0x30, 0x48, 0x60, 0x6C]
  oper_rate_set := [0x82, 0x84, 0x8B, 0x96, 0x0C, 0x12, 0x18, 0x24]
  ext_rate_set := [0x30, 0x48, 0x60, 0x6C]

theorem allLegacy_allowed : Allowed allLegacy :=
  ⟨by decide, by decide, by decide, by decide, by decide, by decide⟩

theorem allLegacy_meets : Meets allLegacy := by
  apply (matching_rate_set_iff allLegacy allLegacy_allowed).2.mpr
  left
  decide

def with72 : RateSets where
  phy_mode := WNI_CFG_PHY_MODE_11G
  rateSet := [0x01, 0x02, 0x04, 0x0B, 0x16]
  extRateSet := []
  oper_rate_set := [0x01, 0x02, 0x04, 0x0B, 0x16]
  ext_rate_set := []

theorem with72_not_meets :
    Allowed with72 ∧
      lim_populate_matching_rate_set with72 =
        some (.success ⟨[0x01, 0x02, 0x04, 0x0B], [], false⟩) ∧
      bExpected with72 = [2, 4, 11, 22] ∧ ¬ Meets with72 := by
  have hrun : lim_populate_matching_rate_set with72 =
      some (.success ⟨[0x01, 0x02, 0x04, 0x0B], [], false⟩) := by decide
  refine ⟨⟨by decide, by decide, by decide, by decide, by decide, by decide⟩, hrun, by decide, ?_⟩
  rintro ⟨rates, hrun', hexact, _⟩
  cases hrun'
  exact absurd (hexact (by decide)).1 (by decide)

end Qcacld.LimRates
