/-
The count of the pulses of a radar, `dfs_bin_pri_check` of `dfs_bindetects.c`.

With `rf_ignore_pri_window`, and a pattern that is not of type 2, these are the multiples of the
reference; otherwise the differences that are compared with the margin are never computed.
`ext_chan_busy` is what `dfs_get_pri_margin` finds for the channel. `counted` records the pulse for
each time that `numpulses` is increased. Left out are the traces, and `searchrssi`, which is only
read.
-/
import Qcacld.DfsLines

set_option autoImplicit false

namespace Qcacld.DfsPriCheck

open Function Lib DfsLines List

structure PriFilter extends Filter where
  rf_fixed_pri_radar_pulse : UInt32
  rf_maxdur : UInt32
  rf_ignore_pri_window : UInt32

structure Query where
  ext_chan_busy : Int
  rf : PriFilter
  score : UInt32
  refpri : UInt32
  refdur : UInt32
  fundamentalpri : UInt32

structure DelayLine where
  line : Line DelayElem
  num_le : line.numelems ≤ DFS_MAX_DL_SIZE

def slot (dl : Line DelayElem) (i : Nat) : Nat := (dl.firstelem + i) % DFS_MAX_DL_SIZE

def elem (dl : Line DelayElem) (i : Nat) : DelayElem := dl.elems (slot dl i)

/-! ## The reference -/

def Query.primargin (q : Query) : UInt32 :=
  UInt32.ofInt (dfs_get_pri_margin q.ext_chan_busy (q.rf.rf_patterntype = 1))

def Query.durmargin (q : Query) : UInt32 := if q.rf.rf_maxdur < 10 then 4 else 6

def Query.Rejected (q : Query) : Prop := q.rf.rf_maxpri < q.refpri ∨ q.refpri < q.rf.rf_minpri

instance (q : Query) : Decidable q.Rejected := inferInstanceAs (Decidable (_ ∨ _))

def Query.averagerefpri (q : Query) (dl : Line DelayElem) : UInt32 × UInt32 :=
  (range dl.numelems).foldl
    (fun sum i =>
      let searchpri := (elem dl i).de_time
      if DFS_DIFF searchpri q.refpri < q.primargin then (sum.1 + searchpri, sum.2 + 1) else sum)
    (0, 0)

/-- The interval that the pulses are compared with: the average of those that are close, unless
the filter has a fixed one. -/
def Query.averaged (q : Query) (dl : Line DelayElem) : UInt32 :=
  if q.rf.rf_fixed_pri_radar_pulse = 0 then
    let priscorechk := if q.rf.rf_ignore_pri_window = 1 then q.rf.rf_threshold >>> 1 else 1
    if priscorechk < q.score then
      let (averagerefpri, matchCount) := q.averagerefpri dl
      if q.rf.rf_patterntype ≠ 2 then
        if 0 < matchCount then averagerefpri / matchCount else q.refpri
      else averagerefpri / q.score
    else q.refpri
  else q.refpri

/-! ## One pulse

`refpri` is the averaged interval. -/

def Query.Windowed (q : Query) : Prop :=
  0 < q.rf.rf_ignore_pri_window ∧ q.rf.rf_patterntype ≠ 2

instance (q : Query) : Decidable q.Windowed := inferInstanceAs (Decidable (_ ∧ _))

def Query.multiple (q : Query) (refpri searchpri : UInt32) : Bool :=
  (range q.rf.rf_numpulses.toNat).any fun j =>
    DFS_DIFF searchpri (UInt32.ofNat (j + 1) * refpri) < 2 * q.primargin

def Query.primatch (q : Query) (refpri searchpri : UInt32) : Bool :=
  if q.Windowed then q.multiple refpri searchpri
  else
    -- both are set to zero in their declaration and nowhere else
    let deltapri1 : UInt32 := 0
    let deltapri2 : UInt32 := 0
    deltapri1 < q.primargin || deltapri2 < q.primargin

def Query.durmatch (q : Query) (e : DelayElem) : Bool :=
  DFS_DIFF e.de_dur.toUInt32 q.refdur < q.durmargin

def Query.numpulsetochk (q : Query) (refpri : UInt32) : UInt32 :=
  if 0 < q.rf.rf_ignore_pri_window then
    if q.rf.rf_patterntype = 2 ∧ q.fundamentalpri < refpri + 100 then 4 else q.rf.rf_numpulses
  else 4

def Query.nearCount (q : Query) (refpri delta_time_stamps : UInt32) : Nat :=
  (range (q.numpulsetochk refpri).toNat).countP fun j =>
    DFS_DIFF delta_time_stamps (UInt32.ofNat (j + 1) * q.fundamentalpri) <
      2 * UInt32.ofNat (j + 1) * q.primargin

/-- By how much `numpulses` grows for a pulse that is not the first: the loop over the multiples is
left at the first that is close only with `rf_ignore_pri_window`. -/
def Query.growth (q : Query) (refpri delta_time_stamps : UInt32) : Nat :=
  if 0 < q.rf.rf_ignore_pri_window then min (q.nearCount refpri delta_time_stamps) 1
  else q.nearCount refpri delta_time_stamps

/-! ## The loop -/

structure Scan where
  elems : Nat → DelayElem
  numpulses : Nat
  prev_good_timestamp : UInt32
  /-- The pulses that were counted, each as often as it was. -/
  counted : List Nat

def decrementNext (refpri : UInt32) (elems : Nat → DelayElem) (delayindex : Nat) :
    Nat → DelayElem :=
  let dindex := (delayindex + 1) % DFS_MAX_DL_SIZE
  update elems dindex { elems dindex with de_time := (elems dindex).de_time - refpri }

def Query.step (q : Query) (dl : Line DelayElem) (refpri : UInt32) (s : Scan) (i : Nat) : Scan :=
  let e := s.elems (slot dl i)
  let elems := if e.de_time = 0 then decrementNext refpri s.elems (slot dl i) else s.elems
  let searchpri := if e.de_time = 0 then refpri else e.de_time
  if q.primatch refpri searchpri && q.durmatch e then
    let n :=
      if s.numpulses = 1 then 1
      else q.growth refpri (e.de_ts.toUInt32 - s.prev_good_timestamp)
    ⟨elems, s.numpulses + n, e.de_ts.toUInt32, s.counted ++ replicate n i⟩
  else { s with elems := elems }

def dfs_bin_pri_check (q : Query) (dl : Line DelayElem) : Scan :=
  if q.Rejected then ⟨dl.elems, 0, 0, []⟩
  else (range dl.numelems).foldl (q.step dl (q.averaged dl)) ⟨dl.elems, 1, 0, []⟩

/-! ## What it is for -/

def Query.Matches (q : Query) (refpri searchpri : UInt32) : Prop :=
  if q.Windowed then q.multiple refpri searchpri = true
  else DFS_DIFF searchpri refpri < q.primargin ∨ DFS_DIFF searchpri (2 * refpri) < q.primargin
deriving Decidable

/-- Only pulses that match the reference are counted, none of them twice, and the line is left as
it is, so that the same question has the same answer again. -/
structure Right (q : Query) (dl : Line DelayElem) : Prop where
  numpulses_eq : (dfs_bin_pri_check q dl).numpulses =
    if q.Rejected then 0 else 1 + (dfs_bin_pri_check q dl).counted.length
  counted : ∀ i ∈ (dfs_bin_pri_check q dl).counted,
    i < dl.numelems ∧ q.durmatch (elem dl i) = true ∧
      q.Matches (q.averaged dl) (elem dl i).de_time
  once : (dfs_bin_pri_check q dl).counted.Nodup
  unchanged : (dfs_bin_pri_check q dl).elems = dl.elems
  again : (dfs_bin_pri_check q { dl with elems := (dfs_bin_pri_check q dl).elems }).numpulses =
    (dfs_bin_pri_check q dl).numpulses

/-- No pulse makes the interval of the next one smaller. -/
def Undisturbed (dl : Line DelayElem) (refpri : UInt32) : Prop :=
  refpri = 0 ∨ ∀ i < dl.numelems, (elem dl i).de_time ≠ 0

def Query.pulses (q : Query) (dl : Line DelayElem) : List Nat :=
  (range dl.numelems).filter fun i => q.durmatch (elem dl i)

def between (dl : Line DelayElem) (i j : Nat) : UInt32 :=
  (elem dl j).de_ts.toUInt32 - (elem dl i).de_ts.toUInt32

/-- The pulses of the right width match without being asked to, as far as they are counted, and
none is close to two multiples. -/
structure Lucky (q : Query) (dl : Line DelayElem) (refpri : UInt32) : Prop where
  first : ∀ i ∈ (q.pulses dl).head?, q.Matches refpri (elem dl i).de_time
  next : (q.pulses dl).IsChain fun i j =>
    (0 < q.nearCount refpri (between dl i j) → q.Matches refpri (elem dl j).de_time) ∧
      (q.rf.rf_ignore_pri_window = 0 → q.nearCount refpri (between dl i j) ≤ 1)

variable {q : Query} {dl : Line DelayElem} {refpri : UInt32}

/-! ## The line -/

theorem decrementNext_zero (elems : Nat → DelayElem) (delayindex : Nat) :
    decrementNext 0 elems delayindex = elems := by
  unfold decrementNext
  dsimp only
  rw [UInt32.sub_zero, update_eq_self]

theorem step_elems (s : Scan) (i : Nat) :
    (q.step dl refpri s i).elems =
      if (s.elems (slot dl i)).de_time = 0 then decrementNext refpri s.elems (slot dl i)
      else s.elems := by
  unfold Query.step
  rw [apply_ite Scan.elems]; exact ite_self _

variable {is : List Nat}

theorem foldl_still {s : Scan} (helems : s.elems = dl.elems)
    (hstill : ∀ i ∈ is, refpri = 0 ∨ (elem dl i).de_time ≠ 0) :
    (is.foldl (q.step dl refpri) s).elems = dl.elems := by
  induction is generalizing s with
  | nil => exact helems
  | cons i is ih =>
    obtain ⟨hi, his⟩ := forall_mem_cons.mp hstill
    apply ih _ his
    rw [step_elems, helems]
    rcases hi with rfl | hne
    · rw [decrementNext_zero, ite_self]
    · exact if_neg hne

theorem foldl_frame {x : Nat} (s : Scan) (hx : ∀ i ∈ is, (slot dl i + 1) % DFS_MAX_DL_SIZE ≠ x) :
    (is.foldl (q.step dl refpri) s).elems x = s.elems x := by
  induction is generalizing s with
  | nil => rfl
  | cons i is ih =>
    obtain ⟨hi, his⟩ := forall_mem_cons.mp hx
    rw [foldl_cons, ih _ his, step_elems]
    split
    · exact update_of_ne hi.symm _ _
    · rfl

theorem next_ne {i k : Nat} (hi : i < DFS_MAX_DL_SIZE) (hk : k < DFS_MAX_DL_SIZE) (h : i ≠ k) :
    (slot dl i + 1) % DFS_MAX_DL_SIZE ≠ (slot dl k + 1) % DFS_MAX_DL_SIZE := by
  unfold slot DFS_MAX_DL_SIZE at *
  omega

theorem foldl_disturbed (s : Scan) (hnum : dl.numelems ≤ DFS_MAX_DL_SIZE)
    (helems : s.elems = dl.elems) (h : ¬Undisturbed dl refpri) :
    ((range dl.numelems).foldl (q.step dl refpri) s).elems ≠ dl.elems := by
  obtain ⟨hpri, hall⟩ := not_or.mp h
  have hzero : ∃ k, k < dl.numelems ∧ (elem dl k).de_time = 0 := by
    by_contra hnone
    exact hall fun i hi hi0 => hnone ⟨i, hi, hi0⟩
  -- the first of them is seen as it is in the line
  obtain ⟨hk, hk0⟩ := Nat.find_spec hzero
  have hfirst : ∀ i < Nat.find hzero, (elem dl i).de_time ≠ 0 := by
    intro i hi hi0; exact Nat.find_min hzero hi ⟨Nat.lt_trans hi hk, hi0⟩
  generalize Nat.find hzero = k at *
  have hsplit : range dl.numelems = range k ++ k :: range' (k + 1) (dl.numelems - (k + 1)) := by
    have hlen : k + (dl.numelems - (k + 1) + 1) = dl.numelems := by omega
    have happend : range' 0 k ++ range' (0 + k) (dl.numelems - (k + 1) + 1) =
        range' 0 (k + (dl.numelems - (k + 1) + 1)) := List.range'_append_1
    rw [Nat.zero_add, hlen] at happend
    rw [range_eq_range', range_eq_range', ← happend, range'_succ]
  have hbefore : ((range k).foldl (q.step dl refpri) s).elems = dl.elems :=
    foldl_still helems fun i hi => .inr (hfirst i (mem_range.mp hi))
  have hafter : ∀ i ∈ range' (k + 1) (dl.numelems - (k + 1)),
      (slot dl i + 1) % DFS_MAX_DL_SIZE ≠ (slot dl k + 1) % DFS_MAX_DL_SIZE := by
    intro i hi
    have hi := mem_range'_1.mp hi
    exact next_ne (by omega) (by omega) (by omega)
  intro heq
  have hslot := congrFun heq ((slot dl k + 1) % DFS_MAX_DL_SIZE)
  rw [hsplit, foldl_append, foldl_cons, foldl_frame _ hafter, step_elems, hbefore,
    if_pos (show (dl.elems (slot dl k)).de_time = 0 from hk0)] at hslot
  unfold decrementNext at hslot
  rw [update_self] at hslot
  have htime := congrArg DelayElem.de_time hslot
  exact hpri (sub_eq_self.mp htime)

/-! ## The count

As long as no interval is changed, what is counted is a matter of the pulses that are taken. -/

def Query.taken (q : Query) (dl : Line DelayElem) (refpri : UInt32) (i : Nat) : Bool :=
  q.primatch refpri (elem dl i).de_time && q.durmatch (elem dl i)

def Query.countsFrom (q : Query) (dl : Line DelayElem) (refpri : UInt32) :
    Nat → List Nat → List Nat
  | _, [] => []
  | last, i :: is =>
    replicate (q.growth refpri (between dl last i)) i ++ q.countsFrom dl refpri i is

def Query.counts (q : Query) (dl : Line DelayElem) (refpri : UInt32) : List Nat → List Nat
  | [] => []
  | i :: is => i :: q.countsFrom dl refpri i is

theorem step_still {s : Scan} {i : Nat} (helems : s.elems = dl.elems)
    (hstill : refpri = 0 ∨ (elem dl i).de_time ≠ 0) :
    q.step dl refpri s i =
      if q.taken dl refpri i then
        let n :=
          if s.numpulses = 1 then 1
          else q.growth refpri ((elem dl i).de_ts.toUInt32 - s.prev_good_timestamp)
        ⟨dl.elems, s.numpulses + n, (elem dl i).de_ts.toUInt32, s.counted ++ replicate n i⟩
      else s := by
  have hpri : (if (elem dl i).de_time = 0 then refpri else (elem dl i).de_time) =
      (elem dl i).de_time := by
    rcases hstill with rfl | hne
    · split
      · exact Eq.symm ‹_›
      · rfl
    · exact if_neg hne
  have hline : (if (elem dl i).de_time = 0 then decrementNext refpri dl.elems (slot dl i)
      else dl.elems) = dl.elems := by
    rcases hstill with rfl | hne
    · rw [decrementNext_zero, ite_self]
    · exact if_neg hne
  unfold elem at hpri hline
  unfold Query.step Query.taken elem
  rw [helems]
  dsimp only
  rw [hpri, hline, ← helems]

theorem foldl_countsFrom (last : Nat) {s : Scan} (helems : s.elems = dl.elems)
    (hstill : ∀ i ∈ is, refpri = 0 ∨ (elem dl i).de_time ≠ 0) (hmore : 2 ≤ s.numpulses)
    (hlast : s.prev_good_timestamp = (elem dl last).de_ts.toUInt32) :
    let counts := q.countsFrom dl refpri last (is.filter (q.taken dl refpri))
    (is.foldl (q.step dl refpri) s).numpulses = s.numpulses + counts.length ∧
      (is.foldl (q.step dl refpri) s).counted = s.counted ++ counts := by
  induction is generalizing s last with
  | nil => exact ⟨rfl, (append_nil _).symm⟩
  | cons i is ih =>
    obtain ⟨hi, his⟩ := forall_mem_cons.mp hstill
    rw [foldl_cons, step_still helems hi, filter_cons]
    by_cases htaken : q.taken dl refpri i = true
    · rw [if_pos htaken, if_pos htaken]
      have hone : s.numpulses ≠ 1 := Nat.ne_of_gt hmore
      have hbetween : (elem dl i).de_ts.toUInt32 - s.prev_good_timestamp = between dl last i := by
        rw [hlast]; rfl
      rw [if_neg hone, hbetween]
      obtain ⟨hnum, hcounted⟩ := ih i (s := ⟨dl.elems,
        s.numpulses + q.growth refpri (between dl last i), (elem dl i).de_ts.toUInt32,
        s.counted ++ replicate (q.growth refpri (between dl last i)) i⟩)
        rfl his (Nat.le_add_right_of_le hmore) rfl
      rw [hnum, hcounted]
      constructor
      · rw [Query.countsFrom, length_append, length_replicate, Nat.add_assoc]
      · rw [Query.countsFrom, append_assoc]
    · rw [if_neg htaken, if_neg htaken]; exact ih last helems his hmore hlast

theorem foldl_counts {s : Scan} (helems : s.elems = dl.elems)
    (hstill : ∀ i ∈ is, refpri = 0 ∨ (elem dl i).de_time ≠ 0) (hone : s.numpulses = 1) :
    let counts := q.counts dl refpri (is.filter (q.taken dl refpri))
    (is.foldl (q.step dl refpri) s).numpulses = 1 + counts.length ∧
      (is.foldl (q.step dl refpri) s).counted = s.counted ++ counts := by
  induction is generalizing s with
  | nil => exact ⟨hone, (append_nil _).symm⟩
  | cons i is ih =>
    obtain ⟨hi, his⟩ := forall_mem_cons.mp hstill
    rw [foldl_cons, step_still helems hi, filter_cons]
    by_cases htaken : q.taken dl refpri i = true
    · rw [if_pos htaken, if_pos htaken]
      rw [if_pos hone, hone]
      obtain ⟨hnum, hcounted⟩ := foldl_countsFrom (q := q) i (s := ⟨dl.elems, 1 + 1,
        (elem dl i).de_ts.toUInt32, s.counted ++ replicate 1 i⟩) rfl his (Nat.le_refl 2) rfl
      rw [hnum, hcounted]
      constructor
      · exact (Nat.add_assoc 1 1 _).trans (congrArg (1 + ·) (Nat.add_comm 1 _))
      · rw [Query.counts, append_assoc]; rfl
    · rw [if_neg htaken, if_neg htaken]; exact ih helems his hone

/-! ## What is counted rightly -/

theorem countsFrom_subset (is : List Nat) (last : Nat) :
    ∀ i ∈ q.countsFrom dl refpri last is, i ∈ is := by
  induction is generalizing last with
  | nil => exact fun i hi => hi
  | cons j is ih =>
    intro i hi
    rcases mem_append.mp hi with hrep | hrest
    · rw [eq_of_mem_replicate hrep]; exact mem_cons_self
    · exact mem_cons_of_mem _ (ih j i hrest)

theorem counts_subset (is : List Nat) : ∀ i ∈ q.counts dl refpri is, i ∈ is := by
  cases is with
  | nil => exact fun i hi => hi
  | cons j is =>
    intro i hi
    rcases mem_cons.mp hi with rfl | hrest
    · exact mem_cons_self
    · exact mem_cons_of_mem _ (countsFrom_subset is j i hrest)

/-- The next pulse is counted once at most, and only if it matches. -/
def Query.CountedRight (q : Query) (dl : Line DelayElem) (refpri : UInt32) (i j : Nat) : Prop :=
  q.growth refpri (between dl i j) ≤ 1 ∧
    (0 < q.growth refpri (between dl i j) → q.Matches refpri (elem dl j).de_time)

theorem countsFrom_right_iff (hnodup : is.Nodup) (last : Nat) :
    ((q.countsFrom dl refpri last is).Nodup ∧
        ∀ i ∈ q.countsFrom dl refpri last is, q.Matches refpri (elem dl i).de_time) ↔
      (last :: is).IsChain (q.CountedRight dl refpri) := by
  induction is generalizing last with
  | nil => exact iff_of_true ⟨nodup_nil, nofun⟩ (.singleton _)
  | cons j is ih =>
    obtain ⟨hj, his⟩ := nodup_cons.mp hnodup
    have hrest : j ∉ q.countsFrom dl refpri j is := fun hmem => hj (countsFrom_subset is j j hmem)
    rw [isChain_cons_cons, ← ih his j, Query.countsFrom, nodup_append,
      nodup_replicate, forall_mem_append, Query.CountedRight]
    constructor
    · rintro ⟨⟨hle, hnodup, -⟩, hfirst, hall⟩
      refine ⟨⟨hle, fun hpos => ?_⟩, hnodup, hall⟩
      exact hfirst j (mem_replicate.mpr ⟨Nat.ne_of_gt hpos, rfl⟩)
    · rintro ⟨⟨hle, hmatch⟩, hnodup, hall⟩
      refine ⟨⟨hle, hnodup, ?_⟩, ?_, hall⟩
      · rintro i hi k hk rfl
        rw [eq_of_mem_replicate hi] at hk; exact hrest hk
      · intro i hi
        obtain ⟨hne, rfl⟩ := mem_replicate.mp hi
        exact hmatch (Nat.pos_of_ne_zero hne)

theorem counts_right_iff (hnodup : is.Nodup) :
    ((q.counts dl refpri is).Nodup ∧
        ∀ i ∈ q.counts dl refpri is, q.Matches refpri (elem dl i).de_time) ↔
      (∀ i ∈ is.head?, q.Matches refpri (elem dl i).de_time) ∧
        is.IsChain (q.CountedRight dl refpri) := by
  cases is with
  | nil =>
    refine iff_of_true ⟨nodup_nil, nofun⟩ ⟨?_, .nil⟩
    intro i hi; exact absurd hi (Option.not_mem_none i)
  | cons j is =>
    obtain ⟨hj, his⟩ := nodup_cons.mp hnodup
    have hrest : j ∉ q.countsFrom dl refpri j is := fun hmem => hj (countsFrom_subset is j j hmem)
    rw [Query.counts, nodup_cons, forall_mem_cons, ← countsFrom_right_iff his j,
      and_iff_right hrest]
    constructor
    · rintro ⟨hnodup, hfirst, hall⟩
      refine ⟨fun i hi => ?_, hnodup, hall⟩
      rwa [← Option.some.inj hi]
    · rintro ⟨hfirst, hnodup, hall⟩; exact ⟨hnodup, hfirst j rfl, hall⟩

theorem countedRight_iff (i j : Nat) :
    q.CountedRight dl refpri i j ↔
      (0 < q.nearCount refpri (between dl i j) → q.Matches refpri (elem dl j).de_time) ∧
        (q.rf.rf_ignore_pri_window = 0 → q.nearCount refpri (between dl i j) ≤ 1) := by
  unfold Query.CountedRight Query.growth
  by_cases hwindow : 0 < q.rf.rf_ignore_pri_window
  · have hne : q.rf.rf_ignore_pri_window ≠ 0 := UInt32.pos_iff_ne_zero.mp hwindow
    rw [if_pos hwindow, lt_min_iff]
    constructor
    · rintro ⟨-, hmatch⟩
      exact ⟨fun hpos => hmatch ⟨hpos, Nat.one_pos⟩, fun hzero => absurd hzero hne⟩
    · rintro ⟨hmatch, -⟩; exact ⟨Nat.min_le_right _ _, fun hpos => hmatch hpos.1⟩
  · have hzero : q.rf.rf_ignore_pri_window = 0 := not_not.mp (mt UInt32.pos_iff_ne_zero.mpr hwindow)
    rw [if_neg hwindow, forall_prop_of_true hzero]; exact and_comm

/-! ## The verdict -/

theorem taken_windowed (hwindow : q.Windowed) (htaken : ∀ i ∈ is, q.taken dl refpri i = true) :
    (∀ i ∈ is.head?, q.Matches refpri (elem dl i).de_time) ∧
      is.IsChain (q.CountedRight dl refpri) := by
  have hmatch : ∀ i ∈ is, q.Matches refpri (elem dl i).de_time := by
    intro i hi
    have hpri := (Bool.and_eq_true_iff.mp (htaken i hi)).1
    rw [Query.primatch, if_pos hwindow] at hpri; rwa [Query.Matches, if_pos hwindow]
  refine ⟨fun i hi => hmatch i (mem_of_mem_head? hi), List.Pairwise.isChain ?_⟩
  apply pairwise_of_forall_mem_list
  intro i _ j hj
  rw [countedRight_iff]
  exact ⟨fun _ => hmatch j hj, fun hzero => absurd hzero (UInt32.pos_iff_ne_zero.mp hwindow.1)⟩

/-- A filter of which they are not tested takes every pulse of the right width, unless its margin
is zero. -/
theorem taken_not_windowed (hwindow : ¬q.Windowed) (i : Nat) :
    q.taken dl refpri i = (decide (0 < q.primargin) && q.durmatch (elem dl i)) := by
  rw [Query.taken, Query.primatch, if_neg hwindow]
  rw [Bool.or_self]

theorem taken_right_iff :
    ((∀ i ∈ ((range dl.numelems).filter (q.taken dl refpri)).head?,
        q.Matches refpri (elem dl i).de_time) ∧
      ((range dl.numelems).filter (q.taken dl refpri)).IsChain (q.CountedRight dl refpri)) ↔
      q.Windowed ∨ q.primargin = 0 ∨ Lucky q dl refpri := by
  by_cases hwindow : q.Windowed
  · exact iff_of_true (taken_windowed hwindow fun i hi => (mem_filter.mp hi).2) (.inl hwindow)
  · rw [or_iff_right hwindow]
    by_cases hmargin : q.primargin = 0
    · have hnone : (range dl.numelems).filter (q.taken dl refpri) = [] := by
        apply filter_eq_nil_iff.mpr
        intro i _
        rw [taken_not_windowed hwindow, hmargin]; exact Bool.false_ne_true
      rw [hnone]
      refine iff_of_true ⟨fun i hi => absurd hi (Option.not_mem_none i), .nil⟩ (.inl hmargin)
    · have hall : (range dl.numelems).filter (q.taken dl refpri) = q.pulses dl := by
        apply filter_congr
        intro i _
        rw [taken_not_windowed hwindow, decide_eq_true (UInt32.pos_iff_ne_zero.mpr hmargin),
          Bool.true_and]
      rw [hall, or_iff_right hmargin]
      constructor
      · rintro ⟨hfirst, hnext⟩; exact ⟨hfirst, hnext.imp fun i j => (countedRight_iff i j).mp⟩
      · rintro ⟨hfirst, hnext⟩; exact ⟨hfirst, hnext.imp fun i j => (countedRight_iff i j).mpr⟩

theorem check_undisturbed (hrejected : ¬q.Rejected) (h : Undisturbed dl (q.averaged dl)) :
    let counts := q.counts dl (q.averaged dl)
      ((range dl.numelems).filter (q.taken dl (q.averaged dl)))
    dfs_bin_pri_check q dl =
      ⟨dl.elems, 1 + counts.length, (dfs_bin_pri_check q dl).prev_good_timestamp, counts⟩ := by
  have hstill : ∀ i ∈ range dl.numelems, q.averaged dl = 0 ∨ (elem dl i).de_time ≠ 0 := by
    intro i hi; exact h.imp_right fun hall => hall i (mem_range.mp hi)
  have helems := foldl_still (q := q) (s := ⟨dl.elems, 1, 0, []⟩) rfl hstill
  obtain ⟨hnum, hcounted⟩ := foldl_counts (q := q) (s := ⟨dl.elems, 1, 0, []⟩) rfl hstill rfl
  intro counts
  unfold dfs_bin_pri_check
  rw [if_neg hrejected]
  generalize (range dl.numelems).foldl (q.step dl (q.averaged dl)) ⟨dl.elems, 1, 0, []⟩ = s at *
  obtain ⟨elems, numpulses, prev, counted⟩ := s
  dsimp only at helems hnum hcounted
  rw [helems, hnum, hcounted]; rfl

theorem right_of_rejected (hrejected : q.Rejected) : Right q dl := by
  have hcheck : ∀ l, dfs_bin_pri_check q l = ⟨l.elems, 0, 0, []⟩ := fun l => if_pos hrejected
  refine ⟨?_, ?_, ?_, ?_, ?_⟩
  · rw [hcheck, if_pos hrejected]
  · rw [hcheck]; exact nofun
  · rw [hcheck]; exact nodup_nil
  · rw [hcheck]
  · rw [hcheck, hcheck]

theorem right_of_undisturbed (hrejected : ¬q.Rejected) (h : Undisturbed dl (q.averaged dl)) :
    Right q dl ↔ q.Windowed ∨ q.primargin = 0 ∨ Lucky q dl (q.averaged dl) := by
  have hcheck := check_undisturbed hrejected h
  have hnodup : ((range dl.numelems).filter (q.taken dl (q.averaged dl))).Nodup :=
    nodup_range.filter _
  rw [← taken_right_iff, ← counts_right_iff hnodup]
  constructor
  · intro hright
    have honce := hright.once
    have hcounted := hright.counted
    rw [hcheck] at honce hcounted; exact ⟨honce, fun i hi => (hcounted i hi).2.2⟩
  · rintro ⟨honce, hmatch⟩
    refine ⟨?_, ?_, ?_, ?_, ?_⟩
    · rw [hcheck, if_neg hrejected]
    · rw [hcheck]
      intro i hi
      have hmem : i ∈ (range dl.numelems).filter (q.taken dl (q.averaged dl)) :=
        counts_subset _ i hi
      obtain ⟨hrange, htaken⟩ := mem_filter.mp hmem
      exact ⟨mem_range.mp hrange, (Bool.and_eq_true_iff.mp htaken).2, hmatch i hi⟩
    · rw [hcheck]; exact honce
    · rw [hcheck]
    · have helems : (dfs_bin_pri_check q dl).elems = dl.elems := by rw [hcheck]
      rw [helems]

/-- **The check is right** exactly if it rejects the reference, or no pulse makes the interval of
the next one smaller and the intervals are tested, or the pulses of the right width match all the
same. -/
theorem right_iff (q : Query) (dl : DelayLine) :
    Right q dl.line ↔
      q.Rejected ∨
        Undisturbed dl.line (q.averaged dl.line) ∧
          (q.Windowed ∨ q.primargin = 0 ∨ Lucky q dl.line (q.averaged dl.line)) := by
  by_cases hrejected : q.Rejected
  · exact iff_of_true (right_of_rejected hrejected) (.inl hrejected)
  · rw [or_iff_right hrejected]
    by_cases hund : Undisturbed dl.line (q.averaged dl.line)
    · rw [and_iff_right hund, right_of_undisturbed hrejected hund]
    · refine iff_of_false ?_ fun h => hund h.1
      intro hright
      have hunchanged := hright.unchanged
      unfold dfs_bin_pri_check at hunchanged
      rw [if_neg hrejected] at hunchanged; exact foldl_disturbed _ dl.num_le rfl hund hunchanged

/-- The first check that `dfs_staggered_check` makes for `strayPulse`, with the filter for the first
staggered radar of ETSI. -/
def staggeredQuery : Query where
  ext_chan_busy := 0
  rf := ⟨⟨30, 2490, 3343, 3, 100000, 2⟩, 0, 5, 1⟩
  score := 2
  refpri := 2500
  refdur := 2
  fundamentalpri := 2500

def strayPulse : DelayLine where
  line := ⟨0, 3, 4, fun i => [⟨777, 2, 30, 10000⟩, ⟨2500, 2, 30, 12500⟩, ⟨2500, 2, 30, 15000⟩,
    ⟨3000, 2, 30, 18000⟩].getD i zeroDelay, []⟩
  num_le := by decide

/-- The first pulse is counted. -/
theorem strayPulse_counted : ¬Right staggeredQuery strayPulse.line := by
  intro hright
  have hcounted : 0 ∈ (dfs_bin_pri_check staggeredQuery strayPulse.line).counted := by
    decide +kernel
  have hmatch := (hright.counted 0 hcounted).2.2
  exact absurd hmatch (by decide +kernel)

end Qcacld.DfsPriCheck
