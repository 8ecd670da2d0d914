/-
The detection of bin 5 radars, `dfs_bin5_check` of `dfs_fcc_bin5.c`.

A radar has the pulses that `dfs_bin5_addpulse` put into its buffer, since it was emptied. The
radars are those of the segment that is checked. `bursts` is a `Nat`: a radar adds at most 127 to
it. What the code computes of widths for its traces is left out.
-/
import Mathlib.Data.List.Destutter
import Qcacld.DfsLines

set_option autoImplicit false

namespace Qcacld.DfsBin5

open Lib DfsLines List

section

def MIN_BIN5_DUR_MICROSEC : UInt32 := 50
def MAX_BIN5_DUR_MICROSEC : UInt32 := 105
def DFS_BIN5_WIDTH_MARGIN : UInt32 := 4
def DFS_BIN5_RSSI_MARGIN : UInt32 := 5
def DFS_BIN5_BRI_UPPER_LIMIT : UInt64 := 12000000

structure Bin5Radar where
  b5_threshold : UInt32
  b5_timewindow : UInt32
  /-- The pulses, with their times. -/
  pulses : List (Event × UInt64)

def Bin5Radar.line (br : Bin5Radar) : Line Bin5Elem :=
  br.pulses.foldl (fun line pulse => dfs_bin5_addpulse br.b5_timewindow line pulse.1 pulse.2)
    (.empty DFS_MAX_B5_SIZE fun _ => zeroBin5)

/-! ## One radar -/

def slots (line : Line Bin5Elem) : List Nat :=
  (range line.numelems).map fun i => (line.firstelem + i) % DFS_MAX_B5_SIZE

def isBin5 (line : Line Bin5Elem) (slot : Nat) : Bool :=
  MIN_BIN5_DUR_MICROSEC ≤ (line.elems slot).be_dur ∧
    (line.elems slot).be_dur ≤ MAX_BIN5_DUR_MICROSEC

def pri (prev this : Bin5Elem) : UInt64 :=
  if prev.be_ts ≤ this.be_ts then this.be_ts - prev.be_ts else this.be_ts

def absDiff (a b : UInt32) : UInt32 := if b ≤ a then a - b else b - a

/-- The counters of `dfs_bin5_check`. -/
structure Counters where
  bursts : Nat
  index : List Nat
  touched : List Nat

def Counters.store (c : Counters) (slot : Nat) : Counters :=
  { c with index := c.index ++ [slot], touched := c.touched ++ [c.index.length] }

/-- The first slot of a pair is saved only if it is not the one that was saved last, which may be
in a burst of three pulses. -/
def Counters.savePrev (c : Counters) (prev : Nat) : Counters :=
  if 2 ≤ c.index.length then
    let read := { c with touched := c.touched ++ [c.index.length - 1] }
    if c.index.getLast? ≠ some prev then read.store prev else read
  else c.store prev

def Counters.save (c : Counters) (prev this : Nat) : Counters := (c.savePrev prev).store this

def compare (line : Line Bin5Elem) (prev this : Nat) (c : Counters) : Counters :=
  let a := line.elems prev
  let b := line.elems this
  if DFS_BIN5_PRI_LOWER_LIMIT ≤ pri a b ∧ pri a b ≤ DFS_BIN5_PRI_HIGHER_LIMIT then
    if absDiff b.be_dur a.be_dur ≤ DFS_BIN5_WIDTH_MARGIN then
      if absDiff b.be_rssi a.be_rssi ≤ DFS_BIN5_RSSI_MARGIN then
        { c with bursts := c.bursts + 1 }.save prev this
      else c
    else c
  else if DFS_BIN5_BRI_LOWER_LIMIT ≤ pri a b ∧ pri a b ≤ DFS_BIN5_BRI_UPPER_LIMIT then
    { c with bursts := c.bursts + 1 }
  else c

def pairLoop (line : Line Bin5Elem) : List Nat → Nat → Counters → Counters
  | [], _, c => c
  | this :: rest, prev, c =>
    if isBin5 line this then pairLoop line rest this (compare line prev this c)
    else pairLoop line rest prev c

def scan (line : Line Bin5Elem) (c : Counters) : Counters :=
  match (slots line).dropWhile fun slot => !isBin5 line slot with
  | [] => c
  | reference :: rest => pairLoop line rest reference c

/-! ## All radars -/

def span (line : Line Bin5Elem) : UInt64 :=
  (line.elems line.lastelem).be_ts - (line.elems line.firstelem).be_ts

def checkLoop : List Bin5Radar → Counters → Nat × Counters
  | [], c => (0, c)
  | br :: rest, c =>
    let c := scan br.line c
    if br.b5_threshold.toNat ≤ c.bursts then (if span br.line < 3000000 then 0 else 1, c)
    else checkLoop rest c

/-- The verdict, and the counters for what was done to the array. -/
def dfs_bin5_check (radars : List Bin5Radar) : Nat × Counters := checkLoop radars ⟨0, [], []⟩

/-! ## What is counted -/

def bin5Slots (line : Line Bin5Elem) : List Nat := (slots line).filter (isBin5 line)

def SameBurst (line : Line Bin5Elem) (pair : Nat × Nat) : Prop :=
  let a := line.elems pair.1
  let b := line.elems pair.2
  DFS_BIN5_PRI_LOWER_LIMIT ≤ pri a b ∧ pri a b ≤ DFS_BIN5_PRI_HIGHER_LIMIT ∧
    absDiff b.be_dur a.be_dur ≤ DFS_BIN5_WIDTH_MARGIN ∧
    absDiff b.be_rssi a.be_rssi ≤ DFS_BIN5_RSSI_MARGIN

def NextBurst (line : Line Bin5Elem) (pair : Nat × Nat) : Prop :=
  let t := pri (line.elems pair.1) (line.elems pair.2)
  DFS_BIN5_BRI_LOWER_LIMIT ≤ t ∧ t ≤ DFS_BIN5_BRI_UPPER_LIMIT

instance (line : Line Bin5Elem) : DecidablePred (SameBurst line) :=
  fun _ => inferInstanceAs (Decidable (_ ∧ _ ∧ _ ∧ _))

instance (line : Line Bin5Elem) : DecidablePred (NextBurst line) :=
  fun _ => inferInstanceAs (Decidable (_ ∧ _))

def successive (l : List Nat) : List (Nat × Nat) := l.zip l.tail

def Bin5Radar.bursts (br : Bin5Radar) : Nat :=
  (successive (bin5Slots br.line)).countP fun pair =>
    SameBurst br.line pair ∨ NextBurst br.line pair

def Bin5Radar.paired (br : Bin5Radar) : List Nat :=
  ((successive (bin5Slots br.line)).filter fun pair => SameBurst br.line pair).flatMap
    fun pair => [pair.1, pair.2]

/-! ## The array -/

theorem destutter'_concat (l : List Nat) (b a : Nat) :
    (l ++ [a]).destutter' (· ≠ ·) b =
      if (b :: l).getLast? = some a then l.destutter' (· ≠ ·) b
      else l.destutter' (· ≠ ·) b ++ [a] := by
  induction l generalizing b with
  | nil =>
    by_cases h : b = a
    · simp [h]
    · simp [h]
  | cons x l ih =>
    rw [getLast?_cons_cons, cons_append]
    by_cases h : b = x
    · rw [List.destutter'_cons_neg _ (not_not.mpr h), List.destutter'_cons_neg _ (not_not.mpr h),
        ih b, h]
    · rw [List.destutter'_cons_pos _ h, List.destutter'_cons_pos _ h, ih x, cons_append]
      exact apply_ite (b :: ·) ..

theorem destutter_concat (l : List Nat) (a : Nat) :
    (l ++ [a]).destutter (· ≠ ·) =
      if l.getLast? = some a then l.destutter (· ≠ ·) else l.destutter (· ≠ ·) ++ [a] := by
  cases l with
  | nil => rfl
  | cons b l => exact destutter'_concat l b a

theorem getLast?_destutter' (l : List Nat) (b : Nat) :
    (l.destutter' (· ≠ ·) b).getLast? = (b :: l).getLast? := by
  induction l generalizing b with
  | nil => rfl
  | cons a l ih =>
    rw [getLast?_cons_cons, ← ih a]
    by_cases h : b = a
    · rw [List.destutter'_cons_neg l (not_not.mpr h), h]
    · rw [List.destutter'_cons_pos l h, getLast?_cons_of_ne_nil]
      exact List.destutter'_ne_nil l (· ≠ ·)

theorem getLast?_destutter (l : List Nat) : (l.destutter (· ≠ ·)).getLast? = l.getLast? := by
  cases l with
  | nil => rfl
  | cons b l => exact getLast?_destutter' l b

/-- The array after the slots `all` have been saved in pairs. -/
structure Saved (all : List Nat) (c : Counters) : Prop where
  index_eq : c.index = all.destutter (· ≠ ·)
  -- both slots of the first pair are saved
  not_one : c.index.length ≠ 1
  touched : ∀ size, (∀ place ∈ c.touched, place < size) ↔ c.index.length ≤ size

theorem saved_start : Saved [] ⟨0, [], []⟩ where
  index_eq := rfl
  not_one := Nat.zero_ne_one
  touched := fun size => iff_of_true (nofun) (Nat.zero_le size)

variable {c : Counters}

theorem store_touched (h : ∀ size, (∀ place ∈ c.touched, place < size) ↔ c.index.length ≤ size)
    (slot size : Nat) :
    (∀ place ∈ (c.store slot).touched, place < size) ↔ (c.store slot).index.length ≤ size := by
  unfold Counters.store
  rw [forall_mem_append, forall_mem_singleton, h, length_append]
  constructor
  · rintro ⟨-, hlt⟩; exact hlt
  · intro hlt; exact ⟨Nat.le_of_lt hlt, hlt⟩

theorem read_touched (h : ∀ size, (∀ place ∈ c.touched, place < size) ↔ c.index.length ≤ size)
    (hpos : 0 < c.index.length) (size : Nat) :
    (∀ place ∈ c.touched ++ [c.index.length - 1], place < size) ↔ c.index.length ≤ size := by
  rw [forall_mem_append, forall_mem_singleton, h]
  constructor
  · rintro ⟨hle, -⟩; exact hle
  · intro hle; exact ⟨hle, Nat.lt_of_lt_of_le (Nat.sub_lt hpos Nat.one_pos) hle⟩

variable {all : List Nat}

theorem Saved.savePrev (h : Saved all c) (prev : Nat) :
    (c.savePrev prev).index = (all ++ [prev]).destutter (· ≠ ·) ∧
      ∀ size, (∀ place ∈ (c.savePrev prev).touched, place < size) ↔
        (c.savePrev prev).index.length ≤ size := by
  have hlast : c.index.getLast? = all.getLast? := by rw [h.index_eq, getLast?_destutter]
  rw [destutter_concat, ← hlast, ← h.index_eq]
  unfold Counters.savePrev
  split
  · rename_i htwo
    have hread := read_touched h.touched (Nat.lt_of_lt_of_le Nat.two_pos htwo)
    by_cases hsame : c.index.getLast? = some prev
    · rw [if_pos hsame, if_neg (not_not.mpr hsame)]; exact ⟨rfl, hread⟩
    · rw [if_neg hsame, if_pos hsame]; exact ⟨rfl, store_touched hread prev⟩
  · have hnil : c.index = [] := by have := h.not_one; exact eq_nil_of_length_eq_zero (by omega)
    refine ⟨?_, store_touched h.touched prev⟩
    rw [hnil, if_neg (by simp)]
    show c.index ++ [prev] = _
    rw [hnil]

theorem Saved.save {prev this : Nat} (h : Saved all c) (hne : prev ≠ this) :
    Saved (all ++ [prev, this]) (c.save prev this) := by
  obtain ⟨hindex, htouched⟩ := h.savePrev prev
  have hlast : (c.savePrev prev).index.getLast? = some prev := by
    rw [hindex, getLast?_destutter, getLast?_concat]
  refine ⟨?_, ?_, store_touched htouched this⟩
  · show (c.savePrev prev).index ++ [this] = (all ++ ([prev] ++ [this])).destutter (· ≠ ·)
    rw [← append_assoc, destutter_concat, getLast?_concat, hindex,
      if_neg fun heq => hne (Option.some.inj heq)]
  · show ((c.savePrev prev).index ++ [this]).length ≠ 1
    rw [length_append, length_singleton]
    intro hone
    have hnil := eq_nil_of_length_eq_zero (Nat.succ.inj hone)
    rw [hnil] at hlast; exact absurd hlast (by simp)

/-! ## The loops -/

variable {line : Line Bin5Elem}

theorem not_nextBurst {pair : Nat × Nat}
    (h : pri (line.elems pair.1) (line.elems pair.2) ≤ DFS_BIN5_PRI_HIGHER_LIMIT) :
    ¬NextBurst line pair := by
  rintro ⟨hlow, -⟩; exact absurd (UInt64.le_trans hlow h) (by decide)

theorem compare_same {prev this : Nat} (c : Counters) (h : SameBurst line (prev, this)) :
    compare line prev this c = { c with bursts := c.bursts + 1 }.save prev this := by
  obtain ⟨hlow, hhigh, hdur, hrssi⟩ := h
  dsimp only [compare]
  rw [if_pos ⟨hlow, hhigh⟩, if_pos hdur, if_pos hrssi]

theorem compare_not_same {prev this : Nat} (c : Counters) (h : ¬SameBurst line (prev, this)) :
    compare line prev this c =
      if NextBurst line (prev, this) then { c with bursts := c.bursts + 1 } else c := by
  dsimp only [compare]
  split
  · rename_i hpri
    rw [if_neg (not_nextBurst hpri.2)]
    split
    · rename_i hdur; exact if_neg fun hrssi => h ⟨hpri.1, hpri.2, hdur, hrssi⟩
    · rfl
  · rfl

theorem compare_spec (line : Line Bin5Elem) {prev this : Nat} (h : Saved all c)
    (hne : prev ≠ this) :
    (compare line prev this c).bursts = c.bursts +
        (if SameBurst line (prev, this) ∨ NextBurst line (prev, this) then 1 else 0) ∧
      Saved (all ++ if SameBurst line (prev, this) then [prev, this] else [])
        (compare line prev this c) := by
  by_cases hsame : SameBurst line (prev, this)
  · rw [compare_same c hsame, if_pos (.inl hsame), if_pos hsame]
    have hcount : Saved all { c with bursts := c.bursts + 1 } := ⟨h.index_eq, h.not_one, h.touched⟩
    refine ⟨?_, hcount.save hne⟩
    unfold Counters.save Counters.savePrev
    split
    · split <;> rfl
    · rfl
  · rw [compare_not_same c hsame, if_neg hsame, append_nil]
    by_cases hnext : NextBurst line (prev, this)
    · rw [if_pos hnext, if_pos (.inr hnext)]; exact ⟨rfl, h.index_eq, h.not_one, h.touched⟩
    · rw [if_neg hnext, if_neg (not_or.mpr ⟨hsame, hnext⟩)]; exact ⟨rfl, h⟩

theorem successive_cons_cons (a b : Nat) (l : List Nat) :
    successive (a :: b :: l) = (a, b) :: successive (b :: l) := rfl

theorem pairLoop_spec (rest : List Nat) {prev : Nat} (h : Saved all c)
    (hnodup : (prev :: rest).Nodup) :
    let pairs := successive (prev :: rest.filter (isBin5 line))
    (pairLoop line rest prev c).bursts =
        c.bursts + pairs.countP (fun pair => SameBurst line pair ∨ NextBurst line pair) ∧
      Saved (all ++ (pairs.filter fun pair => SameBurst line pair).flatMap
        fun pair => [pair.1, pair.2]) (pairLoop line rest prev c) := by
  induction rest generalizing prev all c with
  | nil =>
    refine ⟨rfl, ?_⟩
    show Saved (all ++ []) c
    rwa [append_nil]
  | cons this rest ih =>
    obtain ⟨hprev, hrest⟩ := nodup_cons.mp hnodup
    intro pairs
    by_cases hvalid : isBin5 line this
    · have hne : prev ≠ this := fun heq => hprev (heq ▸ mem_cons_self)
      obtain ⟨hbursts, hsaved⟩ := compare_spec line h hne
      obtain ⟨hcount, hall⟩ := ih hsaved hrest
      have hpairs : pairs = (prev, this) :: successive (this :: rest.filter (isBin5 line)) := by
        show successive (prev :: List.filter _ (this :: rest)) = _
        rw [filter_cons_of_pos hvalid, successive_cons_cons]
      rw [pairLoop, if_pos hvalid, hpairs, countP_cons, hcount, hbursts]
      refine ⟨?_, ?_⟩
      · simp only [decide_eq_true_eq]; omega
      · rw [append_assoc] at hall
        by_cases hsame : SameBurst line (prev, this)
        · rw [if_pos hsame] at hall
          rwa [filter_cons, if_pos (decide_eq_true hsame), flatMap_cons]
        · rw [if_neg hsame, nil_append] at hall
          rwa [filter_cons, if_neg fun htrue => hsame (of_decide_eq_true htrue)]
    · have hsub : (prev :: rest).Nodup :=
        nodup_cons.mpr ⟨fun hmem => hprev (mem_cons_of_mem _ hmem), hrest.of_cons⟩
      have hpairs : pairs = successive (prev :: rest.filter (isBin5 line)) := by
        show successive (prev :: List.filter _ (this :: rest)) = _
        rw [filter_cons_of_neg hvalid]
      rw [pairLoop, if_neg hvalid, hpairs]; exact ih h hsub

/-! ## The buffers -/

theorem trimOldest_numelems_le (thists : UInt64) (timewindow : UInt32) (k : Nat)
    (line : Line Bin5Elem) : (trimOldest thists timewindow k line).numelems ≤ line.numelems := by
  induction k generalizing line with
  | zero => exact Nat.le_refl _
  | succ k ih =>
    unfold trimOldest
    split
    · exact Nat.le_trans (ih _) (Nat.sub_le _ _)
    · exact Nat.le_refl _

theorem addpulse_numelems_le (timewindow : UInt32) (pulse : Event × UInt64)
    (h : line.numelems ≤ DFS_MAX_B5_SIZE) :
    (dfs_bin5_addpulse timewindow line pulse.1 pulse.2).numelems ≤ DFS_MAX_B5_SIZE := by
  unfold dfs_bin5_addpulse
  split
  · exact h
  · apply Nat.le_trans (trimOldest_numelems_le _ _ _ _)
    unfold Line.insert
    split
    · exact h
    · exact Nat.lt_of_le_of_ne h ‹_›

theorem line_numelems_le (br : Bin5Radar) : br.line.numelems ≤ DFS_MAX_B5_SIZE := by
  unfold Bin5Radar.line
  have hstart : (Line.empty DFS_MAX_B5_SIZE fun _ => zeroBin5).numelems ≤ DFS_MAX_B5_SIZE :=
    Nat.zero_le _
  generalize Line.empty DFS_MAX_B5_SIZE (fun _ => zeroBin5) = line at *
  induction br.pulses generalizing line with
  | nil => exact hstart
  | cons pulse pulses ih => exact ih _ (addpulse_numelems_le _ pulse hstart)

theorem slots_nodup (br : Bin5Radar) : (slots br.line).Nodup := by
  have hle := line_numelems_le br
  apply nodup_range.map_on
  intro i hi j hj heq
  have hi := mem_range.mp hi
  have hj := mem_range.mp hj
  have hmod : i % DFS_MAX_B5_SIZE = j % DFS_MAX_B5_SIZE := Nat.ModEq.add_left_cancel' _ heq
  rwa [Nat.mod_eq_of_lt (by omega), Nat.mod_eq_of_lt (by omega)] at hmod

theorem scan_spec (br : Bin5Radar) (h : Saved all c) :
    (scan br.line c).bursts = c.bursts + br.bursts ∧
      Saved (all ++ br.paired) (scan br.line c) := by
  have hnodup := slots_nodup br
  unfold scan Bin5Radar.bursts Bin5Radar.paired bin5Slots
  generalize slots br.line = l at hnodup ⊢
  -- the pulses before the reference are none of those that are compared
  induction l with
  | nil =>
    refine ⟨rfl, ?_⟩
    show Saved (all ++ []) c
    rwa [append_nil]
  | cons slot rest ih =>
    by_cases hvalid : isBin5 br.line slot
    · rw [dropWhile_cons, if_neg (by simp [hvalid]), filter_cons, if_pos hvalid]
      exact pairLoop_spec rest h hnodup
    · rw [dropWhile_cons, if_pos (by simp [hvalid]), filter_cons, if_neg hvalid]
      exact ih hnodup.of_cons

end

/-! The verdict of `dfs_bin5_check`: the bursts of all radars are added up. -/

/-! ## What is to be detected -/

/-- The buffer holds enough bursts over a time that is long enough. -/
def Bin5Radar.Detected (br : Bin5Radar) : Prop :=
  br.b5_threshold.toNat ≤ br.bursts ∧ 3000000 ≤ span br.line

instance (br : Bin5Radar) : Decidable br.Detected := inferInstanceAs (Decidable (_ ∧ _))

def total (radars : List Bin5Radar) : Nat := (radars.map Bin5Radar.bursts).sum

/-- The pulses that are saved for some radars: those that are in a pair, without those that are in
the slot that was saved just before. -/
def saved (radars : List Bin5Radar) : List Nat :=
  (radars.flatMap Bin5Radar.paired).destutter (· ≠ ·)

def NotReached (radars : List Bin5Radar) : Prop :=
  ∀ pre br post, radars = pre ++ br :: post → total (pre ++ [br]) < br.b5_threshold.toNat

structure FirstReached (pre : List Bin5Radar) (br : Bin5Radar) : Prop where
  before : NotReached pre
  reached : br.b5_threshold.toNat ≤ total (pre ++ [br])

/-! ## The verdict -/

theorem total_concat (radars : List Bin5Radar) (br : Bin5Radar) :
    total (radars ++ [br]) = total radars + br.bursts := by simp [total]

variable {radars : List Bin5Radar}

theorem notReached_concat {br : Bin5Radar} (h : NotReached radars)
    (hbr : total (radars ++ [br]) < br.b5_threshold.toNat) : NotReached (radars ++ [br]) := by
  intro pre r post heq
  rcases eq_nil_or_concat post with rfl | ⟨post, last, rfl⟩
  · obtain ⟨rfl, hlast⟩ := append_inj' heq rfl; rwa [← singleton_inj.mp hlast]
  · have hsplit : radars ++ [br] = (pre ++ r :: post) ++ [last] := by rw [heq]; simp
    obtain ⟨hradars, -⟩ := append_inj' hsplit rfl
    exact h pre r post hradars

structure Scanned (radars : List Bin5Radar) (c : Counters) : Prop where
  bursts_eq : c.bursts = total radars
  pairs : Saved (radars.flatMap Bin5Radar.paired) c

theorem Scanned.scan {c : Counters} (h : Scanned radars c) (br : Bin5Radar) :
    Scanned (radars ++ [br]) (scan br.line c) := by
  obtain ⟨hbursts, hsaved⟩ := scan_spec br h.pairs
  refine ⟨?_, ?_⟩
  · rw [total_concat, hbursts, h.bursts_eq]
  · rwa [flatMap_append, flatMap_singleton]

theorem checkLoop_cases (rest : List Bin5Radar) {c : Counters} (h : Scanned radars c)
    (hnot : NotReached radars) :
    (∃ pre br post, radars ++ rest = pre ++ br :: post ∧ FirstReached pre br ∧
        (checkLoop rest c).1 = (if span br.line < 3000000 then 0 else 1) ∧
        Scanned (pre ++ [br]) (checkLoop rest c).2) ∨
      (NotReached (radars ++ rest) ∧ (checkLoop rest c).1 = 0 ∧
        Scanned (radars ++ rest) (checkLoop rest c).2) := by
  induction rest generalizing radars c with
  | nil =>
    right
    rw [append_nil]; exact ⟨hnot, rfl, h⟩
  | cons br rest ih =>
    have hscan := h.scan br
    rw [checkLoop]
    by_cases hreached : br.b5_threshold.toNat ≤ (scan br.line c).bursts
    · left
      rw [if_pos hreached]
      rw [hscan.bursts_eq] at hreached
      exact ⟨radars, br, rest, rfl, ⟨hnot, hreached⟩, rfl, hscan⟩
    · rw [if_neg hreached]
      rw [hscan.bursts_eq] at hreached
      have hnext := ih hscan (notReached_concat hnot (Nat.lt_of_not_le hreached))
      rwa [append_assoc, singleton_append] at hnext

theorem FirstReached.not_longer {pre : List Bin5Radar} {br : Bin5Radar}
    (h : FirstReached pre br) (post : List Bin5Radar) : ¬NotReached (pre ++ br :: post) := by
  intro hnot; exact absurd (hnot pre br post rfl) (Nat.not_lt_of_le h.reached)

theorem FirstReached.unique {pre pre' post post' : List Bin5Radar} {br br' : Bin5Radar}
    (h : FirstReached pre br) (h' : FirstReached pre' br')
    (heq : pre ++ br :: post = pre' ++ br' :: post') : pre = pre' ∧ br = br' ∧ post = post' := by
  rcases append_eq_append_iff.mp heq with ⟨as, hpre, htail⟩ | ⟨as, hpre, htail⟩
  · cases as with
    | nil =>
      obtain ⟨hbr, hpost⟩ := List.cons.inj htail
      exact ⟨by rw [hpre, append_nil], hbr, hpost⟩
    | cons a as =>
      obtain ⟨ha, -⟩ := List.cons.inj htail
      rw [hpre, ← ha] at h'; exact absurd h'.before (h.not_longer as)
  · cases as with
    | nil =>
      obtain ⟨hbr, hpost⟩ := List.cons.inj htail
      exact ⟨by rw [hpre, append_nil], hbr.symm, hpost.symm⟩
    | cons a as =>
      obtain ⟨ha, -⟩ := List.cons.inj htail
      rw [hpre, ← ha] at h; exact absurd h.before (h'.not_longer as)

theorem NotReached.not_detected (h : NotReached radars) : ∀ br ∈ radars, ¬br.Detected := by
  rintro br hmem ⟨hown, -⟩
  obtain ⟨pre, post, rfl⟩ := append_of_mem hmem
  have hless := h pre br post rfl
  rw [total_concat] at hless; omega

theorem paired_lt (br : Bin5Radar) : ∀ slot ∈ br.paired, slot < DFS_MAX_B5_SIZE := by
  intro slot hslot
  obtain ⟨pair, hpair, hmem⟩ := mem_flatMap.mp hslot
  obtain ⟨hfirst, hsecond⟩ := of_mem_zip (mem_of_mem_filter hpair)
  have hall : ∀ x ∈ bin5Slots br.line, x < DFS_MAX_B5_SIZE := by
    intro x hx
    obtain ⟨i, -, rfl⟩ := mem_map.mp (mem_of_mem_filter hx)
    exact Nat.mod_lt _ (by decide)
  rcases mem_pair.mp hmem with rfl | rfl
  · exact hall _ hfirst
  · exact hall _ (mem_of_mem_tail hsecond)

theorem FirstReached.detected_iff {pre : List Bin5Radar} {br : Bin5Radar}
    (h : FirstReached pre br) (post : List Bin5Radar) :
    (∃ r ∈ pre ++ br :: post, r.Detected) ↔ br.Detected ∨ ∃ r ∈ post, r.Detected := by
  constructor
  · rintro ⟨r, hmem, hdetected⟩
    rcases mem_append.mp hmem with hpre | hrest
    · exact absurd hdetected (h.before.not_detected r hpre)
    · rcases mem_cons.mp hrest with rfl | hpost
      · exact .inl hdetected
      · exact .inr ⟨r, hpost, hdetected⟩
  · rintro (hbr | ⟨r, hpost, hdetected⟩)
    · exact ⟨br, mem_append_right _ mem_cons_self, hbr⟩
    · exact ⟨r, mem_append_right _ (mem_cons_of_mem _ hpost), hdetected⟩

theorem FirstReached.verdict_iff {pre : List Bin5Radar} {br : Bin5Radar}
    (h : FirstReached pre br) (post : List Bin5Radar) :
    ((if span br.line < 3000000 then 0 else 1) = 1 ↔ ∃ r ∈ pre ++ br :: post, r.Detected) ↔
      if 3000000 ≤ span br.line then
        br.b5_threshold.toNat ≤ br.bursts ∨ ∃ r ∈ post, r.Detected
      else ∀ r ∈ post, ¬r.Detected := by
  rw [h.detected_iff post]
  by_cases hlong : 3000000 ≤ span br.line
  · have hdetected : br.Detected ↔ br.b5_threshold.toNat ≤ br.bursts := and_iff_left hlong
    rw [if_neg (UInt64.not_lt.mpr hlong), if_pos hlong, hdetected]; exact iff_true_left rfl
  · have hnot : ¬br.Detected := fun hdetected => hlong hdetected.2
    rw [if_pos (UInt64.not_le.mp hlong), if_neg hlong, or_iff_right hnot,
      iff_false_left Nat.zero_ne_one]
    exact ⟨fun hnone r hpost hdetected => hnone ⟨r, hpost, hdetected⟩,
      fun hnone ⟨r, hpost, hdetected⟩ => hnone r hpost hdetected⟩

theorem Scanned.inBounds_iff {c : Counters} (h : Scanned radars c) :
    ((∀ place ∈ c.touched, place < DFS_MAX_B5_SIZE) ∧ ∀ slot ∈ c.index, slot < DFS_MAX_B5_SIZE) ↔
      (saved radars).length ≤ DFS_MAX_B5_SIZE := by
  have hvalues : ∀ slot ∈ c.index, slot < DFS_MAX_B5_SIZE := by
    intro slot hslot
    rw [h.pairs.index_eq] at hslot
    have hmem := (destutter_sublist _ _).subset hslot
    obtain ⟨br, -, hbr⟩ := mem_flatMap.mp hmem
    exact paired_lt br slot hbr
  rw [and_iff_left hvalues, h.pairs.touched, h.pairs.index_eq]; rfl

/-- The verdict is that of one radar with its own buffer and the array is used within its bounds
if and only if: where the first radar that has reached its threshold spans the time, it has
enough bursts of its own or a later radar is one to detect; where it does not, no later radar is;
and no more pulses are saved up to it than the array has room for. -/
theorem verdict_right_iff (radars : List Bin5Radar) :
    (((dfs_bin5_check radars).1 = 1 ↔ ∃ br ∈ radars, br.Detected) ∧
        (∀ place ∈ (dfs_bin5_check radars).2.touched, place < DFS_MAX_B5_SIZE) ∧
        ∀ slot ∈ (dfs_bin5_check radars).2.index, slot < DFS_MAX_B5_SIZE) ↔
      (∀ pre br post, radars = pre ++ br :: post → FirstReached pre br →
        (if 3000000 ≤ span br.line then
          br.b5_threshold.toNat ≤ br.bursts ∨ ∃ r ∈ post, r.Detected
        else ∀ r ∈ post, ¬r.Detected) ∧
        (saved (pre ++ [br])).length ≤ DFS_MAX_B5_SIZE) ∧
      (NotReached radars → (saved radars).length ≤ DFS_MAX_B5_SIZE) := by
  have hstart : Scanned [] ⟨0, [], []⟩ := ⟨rfl, saved_start⟩
  have hnone : NotReached [] := by intro pre br post heq; exact absurd heq.symm (by simp)
  have hcases := checkLoop_cases radars hstart hnone
  rw [nil_append] at hcases
  rcases hcases with ⟨pre, br, post, hradars, hfirst, hverdict, hscanned⟩ |
    ⟨hnot, hverdict, hscanned⟩
  · unfold dfs_bin5_check
    rw [hverdict, hscanned.inBounds_iff, hradars, hfirst.verdict_iff post]
    constructor
    · intro hright
      refine ⟨?_, fun hnot => absurd hnot (hfirst.not_longer post)⟩
      intro pre' br' post' heq hfirst'
      obtain ⟨rfl, rfl, rfl⟩ := hfirst.unique hfirst' heq
      exact hright
    · rintro ⟨hall, -⟩; exact hall pre br post rfl hfirst
  · have hnone : ¬∃ br ∈ radars, br.Detected := fun ⟨br, hmem, hdetected⟩ =>
      hnot.not_detected br hmem hdetected
    unfold dfs_bin5_check
    rw [hverdict, hscanned.inBounds_iff, and_iff_right (iff_of_false Nat.zero_ne_one hnone)]
    constructor
    · intro hroom
      refine ⟨?_, fun _ => hroom⟩
      rintro pre br post rfl hfirst; exact absurd hnot (hfirst.not_longer post)
    · rintro ⟨-, hroom⟩; exact hroom hnot

/-- Four pulses in eight seconds, which are three bursts. -/
def fourPulses : List (Event × UInt64) :=
  [(⟨60, 30⟩, 1000000), (⟨60, 30⟩, 3000000), (⟨60, 30⟩, 5000000), (⟨60, 30⟩, 7000000)]

def bothDomains : List Bin5Radar := [⟨4, 12000000, fourPulses⟩, ⟨5, 12000000, fourPulses⟩]

/-- Three bursts, which are counted twice, make a radar. -/
theorem bothDomains_detected :
    ¬(((dfs_bin5_check bothDomains).1 = 1 ↔ ∃ br ∈ bothDomains, br.Detected) ∧
      (∀ place ∈ (dfs_bin5_check bothDomains).2.touched, place < DFS_MAX_B5_SIZE) ∧
      ∀ slot ∈ (dfs_bin5_check bothDomains).2.index, slot < DFS_MAX_B5_SIZE) := by
  have hverdict : (dfs_bin5_check bothDomains).1 = 1 := by decide +kernel
  have hnone : ¬∃ br ∈ bothDomains, br.Detected := by decide +kernel
  rintro ⟨hiff, -⟩; exact hnone (hiff.mp hverdict)

end Qcacld.DfsBin5
