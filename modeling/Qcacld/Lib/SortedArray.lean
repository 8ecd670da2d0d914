/-
Sorted arrays in memory, ordered by a comparison like `memcmp`.

An array is a function from indices and has `n` elements; what is behind them is not looked at. A
comparison is a function to the integers of which only the sign counts (`ThreeWay`).
-/
import Mathlib.Algebra.Order.Ring.Int

set_option autoImplicit false

namespace Qcacld.Lib

open Function

variable {α : Type*} {cmp : α → α → Int} {a : Nat → α} {x y z : α} {n : Nat}

/-! ## Comparisons -/

structure ThreeWay (cmp : α → α → Int) : Prop where
  eq_zero : ∀ {x y}, cmp x y = 0 ↔ x = y
  swap : ∀ {x y}, cmp x y < 0 ↔ 0 < cmp y x
  trans : ∀ {x y z}, cmp x y < 0 → cmp y z < 0 → cmp x z < 0

theorem ThreeWay.refl (h : ThreeWay cmp) (x : α) : cmp x x = 0 := h.eq_zero.mpr rfl

theorem ThreeWay.le_trans (h : ThreeWay cmp) (hxy : cmp x y ≤ 0) (hyz : cmp y z ≤ 0) :
    cmp x z ≤ 0 := by
  rcases Int.lt_or_eq_of_le hxy with hlt | heq
  · rcases Int.lt_or_eq_of_le hyz with hlt' | heq'
    · exact Int.le_of_lt (h.trans hlt hlt')
    · obtain rfl := h.eq_zero.mp heq'; exact hxy
  · obtain rfl := h.eq_zero.mp heq; exact hyz

theorem ThreeWay.lt_of_ne (h : ThreeWay cmp) (hle : cmp x y ≤ 0) (hne : x ≠ y) :
    cmp x y < 0 :=
  lt_of_le_of_ne hle fun heq => hne (h.eq_zero.mp heq)

theorem ThreeWay.irrefl (h : ThreeWay cmp) : ¬cmp x x < 0 := by
  rw [h.refl]; exact Int.lt_irrefl 0

/-! ## Arrays -/

/-- The first `n` elements increase. -/
def SortedUpTo (cmp : α → α → Int) (a : Nat → α) (n : Nat) : Prop :=
  ∀ i j, i < j → j < n → cmp (a i) (a j) < 0

def Has (a : Nat → α) (n : Nat) (x : α) : Prop := ∃ i < n, a i = x

def DistinctUpTo (a : Nat → α) (n : Nat) : Prop :=
  ∀ i j, i < n → j < n → a i = a j → i = j

instance [DecidableEq α] (a : Nat → α) (n : Nat) : Decidable (DistinctUpTo a n) :=
  decidable_of_iff (∀ i < n, ∀ j < n, a i = a j → i = j)
    ⟨fun h i j hi hj => h i hi j hj, fun h i hi j hj => h i j hi hj⟩

theorem SortedUpTo.distinct (hcmp : ThreeWay cmp) (h : SortedUpTo cmp a n) : DistinctUpTo a n := by
  intro i j hi hj heq
  by_contra hne
  rcases Nat.lt_or_gt_of_ne hne with hlt | hlt
  · exact hcmp.irrefl (heq ▸ h i j hlt hj)
  · exact hcmp.irrefl (heq ▸ h j i hlt hi)

/-! ## Searching -/

/-- The index of `x` between `lo` and `hi`, if there is one. -/
def bsearch (cmp : α → α → Int) (a : Nat → α) (x : α) : Nat → Int → Int → Option (Option Nat)
  | 0, lo, hi => if lo ≤ hi then none else some none
  | fuel + 1, lo, hi =>
    if lo ≤ hi then
      let mid := (lo + hi) / 2
      let r := cmp (a mid.toNat) x
      if r = 0 then some (some mid.toNat)
      else if r < 0 then bsearch cmp a x fuel (mid + 1) hi
      else bsearch cmp a x fuel lo (mid - 1)
    else some none

theorem bsearch_spec (hcmp : ThreeWay cmp) (h : SortedUpTo cmp a n) {fuel : Nat} {lo hi : Int}
    (hlo : 0 ≤ lo) (hhi : hi < n) (hfuel : hi - lo + 1 ≤ fuel)
    (hin : ∀ i : Nat, i < n → a i = x → lo ≤ i ∧ (i : Int) ≤ hi) :
    ∃ r, bsearch cmp a x fuel lo hi = some r ∧ (∀ m, r = some m → m < n ∧ a m = x) ∧
      (r = none → ¬Has a n x) := by
  induction fuel generalizing lo hi with
  | zero =>
    have hgt : ¬lo ≤ hi := by omega
    refine ⟨none, if_neg hgt, (fun m hm => nomatch hm), ?_⟩
    rintro - ⟨i, hi, heq⟩
    have hbounds := hin i hi heq
    omega
  | succ fuel ih =>
    rw [bsearch]
    by_cases hle : lo ≤ hi
    · rw [if_pos hle]
      dsimp only
      obtain ⟨m, hm⟩ : ∃ m : Nat, (lo + hi) / 2 = m := ⟨((lo + hi) / 2).toNat, by omega⟩
      rw [hm, Int.toNat_natCast]
      have hmn : m < n := by omega
      by_cases hzero : cmp (a m) x = 0
      · rw [if_pos hzero]
        refine ⟨some m, rfl, ?_, nofun⟩
        intro m' hm'
        cases hm'
        exact ⟨hmn, hcmp.eq_zero.mp hzero⟩
      rw [if_neg hzero]
      by_cases hneg : cmp (a m) x < 0
      · rw [if_pos hneg]
        apply ih (by omega) hhi (by omega)
        -- an element that is not greater than that at `m` is not `x`
        intro i hi' heq
        refine ⟨?_, (hin i hi' heq).2⟩
        by_contra hlt
        have him : i ≤ m := by omega
        rcases Nat.lt_or_eq_of_le him with hlt' | rfl
        · have hsorted := h i m hlt' hmn
          rw [heq] at hsorted; exact hcmp.irrefl (hcmp.trans hsorted hneg)
        · exact hzero (hcmp.eq_zero.mpr heq)
      · rw [if_neg hneg]
        apply ih hlo (by omega) (by omega)
        intro i hi' heq
        refine ⟨(hin i hi' heq).1, ?_⟩
        by_contra hlt
        have him : m ≤ i := by omega
        rcases Nat.lt_or_eq_of_le him with hlt' | rfl
        · have hsorted := h m i hlt' hi'
          rw [heq] at hsorted; exact hneg hsorted
        · exact hzero (hcmp.eq_zero.mpr heq)
    · refine ⟨none, if_neg hle, (fun m hm => nomatch hm), ?_⟩
      rintro - ⟨i, hi', heq⟩
      have hbounds := hin i hi' heq
      omega

/-! ## Inserting -/

/-- The elements before `i` that are greater than `x` go up by one, from the last one on; with
the place that becomes free. -/
def shiftUp (cmp : α → α → Int) (x : α) : Nat → (Nat → α) → (Nat → α) × Nat
  | 0, a => (a, 0)
  | i + 1, a =>
    if 0 < cmp (a i) x then shiftUp cmp x i (update a (i + 1) (a i)) else (a, i + 1)

theorem shiftUp_spec (k : Nat) (a : Nat → α) :
    ∃ a' p, shiftUp cmp x k a = (a', p) ∧ p ≤ k ∧ (∀ j, p ≤ j → j < k → 0 < cmp (a j) x) ∧
      (∀ j, j + 1 = p → ¬0 < cmp (a j) x) ∧ (∀ j, j ≤ p → a' j = a j) ∧
      (∀ j, p ≤ j → j < k → a' (j + 1) = a j) ∧ (∀ j, k < j → a' j = a j) := by
  induction k generalizing a with
  | zero =>
    refine ⟨a, 0, rfl, Nat.le_refl 0, ?_, ?_, fun _ _ => rfl, ?_, fun _ _ => rfl⟩ <;>
      intro j <;> omega
  | succ k ih =>
    rw [shiftUp]
    by_cases hgt : 0 < cmp (a k) x
    · rw [if_pos hgt]
      obtain ⟨a', p, heq, hp, hgreater, hstop, hlow, hhigh, hrest⟩ := ih (update a (k + 1) (a k))
      -- what is read is not what was written
      have hsame : ∀ j ≤ k, update a (k + 1) (a k) j = a j := fun j hj =>
        update_of_ne (by omega) _ _
      refine ⟨a', p, heq, by omega, ?_, ?_, ?_, ?_, ?_⟩
      · intro j hj hjk
        rcases Nat.lt_succ_iff_lt_or_eq.mp hjk with hlt | rfl
        · have h := hgreater j hj hlt; rwa [hsame j (by omega)] at h
        · exact hgt
      · intro j hj
        have h := hstop j hj
        rwa [hsame j (by omega)] at h
      · intro j hj; rw [hlow j hj, hsame j (by omega)]
      · intro j hj hjk
        rcases Nat.lt_succ_iff_lt_or_eq.mp hjk with hlt | rfl
        · rw [hhigh j hj hlt, hsame j (by omega)]
        · rw [hrest (j + 1) (by omega), update_self]
      · intro j hj; rw [hrest j (by omega), update_of_ne (by omega)]
    · rw [if_neg hgt]
      refine ⟨a, k + 1, rfl, Nat.le_refl _, ?_, ?_, fun _ _ => rfl, ?_, fun _ _ => rfl⟩
      · intro j; omega
      · intro j hj
        obtain rfl : j = k := by omega
        exact hgt
      · intro j; omega

def insertSorted (cmp : α → α → Int) (a : Nat → α) (n : Nat) (x : α) : Nat → α :=
  update (shiftUp cmp x n a).1 (shiftUp cmp x n a).2 x

theorem insertSorted_spec (hcmp : ThreeWay cmp) (h : SortedUpTo cmp a n) (hnew : ¬Has a n x) :
    SortedUpTo cmp (insertSorted cmp a n x) (n + 1) ∧
      ∀ y, Has (insertSorted cmp a n x) (n + 1) y ↔ y = x ∨ Has a n y := by
  obtain ⟨a', p, heq, hp, hgreater, hstop, hlow, hhigh, -⟩ :=
    @shiftUp_spec α cmp x n a
  have hself : insertSorted cmp a n x p = x := by rw [insertSorted, heq, update_self]
  have hbelow : ∀ j < p, insertSorted cmp a n x j = a j := by
    intro j hj
    rw [insertSorted, heq, update_of_ne (Nat.ne_of_lt hj)]; exact hlow j (Nat.le_of_lt hj)
  have habove : ∀ j, p ≤ j → j < n → insertSorted cmp a n x (j + 1) = a j := by
    intro j hj hjn
    rw [insertSorted, heq, update_of_ne (by omega)]; exact hhigh j hj hjn
  have hless : ∀ i < p, cmp (a i) x < 0 := by
    intro i hi
    obtain ⟨k, rfl⟩ : ∃ k, p = k + 1 := ⟨p - 1, by omega⟩
    have hne : a k ≠ x := fun hk => hnew ⟨k, by omega, hk⟩
    have hlast := hcmp.lt_of_ne (Int.not_lt.mp (hstop k rfl)) hne
    rcases Nat.lt_succ_iff_lt_or_eq.mp hi with hlt | rfl
    · exact hcmp.trans (h i k hlt (by omega)) hlast
    · exact hlast
  constructor
  · intro i j hij hj
    rcases Nat.lt_trichotomy j p with hjp | rfl | hjp
    · rw [hbelow i (by omega), hbelow j hjp]; exact h i j hij (by omega)
    · rw [hbelow i hij, hself]; exact hless i hij
    · obtain ⟨k, rfl⟩ : ∃ k, j = k + 1 := ⟨j - 1, by omega⟩
      rw [habove k (by omega) (by omega)]
      rcases Nat.lt_trichotomy i p with hip | rfl | hip
      · rw [hbelow i hip]; exact h i k (by omega) (by omega)
      · rw [hself]; exact hcmp.swap.mpr (hgreater k (by omega) (by omega))
      · obtain ⟨m, rfl⟩ : ∃ m, i = m + 1 := ⟨i - 1, by omega⟩
        rw [habove m (by omega) (by omega)]; exact h m k (by omega) (by omega)
  · intro y
    constructor
    · rintro ⟨i, hi, rfl⟩
      rcases Nat.lt_trichotomy i p with hip | rfl | hip
      · exact .inr ⟨i, by omega, (hbelow i hip).symm⟩
      · exact .inl hself
      · obtain ⟨m, rfl⟩ : ∃ m, i = m + 1 := ⟨i - 1, by omega⟩
        exact .inr ⟨m, by omega, (habove m (by omega) (by omega)).symm⟩
    · rintro (rfl | ⟨i, hi, rfl⟩)
      · exact ⟨p, by omega, hself⟩
      · by_cases hip : i < p
        · exact ⟨i, by omega, hbelow i hip⟩
        · exact ⟨i + 1, by omega, habove i (by omega) hi⟩

/-! ## Removing -/

/-- The `k` elements after `i` go down by one, from the first one on. -/
def closeGap : Nat → Nat → (Nat → α) → Nat → α
  | 0, _, a => a
  | k + 1, i, a => closeGap k (i + 1) (update a i (a (i + 1)))

theorem closeGap_eq (k i : Nat) (a : Nat → α) (j : Nat) :
    closeGap k i a j = if i ≤ j ∧ j < i + k then a (j + 1) else a j := by
  induction k generalizing i a with
  | zero => rw [closeGap, if_neg (by omega)]
  | succ k ih =>
    rw [closeGap, ih]
    rcases Nat.lt_trichotomy j i with hlt | rfl | hgt
    · rw [if_neg (by omega), if_neg (by omega), update_of_ne (by omega)]
    · rw [if_neg (by omega), if_pos (by omega), update_self]
    · rw [update_of_ne (by omega), update_of_ne (by omega)]
      congr 1
      rw [eq_iff_iff]; omega

theorem closeGap_spec (hcmp : ThreeWay cmp) (h : SortedUpTo cmp a n) {m : Nat} (hm : m < n)
    {b : Nat → α} (hb : ∀ j < n - 1, b j = closeGap (n - 1 - m) m a j) :
    SortedUpTo cmp b (n - 1) ∧ ∀ y, Has b (n - 1) y ↔ Has a n y ∧ y ≠ a m := by
  have hbelow : ∀ j < m, b j = a j := by
    intro j hj
    rw [hb j (by omega), closeGap_eq, if_neg (by omega)]
  have habove : ∀ j, m ≤ j → j < n - 1 → b j = a (j + 1) := by
    intro j hj hjn
    rw [hb j hjn, closeGap_eq, if_pos (by omega)]
  have hdistinct := h.distinct hcmp
  constructor
  · intro i j hij hj
    by_cases hjm : j < m
    · rw [hbelow i (by omega), hbelow j hjm]; exact h i j hij (by omega)
    · rw [habove j (by omega) hj]
      by_cases him : i < m
      · rw [hbelow i him]; exact h i (j + 1) (by omega) (by omega)
      · rw [habove i (by omega) (by omega)]; exact h (i + 1) (j + 1) (by omega) (by omega)
  · intro y
    constructor
    · rintro ⟨i, hi, rfl⟩
      by_cases him : i < m
      · rw [hbelow i him]
        refine ⟨⟨i, by omega, rfl⟩, fun heq => ?_⟩
        have hidx := hdistinct i m (by omega) hm heq
        omega
      · rw [habove i (by omega) hi]
        refine ⟨⟨i + 1, by omega, rfl⟩, fun heq => ?_⟩
        have hidx := hdistinct (i + 1) m (by omega) hm heq
        omega
    · rintro ⟨⟨i, hi, rfl⟩, hne⟩
      rcases Nat.lt_trichotomy i m with him | rfl | him
      · exact ⟨i, by omega, hbelow i him⟩
      · exact absurd rfl hne
      · obtain ⟨k, rfl⟩ : ∃ k, i = k + 1 := ⟨i - 1, by omega⟩
        exact ⟨k, by omega, habove k (by omega) (by omega)⟩

/-! ## Sorting -/

def exchange (cmp : α → α → Int) (a : Nat → α) (i : Nat) : Nat → α :=
  if 0 < cmp (a i) (a (i + 1)) then update (update a (i + 1) (a i)) i (a (i + 1)) else a

/-- The first `m` steps of a pass. -/
def passTo (cmp : α → α → Int) (m : Nat) (a : Nat → α) : Nat → α :=
  (List.range m).foldl (exchange cmp) a

/-- As many passes as there are elements. -/
def bubbleSort (cmp : α → α → Int) (n : Nat) (a : Nat → α) : Nat → α :=
  (List.range n).foldl (fun a _ => passTo cmp (n - 1) a) a

/-- The elements from `k` on are not less than those before them. -/
def SortedFrom (cmp : α → α → Int) (k n : Nat) (a : Nat → α) : Prop :=
  ∀ i j, i < j → j < n → k ≤ j → cmp (a i) (a j) ≤ 0

/-- The arrays have the same elements. -/
structure SameElems (n : Nat) (a b : Nat → α) : Prop where
  has : ∀ y, Has b n y ↔ Has a n y
  distinct : DistinctUpTo a n → DistinctUpTo b n

theorem SameElems.refl (n : Nat) (a : Nat → α) : SameElems n a a := ⟨fun _ => Iff.rfl, id⟩

theorem SameElems.trans {b c : Nat → α} (h : SameElems n a b) (h' : SameElems n b c) :
    SameElems n a c :=
  ⟨fun y => (h'.has y).trans (h.has y), fun hd => h'.distinct (h.distinct hd)⟩

theorem exchange_cases (cmp : α → α → Int) (a : Nat → α) (i : Nat) :
    (cmp (a i) (a (i + 1)) ≤ 0 ∧ exchange cmp a i = a) ∨
      (0 < cmp (a i) (a (i + 1)) ∧ exchange cmp a i = a ∘ Equiv.swap i (i + 1)) := by
  by_cases hgt : 0 < cmp (a i) (a (i + 1))
  · refine .inr ⟨hgt, ?_⟩
    funext j
    rw [exchange, if_pos hgt, comp_apply]
    by_cases hji : j = i
    · subst hji; rw [update_self, Equiv.swap_apply_left]
    · rw [update_of_ne hji]
      by_cases hj : j = i + 1
      · subst hj; rw [update_self, Equiv.swap_apply_right]
      · rw [update_of_ne hj, Equiv.swap_apply_of_ne_of_ne hji hj]
  · exact .inl ⟨Int.not_lt.mp hgt, if_neg hgt⟩

theorem sameElems_swap {i : Nat} (hi : i + 1 < n) : SameElems n a (a ∘ Equiv.swap i (i + 1)) := by
  have hlt : ∀ j < n, Equiv.swap i (i + 1) j < n := by
    intro j hj
    rw [Equiv.swap_apply_def]
    split
    · exact hi
    split
    · omega
    · exact hj
  refine ⟨fun y => ⟨?_, ?_⟩, fun hd j k hj hk heq => ?_⟩
  · rintro ⟨j, hj, rfl⟩; exact ⟨_, hlt j hj, rfl⟩
  · rintro ⟨j, hj, rfl⟩
    refine ⟨_, hlt j hj, ?_⟩
    rw [comp_apply, Equiv.swap_apply_self]
  · exact (Equiv.swap i (i + 1)).injective (hd _ _ (hlt j hj) (hlt k hk) heq)

theorem sameElems_exchange (cmp : α → α → Int) {i : Nat} (hi : i + 1 < n) :
    SameElems n a (exchange cmp a i) := by
  rcases exchange_cases cmp a i with ⟨-, heq⟩ | ⟨-, heq⟩
  · rw [heq]; exact SameElems.refl n a
  · rw [heq]; exact sameElems_swap hi

theorem SortedFrom.exchange {k i : Nat} (h : SortedFrom cmp k n a) (hi : i + 1 < n) :
    SortedFrom cmp k n (exchange cmp a i) := by
  rcases exchange_cases cmp a i with ⟨-, heq⟩ | ⟨hgt, heq⟩
  · rw [heq]; exact h
  rw [heq]
  have hik : i + 1 < k := by
    by_contra hle
    have hsorted := h i (i + 1) (by omega) hi (by omega)
    omega
  intro p j hpj hj hkj
  have hj' : Equiv.swap i (i + 1) j = j := Equiv.swap_apply_of_ne_of_ne (by omega) (by omega)
  rw [comp_apply, comp_apply, hj']
  refine h _ j ?_ hj hkj
  rw [Equiv.swap_apply_def]
  split
  · omega
  split <;> omega

theorem exchange_max (hcmp : ThreeWay cmp) {i : Nat} (h : ∀ t ≤ i, cmp (a t) (a i) ≤ 0) :
    ∀ t ≤ i + 1, cmp (exchange cmp a i t) (exchange cmp a i (i + 1)) ≤ 0 := by
  intro t ht
  rcases exchange_cases cmp a i with ⟨hle, heq⟩ | ⟨hgt, heq⟩
  · rw [heq]
    rcases Nat.lt_succ_iff_lt_or_eq.mp (Nat.lt_succ_of_le ht) with hlt | rfl
    · exact hcmp.le_trans (h t (by omega)) hle
    · exact Int.le_of_eq (hcmp.refl _)
  · rw [heq, comp_apply, comp_apply, Equiv.swap_apply_right]
    by_cases hti : t = i
    · subst hti
      rw [Equiv.swap_apply_left]; exact Int.le_of_lt (hcmp.swap.mpr hgt)
    · by_cases hti' : t = i + 1
      · subst hti'
        rw [Equiv.swap_apply_right]; exact Int.le_of_eq (hcmp.refl _)
      · rw [Equiv.swap_apply_of_ne_of_ne hti hti']; exact h t (by omega)

theorem passTo_succ (m : Nat) (a : Nat → α) :
    passTo cmp (m + 1) a = exchange cmp (passTo cmp m a) m := by
  rw [passTo, List.range_succ, List.foldl_append]; rfl

theorem sameElems_passTo {m : Nat} (hm : m + 1 ≤ n) : SameElems n a (passTo cmp m a) := by
  induction m with
  | zero => exact SameElems.refl n a
  | succ m ih =>
    rw [passTo_succ]; exact (ih (by omega)).trans (sameElems_exchange cmp (by omega))

theorem passTo_max (hcmp : ThreeWay cmp) (m : Nat) :
    ∀ t ≤ m, cmp (passTo cmp m a t) (passTo cmp m a m) ≤ 0 := by
  induction m with
  | zero =>
    intro t ht
    obtain rfl : t = 0 := by omega
    exact Int.le_of_eq (hcmp.refl _)
  | succ m ih => rw [passTo_succ]; exact exchange_max hcmp ih

theorem SortedFrom.passTo {k m : Nat} (h : SortedFrom cmp k n a) (hm : m + 1 ≤ n) :
    SortedFrom cmp k n (passTo cmp m a) := by
  induction m with
  | zero => exact h
  | succ m ih => rw [passTo_succ]; exact (ih (by omega)).exchange (by omega)

theorem SortedFrom.pass (hcmp : ThreeWay cmp) {k : Nat} (h : SortedFrom cmp (k + 1) n a)
    (hk : k < n) : SortedFrom cmp k n (Lib.passTo cmp (n - 1) a) := by
  -- the place is reached after `k` steps, and the others do not change it
  have hreach : SortedFrom cmp k n (Lib.passTo cmp k a) := by
    intro i j hij hj hkj
    rcases Nat.lt_or_eq_of_le hkj with hlt | rfl
    · exact h.passTo (by omega) i j hij hj hlt
    · exact passTo_max hcmp _ i (by omega)
  have hrest : ∀ d, k + d + 1 ≤ n → SortedFrom cmp k n (Lib.passTo cmp (k + d) a) := by
    intro d
    induction d with
    | zero => exact fun _ => hreach
    | succ d ih =>
      intro hd
      rw [← Nat.add_assoc, passTo_succ]; exact (ih (by omega)).exchange (by omega)
  have hall := hrest (n - 1 - k) (by omega)
  rwa [Nat.add_sub_of_le (by omega)] at hall

theorem bubbleSort_spec (hcmp : ThreeWay cmp) (h : DistinctUpTo a n) :
    SortedUpTo cmp (bubbleSort cmp n a) n ∧ ∀ y, Has (bubbleSort cmp n a) n y ↔ Has a n y := by
  have hpasses : ∀ p ≤ n,
      SameElems n a ((List.range p).foldl (fun a _ => passTo cmp (n - 1) a) a) ∧
        SortedFrom cmp (n - p) n ((List.range p).foldl (fun a _ => passTo cmp (n - 1) a) a) := by
    intro p
    induction p with
    | zero =>
      intro _
      refine ⟨SameElems.refl n a, fun i j _ hj hnj => ?_⟩
      omega
    | succ p ih =>
      intro hp
      obtain ⟨hsame, hsorted⟩ := ih (by omega)
      rw [List.range_succ, List.foldl_append]
      have hstep : n - p = n - (p + 1) + 1 := by omega
      rw [hstep] at hsorted
      exact ⟨hsame.trans (sameElems_passTo (by omega)), hsorted.pass hcmp (by omega)⟩
  obtain ⟨hsame, hsorted⟩ := hpasses n (Nat.le_refl n)
  refine ⟨fun i j hij hj => ?_, hsame.has⟩
  apply hcmp.lt_of_ne (hsorted i j hij hj (by omega))
  intro heq
  have hidx := hsame.distinct h i j (by omega) hj heq
  omega

end Qcacld.Lib
