/-
Serving backlogs in rounds.

`served backlog l k` is what `k` rounds over the list `l` have taken: from each backlog all of it,
or `k` items of it.
-/
import Mathlib.Data.UInt
import Mathlib.Algebra.Order.BigOperators.Group.List
import Mathlib.Algebra.Order.Group.Nat

set_option autoImplicit false

namespace Qcacld.Lib

variable {ι : Type*} {backlog : ι → Nat} {l : List ι} {j k : Nat}

/-- What `k` rounds take. -/
def served (backlog : ι → Nat) (l : List ι) (k : Nat) : Nat :=
  (l.map fun i => min (backlog i) k).sum

theorem served_zero : served backlog l 0 = 0 := by
  unfold served
  induction l with
  | nil => rfl
  | cons i l ih => rw [List.map_cons, List.sum_cons, ih, Nat.min_zero]

theorem served_succ :
    served backlog l (k + 1) = served backlog l 1 + served (fun i => backlog i - 1) l k := by
  unfold served
  induction l with
  | nil => rfl
  | cons i l ih => simp only [List.map_cons, List.sum_cons, ih]; omega

theorem sum_eq_served_one_add :
    (l.map backlog).sum = served backlog l 1 + (l.map fun i => backlog i - 1).sum := by
  unfold served
  induction l with
  | nil => rfl
  | cons i l ih => simp only [List.map_cons, List.sum_cons, ih]; omega

theorem served_congr {backlog' : ι → Nat} (h : ∀ i ∈ l, backlog' i = backlog i) (k : Nat) :
    served backlog' l k = served backlog l k := by
  unfold served
  congr 1
  apply List.map_congr_left
  intro i hi
  rw [h i hi]

theorem served_mono (h : j ≤ k) : served backlog l j ≤ served backlog l k := by
  apply List.sum_le_sum
  intro i _; exact min_le_min_left (backlog i) h

theorem served_le_sum (k : Nat) : served backlog l k ≤ (l.map backlog).sum := by
  apply List.sum_le_sum
  intro i _; exact min_le_left (backlog i) k

theorem served_one_pos {i : ι} (hi : i ∈ l) (h : 0 < backlog i) : 0 < served backlog l 1 := by
  have hone : min (backlog i) 1 ≤ served backlog l 1 :=
    List.single_le_sum (fun _ _ => Nat.zero_le _) _ (List.mem_map_of_mem hi)
  omega

/-- A server that passes over no number of rounds that comes to the budget does not exceed it,
if there is such a number. -/
theorem served_le_budget {budget : Nat} (hj : served backlog l j = budget)
    (hpassed : j < k → served backlog l j ≠ budget) : served backlog l k ≤ budget := by
  have hjk : k ≤ j := by by_contra hlt; exact hpassed (Nat.lt_of_not_le hlt) hj
  calc served backlog l k ≤ served backlog l j := served_mono hjk
    _ = budget := hj

end Qcacld.Lib
