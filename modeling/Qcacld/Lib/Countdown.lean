/-
Waiting for arrivals.

There is a set of things that are waited for, and things arrive one after the other. At an arrival
the thing is not waited for any longer, and if none is left then something fires.
-/
import Mathlib.Data.Finset.Basic

set_option autoImplicit false

namespace Qcacld.Lib

variable {α : Type*} [DecidableEq α]

/-- How many arrivals are to come at each firing. -/
def fires (W : Finset α) : List α → List Nat
  | [] => []
  | x :: xs =>
    if W.erase x = ∅ then xs.length :: fires (W.erase x) xs else fires (W.erase x) xs

/-- Nothing but the last arrival fires if and only if all that is waited for arrives, and something
of it not before the last arrival, unless that is the only one. -/
theorem fires_eq_single (W : Finset α) (xs : List α) :
    fires W xs = [0] ↔ xs ≠ [] ∧ (∀ w ∈ W, w ∈ xs) ∧
      (xs.dropLast ≠ [] → ∃ w ∈ W, w ∉ xs.dropLast) := by
  induction xs generalizing W with
  | nil => exact iff_of_false (nofun) fun h => h.1 rfl
  | cons x xs ih =>
    have herase : (∀ w ∈ W.erase x, w ∈ xs) ↔ ∀ w ∈ W, w ∈ x :: xs := by
      simp only [Finset.mem_erase, List.mem_cons, and_imp]
      constructor
      · intro h w hw
        by_cases hwx : w = x
        · exact .inl hwx
        · exact .inr (h w hwx hw)
      · intro h w hwx hw; exact (h w hw).resolve_left hwx
    rw [fires]
    match xs with
    | [] =>
      have hnone : W.erase x = ∅ ↔ ∀ w ∈ W, w ∈ [x] := by
        rw [← herase, Finset.eq_empty_iff_forall_notMem]
        exact forall_congr' fun w => forall_congr' fun _ => iff_of_false id List.not_mem_nil
      by_cases hempty : W.erase x = ∅
      · rw [if_pos hempty]
        exact iff_of_true rfl ⟨List.cons_ne_nil _ _, hnone.mp hempty, fun h => absurd rfl h⟩
      · rw [if_neg hempty]; exact iff_of_false (nofun) fun h => hempty (hnone.mpr h.2.1)
    | y :: ys =>
      rw [List.dropLast_cons_cons]
      by_cases hempty : W.erase x = ∅
      · -- it fires too early
        rw [if_pos hempty]
        apply iff_of_false
        · intro h; exact Nat.succ_ne_zero _ (List.cons.inj h).1
        · rintro ⟨-, -, hlate⟩
          obtain ⟨w, hw, hnot⟩ := hlate (List.cons_ne_nil _ _)
          have hmem : w ∈ W.erase x := Finset.mem_erase.mpr
            ⟨fun hwx => hnot (hwx ▸ List.mem_cons_self), hw⟩
          rw [hempty] at hmem; exact Finset.notMem_empty w hmem
      · rw [if_neg hempty, ih, ← herase]
        apply and_congr (iff_of_true (List.cons_ne_nil _ _) (List.cons_ne_nil _ _))
        apply and_congr_right
        intro _
        have hlate : (∃ w ∈ W, w ∉ x :: (y :: ys).dropLast) ↔
            ∃ w ∈ W.erase x, w ∉ (y :: ys).dropLast := by
          apply exists_congr
          intro w
          rw [Finset.mem_erase, List.mem_cons, not_or]; exact and_left_comm.trans and_assoc.symm
        rw [hlate]
        constructor
        · intro h _
          by_cases hnil : (y :: ys).dropLast = []
          · obtain ⟨w, hw⟩ := Finset.nonempty_iff_ne_empty.mpr hempty
            exact ⟨w, hw, hnil ▸ List.not_mem_nil⟩
          · exact h hnil
        · exact fun h _ => h (List.cons_ne_nil _ _)

end Qcacld.Lib
