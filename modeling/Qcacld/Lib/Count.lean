/-
Adding up a table.

Tables are functions, one entry is rewritten at a time with `Function.update`, and `tally` adds up a
weight of the entries listed in `l`.
-/
import Mathlib.Algebra.Order.Ring.Int
import Mathlib.Data.List.Nodup

set_option autoImplicit false

namespace Qcacld.Lib

open Function List

variable {ι α : Type*}

/-- The weights of the entries of `m` listed in `l`, added up. -/
def tally (f : α → Nat) (m : ι → α) (l : List ι) : Nat :=
  (l.map fun i => f (m i)).sum

section Tally

variable (f : α → Nat) (m : ι → α)

@[simp] theorem tally_nil : tally f m [] = 0 := rfl

@[simp] theorem tally_cons (i : ι) (l : List ι) :
    tally f m (i :: l) = f (m i) + tally f m l := by simp [tally]

@[simp] theorem tally_append (l l' : List ι) :
    tally f m (l ++ l') = tally f m l + tally f m l' := by simp [tally]

theorem tally_perm {l l' : List ι} (h : l.Perm l') : tally f m l = tally f m l' :=
  List.Perm.sum_nat (h.map _)

variable {l : List ι}

theorem tally_eq_zero (h : ∀ i ∈ l, f (m i) = 0) : tally f m l = 0 := by
  induction l with
  | nil => rfl
  | cons i l ih => rw [tally_cons, h i mem_cons_self, ih fun j hj => h j (mem_cons_of_mem i hj)]

theorem le_tally {i : ι} (hi : i ∈ l) : f (m i) ≤ tally f m l := by
  induction l with
  | nil => simp at hi
  | cons j l ih =>
    rw [tally_cons]
    rcases mem_cons.mp hi with rfl | hi
    · omega
    · have := ih hi; omega

theorem tally_eq_one (hl : l.Nodup) (h : tally f m l = 1) :
    ∃ i ∈ l, f (m i) = 1 ∧ ∀ j ∈ l, j ≠ i → f (m j) = 0 := by
  induction l with
  | nil => exact absurd h (by simp)
  | cons i l ih =>
    obtain ⟨hi, hl⟩ := nodup_cons.mp hl
    rw [tally_cons] at h
    by_cases h0 : f (m i) = 0
    · obtain ⟨k, hk, hk1, hother⟩ := ih hl (by omega)
      refine ⟨k, mem_cons_of_mem i hk, hk1, fun j hj hjk => ?_⟩
      rcases mem_cons.mp hj with rfl | hj
      · exact h0
      · exact hother j hj hjk
    · refine ⟨i, mem_cons_self, by omega, fun j hj hji => ?_⟩
      have hjl : j ∈ l := (mem_cons.mp hj).resolve_left hji
      have := le_tally f m hjl
      omega

variable [DecidableEq ι]

theorem tally_update_of_notMem (v : α) {i : ι} (hi : i ∉ l) :
    tally f (update m i v) l = tally f m l := by
  have hmap : (l.map fun j => f (update m i v j)) = l.map fun j => f (m j) := by
    refine map_congr_left fun j hj => ?_
    have hne : j ≠ i := fun h => hi (h ▸ hj)
    rw [update_of_ne hne]
  rw [tally, tally, hmap]

/-- **The update rule.** Rewriting entry `i` from `m i` to `v` takes the old
weight out and puts the new one in. -/
theorem tally_update (v : α) {i : ι} (hl : l.Nodup) (hi : i ∈ l) :
    tally f (update m i v) l + f (m i) = tally f m l + f v := by
  induction l with
  | nil => simp at hi
  | cons j l ih =>
    obtain ⟨hj, hl⟩ := nodup_cons.mp hl
    rw [tally_cons, tally_cons]
    by_cases hij : j = i
    · subst hij
      rw [tally_update_of_notMem f m v hj, update_self]; omega
    · have him : i ∈ l := (mem_cons.mp hi).resolve_left (Ne.symm hij)
      rw [update_of_ne hij]
      have := ih hl him
      omega

theorem tally_erase (i : ι) :
    tally f m l = tally f m (l.erase i) + if i ∈ l then f (m i) else 0 := by
  by_cases hi : i ∈ l
  · rw [if_pos hi, tally_perm f m (perm_cons_erase hi), tally_cons]; omega
  · rw [if_neg hi, erase_of_not_mem hi, Nat.add_zero]

/-- **The relink rule.** Entry `i` is rewritten to `v` while it is put into a list,
taken out of it or moved in it. -/
theorem tally_relink (v : α) {i : ι} {l l' : List ι} (hl : l.Nodup) (hl' : l'.Nodup)
    (h : ∀ j, j ≠ i → (j ∈ l' ↔ j ∈ l)) :
    tally f (update m i v) l' + (if i ∈ l then f (m i) else 0)
      = tally f m l + if i ∈ l' then f v else 0 := by
  have hperm : (l'.erase i).Perm (l.erase i) := by
    refine (perm_ext_iff_of_nodup (hl'.erase i) (hl.erase i)).mpr fun j => ?_
    rw [hl'.mem_erase_iff, hl.mem_erase_iff]; exact and_congr_right fun hj => h j hj
  have hout : tally f (update m i v) (l'.erase i) = tally f m (l.erase i) := by
    rw [tally_update_of_notMem f m v hl'.not_mem_erase, tally_perm f m hperm]
  rw [tally_erase f (update m i v) i, tally_erase f m i (l := l), hout, update_self]; omega

end Tally

/-! ## Counting the holders of a value -/

variable [DecidableEq α]

/-- How many of the indices in `l` hold `x` in the table `m`. -/
def holders (m : ι → α) (l : List ι) (x : α) : Nat :=
  tally (fun y => if y = x then 1 else 0) m l

theorem holders_eq_zero {m : ι → α} {l : List ι} {x : α} (h : ∀ i ∈ l, m i ≠ x) :
    holders m l x = 0 :=
  tally_eq_zero _ _ fun i hi => if_neg (h i hi)

theorem holders_pos {m : ι → α} {l : List ι} {x : α} {i : ι} (hi : i ∈ l) (hm : m i = x) :
    0 < holders m l x := by
  have hle := le_tally (fun y => if y = x then 1 else 0) m hi
  rw [if_pos hm] at hle; exact hle

theorem holders_update [DecidableEq ι] (m : ι → α) (v x : α) {i : ι} {l : List ι} (hl : l.Nodup)
    (hi : i ∈ l) :
    holders (update m i v) l x + (if m i = x then 1 else 0)
      = holders m l x + (if v = x then 1 else 0) :=
  tally_update _ m v hl hi

end Qcacld.Lib
