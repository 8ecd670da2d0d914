/-
Next fit: items are put into a bin in their order until one does not fit any more; the bin is
closed, and that item is the first of the next one, whatever its weight.

An item heavier than the capacity closes the open bin, also an empty one, and is alone in its own:
every other bin is within the capacity (`load_le_or_singleton`).
-/
import Mathlib.Data.UInt
import Mathlib.Algebra.BigOperators.Group.List.Basic

set_option autoImplicit false

namespace Qcacld.Lib

open List

variable {α : Type*} {w : α → Nat} {cap : Nat}

def load (w : α → Nat) (bin : List α) : Nat := (bin.map w).sum

@[simp] theorem load_nil : load w [] = 0 := rfl

@[simp] theorem load_singleton (a : α) : load w [a] = w a := sum_singleton

theorem load_concat (bin : List α) (a : α) : load w (bin ++ [a]) = load w bin + w a := by
  rw [load, map_append, sum_append]; rfl

theorem load_append (l₁ l₂ : List α) : load w (l₁ ++ l₂) = load w l₁ + load w l₂ := by
  rw [load, map_append, sum_append]; rfl

theorem le_load {bin : List α} {a : α} (ha : a ∈ bin) : w a ≤ load w bin := by
  obtain ⟨l₁, l₂, rfl⟩ := append_of_mem ha
  rw [load_append, load, load, map_cons, sum_cons]; omega

/-- The bins of a list of items that come after those of an open bin. -/
def nextFit (w : α → Nat) (cap : Nat) : List α → List α → List (List α)
  | bin, [] => [bin]
  | bin, a :: l =>
    if load w bin + w a ≤ cap then nextFit w cap (bin ++ [a]) l
    else bin :: nextFit w cap [a] l

theorem nextFit_ne_nil (bin l : List α) : nextFit w cap bin l ≠ [] := by
  induction l generalizing bin with
  | nil => exact cons_ne_nil _ _
  | cons a l ih =>
    rw [nextFit]
    split
    · exact ih _
    · exact cons_ne_nil _ _

theorem nextFit_flatten (bin l : List α) : (nextFit w cap bin l).flatten = bin ++ l := by
  induction l generalizing bin with
  | nil => rw [nextFit, flatten_singleton, append_nil]
  | cons a l ih =>
    rw [nextFit]
    split
    · rw [ih, append_assoc]; rfl
    · rw [flatten_cons, ih]; rfl

theorem length_le_of_mem_nextFit {bin l b : List α} (hb : b ∈ nextFit w cap bin l) :
    b.length ≤ (bin ++ l).length := by
  have hflat : (nextFit w cap bin l).flatten = bin ++ l := nextFit_flatten bin l
  rw [← hflat]; exact (sublist_flatten_of_mem hb).length_le

theorem load_le_or_singleton {bin l b : List α}
    (hbin : load w bin ≤ cap ∨ ∃ a, bin = [a]) (hb : b ∈ nextFit w cap bin l) :
    load w b ≤ cap ∨ ∃ a, b = [a] := by
  induction l generalizing bin with
  | nil => rw [nextFit, mem_singleton] at hb; exact hb ▸ hbin
  | cons a l ih =>
    rw [nextFit] at hb
    split at hb
    · rename_i hfits
      apply ih (Or.inl _) hb
      rw [load_concat]; exact hfits
    · rcases mem_cons.mp hb with rfl | hb
      · exact hbin
      · exact ih (Or.inr ⟨a, rfl⟩) hb

end Qcacld.Lib
