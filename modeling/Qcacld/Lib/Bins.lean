/-
Families of lists in which one element is linked or unlinked at a time: the bins of a hash table,
the members of each parent, the queues of each class.

`bins : κ → List α` is the family; linking appends to one bin, unlinking erases from one bin.
-/
import Mathlib.Data.List.Nodup

set_option autoImplicit false

namespace Qcacld.Lib

open Function

variable {κ α : Type*} [DecidableEq κ]

theorem mem_update_append {bins : κ → List α} {k i : κ} {a b : α} :
    b ∈ update bins k (bins k ++ [a]) i ↔ b ∈ bins i ∨ i = k ∧ b = a := by
  by_cases hi : i = k
  · subst hi; simp
  · simp [hi]

theorem nodup_update {bins : κ → List α} {k : κ} {l : List α} (h : ∀ i, (bins i).Nodup)
    (hl : l.Nodup) (i : κ) : (update bins k l i).Nodup := by
  by_cases hi : i = k
  · rw [hi, update_self]; exact hl
  · rw [update_of_ne hi]; exact h i

theorem nodup_append_singleton {l : List α} {a : α} (h : l.Nodup) (ha : a ∉ l) :
    (l ++ [a]).Nodup := by
  refine List.nodup_append.mpr ⟨h, List.nodup_singleton a, fun b hb c hc hbc => ha ?_⟩
  rwa [← List.mem_singleton.mp hc, ← hbc]

variable [DecidableEq α]

/-- **Unlinking.** If `a` is in no bin but bin `k`, erasing it there removes it
from the family and nothing else. -/
theorem mem_update_erase {bins : κ → List α} {k : κ} {a : α} (h : ∀ i, (bins i).Nodup)
    (hk : ∀ i, a ∈ bins i → i = k) {i : κ} {b : α} :
    b ∈ update bins k ((bins k).erase a) i ↔ b ≠ a ∧ b ∈ bins i := by
  by_cases hi : i = k
  · subst hi; rw [update_self, (h i).mem_erase_iff]
  · rw [update_of_ne hi]; refine ⟨fun hb => ⟨fun he => hi (hk i (he ▸ hb)), hb⟩, fun hb => hb.2⟩

end Qcacld.Lib
