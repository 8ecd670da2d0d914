/-
Queues of indices that are threaded through an array.

Each cell of the array has the index of the next one, and one index stands for the end. `Threaded
null next head tail l` says that the queue holds the indices `l`, and two rules describe taking the
first one (`Threaded.pop`) and appending one (`Threaded.push`), as they are written for such arrays.
-/
import Qcacld.Lib.Bins
import Qcacld.Lib.Chain

set_option autoImplicit false

namespace Qcacld.Lib

open Function

variable {α : Type*} [DecidableEq α] {null : α} {next : α → α} {head tail a : α} {l : List α}

/-- An index as a pointer. -/
def ptr (null a : α) : Option α := if a = null then none else some a

theorem ptr_null : ptr null null = none := if_pos rfl

theorem ptr_of_ne (h : a ≠ null) : ptr null a = some a := if_neg h

theorem ptr_eq_some {b : α} : ptr null a = some b ↔ a = b ∧ a ≠ null := by
  by_cases h : a = null
  · rw [h, ptr_null]; exact ⟨fun hn => (nomatch hn), fun hb => absurd rfl hb.2⟩
  · rw [ptr_of_ne h, Option.some.injEq, and_iff_left h]

theorem ptr_eq_none : ptr null a = none ↔ a = null := by
  by_cases h : a = null
  · rw [h, ptr_null]; exact ⟨fun _ => rfl, fun _ => rfl⟩
  · rw [ptr_of_ne h]; exact ⟨fun hn => (nomatch hn), fun hn => absurd hn h⟩

structure Threaded (null : α) (next : α → α) (head tail : α) (l : List α) : Prop where
  linked : Linked (fun i => ptr null (next i)) (ptr null head) l none
  last : ptr null tail = l.getLast?
  nodup : l.Nodup

theorem Threaded.pop (h : Threaded null next head tail l) (hne : head ≠ null) :
    ∃ l', l = head :: l' ∧
      Threaded null next (next head) (if next head = null then null else tail) l' := by
  have hlinked := h.linked
  rw [ptr_of_ne hne] at hlinked
  cases l with
  | nil => cases hlinked
  | cons b l' =>
    obtain rfl := Option.some.inj hlinked.1
    refine ⟨l', rfl, hlinked.2, ?_, (List.nodup_cons.mp h.nodup).2⟩
    cases l' with
    | nil => rw [if_pos (ptr_eq_none.mp hlinked.2), ptr_null]; rfl
    | cons c l' => rw [if_neg (ptr_eq_some.mp hlinked.2.1).2, h.last, List.getLast?_cons_cons]

theorem Threaded.push (h : Threaded null next head tail l) (htail : tail ≠ null) (ha : a ≠ null)
    (hnew : a ∉ l) : Threaded null (update (update next tail a) a null) head a (l ++ [a]) := by
  have hlast := h.last
  rw [ptr_of_ne htail] at hlast
  obtain ⟨l₀, rfl⟩ := List.getLast?_eq_some_iff.mp hlast.symm
  -- the array as pointers: the last cell points to the new one, which is the end
  have hnext : (fun i => ptr null (update (update next tail a) a null i)) =
      update (update (fun i => ptr null (next i)) tail (some a)) a none := by
    funext i
    by_cases hi : i = a
    · rw [hi, update_self, update_self, ptr_null]
    · rw [update_of_ne hi, update_of_ne hi]
      by_cases hit : i = tail
      · rw [hit, update_self, update_self, ptr_of_ne ha]
      · rw [update_of_ne hit, update_of_ne hit]
  have htail₀ : tail ∉ l₀ := fun hmem =>
    List.disjoint_of_nodup_append h.nodup hmem (List.mem_singleton_self tail)
  refine ⟨?_, ?_, ?_⟩
  · rw [hnext]
    apply linked_concat.mpr
    refine ⟨?_, update_self _ _ _⟩
    rw [linked_update_of_notMem hnew]; exact linked_concat_update h.linked htail₀ (some a)
  · rw [ptr_of_ne ha, List.getLast?_concat]
  · exact nodup_append_singleton h.nodup hnew

theorem Threaded.push_nil (h : Threaded null next head tail l) (htail : tail = null)
    (ha : a ≠ null) : l = [] ∧ Threaded null (update next a null) a a [a] := by
  have hlast := h.last
  rw [htail, ptr_null] at hlast
  refine ⟨List.getLast?_eq_none_iff.mp hlast.symm, ?_, ?_, List.nodup_singleton a⟩
  · rw [linked_cons, update_self]; exact ⟨ptr_of_ne ha, ptr_null⟩
  · rw [ptr_of_ne ha]; rfl

end Qcacld.Lib
