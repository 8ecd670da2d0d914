/-
Things that are in one place at a time.

`Exclusive` says that nothing is listed twice, neither in one place nor in two; it is kept when
things leave, when new ones enter, and when some go from one place to another.
-/
import Mathlib.Data.List.Nodup
import Mathlib.Data.List.Perm.Subperm
import Mathlib.Data.List.Range

set_option autoImplicit false

namespace Qcacld.Lib

open List

variable {ι α : Type*} {hold hold' : ι → List α} {i j : ι} {l : List α}

structure Exclusive (hold : ι → List α) : Prop where
  nodup : ∀ i, (hold i).Nodup
  unique : ∀ {i j a}, a ∈ hold i → a ∈ hold j → i = j

theorem Exclusive.leave (h : Exclusive hold) (hsub : ∀ i, hold' i <+~ hold i) :
    Exclusive hold' where
  nodup := fun i => by
    obtain ⟨l, hperm, hl⟩ := hsub i
    exact hperm.nodup_iff.mp ((h.nodup i).sublist hl)
  unique := fun hi hj => h.unique ((hsub _).subset hi) ((hsub _).subset hj)

theorem Exclusive.enter (h : Exclusive hold) (hl : l.Nodup) (hnew : ∀ a ∈ l, ∀ k, a ∉ hold k)
    (hj : hold' j ~ l ++ hold j) (hother : ∀ k, k ≠ j → hold' k = hold k) : Exclusive hold' := by
  -- an element of a new list is new in `j`, or it was there before
  have horigin : ∀ {k a}, a ∈ hold' k → k = j ∧ a ∈ l ∨ a ∈ hold k := by
    intro k a ha
    by_cases hk : k = j
    · subst hk
      rcases mem_append.mp (hj.mem_iff.mp ha) with hal | hah
      · exact Or.inl ⟨rfl, hal⟩
      · exact Or.inr hah
    · rw [hother k hk] at ha; exact Or.inr ha
  refine ⟨fun k => ?_, fun {k k' a} hk hk' => ?_⟩
  · by_cases hkj : k = j
    · subst hkj
      rw [hj.nodup_iff]; exact hl.append (h.nodup k) fun a hal hah => hnew a hal k hah
    · rw [hother k hkj]; exact h.nodup k
  · rcases horigin hk with ⟨rfl, hal⟩ | hold
    · rcases horigin hk' with ⟨rfl, -⟩ | hold'
      · rfl
      · exact absurd hold' (hnew a hal k')
    · rcases horigin hk' with ⟨rfl, hal⟩ | hold'
      · exact absurd hold (hnew a hal k)
      · exact h.unique hold hold'

theorem Exclusive.transfer [DecidableEq ι] (h : Exclusive hold) (hij : i ≠ j)
    (hi : l ++ hold' i <+~ hold i) (hj : hold' j ~ l ++ hold j)
    (hother : ∀ k, k ≠ i → k ≠ j → hold' k = hold k) : Exclusive hold' := by
  have hnd : (l ++ hold' i).Nodup := by
    obtain ⟨m, hperm, hm⟩ := hi
    exact hperm.nodup_iff.mp ((h.nodup i).sublist hm)
  have hmid : Exclusive (Function.update hold i (hold' i)) := by
    refine h.leave fun k => ?_
    by_cases hk : k = i
    · subst hk
      rw [Function.update_self]; exact (sublist_append_right l _).subperm.trans hi
    · rw [Function.update_of_ne hk]
  refine hmid.enter (j := j) (List.Nodup.of_append_left hnd) (fun a ha k hk => ?_) ?_ ?_
  · have hai : a ∈ hold i := hi.subset (mem_append_left _ ha)
    by_cases hki : k = i
    · subst hki
      rw [Function.update_self] at hk; exact disjoint_of_nodup_append hnd ha hk
    · rw [Function.update_of_ne hki] at hk; exact hki (h.unique hk hai)
  · rwa [Function.update_of_ne hij.symm]
  · intro k hkj
    by_cases hki : k = i
    · subst hki; rw [Function.update_self]
    · rw [Function.update_of_ne hki]; exact hother k hki hkj

/-! ## Moving

Some things go from one place to another. -/

structure Moves (l : List α) (i j : ι) (hold hold' : ι → List α) : Prop where
  ne : i ≠ j
  source : l ++ hold' i ~ hold i
  target : hold' j ~ l ++ hold j
  other : ∀ k, k ≠ i → k ≠ j → hold' k = hold k

theorem Moves.exclusive (h : Moves l i j hold hold') (he : Exclusive hold) : Exclusive hold' := by
  classical
  exact he.transfer h.ne h.source.subperm h.target h.other

theorem Moves.held (h : Moves l i j hold hold') (a : α) : (∃ k, a ∈ hold' k) ↔ ∃ k, a ∈ hold k := by
  constructor
  · rintro ⟨k, hk⟩
    by_cases hki : k = i
    · subst hki; exact ⟨k, h.source.subset (mem_append_right l hk)⟩
    · by_cases hkj : k = j
      · subst hkj
        rcases mem_append.mp (h.target.subset hk) with hl | hk
        · exact ⟨i, h.source.subset (mem_append_left _ hl)⟩
        · exact ⟨k, hk⟩
      · exact ⟨k, h.other k hki hkj ▸ hk⟩
  · rintro ⟨k, hk⟩
    by_cases hki : k = i
    · subst hki
      rcases mem_append.mp (h.source.symm.subset hk) with hl | hk
      · exact ⟨j, h.target.symm.subset (mem_append_left _ hl)⟩
      · exact ⟨k, hk⟩
    · by_cases hkj : k = j
      · subst hkj; exact ⟨k, h.target.symm.subset (mem_append_right l hk)⟩
      · exact ⟨k, (h.other k hki hkj).symm ▸ hk⟩

/-! ## Passing on

One thing at a time is taken off the front of one place and added behind what is in another. -/

inductive Passes (hold hold' : ι → List α) : Prop
  | stay (h : ∀ i, hold' i = hold i)
  | pass (a : α) (i j : ι) (hij : i ≠ j) (hi : hold i = a :: hold' i)
      (hj : hold' j = hold j ++ [a]) (hother : ∀ k, k ≠ i → k ≠ j → hold' k = hold k)

theorem passes_update [DecidableEq ι] {a : α} (hij : i ≠ j) (hi : hold i = a :: l) :
    Passes hold (Function.update (Function.update hold i l) j (hold j ++ [a])) := by
  refine .pass a i j hij ?_ ?_ ?_
  · rw [Function.update_of_ne hij, Function.update_self]; exact hi
  · rw [Function.update_self]
  · intro k hki hkj; rw [Function.update_of_ne hkj, Function.update_of_ne hki]

theorem Passes.exclusive (h : Passes hold hold') (he : Exclusive hold) : Exclusive hold' := by
  classical
  rcases h with hsame | ⟨a, i, j, hij, hi, hj, hother⟩
  · apply he.leave
    intro i
    rw [hsame i]
  · refine he.transfer hij (l := [a]) ?_ ?_ hother
    · rw [hi]; rfl
    · rw [hj]; exact perm_append_comm

theorem Passes.held (h : Passes hold hold') (a : α) : (∃ i, a ∈ hold' i) ↔ ∃ i, a ∈ hold i := by
  rcases h with hsame | ⟨b, i, j, hij, hi, hj, hother⟩
  · simp only [hsame]
  · constructor
    · rintro ⟨k, hk⟩
      by_cases hki : k = i
      · subst hki
        exact ⟨k, by rw [hi]; exact mem_cons_of_mem _ hk⟩
      · by_cases hkj : k = j
        · subst hkj
          rw [hj, mem_append, mem_singleton] at hk
          rcases hk with hk | rfl
          · exact ⟨k, hk⟩
          · exact ⟨i, by rw [hi]; exact mem_cons_self⟩
        · rw [hother k hki hkj] at hk; exact ⟨k, hk⟩
    · rintro ⟨k, hk⟩
      by_cases hki : k = i
      · subst hki
        rw [hi, mem_cons] at hk
        rcases hk with rfl | hk
        · exact ⟨j, by rw [hj]; exact mem_append_right _ mem_cons_self⟩
        · exact ⟨k, hk⟩
      · by_cases hkj : k = j
        · subst hkj
          exact ⟨k, by rw [hj]; exact mem_append_left _ hk⟩
        · exact ⟨k, by rw [hother k hki hkj]; exact hk⟩

/-! ## Counting -/

theorem length_range_filter_not_mem {n : Nat} {l : List Nat} (hl : l.Nodup)
    (hlt : ∀ a ∈ l, a < n) : ((range n).filter (· ∉ l)).length + l.length = n := by
  have hin : (range n).filter (· ∈ l) ~ l := by
    rw [perm_ext_iff_of_nodup (nodup_range.filter _) hl]
    intro a
    simp only [mem_filter, mem_range, decide_eq_true_eq]
    exact ⟨fun h => h.2, fun h => ⟨hlt a h, h⟩⟩
  have hsplit := length_eq_length_filter_add (l := range n) (fun a => decide (a ∈ l))
  rw [length_range, hin.length_eq] at hsplit
  simp only [decide_not]
  omega

end Qcacld.Lib
