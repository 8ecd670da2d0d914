/-
The first elements of an increasing list.

An element is among the first `k` of a strictly increasing list if fewer than `k` elements are below
it (`mem_take_iff`).
-/
import Mathlib.Data.List.Sort

set_option autoImplicit false

namespace Qcacld.Lib

open List

variable {α : Type*} [LinearOrder α] {l : List α}

theorem mem_take_iff (h : l.Pairwise (· < ·)) {k : Nat} {x : α} :
    x ∈ l.take k ↔ x ∈ l ∧ l.countP (fun y => y < x) < k := by
  induction l generalizing k with
  | nil => rw [take_nil]; exact ⟨nofun, fun hx => hx.1⟩
  | cons a l ih =>
    obtain ⟨ha, hl⟩ := pairwise_cons.mp h
    cases k with
    | zero => exact ⟨nofun, fun hx => absurd hx.2 (Nat.not_lt_zero _)⟩
    | succ k =>
      rw [take_succ_cons, mem_cons, mem_cons, ih hl, countP_cons]
      by_cases hxa : x = a
      · have hnone : l.countP (fun y => y < x) = 0 := by
          rw [countP_eq_zero]
          intro y hy
          rw [decide_eq_true_iff, hxa]; exact lt_asymm (ha y hy)
        rw [hnone, hxa, if_neg (by rw [decide_eq_true_iff]; exact lt_irrefl a)]
        exact ⟨fun _ => ⟨Or.inl rfl, Nat.succ_pos k⟩, fun _ => Or.inl rfl⟩
      · rw [or_iff_right hxa, or_iff_right hxa]
        apply and_congr_right
        intro hx
        rw [if_pos (decide_eq_true (ha x hx))]; exact Nat.succ_lt_succ_iff.symm

theorem take_filter_eq (h : l.Pairwise (· < ·)) {k : Nat} {p q : α → Bool}
    (hpq : ∀ x ∈ l, p x = true → q x = true) (hcrowd : ∀ x ∈ l, q x = true → p x = false →
      k ≤ l.countP fun y => p y && decide (y < x)) : (l.filter q).take k = (l.filter p).take k := by
  have hcount : ∀ (r : α → Bool) (x : α),
      (l.filter r).countP (fun y => y < x) = l.countP fun y => r y && decide (y < x) := by
    intro r x
    rw [countP_filter]; exact countP_congr fun y _ => by rw [Bool.and_comm]
  have hsub : ∀ r : α → Bool, ((l.filter r).take k).Pairwise (· < ·) := fun r =>
    (h.filter r).sublist (take_sublist k _)
  apply (hsub q).eq_of_mem_iff (hsub p)
  intro x
  rw [mem_take_iff (h.filter q), mem_take_iff (h.filter p), hcount, hcount, mem_filter, mem_filter]
  constructor
  · rintro ⟨⟨hx, hq⟩, hfew⟩
    have hle : l.countP (fun y => p y && decide (y < x)) ≤
        l.countP fun y => q y && decide (y < x) := by
      apply countP_mono_left
      intro y hy hpy
      rw [Bool.and_eq_true] at hpy ⊢
      exact ⟨hpq y hy hpy.1, hpy.2⟩
    have hlt := Nat.lt_of_le_of_lt hle hfew
    refine ⟨⟨hx, ?_⟩, hlt⟩
    by_contra hp
    exact absurd (hcrowd x hx hq (Bool.eq_false_iff.mpr hp)) (Nat.not_le_of_lt hlt)
  · rintro ⟨⟨hx, hp⟩, hfew⟩
    refine ⟨⟨hx, hpq x hx hp⟩, ?_⟩
    have heq : l.countP (fun y => q y && decide (y < x)) =
        l.countP fun y => p y && decide (y < x) := by
      apply countP_congr
      intro y hy
      rw [Bool.and_eq_true, Bool.and_eq_true]
      apply and_congr_left
      intro hyx
      refine ⟨fun hqy => ?_, hpq y hy⟩
      by_contra hpy
      have hmany := hcrowd y hy hqy (Bool.eq_false_iff.mpr hpy)
      -- what is below `y` is below `x`
      have hle : l.countP (fun z => p z && decide (z < y)) ≤
          l.countP fun z => p z && decide (z < x) := by
        apply countP_mono_left
        intro z _ hz
        rw [Bool.and_eq_true, decide_eq_true_iff] at hz ⊢
        exact ⟨hz.1, lt_trans hz.2 (of_decide_eq_true hyx)⟩
      omega
    rw [heq]; exact hfew

theorem eq_of_map_eq {α β : Type*} {f : α → β} {l l' : List α} (h : l.map f = l'.map f)
    (hf : ∀ a ∈ l, ∀ b ∈ l', f a = f b → a = b) : l = l' := by
  induction l generalizing l' with
  | nil => exact (map_eq_nil_iff.mp h.symm).symm
  | cons a l ih =>
    cases l' with
    | nil => cases h
    | cons b l' =>
      rw [map_cons, map_cons, List.cons.injEq] at h
      have hab := hf a mem_cons_self b mem_cons_self h.1
      have hrest := ih h.2 fun c hc d hd =>
        hf c (mem_cons_of_mem a hc) d (mem_cons_of_mem b hd)
      rw [hab, hrest]

end Qcacld.Lib
