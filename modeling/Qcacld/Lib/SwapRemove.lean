/-
Removing from a list by moving its last element into the hole.

A loop that goes on with the next index does not look at the element that was moved: of what is
behind the index, it meets `visited`, and `swept` is there afterwards.
-/
import Mathlib.Data.List.Perm.Basic

set_option autoImplicit false

namespace Qcacld.Lib

open List

variable {α : Type*}

/-- The last element goes to index `i`. -/
def swapRemove (l : List α) (i : ℕ) : List α :=
  match l.getLast? with
  | some z => (l.set i z).dropLast
  | none => []

theorem swapRemove_last (pre : List α) (a : α) : swapRemove (pre ++ [a]) pre.length = pre := by
  rw [swapRemove, getLast?_concat]
  simp only [set_append_right _ _ (Nat.le_refl _), Nat.sub_self, set_cons_zero, dropLast_concat]

theorem swapRemove_concat (pre mid : List α) (a z : α) :
    swapRemove (pre ++ a :: (mid ++ [z])) pre.length = pre ++ z :: mid := by
  have hlast : pre ++ a :: (mid ++ [z]) = (pre ++ a :: mid) ++ [z] := by
    rw [append_assoc, cons_append]
  rw [swapRemove, hlast, getLast?_concat, ← hlast]
  simp only [set_append_right _ _ (Nat.le_refl _), Nat.sub_self, set_cons_zero]
  rw [← cons_append, ← append_assoc, dropLast_concat]

/-- What is behind the index when an element there is removed. -/
def closeUp (t : List α) : List α :=
  match t.getLast? with
  | some z => z :: t.dropLast
  | none => []

theorem closeUp_concat (mid : List α) (z : α) : closeUp (mid ++ [z]) = z :: mid := by
  rw [closeUp, getLast?_concat]
  rw [dropLast_concat]

theorem swapRemove_eq (pre t : List α) (a : α) :
    swapRemove (pre ++ a :: t) pre.length = pre ++ closeUp t := by
  rcases eq_nil_or_concat' t with rfl | ⟨mid, z, rfl⟩
  · exact (swapRemove_last pre a).trans (append_nil pre).symm
  · rw [swapRemove_concat, closeUp_concat]

theorem closeUp_perm (t : List α) : closeUp t ~ t := by
  rcases eq_nil_or_concat' t with rfl | ⟨mid, z, rfl⟩
  · exact Perm.refl _
  · rw [closeUp_concat]; exact (perm_append_singleton z mid).symm

/-! ## A loop that removes -/

section Sweep

variable (gone : α → Bool)

/-- What a loop of `n` rounds meets. -/
def visited : ℕ → List α → List α
  | 0, _ => []
  | _ + 1, [] => []
  | n + 1, a :: t => a :: visited n (if gone a then t.dropLast else t)

def swept : ℕ → List α → List α
  | 0, l => l
  | _ + 1, [] => []
  | n + 1, a :: t =>
    if gone a then
      match t.getLast? with
      | some z => z :: swept n t.dropLast
      | none => []
    else a :: swept n t

variable {gone} {n : ℕ} {a : α} {t l : List α}

theorem swept_gone_nil (h : gone a = true) : swept gone (n + 1) [a] = [] := by
  rw [swept, if_pos h]; rfl

theorem swept_gone_concat (h : gone a = true) (mid : List α) (z : α) :
    swept gone (n + 1) (a :: (mid ++ [z])) = z :: swept gone n mid := by
  rw [swept, if_pos h, getLast?_concat]
  rw [dropLast_concat]

theorem swept_stays (h : gone a = false) : swept gone (n + 1) (a :: t) = a :: swept gone n t := by
  rw [swept, if_neg (by rw [h]; exact Bool.false_ne_true)]

theorem visited_start (n : ℕ) (l : List α) : visited gone n l <+: l := by
  induction n generalizing l with
  | zero => exact nil_prefix
  | succ n ih =>
    cases l with
    | nil => exact nil_prefix
    | cons a t =>
      rw [visited, prefix_cons_inj]
      split
      · have hlast : t.dropLast <+: t := dropLast_prefix t; exact (ih _).trans hlast
      · exact ih t

theorem swept_perm (hn : l.length ≤ n) :
    swept gone n l ~ (visited gone n l).filter (fun a => !gone a) ++
      l.drop (visited gone n l).length := by
  induction n generalizing l with
  | zero => exact Perm.refl _
  | succ n ih =>
    cases l with
    | nil => exact Perm.refl _
    | cons a t =>
      rw [length_cons] at hn
      rw [visited, length_cons, drop_succ_cons]
      by_cases hgone : gone a = true
      · rw [if_pos hgone, filter_cons_of_neg (by rw [hgone]; exact Bool.false_ne_true)]
        rcases eq_nil_or_concat' t with rfl | ⟨mid, z, rfl⟩
        · rw [swept_gone_nil hgone, dropLast_nil]
          cases n with
          | zero => exact Perm.refl _
          | succ n => exact Perm.refl _
        · have hle : (visited gone n mid).length ≤ mid.length :=
            (visited_start n mid).length_le
          rw [length_append, length_singleton] at hn
          rw [dropLast_concat, swept_gone_concat hgone, drop_append_of_le_length hle,
            ← append_assoc]
          exact ((ih (by omega)).cons z).trans (perm_append_singleton z _).symm
      · rw [Bool.not_eq_true] at hgone
        rw [if_neg (by rw [hgone]; exact Bool.false_ne_true),
          filter_cons_of_pos (by rw [hgone]; rfl), swept_stays hgone, cons_append]
        exact (ih (by omega)).cons a

theorem mem_swept (hn : l.length ≤ n) {b : α} :
    b ∈ swept gone n l ↔
      b ∈ visited gone n l ∧ gone b = false ∨ b ∈ l.drop (visited gone n l).length := by
  rw [(swept_perm hn).mem_iff, mem_append, mem_filter, Bool.not_eq_true']

end Sweep

end Qcacld.Lib
