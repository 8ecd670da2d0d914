/-
Filling an array from a running index.

`put` writes one cell and fails past the end; `putAll` writes a list from an index on, as a loop
with a counter does.
-/
import Mathlib.Data.List.Basic

set_option autoImplicit false

namespace Qcacld.Lib.Fill

variable {α : Type*}

def put (buf : List α) (i : ℕ) (x : α) : Option (List α) :=
  if i < buf.length then some (buf.set i x) else none

def putAll (buf : List α) (i : ℕ) : List α → Option (List α)
  | [] => some buf
  | x :: l =>
    match put buf i x with
    | none => none
    | some buf => putAll buf (i + 1) l

theorem put_eq {buf : List α} {i : ℕ} (h : i < buf.length) (x : α) :
    put buf i x = some (buf.set i x) := if_pos h

theorem take_set_succ {buf : List α} {i : ℕ} (h : i < buf.length) (x : α) :
    (buf.set i x).take (i + 1) = buf.take i ++ [x] := by
  rw [List.take_add_one, List.take_set_of_le (Nat.le_refl i), List.getElem?_set_self h]; rfl

theorem putAll_eq {buf : List α} {i : ℕ} (l : List α) (h : i + l.length ≤ buf.length) :
    putAll buf i l = some (buf.take i ++ l ++ buf.drop (i + l.length)) := by
  induction l generalizing buf i with
  | nil => simp [putAll]
  | cons x l ih =>
    rw [List.length_cons] at h
    have hi : i < buf.length := by omega
    have hset : i + 1 + l.length ≤ (buf.set i x).length := by rw [List.length_set]; omega
    have hdrop : (buf.set i x).drop (i + 1 + l.length) = buf.drop (i + (l.length + 1)) := by
      rw [List.drop_set_of_lt (by omega), Nat.add_assoc, Nat.add_comm 1]
    rw [putAll, put_eq hi]
    dsimp only
    rw [ih hset, take_set_succ hi, hdrop, List.length_cons, List.append_assoc (buf.take i),
      List.singleton_append]

end Qcacld.Lib.Fill
