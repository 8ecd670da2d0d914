/-
Lists with one element for each key, as partial maps.
-/
import Mathlib.Data.List.Nodup

set_option autoImplicit false

namespace Qcacld.Lib.Keyed

variable {α κ : Type*} [DecidableEq κ] (key : α → κ)

def lookup (l : List α) (k : κ) : Option α := l.find? fun a => key a = k

variable {key} {l pre post : List α} {a b : α} {k : κ}

@[simp] theorem lookup_nil : lookup key [] k = none := rfl

theorem lookup_cons : lookup key (a :: l) k = if key a = k then some a else lookup key l k := by
  unfold lookup
  by_cases h : key a = k <;> simp [h]

theorem lookup_append : lookup key (l ++ post) k = (lookup key l k).or (lookup key post k) := by
  exact List.find?_append

theorem lookup_eq_none : lookup key l k = none ↔ ∀ a ∈ l, key a ≠ k := by unfold lookup; simp

omit [DecidableEq κ] in
theorem key_notMem (hnd : ((pre ++ a :: post).map key).Nodup) :
    (∀ x ∈ pre, key x ≠ key a) ∧ ∀ x ∈ post, key x ≠ key a := by
  rw [List.map_append, List.map_cons] at hnd
  have hnot := (List.nodup_middle.mp hnd).notMem
  rw [← List.map_append, List.mem_map] at hnot
  constructor
  · intro x hx he; exact hnot ⟨x, List.mem_append_left _ hx, he⟩
  · intro x hx he; exact hnot ⟨x, List.mem_append_right _ hx, he⟩

theorem lookup_append_new (h : ∀ x ∈ l, key x ≠ key a) :
    lookup key (l ++ [a]) = Function.update (lookup key l) (key a) (some a) := by
  funext k
  rw [lookup_append, lookup_cons, lookup_nil]
  by_cases hk : key a = k
  · subst hk
    rw [lookup_eq_none.mpr h, Function.update_self, if_pos rfl]; rfl
  · rw [if_neg hk, Option.or_none, Function.update_of_ne (Ne.symm hk)]

theorem lookup_replace (hnd : ((pre ++ a :: post).map key).Nodup) (hb : key b = key a) :
    lookup key (pre ++ b :: post)
      = Function.update (lookup key (pre ++ a :: post)) (key a) (some b) := by
  funext k
  rw [lookup_append, lookup_cons, hb]
  by_cases hk : key a = k
  · subst hk
    rw [lookup_eq_none.mpr (key_notMem hnd).1, Function.update_self, if_pos rfl]; rfl
  · rw [if_neg hk, Function.update_of_ne (Ne.symm hk), lookup_append, lookup_cons, if_neg hk]

theorem lookup_remove (hnd : ((pre ++ a :: post).map key).Nodup) :
    lookup key (pre ++ post)
      = Function.update (lookup key (pre ++ a :: post)) (key a) none := by
  funext k
  rw [lookup_append]
  by_cases hk : key a = k
  · subst hk
    obtain ⟨hpre, hpost⟩ := key_notMem hnd
    rw [lookup_eq_none.mpr hpre, lookup_eq_none.mpr hpost, Function.update_self]; rfl
  · rw [Function.update_of_ne (Ne.symm hk), lookup_append, lookup_cons, if_neg hk]

theorem lookup_self (hnd : ((pre ++ a :: post).map key).Nodup) :
    lookup key (pre ++ a :: post) (key a) = some a := by
  rw [lookup_append, lookup_cons, lookup_eq_none.mpr (key_notMem hnd).1, if_pos rfl]; rfl

end Qcacld.Lib.Keyed
