/-
A state that takes in a string four letters at a time.

This is the shape of a checksum over words: `pack` makes a word of four letters and `step` takes the
word into the state.
-/
import Mathlib.Tactic.Common

set_option autoImplicit false

namespace Qcacld.Lib

variable {α β σ : Type*} (pack : α → α → α → α → β) (step : σ → β → σ)

def absorb : σ → List α → σ
  | s, a :: b :: c :: d :: rest => absorb (step s (pack a b c d)) rest
  | s, _ => s

@[simp] theorem absorb_word (s : σ) (a b c d : α) (rest : List α) :
    absorb pack step s (a :: b :: c :: d :: rest) =
      absorb pack step (step s (pack a b c d)) rest := rfl

theorem absorb_short (s : σ) (xs : List α) (h : xs.length < 4) : absorb pack step s xs = s := by
  match xs, h with
  | [], _ => rfl
  | [_], _ => rfl
  | [_, _], _ => rfl
  | [_, _, _], _ => rfl

theorem length_lt_of_no_word {xs : List α}
    (h : ∀ a b c d rest, xs = a :: b :: c :: d :: rest → False) : xs.length < 4 := by
  match xs, h with
  | [], _ | [_], _ | [_, _], _ | [_, _, _], _ => simp
  | a :: b :: c :: d :: rest, h => exact absurd rfl (h a b c d rest)

theorem absorb_append (s : σ) (xs ys : List α) (h4 : 4 ∣ xs.length) :
    absorb pack step s (xs ++ ys) = absorb pack step (absorb pack step s xs) ys := by
  induction s, xs using absorb.induct pack step with
  | case1 s a b c d rest ih => simp only [List.length_cons] at h4; exact ih (by omega)
  | case2 xs s hshort =>
    have hlen := length_lt_of_no_word hshort
    have hnil : xs = [] := List.eq_nil_of_length_eq_zero (by omega)
    rw [hnil]; rfl

section Forgetting

/-! ## Steps that do not forget -/

variable {pack} {step}
variable (hpack : ∀ {a b c d a' b' c' d' : α}, pack a b c d = pack a' b' c' d' →
  a = a' ∧ b = b' ∧ c = c' ∧ d = d')
variable (hword : ∀ s, Function.Injective (step s))
variable (hstate : ∀ w, Function.Injective fun s => step s w)

include hstate in
theorem absorb_injective (xs : List α) : Function.Injective fun s => absorb pack step s xs := by
  intro s t h
  dsimp only at h
  induction s, xs using absorb.induct pack step generalizing t with
  | case1 s a b c d rest ih => exact hstate _ (ih h)
  | case2 xs s hshort =>
    have hlen : xs.length < 4 := length_lt_of_no_word hshort
    simpa only [absorb_short pack step _ xs hlen] using h

include hpack hword hstate in
theorem absorb_set_ne (s : σ) (xs : List α) (h4 : 4 ∣ xs.length) (i : Nat) (hi : i < xs.length)
    {x y : α} (hxy : x ≠ y) :
    absorb pack step s (xs.set i x) ≠ absorb pack step s (xs.set i y) := by
  induction s, xs using absorb.induct pack step generalizing i with
  | case1 s a b c d rest ih =>
    -- the letter is in the first word, or in the string behind it
    match i, hi with
    | 0, _ | 1, _ | 2, _ | 3, _ =>
      intro h
      have hw := hpack (hword s (absorb_injective hstate rest h))
      simp_all
    | i + 4, hi => simp only [List.length_cons] at h4 hi; exact ih (by omega) i (by omega)
  | case2 xs s hshort => have hlen := length_lt_of_no_word hshort; omega

end Forgetting

end Qcacld.Lib

