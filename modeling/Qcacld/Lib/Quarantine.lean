/-
Things that are not to be used for a period of time.

Who asks for some of them together looks at them in turn: what is put aside for a period already is
set free, and the first that is not free yet makes all of them be put aside, those that were free
with its time.
-/
import Mathlib.Data.Option.Basic
import Mathlib.Tactic.Common

set_option autoImplicit false

namespace Qcacld.Lib.Quarantine

open Function

variable {α : Type*} (period now : Nat) (D : α → Prop) [DecidablePred D]

def Held (m : α → Option Nat) (x : α) : Prop := ∃ t, m x = some t ∧ now < t + period

def remaining (m : α → Option Nat) (x : α) : Nat :=
  match m x with
  | some t => t + period - now
  | none => 0

section Remaining

variable {period now} {m : α → Option Nat} {x : α}

theorem remaining_of_not_held (h : ¬Held period now m x) : remaining period now m x = 0 := by
  rw [remaining]
  split
  next t heq => have hle : ¬now < t + period := fun hlt => h ⟨t, heq, hlt⟩; omega
  · rfl

theorem remaining_le {m' : α → Option Nat}
    (hkeep : ∀ t, m x = some t → now < t + period → m' x = some t) :
    remaining period now m x ≤ remaining period now m' x := by
  by_cases hheld : Held period now m x
  · obtain ⟨t, ht, hlt⟩ := hheld
    exact Nat.le_of_eq (by rw [remaining, remaining, ht, hkeep t ht hlt])
  · rw [remaining_of_not_held hheld]; exact Nat.zero_le _

end Remaining

variable [DecidableEq α]

/-- The `xs` among the `D` are put aside. -/
def put (xs : List α) (t : Nat) (m : α → Option Nat) : α → Option Nat := fun x =>
  if m x = none ∧ x ∈ xs ∧ D x then some t else m x

/-- The time of the first of the `xs` whose period is not over. -/
def look : List α → (α → Option Nat) → (α → Option Nat) × Option Nat
  | [], m => (m, none)
  | x :: xs, m =>
    match m x with
    | some t => if now < t + period then (m, some t) else look xs (update m x none)
    | none => look xs m

def ask (xs : List α) (m : α → Option Nat) : (α → Option Nat) × Bool :=
  match look period now xs m with
  | (m', some t) => (put D xs t m', true)
  | (m', none) => (m', false)

variable {period now D} {m : α → Option Nat} {x : α} {xs : List α} {t : Nat}

theorem put_of_some {u : Nat} (h : m x = some t) : put D xs u m x = some t := by
  rw [put, if_neg (by rw [h]; exact fun hnone => nomatch hnone.1), h]

theorem put_isSome (hx : x ∈ xs) (hD : D x) : (put D xs t m x).isSome := by
  rw [put]
  split
  · rfl
  next hno => rw [Option.isSome_iff_ne_none]; exact fun hnone => hno ⟨hnone, hx, hD⟩

theorem put_of_not (h : ¬D x) : put D xs t m x = m x :=
  if_neg fun hall => h hall.2.2

theorem look_map (xs : List α) (m : α → Option Nat) (x : α) :
    (look period now xs m).1 x = m x ∨ (¬Held period now m x ∧ (look period now xs m).1 x = none) := by
  induction xs generalizing m with
  | nil => exact .inl rfl
  | cons y ys ih =>
    rw [look]
    rcases hy : m y with - | t
    · exact ih m
    dsimp only
    by_cases hlt : now < t + period
    · rw [if_pos hlt]; exact .inl rfl
    rw [if_neg hlt]
    by_cases hxy : x = y
    · subst hxy
      refine .inr ⟨?_, ?_⟩
      · rintro ⟨u, hu, hheld⟩
        rw [hy, Option.some.injEq] at hu; omega
      · rcases ih (update m x none) with heq | ⟨-, heq⟩
        · rw [heq, update_self]
        · exact heq
    · have hother : update m y none x = m x := update_of_ne hxy none m
      rcases ih (update m y none) with heq | ⟨hnot, heq⟩
      · exact .inl (heq.trans hother)
      · refine .inr ⟨fun hheld => hnot ?_, heq⟩; rwa [Held, hother]

theorem look_held (h : m x = some t) (hlt : now < t + period) :
    (look period now xs m).1 x = some t := by
  rcases look_map xs m x with heq | ⟨hnot, -⟩
  · rw [heq, h]
  · exact absurd ⟨t, h, hlt⟩ hnot

theorem look_isSome (xs : List α) (m : α → Option Nat) :
    (look period now xs m).2.isSome ↔ ∃ x ∈ xs, Held period now m x := by
  induction xs generalizing m with
  | nil => exact iff_of_false Bool.false_ne_true fun ⟨x, hx, _⟩ => nomatch hx
  | cons y ys ih =>
    simp only [look, List.mem_cons, exists_eq_or_imp]
    rcases hy : m y with - | t
    · rw [ih, or_iff_right]
      rintro ⟨u, hu, -⟩
      rw [hy] at hu; exact nomatch hu
    dsimp only
    by_cases hlt : now < t + period
    · rw [if_pos hlt]; exact iff_of_true rfl (.inl ⟨t, hy, hlt⟩)
    · have hnot : ¬Held period now m y := by
        rintro ⟨u, hu, hheld⟩
        rw [hy, Option.some.injEq] at hu; omega
      rw [if_neg hlt, ih, or_iff_right hnot]
      -- `y` is free now, and was not held before
      have hheld : ∀ x, Held period now (update m y none) x ↔ Held period now m x := by
        intro x
        by_cases hxy : x = y
        · subst hxy
          apply iff_of_false _ hnot
          rintro ⟨u, hu, -⟩
          rw [update_self] at hu; exact nomatch hu
        · rw [Held, Held, update_of_ne hxy]
      simp only [hheld]

theorem ask_eq_true : (ask period now D xs m).2 = true ↔ ∃ x ∈ xs, Held period now m x := by
  rw [← look_isSome, ask]
  rcases look period now xs m with ⟨m', - | t⟩
  · exact iff_of_false Bool.false_ne_true Bool.false_ne_true
  · exact iff_of_true rfl rfl

theorem ask_held (h : m x = some t) (hlt : now < t + period) :
    (ask period now D xs m).1 x = some t := by
  have hlook := @look_held _ _ _ _ _ _ xs _ h hlt
  rw [ask]
  rcases heq : look period now xs m with ⟨m', - | u⟩
  · rw [heq] at hlook; exact hlook
  · rw [heq] at hlook; exact put_of_some hlook

theorem ask_isSome (htrue : (ask period now D xs m).2 = true) (hx : x ∈ xs) (hD : D x) :
    ((ask period now D xs m).1 x).isSome := by
  rw [ask] at htrue ⊢
  rcases heq : look period now xs m with ⟨m', - | u⟩
  · rw [heq] at htrue; exact absurd htrue Bool.false_ne_true
  · exact put_isSome hx hD

theorem look_snd (h : (look period now xs m).2 = some t) : ∃ y ∈ xs, m y = some t := by
  induction xs generalizing m with
  | nil => exact nomatch h
  | cons y ys ih =>
    rw [look] at h
    rcases hy : m y with - | u
    · rw [hy] at h
      obtain ⟨z, hz, heq⟩ := ih h
      exact ⟨z, List.mem_cons_of_mem y hz, heq⟩
    rw [hy] at h
    dsimp only at h
    by_cases hlt : now < u + period
    · rw [if_pos hlt, Option.some.injEq] at h; exact ⟨y, List.mem_cons_self, h ▸ hy⟩
    rw [if_neg hlt] at h
    obtain ⟨z, hz, heq⟩ := ih h
    have hne : z ≠ y := by
      rintro rfl
      rw [update_self] at heq; exact nomatch heq
    exact ⟨z, List.mem_cons_of_mem y hz, by rwa [update_of_ne hne] at heq⟩

theorem ask_time (h : (ask period now D xs m).1 x = some t) : ∃ y, m y = some t := by
  have hfirst : ∀ {u}, (look period now xs m).1 x = some u → ∃ y, m y = some u := by
    intro u hu
    rcases look_map xs m x with heq | ⟨-, heq⟩
    · exact ⟨x, heq ▸ hu⟩
    · exact nomatch heq.symm.trans hu
  rw [ask] at h
  rcases heq : look period now xs m with ⟨m', - | u⟩
  · rw [heq] at h hfirst; exact hfirst h
  · rw [heq] at h hfirst
    dsimp only at h
    rw [put] at h
    split at h
    · cases h
      obtain ⟨y, -, hy⟩ := look_snd (congrArg Prod.snd heq)
      exact ⟨y, hy⟩
    · exact hfirst h

end Qcacld.Lib.Quarantine
