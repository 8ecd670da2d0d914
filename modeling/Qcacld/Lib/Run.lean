/-
Runs of a partial step function.

A component is a state type `σ`, an operation type `ε` and `step : σ → ε → Option σ`; `none` is a
step that has no next state (a call its caller may not make, or one that dereferences a null
pointer).
-/
import Mathlib.Data.Option.Basic
import Mathlib.Tactic.Common

set_option autoImplicit false

namespace Qcacld.Lib

variable {σ ε : Type*}

/-- Run `es` from `s`, stopping with `none` at the first step that has no next
state. -/
def run (step : σ → ε → Option σ) : σ → List ε → Option σ
  | s, [] => some s
  | s, e :: es => (step s e).bind fun s' => run step s' es

/-- `step`, taken only where `ok` holds of the state before it. -/
def guarded (ok : σ → ε → Prop) [∀ s e, Decidable (ok s e)] (step : σ → ε → Option σ) :
    σ → ε → Option σ :=
  fun s e => if ok s e then step s e else none

variable {step : σ → ε → Option σ} {s s' : σ} {e : ε} {es : List ε}

@[simp] theorem run_nil : run step s [] = some s := rfl

@[simp] theorem run_cons :
    run step s (e :: es) = (step s e).bind fun s' => run step s' es := rfl

theorem run_cons_eq_some :
    run step s (e :: es) = some s' ↔ ∃ t, step s e = some t ∧ run step t es = some s' := by
  simp only [run_cons, Option.bind_eq_some_iff]

theorem run_append {t : σ} {fs : List ε} (h : run step s es = some t)
    (h' : run step t fs = some s') : run step s (es ++ fs) = some s' := by
  induction es generalizing s with
  | nil => rw [run_nil, Option.some.injEq] at h; rwa [List.nil_append, h]
  | cons e es ih =>
    obtain ⟨u, hu, hrun⟩ := run_cons_eq_some.mp h
    exact run_cons_eq_some.mpr ⟨u, hu, ih hrun⟩

/-- **The run rule.** What holds at the start and is kept by every step holds
at the end of every run. -/
theorem run_invariant {I : σ → Prop} (hstep : ∀ s e s', I s → step s e = some s' → I s')
    (hs : I s) (h : run step s es = some s') : I s' := by
  induction es generalizing s with
  | nil => rw [run_nil, Option.some.injEq] at h; exact h ▸ hs
  | cons e es ih =>
    obtain ⟨t, ht, hrun⟩ := run_cons_eq_some.mp h
    exact ih (hstep s e t hs ht) hrun

theorem run_invariant_of_mem {I : σ → Prop} {ok : ε → Prop}
    (hstep : ∀ s e s', ok e → I s → step s e = some s' → I s')
    (hok : ∀ e ∈ es, ok e) (hs : I s) (h : run step s es = some s') : I s' := by
  induction es generalizing s with
  | nil => rw [run_nil, Option.some.injEq] at h; exact h ▸ hs
  | cons e es ih =>
    obtain ⟨t, ht, hrun⟩ := run_cons_eq_some.mp h
    have hI : I t := hstep s e t (hok e List.mem_cons_self) hs ht
    exact ih (fun e' he' => hok e' (List.mem_cons_of_mem _ he')) hI hrun

theorem run_total (hstep : ∀ s e, ∃ s', step s e = some s') : ∃ s', run step s es = some s' := by
  induction es generalizing s with
  | nil => exact ⟨s, rfl⟩
  | cons e es ih =>
    obtain ⟨t, ht⟩ := hstep s e
    obtain ⟨s', hs'⟩ := ih (s := t)
    exact ⟨s', run_cons_eq_some.mpr ⟨t, ht, hs'⟩⟩

theorem exists_of_tested {o : Option σ} {R : σ → Prop} (P : σ → Prop) [DecidablePred P]
    (h : o.map (fun s => decide (P s)) = some true) (hR : ∀ s, o = some s → P s → R s) :
    ∃ s, o = some s ∧ R s := by
  obtain ⟨s, hs, hp⟩ := Option.map_eq_some_iff.mp h
  exact ⟨s, hs, hR s hs (of_decide_eq_true hp)⟩

theorem exists_pair_of_tested {τ : Type*} {o : Option (σ × τ)} {R : σ → τ → Prop}
    (P : σ → τ → Prop) [∀ s t, Decidable (P s t)]
    (h : o.map (fun r => decide (P r.1 r.2)) = some true)
    (hR : ∀ s t, o = some (s, t) → P s t → R s t) : ∃ s t, o = some (s, t) ∧ R s t := by
  obtain ⟨⟨s, t⟩, hs, hp⟩ := Option.map_eq_some_iff.mp h
  exact ⟨s, t, hs, hR s t hs (of_decide_eq_true hp)⟩

section Guarded

variable {ok : σ → ε → Prop} [∀ s e, Decidable (ok s e)]

theorem guarded_eq_some : guarded ok step s e = some s' ↔ ok s e ∧ step s e = some s' := by
  by_cases h : ok s e <;> simp [guarded, h]

/-- The run rule for guarded runs: a step only has to keep the invariant where
its guard holds. -/
theorem guarded_run_invariant {I : σ → Prop}
    (hstep : ∀ s e s', I s → ok s e → step s e = some s' → I s')
    (hs : I s) (h : run (guarded ok step) s es = some s') : I s' := by
  refine run_invariant (fun t e t' ht hte => ?_) hs h
  obtain ⟨hok, hst⟩ := guarded_eq_some.mp hte
  exact hstep t e t' ht hok hst

theorem run_of_guarded (h : run (guarded ok step) s es = some s') : run step s es = some s' := by
  induction es generalizing s with
  | nil => exact h
  | cons e es ih =>
    obtain ⟨t, ht, hrun⟩ := run_cons_eq_some.mp h
    exact run_cons_eq_some.mpr ⟨t, (guarded_eq_some.mp ht).2, ih hrun⟩

end Guarded

end Qcacld.Lib
