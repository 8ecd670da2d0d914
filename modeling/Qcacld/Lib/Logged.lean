/-
Computations that keep a log.

A parser is modelled in the writer monad, with the places that it reads as the log: `val` is what it
computes and `log` what it touched on the way.
-/
import Mathlib.Control.Monad.Writer
import Mathlib.Tactic.Common

set_option autoImplicit false

namespace Qcacld.Lib

abbrev Logged (β : Type) : Type → Type := Writer (List β)

variable {α γ β : Type}

def val (x : Logged β α) : α := (WriterT.run x).1

def log (x : Logged β α) : List β := (WriterT.run x).2

/-- The value `a`, and `bs` goes to the log. -/
def emit (bs : List β) (a : α) : Logged β α := WriterT.mk (a, bs)

@[simp] theorem val_emit (bs : List β) (a : α) : val (emit bs a) = a := rfl

@[simp] theorem log_emit (bs : List β) (a : α) : log (emit bs a) = bs := rfl

@[simp] theorem val_pure (a : α) : val (pure a : Logged β α) = a := rfl

@[simp] theorem val_bind (x : Logged β α) (f : α → Logged β γ) :
    val (x >>= f) = val (f (val x)) := rfl

@[simp] theorem log_bind (x : Logged β α) (f : α → Logged β γ) :
    log (x >>= f) = log x ++ log (f (val x)) := rfl

@[simp] theorem val_emit_bind (bs : List β) (a : α) (f : α → Logged β γ) :
    val (emit bs a >>= f) = val (f a) := rfl

theorem ext {x y : Logged β α} (hval : val x = val y) (hlog : log x = log y) : x = y :=
  Prod.ext hval hlog

theorem logged_pure_bind (a : α) (f : α → Logged β γ) : pure a >>= f = f a :=
  ext rfl (List.nil_append (log (f a)))

theorem logged_bind_assoc {δ : Type} (x : Logged β α) (f : α → Logged β γ) (g : γ → Logged β δ) :
    x >>= f >>= g = x >>= fun a => f a >>= g :=
  ext rfl (List.append_assoc (log x) _ _)

variable {x : Logged β α}

theorem bind_congr_val {f g : α → Logged β γ} (h : f (val x) = g (val x)) : x >>= f = x >>= g := by
  refine ext ?_ ?_
  · rw [val_bind, val_bind, h]
  · rw [log_bind, log_bind, h]

theorem val_ite {c : Prop} [Decidable c] (x y : Logged β α) :
    val (if c then x else y) = if c then val x else val y := apply_ite val c x y

def Within (P : β → Prop) (x : Logged β α) : Prop := ∀ b ∈ log x, P b

variable {P : β → Prop}

theorem within_pure (a : α) : Within P (pure a : Logged β α) :=
  nofun

theorem within_emit {bs : List β} {a : α} (h : ∀ b ∈ bs, P b) : Within P (emit bs a) := h

variable {f : α → Logged β γ}

theorem within_bind_iff :
    Within P (x >>= f) ↔ Within P x ∧ Within P (f (val x)) := by exact List.forall_mem_append

theorem within_bind_pure {f : α → γ} :
    Within P (x >>= fun a => pure (f a)) ↔ Within P x :=
  within_bind_iff.trans (and_iff_left (within_pure _))

theorem Within.bind (hx : Within P x) (hf : Within P (f (val x))) :
    Within P (x >>= f) := within_bind_iff.mpr ⟨hx, hf⟩

theorem within_emit_bind {bs : List β} {a : α} (h : ∀ b ∈ bs, P b) (hf : Within P (f a)) :
    Within P (emit bs a >>= f) := (within_emit h).bind hf

theorem within_read_bind {b : β} {a : α} (h : P b) (hf : Within P (f a)) :
    Within P (emit [b] a >>= f) := within_emit_bind (List.forall_mem_singleton.mpr h) hf

theorem Within.mono {Q : β → Prop} (h : Within P x) (hPQ : ∀ b, P b → Q b) :
    Within Q x := fun b hb => hPQ b (h b hb)

end Qcacld.Lib
