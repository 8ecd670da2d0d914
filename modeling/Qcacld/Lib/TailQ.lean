/-
Tail queues of intrusive links, as the BSD `TAILQ` macros keep them.

The head has a pointer to the first element and the address of the last `tqe_next` field; an element
has a pointer to the next one and the address of the `tqe_next` field that points to it.
-/
import Mathlib.Data.List.Nodup

set_option autoImplicit false

namespace Qcacld.Lib

open Function List

variable {α : Type*}

/-- The address of a `tqe_next` field, or of `tqh_first`. -/
inductive Loc (α : Type*) where
  | head
  | elem (a : α)
deriving DecidableEq

structure TailQ (α : Type*) where
  tqh_first : Option α
  tqh_last : Loc α
  tqe_next : α → Option α
  tqe_prev : α → Option (Loc α)

namespace TailQ

def init : TailQ α := ⟨none, .head, fun _ => none, fun _ => none⟩

def deref (q : TailQ α) : Loc α → Option α
  | .head => q.tqh_first
  | .elem a => q.tqe_next a

section Macros

variable [DecidableEq α]

def write (q : TailQ α) (p : Loc α) (v : Option α) : TailQ α :=
  match p with
  | .head => { q with tqh_first := v }
  | .elem a => { q with tqe_next := update q.tqe_next a v }

def setPrev (q : TailQ α) (a : α) (p : Option (Loc α)) : TailQ α :=
  { q with tqe_prev := update q.tqe_prev a p }

/-- Both links of an element are set to NULL. -/
def clear (q : TailQ α) (a : α) : TailQ α := (q.write (.elem a) none).setPrev a none

/-- TAILQ_INSERT_TAIL. -/
def insertTail (q : TailQ α) (a : α) : TailQ α :=
  let q := q.write (.elem a) none
  let q := q.setPrev a (some q.tqh_last)
  let q := q.write q.tqh_last (some a)
  { q with tqh_last := .elem a }

/-- TAILQ_REMOVE; there is no result if the address in the element is NULL and the next
element, or the head, would get it. -/
def remove (q : TailQ α) (a : α) : Option (TailQ α) :=
  (q.tqe_prev a).map fun p =>
    let q' := match q.tqe_next a with
      | some b => q.setPrev b (some p)
      | none => { q with tqh_last := p }
    q'.write p (q'.tqe_next a)

end Macros

/-! ## The list of a queue -/

/-- From the address `p` on, the queue holds `l`. -/
def Holds (q : TailQ α) : Loc α → List α → Prop
  | p, [] => q.deref p = none ∧ q.tqh_last = p
  | p, a :: l => q.deref p = some a ∧ q.tqe_prev a = some p ∧ Holds q (.elem a) l

variable {q q' : TailQ α} {p : Loc α} {l l₁ l₂ : List α} {a b : α}

theorem holds_init : Holds (init : TailQ α) .head [] := ⟨rfl, rfl⟩

theorem Holds.unique (h₁ : Holds q p l₁) (h₂ : Holds q p l₂) : l₁ = l₂ := by
  induction l₁ generalizing p l₂ with
  | nil =>
    cases l₂ with
    | nil => rfl
    | cons b l₂ => rw [Holds, h₁.1] at h₂; exact absurd h₂.1 (by simp)
  | cons a l₁ ih =>
    cases l₂ with
    | nil => rw [Holds, h₂.1] at h₁; exact absurd h₁.1 (by simp)
    | cons b l₂ =>
      obtain rfl : a = b := Option.some.inj (h₁.1.symm.trans h₂.1)
      rw [ih h₁.2.2 h₂.2.2]

theorem Holds.tqh_last (h : Holds q p l) : q.tqh_last = (l.getLast?.map Loc.elem).getD p := by
  induction l generalizing p with
  | nil => exact h.2
  | cons a l ih =>
    rw [ih h.2.2, getLast?_cons]
    cases l.getLast? with
    | none => rfl
    | some b => rfl

theorem Holds.first (h : Holds q p l) : q.deref p = l.head? := by
  cases l with
  | nil => exact h.1
  | cons a l => exact h.1

theorem Holds.congr (h : Holds q p l) (hp : q'.deref p = q.deref p)
    (hnext : ∀ a ∈ l, q'.tqe_next a = q.tqe_next a) (hprev : ∀ a ∈ l, q'.tqe_prev a = q.tqe_prev a)
    (hlast : q'.tqh_last = q.tqh_last) : Holds q' p l := by
  induction l generalizing p with
  | nil => exact ⟨hp.trans h.1, hlast.trans h.2⟩
  | cons a l ih =>
    refine ⟨hp.trans h.1, (hprev a mem_cons_self).trans h.2.1, ?_⟩
    exact ih h.2.2 (hnext a mem_cons_self) (fun b hb => hnext b (mem_cons_of_mem a hb))
      fun b hb => hprev b (mem_cons_of_mem a hb)

theorem Holds.next (h : Holds q p (l₁ ++ a :: l₂)) : q.tqe_next a = l₂.head? := by
  induction l₁ generalizing p with
  | nil => exact h.2.2.first
  | cons b l₁ ih => exact ih h.2.2

theorem Holds.prev (h : Holds q p (l₁ ++ a :: l₂)) :
    q.tqe_prev a = some ((l₁.getLast?.map Loc.elem).getD p) := by
  induction l₁ generalizing p with
  | nil => exact h.2.1
  | cons b l₁ ih =>
    rw [ih h.2.2, getLast?_cons]
    cases l₁.getLast? with
    | none => rfl
    | some c => rfl

section Macros

variable [DecidableEq α]

@[simp] theorem write_last (q : TailQ α) (p : Loc α) (v : Option α) :
    (q.write p v).tqh_last = q.tqh_last := by
  cases p with
  | head => rfl
  | elem a => rfl

@[simp] theorem write_prev (q : TailQ α) (p : Loc α) (v : Option α) :
    (q.write p v).tqe_prev = q.tqe_prev := by
  cases p with
  | head => rfl
  | elem a => rfl

theorem deref_write_self (q : TailQ α) (p : Loc α) (v : Option α) : (q.write p v).deref p = v := by
  cases p with
  | head => rfl
  | elem a => exact update_self _ _ _

theorem deref_write_of_ne {p' : Loc α} (h : p' ≠ p) (q : TailQ α) (v : Option α) :
    (q.write p v).deref p' = q.deref p' := by
  cases p with
  | head =>
    cases p' with
    | head => exact absurd rfl h
    | elem b => rfl
  | elem a =>
    cases p' with
    | head => rfl
    | elem b => exact update_of_ne (fun hb => h (congrArg _ hb)) _ _

theorem deref_setPrev (q : TailQ α) (a : α) (v : Option (Loc α)) (p : Loc α) :
    (q.setPrev a v).deref p = q.deref p := by
  cases p with
  | head => rfl
  | elem b => rfl

theorem Holds.clear (h : Holds q .head l) (ha : a ∉ l) : Holds (q.clear a) .head l := by
  have hne : ∀ b ∈ l, b ≠ a := by rintro b hb rfl; exact ha hb
  refine h.congr rfl (fun b hb => ?_) (fun b hb => ?_) rfl
  · exact update_of_ne (hne b hb) _ _
  · exact update_of_ne (hne b hb) _ _

theorem insertTail_prev (q : TailQ α) (a : α) :
    (q.insertTail a).tqe_prev = update q.tqe_prev a (some q.tqh_last) := by
  simp only [insertTail, write_prev, write_last, setPrev]

theorem insertTail_deref_last (q : TailQ α) (a : α) :
    (q.insertTail a).deref q.tqh_last = some a := by
  have h := deref_write_self ((q.write (.elem a) none).setPrev a (some q.tqh_last)) q.tqh_last (some a)
  cases hl : q.tqh_last with
  | head =>
    rw [hl] at h
    simp only [insertTail, setPrev, write_last, hl]
    exact h
  | elem b =>
    rw [hl] at h
    simp only [insertTail, setPrev, write_last, hl]
    exact h

theorem insertTail_deref_of_ne {p : Loc α} (hp : p ≠ q.tqh_last) (ha : p ≠ .elem a) :
    (q.insertTail a).deref p = q.deref p := by
  have hset : (q.insertTail a).deref p
      = (((q.write (.elem a) none).setPrev a (some q.tqh_last)).write q.tqh_last (some a)).deref p := by
    cases p with
    | head => rfl
    | elem b => rfl
  rw [hset, deref_write_of_ne hp, deref_setPrev, deref_write_of_ne ha]

theorem insertTail_next_self (hne : q.tqh_last ≠ .elem a) : (q.insertTail a).tqe_next a = none := by
  have hset : (q.insertTail a).deref (.elem a)
      = (((q.write (.elem a) none).setPrev a (some q.tqh_last)).write q.tqh_last
          (some a)).deref (.elem a) := by simp only [insertTail, setPrev, write_last]; rfl
  change (q.insertTail a).deref (.elem a) = none
  rw [hset, deref_write_of_ne hne.symm, deref_setPrev, deref_write_self]

/-- **TAILQ_INSERT_TAIL** of an element that is not in the queue. -/
theorem Holds.insertTail (h : Holds q p l) (hnd : l.Nodup) (hp : ∀ b ∈ l, p ≠ .elem b)
    (ha : a ∉ l) (hpa : p ≠ .elem a) : Holds (q.insertTail a) p (l ++ [a]) := by
  induction l generalizing p with
  | nil =>
    obtain ⟨-, hlast⟩ := h
    refine ⟨?_, ?_, ?_, rfl⟩
    · rw [← hlast]; exact insertTail_deref_last q a
    · rw [insertTail_prev, update_self, hlast]
    · exact insertTail_next_self (hlast ▸ hpa)
  | cons b l ih =>
    obtain ⟨hb, hnd'⟩ := nodup_cons.mp hnd
    rw [mem_cons, not_or] at ha
    -- the address that changes is that of a later element
    have hlater : p ≠ q.tqh_last := by
      rw [Holds.tqh_last h, getLast?_cons]
      intro heq
      cases hl : l.getLast? with
      | none => rw [hl] at heq; exact hp b mem_cons_self heq
      | some c => rw [hl] at heq; exact hp c (mem_cons_of_mem b (mem_of_getLast? hl)) heq
    refine ⟨?_, ?_, ?_⟩
    · rw [insertTail_deref_of_ne hlater hpa]; exact h.1
    · rw [insertTail_prev, update_of_ne (Ne.symm ha.1)]; exact h.2.1
    · refine ih h.2.2 hnd' (fun c hc heq => ?_) ha.2 (fun heq => ?_)
      · obtain rfl : b = c := Loc.elem.inj heq; exact hb hc
      · exact ha.1 (Loc.elem.inj heq).symm

theorem remove_deref {p' : Loc α} (hr : q.remove a = some q') (hp : q.tqe_prev a = some p) :
    q'.deref p' = if p' = p then q.tqe_next a else q.deref p' := by
  rw [remove, hp] at hr
  cases hr
  cases hnext : q.tqe_next a with
  | none =>
    dsimp only
    rw [hnext]
    split
    · next heq => rw [heq, deref_write_self]
    · next hne =>
      rw [deref_write_of_ne hne]
      cases p' with
      | head => rfl
      | elem b => rfl
  | some b =>
    dsimp only [setPrev]
    rw [hnext]
    split
    · next heq => rw [heq, deref_write_self]
    · next hne =>
      rw [deref_write_of_ne hne]
      cases p' with
      | head => rfl
      | elem b => rfl

theorem remove_prev (hr : q.remove a = some q') (hb : q.tqe_next a ≠ some b) :
    q'.tqe_prev b = q.tqe_prev b := by
  obtain ⟨p, hp, rfl⟩ := Option.map_eq_some_iff.mp hr
  cases hnext : q.tqe_next a with
  | none => rw [write_prev]
  | some c =>
    rw [write_prev]; exact update_of_ne (fun hbc => hb (hnext.trans (congrArg _ hbc.symm))) _ _

theorem Holds.remove (h : Holds q p (l₁ ++ a :: l₂)) (hnd : (l₁ ++ a :: l₂).Nodup)
    (hp : ∀ b ∈ l₁ ++ a :: l₂, p ≠ .elem b) (hr : q.remove a = some q') :
    Holds q' p (l₁ ++ l₂) := by
  induction l₁ generalizing p with
  | nil =>
    obtain ⟨hfirst, hprev, hrest⟩ := h
    have hd : ∀ {p'}, q'.deref p' = if p' = p then q.tqe_next a else q.deref p' :=
      remove_deref hr hprev
    cases l₂ with
    | nil =>
      refine ⟨?_, ?_⟩
      · rw [hd, if_pos rfl]; exact hrest.1
      · rw [TailQ.remove, hprev] at hr
        cases hr
        rw [show q.tqe_next a = none from hrest.1]; exact write_last _ _ _
    | cons b l₃ =>
      obtain ⟨hnext, hbprev, htail⟩ := hrest
      obtain ⟨-, hnd'⟩ := nodup_cons.mp hnd
      obtain ⟨hb, -⟩ := nodup_cons.mp hnd'
      have hq' : q' = (q.setPrev b (some p)).write p (some b) := by
        rw [TailQ.remove, hprev] at hr
        have heq := Option.some.inj hr
        rw [show q.tqe_next a = some b from hnext] at heq
        rw [← heq]
        dsimp only [setPrev]
        rw [show q.tqe_next a = some b from hnext]
      refine ⟨?_, ?_, htail.congr ?_ (fun c hc => ?_) (fun c hc => ?_) ?_⟩
      · rw [hd, if_pos rfl]; exact hnext
      · rw [hq', write_prev]; exact update_self _ _ _
      · rw [hd, if_neg (Ne.symm (hp b (by simp)))]
      · have hcd : q'.deref (.elem c) = q.deref (.elem c) := by
          rw [hd, if_neg (Ne.symm (hp c (by simp [hc])))]
        exact hcd
      · rw [hq', write_prev]
        refine update_of_ne ?_ _ _
        rintro rfl; exact hb hc
      · rw [hq', write_last]; rfl
  | cons c l₁ ih =>
    obtain ⟨hc, hnd'⟩ := nodup_cons.mp hnd
    obtain ⟨hfirst, hcprev, hrest⟩ := h
    have hprev := hrest.prev
    -- the address that is written belongs to `c` or to a later element
    have hother : p ≠ (l₁.getLast?.map Loc.elem).getD (.elem c) := by
      cases hl : l₁.getLast? with
      | none => exact hp c mem_cons_self
      | some d =>
        refine hp d (mem_cons_of_mem c (mem_append_left _ ?_))
        exact mem_of_getLast? hl
    refine ⟨?_, ?_, ?_⟩
    · rw [remove_deref hr hprev, if_neg hother]; exact hfirst
    · rw [remove_prev hr]
      · exact hcprev
      · rw [hrest.next]
        intro heq; exact hc (mem_append_right _ (mem_cons_of_mem a (mem_of_head? heq)))
    · refine ih hrest hnd' fun d hd heq => ?_
      obtain rfl : c = d := Loc.elem.inj heq
      exact hc hd

theorem Holds.remove_some (h : Holds q p (l₁ ++ a :: l₂)) : ∃ q', q.remove a = some q' := by
  rw [TailQ.remove, h.prev]; exact ⟨_, rfl⟩

end Macros

end TailQ

end Qcacld.Lib
