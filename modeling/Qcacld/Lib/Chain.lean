/-
Singly linked lists in a memory of `next` pointers.

`Linked next p l q` says that following `next` from the pointer `p` visits the cells of `l` in order
and arrives at `q`; a NULL-terminated list is one that arrives at `none`.
-/
import Mathlib.Data.List.Nodup

set_option autoImplicit false

namespace Qcacld.Lib

open Function List Option

variable {α : Type*} {next : α → Option α} {p q r : Option α} {l l₁ l₂ : List α} {a : α}

/-- The segment from `p` through the cells `l` to `q`. -/
def Linked (next : α → Option α) : Option α → List α → Option α → Prop
  | p, [], q => p = q
  | p, a :: l, q => p = some a ∧ Linked next (next a) l q

@[simp] theorem linked_nil : Linked next p [] q ↔ p = q := Iff.rfl

@[simp] theorem linked_cons :
    Linked next p (a :: l) q ↔ p = some a ∧ Linked next (next a) l q := Iff.rfl

theorem linked_append :
    Linked next p (l₁ ++ l₂) q ↔ ∃ r, Linked next p l₁ r ∧ Linked next r l₂ q := by
  induction l₁ generalizing p with
  | nil => exact ⟨fun h => ⟨p, rfl, h⟩, fun ⟨_, hr, h⟩ => hr ▸ h⟩
  | cons a l₁ ih =>
    simp only [cons_append, linked_cons, ih]
    constructor
    · rintro ⟨hp, r, h₁, h₂⟩; exact ⟨r, ⟨hp, h₁⟩, h₂⟩
    · rintro ⟨r, ⟨hp, h₁⟩, h₂⟩; exact ⟨hp, r, h₁, h₂⟩

theorem linked_concat : Linked next p (l ++ [a]) q ↔ Linked next p l (some a) ∧ next a = q := by
  rw [linked_append]
  constructor
  · rintro ⟨r, h, hr, hq⟩; exact ⟨hr ▸ h, hq⟩
  · rintro ⟨h, hq⟩; exact ⟨some a, h, rfl, hq⟩

/-- Two segments over the same cells from the same pointer, in memories that
agree on these cells. -/
theorem linked_congr {next' : α → Option α} (h : ∀ a ∈ l, next' a = next a) :
    Linked next' p l q ↔ Linked next p l q := by
  induction l generalizing p with
  | nil => exact Iff.rfl
  | cons a l ih =>
    rw [linked_cons, linked_cons, h a mem_cons_self, ih fun b hb => h b (mem_cons_of_mem a hb)]

theorem linked_head (h : Linked next p l q) (hl : l ≠ []) : p = l.head? := by
  cases l with
  | nil => exact absurd rfl hl
  | cons a l => exact h.1

theorem linked_next_ne (h : Linked next p l none) (hnd : l.Nodup) (ha : a ∈ l) :
    next a ≠ some a := by
  intro hself
  obtain ⟨l₁, l₂, rfl⟩ := append_of_mem ha
  obtain ⟨r, -, -, hrest⟩ := linked_append.mp h
  rw [hself] at hrest
  cases l₂ with
  | nil => cases hrest
  | cons b l₂ =>
    obtain rfl := some.inj hrest.1
    have hnot := (nodup_cons.mp (List.Nodup.of_append_right hnd)).1
    exact hnot mem_cons_self

theorem linked_ne_head {b : α} (h : Linked next p (l₁ ++ [b] ++ a :: l₂) q)
    (hnd : (l₁ ++ [b] ++ a :: l₂).Nodup) : p ≠ some a := by
  intro hp
  have hmem : a ∈ l₁ ++ [b] := by
    cases l₁ with
    | nil => exact mem_singleton.mpr (some.inj (hp.symm.trans h.1))
    | cons x l₁ => exact some.inj (hp.symm.trans h.1) ▸ mem_cons_self
  exact disjoint_of_nodup_append hnd hmem mem_cons_self

/-! ## Walking a list -/

def walk (next : α → Option α) : Nat → Option α → Option (List α)
  | _, none => some []
  | 0, some _ => none
  | fuel + 1, some a => (walk next fuel (next a)).map (a :: ·)

theorem walk_eq (fuel : Nat) (h : Linked next p l none) (hfuel : l.length ≤ fuel) :
    walk next fuel p = some l := by
  induction l generalizing fuel p with
  | nil =>
    obtain rfl : p = none := h
    unfold walk; rfl
  | cons a l ih =>
    obtain ⟨rfl, hrest⟩ := h
    obtain ⟨n, rfl⟩ := Nat.exists_eq_succ_of_ne_zero (Nat.ne_zero_of_lt hfuel)
    rw [walk, ih n hrest (Nat.le_of_succ_le_succ hfuel), map_some]

theorem linked_unique (h₁ : Linked next p l₁ none) (h₂ : Linked next p l₂ none) : l₁ = l₂ := by
  have hwalk₁ := walk_eq (l₁.length + l₂.length) h₁ (Nat.le_add_right _ _)
  have hwalk₂ := walk_eq (l₁.length + l₂.length) h₂ (Nat.le_add_left _ _)
  exact some.inj (hwalk₁.symm.trans hwalk₂)

theorem linked_nodup (h : Linked next p l none) : l.Nodup := by
  induction l generalizing p with
  | nil => exact nodup_nil
  | cons a l ih =>
    apply nodup_cons.mpr ⟨?_, ih h.2⟩
    intro ha
    -- from a second visit of the cell on, the list would be the same again
    obtain ⟨l₁, l₂, hl⟩ := append_of_mem ha
    have hrest := h.2
    rw [hl] at hrest
    obtain ⟨r, -, hagain⟩ := linked_append.mp hrest
    have hloop : a :: l = a :: l₂ := linked_unique ⟨rfl, h.2⟩ ⟨rfl, hagain.2⟩
    have hlen := congrArg List.length (hl.symm.trans (List.cons.inj hloop).2)
    rw [length_append, length_cons] at hlen; omega

theorem linked_subset {F : α → Prop} (h : Linked next p l none) (hp : ∀ a ∈ p, F a)
    (hnext : ∀ a, F a → ∀ b ∈ next a, F b) : ∀ a ∈ l, F a := by
  induction l generalizing p with
  | nil => exact nofun
  | cons b l ih =>
    obtain ⟨rfl, hrest⟩ := h
    have hb := hp b rfl
    intro a ha
    obtain rfl | ha := mem_cons.mp ha
    · exact hb
    · exact ih hrest (hnext b hb) a ha

theorem linked_head_mem (h : Linked next p l none) (ha : a ∈ p) : a ∈ l := by
  cases l with
  | nil => obtain rfl : p = none := h; cases ha
  | cons b l => obtain rfl := some.inj (h.1.symm.trans ha); exact mem_cons_self

theorem linked_next_mem {b : α} (h : Linked next p l none) (ha : a ∈ l) (hb : b ∈ next a) :
    b ∈ l := by
  obtain ⟨l₁, l₂, rfl⟩ := append_of_mem ha
  obtain ⟨r, -, -, hrest⟩ := linked_append.mp h
  exact mem_append_right l₁ (mem_cons_of_mem a (linked_head_mem hrest hb))

/-! ## Writing pointers -/

variable [DecidableEq α]

theorem linked_update_of_notMem (ha : a ∉ l) :
    Linked (update next a r) p l q ↔ Linked next p l q := by
  apply linked_congr
  intro b hb
  have hne : b ≠ a := fun he => ha (he ▸ hb)
  exact update_of_ne hne _ _

theorem linked_concat_update (h : Linked next p (l ++ [a]) q) (ha : a ∉ l) (r : Option α) :
    Linked (update next a r) p (l ++ [a]) r := by
  rw [linked_concat] at h ⊢
  exact ⟨(linked_update_of_notMem ha).mpr h.1, update_self _ _ _⟩

theorem linked_unlink {b : α} (h : Linked next p (l₁ ++ [b] ++ a :: l₂) q)
    (hnd : (l₁ ++ [b] ++ a :: l₂).Nodup) :
    Linked (update next b (next a)) p (l₁ ++ [b] ++ l₂) q := by
  obtain ⟨r, hfirst, hr, hrest⟩ := linked_append.mp h
  have hb₁ : b ∉ l₁ := fun hb => by
    have hleft := List.Nodup.of_append_left hnd
    exact disjoint_of_nodup_append hleft hb (mem_singleton_self b)
  have hb₂ : b ∉ l₂ := fun hb =>
    disjoint_of_nodup_append hnd (mem_append_right _ (mem_singleton_self b))
      (mem_cons_of_mem a hb)
  apply linked_append.mpr
  exact ⟨next a, linked_concat_update hfirst hb₁ _, (linked_update_of_notMem hb₂).mpr hrest⟩

/-! ## Walking up to a cell -/

/-- Follow `next` from `a` up to the cell `t` and return the cells. -/
def walkTo (next : α → Option α) (t : α) : Nat → α → Option (List α)
  | 0, _ => none
  | fuel + 1, a =>
    if a = t then some [a]
    else ((next a).bind fun b => walkTo next t fuel b).map (a :: ·)

theorem walkTo_eq {t : α} (fuel : Nat) (h : Linked next (some a) (l ++ [t]) q) (ht : t ∉ l)
    (hfuel : l.length < fuel) : walkTo next t fuel a = some (l ++ [t]) := by
  induction l generalizing fuel a with
  | nil =>
    obtain rfl := some.inj h.1
    obtain ⟨n, rfl⟩ := Nat.exists_eq_succ_of_ne_zero (Nat.ne_of_gt hfuel)
    rw [walkTo, if_pos rfl]; rfl
  | cons b l ih =>
    obtain ⟨hb, hrest⟩ := h
    obtain rfl := some.inj hb
    obtain ⟨n, rfl⟩ := Nat.exists_eq_succ_of_ne_zero (Nat.ne_zero_of_lt hfuel)
    rw [mem_cons, not_or] at ht
    obtain ⟨c, hc⟩ : ∃ c, next a = some c := by
      rw [linked_head hrest (by simp)]
      cases l with
      | nil => exact ⟨t, rfl⟩
      | cons c l => exact ⟨c, rfl⟩
    have hwalk := ih n (hc ▸ hrest) ht.2 (Nat.lt_of_succ_lt_succ hfuel)
    rw [walkTo, if_neg (Ne.symm ht.1), hc, bind_some, hwalk]; rfl

end Qcacld.Lib
