/-
Fixed tables of slots, each of which is in use or not.

A slot keeps its last content when it is given up; only the mark says whether it counts. What a
table stands for is the list of the contents in use (`Slots.live`).
-/
import Mathlib.Data.List.Perm.Basic

set_option autoImplicit false

namespace Qcacld.Lib

open List

variable {α : Type*}

structure Slot (α : Type*) where
  active : Bool
  content : α

namespace Slots

def live (cs : List (Slot α)) : List α := (cs.filter Slot.active).map Slot.content

def find (p : α → Bool) (cs : List (Slot α)) : Option Nat :=
  cs.findIdx? fun s => s.active && p s.content

def free (cs : List (Slot α)) : Option Nat := cs.findIdx? fun s => !s.active

def fill (cs : List (Slot α)) (i : Nat) (a : α) : List (Slot α) := cs.set i ⟨true, a⟩

def clear (cs : List (Slot α)) (i : Nat) : List (Slot α) :=
  cs.modify i fun s => { s with active := false }

@[simp] theorem length_fill (cs : List (Slot α)) (i : Nat) (a : α) :
    (fill cs i a).length = cs.length := length_set

@[simp] theorem length_clear (cs : List (Slot α)) (i : Nat) : (clear cs i).length = cs.length :=
  length_modify ..

theorem live_append (cs d : List (Slot α)) : live (cs ++ d) = live cs ++ live d := by
  simp only [live, filter_append, map_append]

theorem live_cons (s : Slot α) (cs : List (Slot α)) :
    live (s :: cs) = if s.active then s.content :: live cs else live cs := by
  by_cases hs : s.active = true <;> simp [live, hs]

theorem live_length_le (cs : List (Slot α)) : (live cs).length ≤ cs.length := by
  rw [live, length_map]; exact length_filter_le _ _

variable {cs : List (Slot α)}

theorem mem_live {a : α} : a ∈ live cs ↔ (⟨true, a⟩ : Slot α) ∈ cs := by
  simp only [live, mem_map, mem_filter]
  constructor
  · rintro ⟨⟨b, a'⟩, ⟨hs, hb⟩, rfl⟩
    rw [show b = true from hb] at hs; exact hs
  · intro h; exact ⟨_, ⟨h, rfl⟩, rfl⟩

theorem find_eq_none {p : α → Bool} : find p cs = none ↔ ∀ a ∈ live cs, p a = false := by
  rw [find, findIdx?_eq_none_iff]
  constructor
  · intro h a ha; simpa using h _ (mem_live.mp ha)
  · intro h s hs
    by_cases hact : s.active = true
    · rw [hact, Bool.true_and]
      refine h _ (mem_live.mpr ?_)
      rw [← hact]; exact hs
    · simp [hact]

variable {i : Nat}

theorem eq_append_of_getElem? {s : Slot α} (h : cs[i]? = some s) :
    ∃ pre post, cs = pre ++ s :: post ∧ pre.length = i := by
  obtain ⟨hi, rfl⟩ := List.getElem?_eq_some_iff.mp h
  refine ⟨cs.take i, cs.drop (i + 1), ?_, length_take_of_le (Nat.le_of_lt hi)⟩
  rw [getElem_cons_drop, take_append_drop]

theorem fill_unused {s : Slot α} (h : cs[i]? = some s) (hs : s.active = false) (a : α) :
    (live (fill cs i a)).Perm (a :: live cs) := by
  obtain ⟨pre, post, rfl, rfl⟩ := eq_append_of_getElem? h
  rw [fill, set_append_right _ _ (Nat.le_refl _), Nat.sub_self, set_cons_zero,
    live_append, live_append, live_cons, live_cons, if_pos rfl, hs, if_neg Bool.false_ne_true]
  exact perm_middle

theorem free_getElem? (h : free cs = some i) : ∃ s, cs[i]? = some s ∧ s.active = false := by
  obtain ⟨hi, hs, -⟩ := findIdx?_eq_some_iff_getElem.mp h
  refine ⟨cs[i], getElem?_eq_getElem hi, ?_⟩
  simpa using hs

theorem fill_free (h : free cs = some i) (a : α) : (live (fill cs i a)).Perm (a :: live cs) := by
  obtain ⟨s, hs, hact⟩ := free_getElem? h
  exact fill_unused hs hact a

theorem clear_append (pre : List (Slot α)) (s : Slot α) (post : List (Slot α)) :
    clear (pre ++ s :: post) pre.length = pre ++ { s with active := false } :: post := by
  rw [clear, modify_eq_take_cons_drop (by simp)]; simp

theorem clear_used {b : α} (h : cs[i]? = some ⟨true, b⟩) :
    (live cs).Perm (b :: live (clear cs i)) := by
  obtain ⟨pre, post, rfl, rfl⟩ := eq_append_of_getElem? h
  rw [clear_append, live_append, live_append, live_cons, live_cons, if_pos rfl,
    if_neg Bool.false_ne_true]
  exact perm_middle

theorem find_getElem? {p : α → Bool} (h : find p cs = some i) :
    ∃ a, cs[i]? = some ⟨true, a⟩ ∧ p a = true := by
  obtain ⟨hi, hs, -⟩ := findIdx?_eq_some_iff_getElem.mp h
  obtain ⟨hact, hp⟩ := Bool.and_eq_true_iff.mp hs
  refine ⟨cs[i].content, ?_, hp⟩
  rw [getElem?_eq_getElem hi, ← hact]

/-- **Clearing what a search found** takes one content that was looked for away. -/
theorem clear_find {p : α → Bool} (h : find p cs = some i) :
    ∃ a, p a = true ∧ (live cs).Perm (a :: live (clear cs i)) := by
  obtain ⟨a, ha, hp⟩ := find_getElem? h
  exact ⟨a, hp, clear_used ha⟩

end Slots

end Qcacld.Lib
