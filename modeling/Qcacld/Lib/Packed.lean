/-
Tables of slots whose slots in use come first.

Adding at the number of the slots in use appends to the list; a content is taken out by moving those
after it one slot down (`Slots.shiftDown`).
-/
import Mathlib.Data.List.TakeWhile
import Qcacld.Lib.Slots

set_option autoImplicit false

namespace Qcacld.Lib

open List

variable {α : Type*}

namespace Slots

/-- A table of `n` slots that holds `l`; the content of the other slots is `z`. -/
def packed (z : α) (n : Nat) (l : List α) : List (Slot α) :=
  l.map (Slot.mk true) ++ replicate (n - l.length) ⟨false, z⟩

/-- A search that stops at the first slot that is not in use. -/
def findPrefix (p : α → Bool) (c : List (Slot α)) : Option Nat :=
  (c.takeWhile Slot.active).findIdx? fun s => p s.content

/-- The slots from that of `cur` on, after those in use are moved one slot down; `copy a b` is what
the slot that held `a` holds after `b` is moved there. The last one is erased. -/
def shiftDown (copy : α → α → α) (z : α) : Slot α → List (Slot α) → List (Slot α)
  | _, [] => [⟨false, z⟩]
  | cur, next :: rest =>
    if next.active then ⟨true, copy cur.content next.content⟩ :: shiftDown copy z next rest
    else ⟨false, z⟩ :: next :: rest

/-- The list without `a`, of which those after it have been moved. -/
def shifted (copy : α → α → α) : α → List α → List α
  | _, [] => []
  | a, b :: l => copy a b :: shifted copy b l

variable {z : α} {n i : Nat} {l pre post : List α} {a : α} {copy : α → α → α} {p : α → Bool}

theorem takeWhile_packed : (packed z n l).takeWhile Slot.active = l.map (Slot.mk true) := by
  unfold packed
  rw [takeWhile_append_of_pos]
  · cases n - l.length <;> simp [replicate_succ]
  · intro s hs
    obtain ⟨b, -, rfl⟩ := mem_map.mp hs
    rfl

theorem findPrefix_packed : findPrefix p (packed z n l) = l.findIdx? p := by
  unfold findPrefix
  rw [takeWhile_packed, findIdx?_map]; rfl

theorem live_packed : live (packed z n l) = l := by
  have hout : live (replicate (n - l.length) ⟨false, z⟩) = [] := by
    unfold live
    rw [filter_replicate]; rfl
  have hin : live (l.map (Slot.mk true)) = l := by
    unfold live
    rw [filter_eq_self.mpr, map_map]
    · exact map_id _
    · intro s hs
      obtain ⟨b, -, rfl⟩ := mem_map.mp hs
      rfl
  unfold packed
  rw [live_append, hin, hout, append_nil]

theorem countP_packed : (packed z n l).countP Slot.active = l.length := by
  have h : (live (packed z n l)).length = (packed z n l).countP Slot.active := by
    unfold live
    rw [length_map, countP_eq_length_filter]
  rw [← h, live_packed]

theorem find_packed : find p (packed z n l) = l.findIdx? p := by
  unfold find packed; simp [Function.comp_def]

theorem fill_packed_append (h : l.length < n) :
    fill (packed z n l) l.length a = packed z n (l ++ [a]) := by
  have hrep : replicate (n - l.length) (⟨false, z⟩ : Slot α)
      = ⟨false, z⟩ :: replicate (n - (l ++ [a]).length) ⟨false, z⟩ := by
    rw [← replicate_succ, length_append, length_singleton]
    congr 1
    omega
  unfold fill packed
  rw [hrep, set_append_right _ _ (by rw [length_map]), length_map, Nat.sub_self,
    set_cons_zero, map_append, append_assoc]
  rfl

theorem fill_packed_set (h : i < l.length) : fill (packed z n l) i a = packed z n (l.set i a) := by
  unfold fill packed
  rw [set_append_left _ _ (by rw [length_map]; exact h), map_set, length_set]

theorem packed_cons : packed z (n + 1) (a :: l) = ⟨true, a⟩ :: packed z n l := by
  unfold packed
  rw [map_cons, cons_append, length_cons, Nat.add_sub_add_right]

theorem packed_append :
    packed z n (pre ++ l) = pre.map (Slot.mk true) ++ packed z (n - pre.length) l := by
  unfold packed
  rw [map_append, append_assoc, length_append, Nat.sub_sub]

theorem packed_append_cons (h : (pre ++ a :: post).length ≤ n) :
    packed z n (pre ++ a :: post)
      = pre.map (Slot.mk true) ++ ⟨true, a⟩ :: packed z (n - pre.length - 1) post := by
  rw [length_append, length_cons] at h
  obtain ⟨m, hm⟩ : ∃ m, n - pre.length = m + 1 := ⟨n - pre.length - 1, by omega⟩
  rw [packed_append, hm, packed_cons, Nat.add_sub_cancel]

theorem modify_append_cons (f : Slot α → Slot α) (pre post : List (Slot α)) (s : Slot α) :
    (pre ++ s :: post).modify pre.length f = pre ++ f s :: post := by
  induction pre with
  | nil => rfl
  | cons t pre ih => rw [cons_append, length_cons, modify_succ_cons, ih]; rfl

theorem modify_packed (f : α → α) (h : (pre ++ a :: post).length ≤ n) :
    (packed z n (pre ++ a :: post)).modify pre.length (fun s => { s with content := f s.content })
      = packed z n (pre ++ f a :: post) := by
  have h' : (pre ++ f a :: post).length ≤ n := by
    rw [length_append, length_cons] at h ⊢
    exact h
  rw [packed_append_cons h, packed_append_cons h']
  have hm := modify_append_cons (fun s => { s with content := f s.content })
    (pre.map (Slot.mk true)) (packed z (n - pre.length - 1) post) ⟨true, a⟩
  rw [length_map] at hm; exact hm

theorem shiftDown_packed (h : l.length ≤ n) :
    shiftDown copy z ⟨true, a⟩ (packed z n l) = packed z (n + 1) (shifted copy a l) := by
  induction l generalizing n a with
  | nil =>
    cases n with
    | zero => rfl
    | succ n => unfold packed shifted; rfl
  | cons b l ih =>
    obtain ⟨m, rfl⟩ : ∃ m, n = m + 1 := ⟨n - 1, by rw [length_cons] at h; omega⟩
    have hl : l.length ≤ m := by rw [length_cons] at h; omega
    rw [packed_cons]
    unfold shiftDown shifted
    rw [if_pos rfl, ih hl, packed_cons]

/-- Slot `i` is taken out. -/
def removeAt (copy : α → α → α) (z : α) (cs : List (Slot α)) (i : Nat) : List (Slot α) :=
  match cs[i]? with
  | none => cs
  | some s => cs.take i ++ shiftDown copy z s (cs.drop (i + 1))

theorem removeAt_packed (h : (pre ++ a :: post).length ≤ n) :
    removeAt copy z (packed z n (pre ++ a :: post)) pre.length
      = packed z n (pre ++ shifted copy a post) := by
  have hlen : pre.length = (pre.map (Slot.mk true)).length := by rw [length_map]
  rw [packed_append_cons h]
  have hat : (pre.map (Slot.mk true) ++ ⟨true, a⟩ :: packed z (n - pre.length - 1) post)[pre.length]?
      = some ⟨true, a⟩ := by rw [hlen, getElem?_append_right (Nat.le_refl _), Nat.sub_self]; rfl
  rw [length_append, length_cons] at h
  unfold removeAt
  rw [hat]
  dsimp only
  have htake : (pre.map (Slot.mk true) ++
      ⟨true, a⟩ :: packed z (n - pre.length - 1) post).take pre.length
        = pre.map (Slot.mk true) := by rw [hlen, take_left]
  have hdrop : (pre.map (Slot.mk true) ++
      ⟨true, a⟩ :: packed z (n - pre.length - 1) post).drop (pre.length + 1)
        = packed z (n - pre.length - 1) post := by
    rw [hlen, drop_append, Nat.add_sub_cancel_left, drop_eq_nil_of_le (by omega), nil_append]
    rfl
  rw [htake, hdrop, shiftDown_packed (by omega), packed_append]
  congr 2
  omega

theorem shifted_eq (h : ∀ b c, (b, c) ∈ (a :: l).zip l → copy b c = c) : shifted copy a l = l := by
  induction l generalizing a with
  | nil => rfl
  | cons b l ih =>
    unfold shifted
    rw [h a b (mem_cons_self), ih]
    intro c d hcd; exact h c d (mem_cons_of_mem _ hcd)

end Slots

end Qcacld.Lib
