/-
Queues that keep their depth by hand.

The operations change the two separately, as macros over an intrusive list do, and the users of the
queue test the counter.
-/
import Mathlib.Data.List.Basic

set_option autoImplicit false

namespace Qcacld.Lib

variable {α : Type*}

@[ext]
structure DepthQueue (α : Type*) where
  items : List α
  Depth : Int
deriving DecidableEq

namespace DepthQueue

def init : DepthQueue α := ⟨[], 0⟩

def enqueue (q : DepthQueue α) (a : α) : DepthQueue α := ⟨q.items ++ [a], q.Depth + 1⟩

def enqueueToHead (q : DepthQueue α) (a : α) : DepthQueue α := ⟨a :: q.items, q.Depth + 1⟩

def dequeue (q : DepthQueue α) : Option (α × DepthQueue α) :=
  match q.items with
  | [] => none
  | a :: as => some (a, ⟨as, q.Depth - 1⟩)

def remove [DecidableEq α] (q : DepthQueue α) (a : α) : DepthQueue α :=
  ⟨q.items.erase a, q.Depth - 1⟩

/-- All items of `src` go behind those of `dest`. -/
def transferToTail (dest src : DepthQueue α) : DepthQueue α :=
  ⟨dest.items ++ src.items, dest.Depth + src.Depth⟩

/-- All items of `src` go before those of `dest`. -/
def transferToHead (dest src : DepthQueue α) : DepthQueue α :=
  ⟨src.items ++ dest.items, dest.Depth + src.Depth⟩

def Sound (q : DepthQueue α) : Prop := q.Depth = q.items.length

variable {q r : DepthQueue α} {a : α}

@[simp] theorem init_items : (init : DepthQueue α).items = [] := rfl

@[simp] theorem enqueue_items : (q.enqueue a).items = q.items ++ [a] := rfl

@[simp] theorem enqueueToHead_items : (q.enqueueToHead a).items = a :: q.items := rfl

@[simp] theorem remove_items [DecidableEq α] : (q.remove a).items = q.items.erase a := rfl

@[simp] theorem transferToTail_items : (q.transferToTail r).items = q.items ++ r.items := rfl

@[simp] theorem transferToHead_items : (q.transferToHead r).items = r.items ++ q.items := rfl

theorem dequeue_eq_none : q.dequeue = none ↔ q.items = [] := by
  unfold dequeue
  split <;> simp_all

theorem dequeue_eq_some (h : q.dequeue = some (a, r)) : q.items = a :: r.items := by
  unfold dequeue at h
  split at h
  · cases h
  · rename_i b as hq
    obtain ⟨rfl, rfl⟩ := h
    exact hq

theorem sound_init : (init : DepthQueue α).Sound := rfl

theorem Sound.enqueue (hq : q.Sound) : (q.enqueue a).Sound := by
  simp only [Sound, DepthQueue.enqueue, List.length_append, List.length_singleton] at *
  omega

theorem Sound.enqueueToHead (hq : q.Sound) : (q.enqueueToHead a).Sound := by
  simp only [Sound, DepthQueue.enqueueToHead, List.length_cons] at *
  omega

theorem Sound.dequeue (hq : q.Sound) (h : q.dequeue = some (a, r)) : r.Sound := by
  unfold DepthQueue.dequeue at h
  split at h
  · cases h
  · rename_i b as hqi
    obtain ⟨rfl, rfl⟩ := h
    simp only [Sound, hqi, List.length_cons] at *
    omega

theorem Sound.remove [DecidableEq α] (hq : q.Sound) (ha : a ∈ q.items) : (q.remove a).Sound := by
  have hpos := List.length_pos_of_mem ha
  simp only [Sound, DepthQueue.remove, List.length_erase_of_mem ha] at *
  omega

theorem Sound.transferToTail (hq : q.Sound) (hr : r.Sound) : (q.transferToTail r).Sound := by
  simp only [Sound, DepthQueue.transferToTail, List.length_append] at *
  omega

theorem Sound.transferToHead (hq : q.Sound) (hr : r.Sound) : (q.transferToHead r).Sound := by
  simp only [Sound, DepthQueue.transferToHead, List.length_append] at *
  omega

theorem Sound.depth_eq_zero (hq : q.Sound) : q.Depth = 0 ↔ q.items = [] := by
  rw [hq, Int.natCast_eq_zero, List.length_eq_zero_iff]

end DepthQueue

end Qcacld.Lib
