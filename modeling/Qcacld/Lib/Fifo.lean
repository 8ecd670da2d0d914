/-
A circular array as a queue.

`Fifo buf size i l` says that the slots from index `i` on, taken modulo `size`, hold the elements of
`l`. `Ahead size i k j` says that the index `j` is `k` slots ahead of the index `i`.
-/
import Mathlib.Data.Nat.ModEq

set_option autoImplicit false

namespace Qcacld.Lib

open Function List

variable {α : Type*}

/-- From the index `i` on, the slots hold `l`. -/
def Fifo (buf : Nat → α) (size : Nat) : Nat → List α → Prop
  | _, [] => True
  | i, a :: l => buf (i % size) = a ∧ Fifo buf size (i + 1) l

variable {buf : Nat → α} {size i j : Nat} {a : α} {l : List α}

theorem Fifo.of_mod (h : Fifo buf size i l) (hij : i % size = j % size) : Fifo buf size j l := by
  induction l generalizing i j with
  | nil => trivial
  | cons a l ih => refine ⟨hij ▸ h.1, ih h.2 ?_⟩; exact Nat.ModEq.add_right 1 hij

theorem Fifo.pop (h : Fifo buf size i (a :: l)) :
    buf (i % size) = a ∧ Fifo buf size ((i + 1) % size) l := by
  refine ⟨h.1, h.2.of_mod ?_⟩
  exact (Nat.mod_mod _ _).symm

theorem Fifo.drop (h : Fifo buf size i l) (k : Nat) : Fifo buf size (i + k) (l.drop k) := by
  induction k generalizing i l with
  | zero => exact h
  | succ k ih =>
    cases l with
    | nil => trivial
    | cons b l => rw [drop_succ_cons, Nat.add_comm k 1, ← Nat.add_assoc]; exact ih h.2

theorem Fifo.getElem (h : Fifo buf size i l) {k : Nat} (hk : k < l.length) :
    l[k] = buf ((i + k) % size) := by
  induction l generalizing i k with
  | nil => exact absurd hk (Nat.not_lt_zero k)
  | cons a l ih =>
    cases k with
    | zero => exact h.1.symm
    | succ k =>
      rw [getElem_cons_succ, ih h.2 (Nat.lt_of_succ_lt_succ hk), Nat.add_assoc, Nat.add_comm 1 k]

theorem Fifo.unique {l' : List α} (h : Fifo buf size i l) (h' : Fifo buf size i l')
    (hlen : l.length = l'.length) : l = l' := by
  induction l generalizing i l' with
  | nil => exact (length_eq_zero_iff.mp hlen.symm).symm
  | cons a l ih =>
    cases l' with
    | nil => cases hlen
    | cons b l' =>
      rw [length_cons, length_cons, Nat.succ_inj] at hlen
      rw [← h.1, ← h'.1, ih h.2 h'.2 hlen]

theorem fifo_map_range (buf : Nat → α) (size i n : Nat) :
    Fifo buf size i ((range n).map fun k => buf ((i + k) % size)) := by
  induction n generalizing i with
  | zero => trivial
  | succ n ih =>
    rw [range_succ_eq_map, map_cons, map_map]
    refine ⟨rfl, ?_⟩
    have hstep : ((fun k => buf ((i + k) % size)) ∘ Nat.succ) =
        fun k => buf ((i + 1 + k) % size) := by
      funext k
      rw [Function.comp_apply, Nat.succ_eq_add_one, Nat.add_right_comm, Nat.add_assoc]
    rw [hstep]; exact ih (i + 1)

theorem Fifo.write (h : Fifo buf size i l) (hj : ∀ k < l.length, (i + k) % size ≠ j) :
    Fifo (update buf j a) size i l := by
  induction l generalizing i with
  | nil => trivial
  | cons b l ih =>
    refine ⟨?_, ih h.2 fun k hk => ?_⟩
    · have h0 := hj 0 (Nat.succ_pos _)
      rw [Nat.add_zero] at h0
      rw [update_of_ne h0]; exact h.1
    · have hk1 := hj (k + 1) (Nat.succ_lt_succ hk); rwa [Nat.add_right_comm, Nat.add_assoc]

theorem Fifo.concat (h : Fifo buf size i l) (ha : buf ((i + l.length) % size) = a) :
    Fifo buf size i (l ++ [a]) := by
  induction l generalizing i with
  | nil => exact ⟨ha, trivial⟩
  | cons b l ih => refine ⟨h.1, ih h.2 ?_⟩; rwa [Nat.add_right_comm, Nat.add_assoc]

/-- **The slot after the last one** is free if the queue is shorter than the array. -/
theorem Fifo.push (h : Fifo buf size i l) (hlen : l.length < size) (a : α) :
    Fifo (update buf ((i + l.length) % size) a) size i (l ++ [a]) := by
  refine (h.write fun k hk heq => ?_).concat (update_self _ _ _)
  have hmod : k % size = l.length % size := Nat.ModEq.add_left_cancel' i heq
  rw [Nat.mod_eq_of_lt (Nat.lt_trans hk hlen), Nat.mod_eq_of_lt hlen] at hmod; omega

/-! ## Distances -/

/-- The slot `j` is `k` slots ahead of `i`. -/
def Ahead (size i k j : Nat) : Prop := k < size ∧ (i + k) % size = j

variable {k k' : Nat}

theorem ahead_zero (h : i < size) : Ahead size i 0 i :=
  ⟨Nat.zero_lt_of_lt h, Nat.mod_eq_of_lt h⟩

theorem Ahead.lt (h : Ahead size i k j) : j < size :=
  h.2 ▸ Nat.mod_lt _ (Nat.zero_lt_of_lt h.1)

theorem Ahead.unique (h : Ahead size i k j) (h' : Ahead size i k' j) : k = k' := by
  have hmod : k % size = k' % size := Nat.ModEq.add_left_cancel' i (h.2.trans h'.2.symm)
  rwa [Nat.mod_eq_of_lt h.1, Nat.mod_eq_of_lt h'.1] at hmod

theorem Ahead.eq_self_iff (h : Ahead size i k j) (hi : i < size) : j = i ↔ k = 0 := by
  constructor
  · rintro rfl; exact h.unique (ahead_zero hi)
  · rintro rfl; exact (ahead_zero hi).2 ▸ h.2.symm

theorem Ahead.dist (h : Ahead size i k j) (hi : i < size) : (j + size - i) % size = k := by
  have hlt : (j + size - i) % size < size := Nat.mod_lt _ (Nat.zero_lt_of_lt hi)
  refine Ahead.unique ⟨hlt, ?_⟩ h
  rw [Nat.add_mod_mod, show i + (j + size - i) = j + size by omega, Nat.add_mod_right,
    Nat.mod_eq_of_lt h.lt]

theorem Ahead.next (h : Ahead size i k j) (hk : k + 1 < size) :
    Ahead size i (k + 1) ((j + 1) % size) := by
  refine ⟨hk, ?_⟩
  rw [← h.2, Nat.mod_add_mod, Nat.add_assoc]

theorem Ahead.shift (h : Ahead size i (k + 1) j) : Ahead size ((i + 1) % size) k j := by
  refine ⟨Nat.lt_of_succ_lt h.1, ?_⟩
  rw [← h.2, Nat.mod_add_mod, Nat.add_right_comm, Nat.add_assoc]

theorem Ahead.sub {j' : Nat} (h : Ahead size i k j) (h' : Ahead size i k' j') (hk : k ≤ k') :
    Ahead size j (k' - k) j' := by
  refine ⟨Nat.lt_of_le_of_lt (Nat.sub_le k' k) h'.1, ?_⟩
  rw [← h.2, ← h'.2, Nat.mod_add_mod, Nat.add_assoc, Nat.add_sub_cancel' hk]

theorem Ahead.next_eq_iff (h : Ahead size i k j) (hi : i < size) :
    (j + 1) % size = i ↔ k + 1 = size := by
  rw [← h.2, Nat.mod_add_mod, Nat.add_assoc]
  constructor
  · intro heq
    by_contra hne
    have hlt : k + 1 < size := Nat.lt_of_le_of_ne h.1 hne
    exact absurd ((show Ahead size i (k + 1) i from ⟨hlt, heq⟩).unique (ahead_zero hi)) (by omega)
  · intro heq; rw [heq, Nat.add_mod_right, Nat.mod_eq_of_lt hi]

theorem exists_ahead (hi : i < size) (hj : j < size) : ∃ k, Ahead size i k j := by
  refine ⟨(j + size - i) % size, Nat.mod_lt _ (Nat.zero_lt_of_lt hi), ?_⟩
  rw [Nat.add_mod_mod, show i + (j + size - i) = j + size by omega, Nat.add_mod_right,
    Nat.mod_eq_of_lt hj]

/-! ## A queue with its record -/

/-- `posted` has gone in at the index `w` and `returned` has come out at `i`; `live` is in the
array. One slot stays free. -/
structure Queued (buf : Nat → α) (size i w : Nat) (keep : α → Bool) (posted returned live : List α) :
    Prop where
  index_lt : i < size
  record : posted.filter keep = returned.filter keep ++ live.filter keep
  ahead : Ahead size i live.length w
  held : Fifo buf size i live

section Queued

variable {w : Nat} {keep : α → Bool} {posted returned live : List α}

theorem queued_nil (h : i < size) : Queued buf size i i keep [] [] [] :=
  ⟨h, rfl, ahead_zero h, trivial⟩

theorem Queued.eq_nil_iff (h : Queued buf size i w keep posted returned live) :
    w = i ↔ live = [] := by rw [h.ahead.eq_self_iff h.index_lt, length_eq_zero_iff]

theorem Queued.posted_eq (h : Queued buf size i w (fun _ => true) posted returned live) :
    posted = returned ++ live := by
  have hall : ∀ l : List α, l.filter (fun _ => true) = l := fun l =>
    filter_eq_self.mpr fun _ _ => rfl
  have hrecord := h.record
  rwa [hall, hall, hall] at hrecord

theorem Queued.posted_length (h : Queued buf size i w (fun _ => true) posted returned live) :
    posted.length = returned.length + live.length := by rw [h.posted_eq, length_append]

theorem Queued.forget (h : Queued buf size i w keep posted returned live) :
    Queued buf size i w (fun _ => false) posted returned live := by
  have hnone : ∀ l : List α, l.filter (fun _ => false) = [] := fun l =>
    filter_eq_nil_iff.mpr fun _ _ => Bool.false_ne_true
  refine ⟨h.index_lt, ?_, h.ahead, h.held⟩
  rw [hnone, hnone, hnone, append_nil]

theorem Queued.push (h : Queued buf size i w keep posted returned live)
    (hlen : live.length + 1 < size) (a : α) :
    Queued (update buf w a) size i ((w + 1) % size) keep (posted ++ [a]) returned (live ++ [a]) where
  index_lt := h.index_lt
  record := by rw [filter_append, h.record, filter_append, append_assoc]
  ahead := by rw [length_append, length_singleton]; exact h.ahead.next hlen
  held := by rw [← h.ahead.2]; exact h.held.push h.ahead.1 a

theorem Queued.pop (h : Queued buf size i w keep posted returned (a :: live)) (b : α) :
    buf i = a ∧
      Queued (update buf i b) size ((i + 1) % size) w keep posted (returned ++ [a]) live := by
  have hsize := Nat.zero_lt_of_lt h.index_lt
  obtain ⟨hhead, hrest⟩ := h.held.pop
  rw [Nat.mod_eq_of_lt h.index_lt] at hhead
  refine ⟨hhead, Nat.mod_lt _ hsize, ?_, h.ahead.shift, hrest.write ?_⟩
  · rw [h.record, ← singleton_append, filter_append, filter_append, append_assoc]
  · -- the slots that are left are 1 to `live.length` ahead of the one that is cleared
    intro k hk heq
    have hlen := h.ahead.1
    rw [length_cons] at hlen
    rw [Nat.mod_add_mod, Nat.add_assoc] at heq
    have hone : Ahead size i (1 + k) i := ⟨by omega, heq⟩
    exact absurd (hone.unique (ahead_zero h.index_lt)) (by omega)

theorem Queued.skip (h : Queued buf size i w keep posted returned live) (hj : Ahead size i k j)
    (hk : k ≤ live.length) (hskip : (live.take k).filter keep = []) :
    Queued buf size j w keep posted returned (live.drop k) where
  index_lt := hj.lt
  record := by
    have hsplit : live.filter keep = (live.drop k).filter keep := by
      conv_lhs => rw [← take_append_drop k live, filter_append, hskip]
      rfl
    rw [h.record, hsplit]
  ahead := by rw [length_drop]; exact hj.sub h.ahead hk
  held := by refine (h.held.drop k).of_mod ?_; rw [← hj.2, Nat.mod_mod]

end Queued

end Qcacld.Lib
