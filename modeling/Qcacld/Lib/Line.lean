/-
A line: a circular array that keeps the most recent elements.

`Line.insert` writes to the slot after the last one and overwrites the first element if the array is
full; `Line.drop` gives up the oldest ones by moving the index of the first.
-/
import Mathlib.Data.List.DropRight
import Qcacld.Lib.Fifo

set_option autoImplicit false

namespace Qcacld.Lib

open Function List

variable {α : Type*}

structure Line (α : Type*) where
  firstelem : Nat
  lastelem : Nat
  numelems : Nat
  elems : Nat → α
  inserted : List α

namespace Line

variable (size : Nat)

/-- The elements from `firstelem` on. -/
def contents (l : Line α) : List α :=
  (range l.numelems).map fun k => l.elems ((l.firstelem + k) % size)

/-- What an insertion leaves of the contents. -/
def rest (l : Line α) : List α :=
  if l.numelems = size then (l.contents size).tail else l.contents size

def empty (elems : Nat → α) : Line α where
  firstelem := 0
  lastelem := size - 1
  numelems := 0
  elems := elems
  inserted := []

def insert (l : Line α) (a : α) : Line α where
  firstelem := if l.numelems = size then (l.firstelem + 1) % size else l.firstelem
  lastelem := (l.lastelem + 1) % size
  numelems := if l.numelems = size then l.numelems else l.numelems + 1
  elems := update l.elems ((l.lastelem + 1) % size) a
  inserted := l.inserted ++ [a]

def drop (l : Line α) (k : Nat) : Line α :=
  { l with firstelem := (l.firstelem + k) % size, numelems := l.numelems - k }

structure Kept (l : Line α) : Prop where
  first_lt : l.firstelem < size
  num_le : l.numelems ≤ size
  last_eq : 0 < l.numelems → l.lastelem = (l.firstelem + l.numelems - 1) % size
  recent : l.contents size <:+ l.inserted

def Ready (l : Line α) : Prop := l.numelems = 0 → l.firstelem = (l.lastelem + 1) % size
deriving Decidable

/-- Every element is near the one that was inserted last. -/
def Near (near : α → α → Prop) (l : Line α) : Prop :=
  ∀ new ∈ l.inserted.getLast?, ∀ a ∈ l.contents size, near new a

variable {size} {l : Line α} {a : α} {k : Nat}

@[simp] theorem length_contents : (l.contents size).length = l.numelems := by
  rw [contents, length_map, length_range]

theorem getElem_contents (h : k < (l.contents size).length) :
    (l.contents size)[k] = l.elems ((l.firstelem + k) % size) := by
  simp only [contents, getElem_map, getElem_range]

theorem contents_eq_nil (h : l.numelems = 0) : l.contents size = [] := by
  rw [contents, h, range_zero, map_nil]

theorem fifo_contents : Fifo l.elems size l.firstelem (l.contents size) := by
  have hmap : ∀ (n i : Nat), Fifo l.elems size i
      ((range n).map fun k => l.elems ((i + k) % size)) := by
    intro n
    induction n with
    | zero => exact fun _ => trivial
    | succ n ih =>
      intro i
      rw [range_succ, map_append]
      apply (ih i).concat
      rw [length_map, length_range]
  exact hmap _ _

theorem contents_eq {as : List α} (h : Fifo l.elems size l.firstelem as)
    (hlen : as.length = l.numelems) : l.contents size = as :=
  fifo_contents.unique h (length_contents.trans hlen.symm)

/-! ## Insertion -/

theorem Kept.next_eq (h : l.Kept size) (hready : l.Ready size) :
    (l.lastelem + 1) % size = (l.firstelem + l.numelems) % size := by
  rcases Nat.eq_zero_or_pos l.numelems with h0 | hpos
  · rw [← hready h0, h0, Nat.add_zero, Nat.mod_eq_of_lt h.first_lt]
  · rw [h.last_eq hpos, Nat.mod_add_mod]
    congr 1
    omega

theorem Kept.contents_insert (h : l.Kept size) (hready : l.Ready size) :
    (l.insert size a).contents size = l.rest size ++ [a] := by
  have hsize : 0 < size := Nat.zero_lt_of_lt h.first_lt
  have hfifo : Fifo l.elems size l.firstelem (l.contents size) := fifo_contents
  apply contents_eq
  · simp only [insert, rest, h.next_eq hready]
    by_cases hfull : l.numelems = size
    · -- the first slot is the one that is overwritten
      rw [if_pos hfull, if_pos hfull, ← drop_one]
      have hdrop := (hfifo.drop 1).of_mod (Nat.mod_mod (l.firstelem + 1) size).symm
      have hlen : ((l.contents size).drop 1).length = size - 1 := by
        rw [length_drop, length_contents, hfull]
      have hslot : ((l.firstelem + 1) % size + (size - 1)) % size =
          (l.firstelem + l.numelems) % size := by
        rw [Nat.mod_add_mod, hfull]
        congr 1
        omega
      have hpush := hdrop.push (by omega) a
      rwa [hlen, hslot] at hpush
    · rw [if_neg hfull, if_neg hfull]
      have hlt : l.numelems < size := Nat.lt_of_le_of_ne h.num_le hfull
      have hpush := hfifo.push (by rwa [length_contents]) a
      rwa [length_contents] at hpush
  · simp only [insert, rest]
    rw [length_append, length_singleton]
    split
    · rw [length_tail, length_contents]; omega
    · rw [length_contents]

theorem Kept.rest_suffix (h : l.Kept size) : l.rest size <:+ l.inserted := by
  rw [rest]
  split
  · exact (tail_suffix _).trans h.recent
  · exact h.recent

theorem Kept.insert (h : l.Kept size) (hready : l.Ready size) (a : α) :
    (l.insert size a).Kept size := by
  have hsize : 0 < size := Nat.zero_lt_of_lt h.first_lt
  refine ⟨?_, ?_, ?_, ?_⟩
  · simp only [Line.insert]
    split
    · exact Nat.mod_lt _ hsize
    · exact h.first_lt
  · simp only [Line.insert]
    have hle := h.num_le
    split <;> omega
  · intro _
    simp only [Line.insert, h.next_eq hready]
    split
    next hfull =>
      rw [Nat.add_sub_assoc (by omega), Nat.mod_add_mod]
      congr 1
      omega
    next => rfl
  · rw [h.contents_insert hready]
    obtain ⟨older, holder⟩ := h.rest_suffix
    exact ⟨older, by rw [← append_assoc, holder]; rfl⟩

theorem insert_numelems_pos (h : 0 < size) : 0 < (l.insert size a).numelems := by
  simp only [insert]
  split <;> omega

theorem insert_ready (h : 0 < size) : (l.insert size a).Ready size := by
  intro h0
  have hpos : 0 < (l.insert size a).numelems := insert_numelems_pos h
  omega

/-! ## Giving up the oldest -/

theorem contents_drop : (l.drop size k).contents size = (l.contents size).drop k := by
  apply contents_eq
  · have hfifo : Fifo l.elems size l.firstelem (l.contents size) := fifo_contents
    exact (hfifo.drop k).of_mod (Nat.mod_mod _ _).symm
  · rw [length_drop, length_contents]; rfl

theorem Kept.drop (h : l.Kept size) (hk : k < l.numelems) : (l.drop size k).Kept size := by
  refine ⟨Nat.mod_lt _ (Nat.zero_lt_of_lt h.first_lt), ?_, ?_, ?_⟩
  · exact Nat.le_trans (Nat.sub_le _ _) h.num_le
  · intro _
    have hlast := h.last_eq (by omega)
    simp only [Line.drop]
    rw [hlast, Nat.add_sub_assoc (show 1 ≤ l.numelems - k by omega), Nat.mod_add_mod]
    congr 1
    omega
  · rw [contents_drop]; exact (drop_suffix k _).trans h.recent

theorem drop_zero (h : l.Kept size) : l.drop size 0 = l := by
  simp only [Line.drop, Nat.add_zero, Nat.sub_zero, Nat.mod_eq_of_lt h.first_lt]

/-! ## Giving up the oldest at an insertion -/

section Trim

variable {m : Nat} {near : α → α → Prop}

theorem Kept.length_rest (h : l.Kept size) (hready : l.Ready size) :
    (l.rest size).length + 1 = (l.insert size a).numelems := by
  have hlen : ((l.insert size a).contents size).length = (l.insert size a).numelems :=
    length_contents
  rw [← hlen, h.contents_insert hready, length_append, length_singleton]

theorem Kept.getElem_rest (h : l.Kept size) (hready : l.Ready size) (a : α)
    (hk : k < (l.rest size).length) :
    (l.rest size)[k] = (l.insert size a).elems (((l.insert size a).firstelem + k) % size) := by
  have hlen := h.length_rest hready (a := a)
  have hin : k < ((l.insert size a).contents size).length := by rw [length_contents]; omega
  rw [← getElem_contents hin]
  simp only [h.contents_insert hready]
  rw [getElem_append_left hk]

theorem Kept.near_insert_drop (h : l.Kept size) (hready : l.Ready size)
    (hm : m < (l.insert size a).numelems) (hself : near a a)
    (hnear : ∀ e ∈ (l.rest size).drop m, near a e) :
    ((l.insert size a).drop size m).Near size near := by
  have hlen := h.length_rest hready (a := a)
  intro new hnew e he
  have hnew : new = a := by
    have hlast : ((l.insert size a).drop size m).inserted.getLast? = some a :=
      getLast?_concat
    rw [hlast] at hnew; exact (Option.some.inj hnew).symm
  subst hnew
  rw [contents_drop, h.contents_insert hready, drop_append_of_le_length (by omega)] at he
  rcases mem_append.mp he with hold | hnew
  · exact hnear e hold
  · rwa [mem_singleton.mp hnew]

end Trim

/-! ## Empty lines -/

theorem kept_of_empty (hfirst : l.firstelem < size) (h : l.numelems = 0) : l.Kept size := by
  refine ⟨hfirst, h ▸ Nat.zero_le size, fun hpos => ?_, ?_⟩
  · omega
  · rw [contents_eq_nil h]; exact nil_suffix

theorem near_of_empty {near : α → α → Prop} (h : l.numelems = 0) : l.Near size near := by
  intro new _ a ha
  rw [contents_eq_nil h] at ha
  cases ha

theorem kept_empty {elems : Nat → α} (h : 0 < size) : (empty size elems).Kept size :=
  kept_of_empty h rfl

theorem ready_empty {elems : Nat → α} (h : 0 < size) : (empty size elems).Ready size := by
  intro _
  simp only [empty]
  rw [Nat.sub_add_cancel h, Nat.mod_self]

end Line

end Qcacld.Lib
