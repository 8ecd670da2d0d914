/-
The doubly linked lists of `csr_link_list.c`: what they hold are the plain lists that `SmeCmd` has,
with functions of the same names.

The lists are open, and a function runs under the lock of its list. Left out are null lists, and the
timer that `csr_ll_insert_head` starts and `csr_ll_remove_entry` stops.
-/

import Qcacld.Lib.Circ
import Qcacld.SmeCmd

set_option autoImplicit false

namespace Qcacld.CsrLinkList

open Lib Function List

section

variable {α κ ι : Type} [DecidableEq α] [DecidableEq κ] [DecidableEq ι]

/-! ## Elements -/

def csr_list_remove_entry (m : Links α) (pEntry : α) : Links α :=
  let pLast := m.prev pEntry
  let pNext := m.next pEntry
  (m.setNext pLast pNext).setPrev pNext pLast

def csr_list_remove_head (m : Links α) (pHead : α) : Links α × α :=
  let pEntry := m.next pHead
  let pNext := m.next pEntry
  ((m.setNext pHead pNext).setPrev pNext pHead, pEntry)

def csr_list_insert_tail (m : Links α) (pHead pEntry : α) : Links α :=
  let pLast := m.prev pHead
  (((m.setPrev pEntry pLast).setNext pEntry pHead).setNext pLast pEntry).setPrev pHead pEntry

def csr_list_insert_head (m : Links α) (pHead pEntry : α) : Links α :=
  let pNext := m.next pHead
  (((m.setNext pEntry pNext).setPrev pEntry pHead).setPrev pNext pEntry).setNext pHead pEntry

variable {m : Links α} {h e : α}

theorem insert_tail_eq (he : e ≠ m.prev h) : csr_list_insert_tail m h e = m.addTail h e :=
  congrArg₂ Links.mk (update_comm he _ _ _) rfl

theorem insert_head_eq (hp : m.prev (m.next h) = h) (he : e ≠ h) :
    csr_list_insert_head m h e = m.addTail (m.next h) e := by
  refine congrArg₂ Links.mk ?_ ?_
  · exact (update_comm he _ _ _).trans (by rw [hp]; rfl)
  · change _ = update (update m.prev e (m.prev (m.next h))) (m.next h) e
    rw [hp]; rfl

theorem remove_entry_eq (m : Links α) (e : α) : csr_list_remove_entry m e = m.remove e := by
  have hnext : (m.setNext (m.prev e) (m.next e)).next e = m.next e := by
    simp [Links.setNext, update_apply]
  rw [Links.remove, hnext]; rfl

theorem remove_head_eq (hp : m.prev (m.next h) = h) :
    (csr_list_remove_head m h).1 = m.remove (m.next h) := by
  rw [← remove_entry_eq, csr_list_remove_entry, hp]; rfl

end

/-! ## Lists -/

/-- A `tListElem`: the head of a list, or the link of what is put into lists. -/
inductive Elem (κ ι : Type) where
  | ListHead (l : κ)
  | Link (c : ι)
  deriving DecidableEq

structure Mem (κ ι : Type) where
  links : Links (Elem κ ι)
  Count : κ → UInt32

structure Holds {κ ι : Type} (m : Mem κ ι) (hold : κ → List ι) : Prop where
  family : m.links.Family .ListHead .Link (fun _ => True) hold
  count : ∀ l, m.Count l = UInt32.ofNat (hold l).length

variable {κ ι : Type} {m : Mem κ ι} {hold : κ → List ι} {l : κ} {c : ι} {x y : List ι}

theorem layout : Links.Layout (N := Elem κ ι) .ListHead .Link where
  head_injective _ _ h := Elem.ListHead.inj h
  elem_injective _ _ h := Elem.Link.inj h
  head_ne_elem _ _ h := by cases h

theorem Holds.circ (h : Holds m hold) (l : κ) :
    m.links.Circ (.ListHead l) ((hold l).map .Link) := h.family.circ l trivial

theorem Holds.counted [DecidableEq κ] (h : Holds m hold) {n : UInt32}
    (hn : n = UInt32.ofNat x.length) (k : κ) :
    update m.Count l n k = UInt32.ofNat (update hold l x k).length := by
  by_cases hk : k = l
  · subst hk; rw [update_self, update_self, hn]
  · rw [update_of_ne hk, update_of_ne hk, h.count]

variable [DecidableEq κ] [DecidableEq ι]

def csr_ll_count (m : Mem κ ι) (l : κ) : UInt32 := m.Count l

def csr_ll_is_list_empty (m : Mem κ ι) (l : κ) : Bool := m.links.next (.ListHead l) = .ListHead l

def csr_ll_peek_head (m : Mem κ ι) (l : κ) : Option (Elem κ ι) :=
  if csr_ll_is_list_empty m l then none else some (m.links.next (.ListHead l))

def csr_ll_insert_tail (m : Mem κ ι) (l : κ) (pEntry : Elem κ ι) : Mem κ ι :=
  ⟨csr_list_insert_tail m.links (.ListHead l) pEntry, update m.Count l (m.Count l + 1)⟩

def csr_ll_insert_head (m : Mem κ ι) (l : κ) (pEntry : Elem κ ι) : Mem κ ι :=
  ⟨csr_list_insert_head m.links (.ListHead l) pEntry, update m.Count l (m.Count l + 1)⟩

def csr_ll_remove_head (m : Mem κ ι) (l : κ) : Mem κ ι × Option (Elem κ ι) :=
  if csr_ll_is_list_empty m l then (m, none)
  else
    let r := csr_list_remove_head m.links (.ListHead l)
    (⟨r.1, update m.Count l (m.Count l - 1)⟩, some r.2)

/-- The loop over the entries of a list, up to the head; `none` is more than `fuel` rounds. -/
def search (m : Mem κ ι) (l : κ) (pEntryToFind : Elem κ ι) : Nat → Elem κ ι → Option Bool
  | 0, _ => none
  | fuel + 1, pEntry =>
    if pEntry = .ListHead l then some false
    else if pEntry = pEntryToFind then some true
    else search m l pEntryToFind fuel (m.links.next pEntry)

def csr_ll_find_entry (fuel : Nat) (m : Mem κ ι) (l : κ) (pEntryToFind : Elem κ ι) :
    Option Bool :=
  match csr_ll_peek_head m l with
  | none => some false
  | some pEntry => search m l pEntryToFind fuel pEntry

def csr_ll_remove_entry (fuel : Nat) (m : Mem κ ι) (l : κ) (pEntryToRemove : Elem κ ι) :
    Option (Mem κ ι × Bool) :=
  (csr_ll_find_entry fuel m l pEntryToRemove).map fun fFound =>
    if fFound then
      (⟨csr_list_remove_entry m.links pEntryToRemove, update m.Count l (m.Count l - 1)⟩, true)
    else (m, false)

def csr_ll_next (fuel : Nat) (m : Mem κ ι) (l : κ) (pEntry : Elem κ ι) :
    Option (Option (Elem κ ι)) :=
  if csr_ll_is_list_empty m l then some none
  else
    (csr_ll_find_entry fuel m l pEntry).map fun fFound =>
      if fFound && m.links.next pEntry ≠ .ListHead l then some (m.links.next pEntry) else none

/-! ## Operations -/

inductive Op (κ ι : Type) where
  | insert_tail (l : κ) (c : ι)
  | insert_head (l : κ) (c : ι)
  | remove_head (l : κ)
  | remove_entry (l : κ) (c : ι)
  | count (l : κ)
  | is_list_empty (l : κ)
  | peek_head (l : κ)
  | next (l : κ) (c : ι)

inductive Result (κ ι : Type) where
  | done
  | bool (b : Bool)
  | count (n : UInt32)
  | entry (p : Option (Elem κ ι))

def exec (fuel : Nat) (m : Mem κ ι) : Op κ ι → Option (Mem κ ι × Result κ ι)
  | .insert_tail l c => some (csr_ll_insert_tail m l (.Link c), .done)
  | .insert_head l c => some (csr_ll_insert_head m l (.Link c), .done)
  | .remove_head l => some ((csr_ll_remove_head m l).map id .entry)
  | .remove_entry l c => (csr_ll_remove_entry fuel m l (.Link c)).map (Prod.map id .bool)
  | .count l => some (m, .count (csr_ll_count m l))
  | .is_list_empty l => some (m, .bool (csr_ll_is_list_empty m l))
  | .peek_head l => some (m, .entry (csr_ll_peek_head m l))
  | .next l c => (csr_ll_next fuel m l (.Link c)).map fun p => (m, .entry p)

/-- What an operation makes of the lists, and what it returns. -/
def spec (hold : κ → List ι) : Op κ ι → (κ → List ι) × Result κ ι
  | .insert_tail l c => (update hold l (hold l ++ [c]), .done)
  | .insert_head l c => (update hold l (c :: hold l), .done)
  | .remove_head l => (update hold l (hold l).tail, .entry ((hold l).head?.map .Link))
  | .remove_entry l c => (update hold l ((hold l).erase c), .bool (c ∈ hold l))
  | .count l => (hold, .count (UInt32.ofNat (hold l).length))
  | .is_list_empty l => (hold, .bool (hold l).isEmpty)
  | .peek_head l => (hold, .entry ((hold l).head?.map .Link))
  | .next l c => (hold, .entry ((hold l)[(hold l).idxOf c + 1]?.map .Link))

/-- `fuel` is enough for the loops, and what goes in is in no list yet. -/
def Promised (fuel : Nat) (hold : κ → List ι) : Op κ ι → Prop
  | .insert_tail _ c | .insert_head _ c => ∀ k, c ∉ hold k
  | .remove_entry l _ | .next l _ => (hold l).length < fuel
  | _ => True

/-! ## What the memory holds -/

variable {fuel : Nat}

theorem Holds.insert (h : Holds m hold) (hsplit : hold l = x ++ y) (hc : ∀ k, c ∉ hold k) :
    Holds ⟨m.links.addTail ((y.map Elem.Link).headD (.ListHead l)) (.Link c),
      update m.Count l (m.Count l + 1)⟩ (update hold l (x ++ c :: y)) := by
  refine ⟨h.family.addBefore layout trivial hsplit hc, h.counted ?_⟩
  rw [h.count, hsplit, perm_middle.length_eq, length_cons, UInt32.ofNat_add]; rfl

theorem Holds.remove (h : Holds m hold) (hsplit : hold l = x ++ c :: y) :
    Holds ⟨m.links.remove (.Link c), update m.Count l (m.Count l - 1)⟩
      (update hold l (x ++ y)) := by
  refine ⟨h.family.remove layout trivial hsplit, h.counted ?_⟩
  rw [h.count, hsplit, perm_middle.length_eq, length_cons, UInt32.ofNat_add]
  exact UInt32.add_sub_cancel _ _

theorem Holds.is_list_empty (h : Holds m hold) : csr_ll_is_list_empty m l = (hold l).isEmpty := by
  rw [csr_ll_is_list_empty, (h.circ l).next_head]
  cases hold l with
  | nil => exact decide_eq_true rfl
  | cons c x => exact decide_eq_false nofun

theorem Holds.peek_head (h : Holds m hold) : csr_ll_peek_head m l = (hold l).head?.map .Link := by
  rw [csr_ll_peek_head, h.is_list_empty, (h.circ l).next_head]
  cases hold l with
  | nil => rfl
  | cons c x => rfl

/-! ## Finding an entry -/

theorem search_eq {s t : List (Elem κ ι)} {e : Elem κ ι}
    (h : m.links.Circ (.ListHead l) (s ++ t)) (hfuel : t.length < fuel) :
    search m l e fuel (t.headD (.ListHead l)) = some (decide (e ∈ t)) := by
  induction t generalizing s fuel with
  | nil =>
    obtain ⟨n, rfl⟩ := Nat.exists_eq_succ_of_ne_zero (Nat.ne_of_gt hfuel)
    exact if_pos rfl
  | cons a t ih =>
    obtain ⟨n, rfl⟩ := Nat.exists_eq_succ_of_ne_zero (Nat.ne_zero_of_lt hfuel)
    have ha : a ≠ .ListHead l := by rintro rfl; exact (nodup_cons.mp h.nodup).1 (by simp)
    rw [headD_cons, search, if_neg ha]
    by_cases he : a = e
    · rw [if_pos he, decide_eq_true (he ▸ mem_cons_self)]
    · have hrest := ih (s := s ++ [a]) (by simpa using h) (Nat.lt_of_succ_lt_succ hfuel)
      rw [if_neg he, h.next_mem, hrest]; simp [Ne.symm he]

theorem Holds.find_entry (h : Holds m hold) (hfuel : (hold l).length < fuel) :
    csr_ll_find_entry fuel m l (.Link c) = some (decide (c ∈ hold l)) := by
  have hsearch := search_eq (e := .Link c) (s := []) (h.circ l) (by simpa using hfuel)
  simp only [mem_map_of_injective fun _ _ h => Elem.Link.inj h] at hsearch
  rw [csr_ll_find_entry, h.peek_head]
  cases hl : hold l with
  | nil => simp
  | cons d x => rw [hl] at hsearch; exact hsearch

/-! ## One operation -/

theorem Holds.remove_head (h : Holds m hold) (l : κ) :
    ∃ m', csr_ll_remove_head m l = (m', (hold l).head?.map .Link) ∧
      Holds m' (update hold l (hold l).tail) := by
  rw [csr_ll_remove_head, h.is_list_empty]
  have hcirc := h.circ l
  cases hl : hold l with
  | nil => exact ⟨m, rfl, by rwa [tail_nil, ← hl, update_eq_self]⟩
  | cons c y =>
    have hnext := hcirc.next_head
    rw [hl] at hnext
    refine ⟨_, congrArg (fun e => (_, some e)) hnext, ?_⟩
    rw [remove_head_eq hcirc.prev_next, hnext]; exact h.remove (x := []) hl

theorem Holds.remove_entry (h : Holds m hold) (hfuel : (hold l).length < fuel) (c : ι) :
    ∃ m', csr_ll_remove_entry fuel m l (.Link c) = some (m', decide (c ∈ hold l)) ∧
      Holds m' (update hold l ((hold l).erase c)) := by
  rw [csr_ll_remove_entry, h.find_entry hfuel]
  by_cases hc : c ∈ hold l
  · obtain ⟨x, y, hl, hx⟩ := eq_append_cons_of_mem hc
    rw [decide_eq_true hc]
    refine ⟨_, rfl, ?_⟩
    rw [remove_entry_eq, hl, erase_append_right _ hx, erase_cons_head]; exact h.remove hl
  · rw [decide_eq_false hc, erase_of_not_mem hc, update_eq_self]; exact ⟨m, rfl, h⟩

theorem Holds.next (h : Holds m hold) (hfuel : (hold l).length < fuel) (c : ι) :
    csr_ll_next fuel m l (.Link c) = some ((hold l)[(hold l).idxOf c + 1]?.map .Link) := by
  rw [csr_ll_next, h.is_list_empty, h.find_entry hfuel]
  by_cases hc : c ∈ hold l
  · obtain ⟨x, y, hl, hx⟩ := eq_append_cons_of_mem hc
    have hcirc := h.circ l
    rw [hl, map_append, map_cons] at hcirc
    rw [decide_eq_true hc, hcirc.next_mem, hl, idxOf_append_of_notMem hx, idxOf_cons_self,
      Nat.add_zero, getElem?_append_right (Nat.le_add_right _ _), Nat.add_sub_cancel_left]
    cases x <;> cases y <;> simp
  · rw [decide_eq_false hc, idxOf_eq_length hc, getElem?_eq_none (Nat.le_add_right _ _)]
    split <;> rfl

/-- Each operation does to the memory what it does to the lists, and returns the same. -/
theorem Holds.step (h : Holds m hold) {op : Op κ ι} (hop : Promised fuel hold op) :
    ∃ m', exec fuel m op = some (m', (spec hold op).2) ∧ Holds m' (spec hold op).1 := by
  cases op with
  | insert_tail l c =>
    refine ⟨_, rfl, ?_⟩
    have hlast : Elem.Link c ≠ m.links.prev (.ListHead l) := by
      obtain ⟨us, hus⟩ := (h.circ l).last
      refine (ne_of_mem_of_not_mem ?_ (layout.elem_not_mem (i := l) (hop l))).symm
      rw [hus]; exact mem_append_right _ (mem_singleton_self _)
    rw [csr_ll_insert_tail, insert_tail_eq hlast]
    exact h.insert (y := []) (append_nil _).symm hop
  | insert_head l c =>
    refine ⟨_, rfl, ?_⟩
    have hne : Elem.Link c ≠ .ListHead l := by intro heq; cases heq
    rw [csr_ll_insert_head, insert_head_eq (h.circ l).prev_next hne, (h.circ l).next_head]
    exact h.insert (x := []) rfl hop
  | remove_head l =>
    obtain ⟨m', hrun, h'⟩ := h.remove_head l
    exact ⟨m', by rw [exec, hrun]; rfl, h'⟩
  | remove_entry l c =>
    obtain ⟨m', hrun, h'⟩ := h.remove_entry hop c
    exact ⟨m', by rw [exec, hrun]; rfl, h'⟩
  | count l => exact ⟨m, by rw [exec, csr_ll_count, h.count]; rfl, h⟩
  | is_list_empty l => exact ⟨m, by rw [exec, h.is_list_empty]; rfl, h⟩
  | peek_head l => exact ⟨m, by rw [exec, h.peek_head]; rfl, h⟩
  | next l c => exact ⟨m, by rw [exec, h.next hop]; rfl, h⟩

/-! ## Runs -/

def execs (fuel : Nat) : Mem κ ι → List (Op κ ι) → Option (Mem κ ι × List (Result κ ι))
  | m, [] => some (m, [])
  | m, op :: ops =>
    (exec fuel m op).bind fun r => (execs fuel r.1 ops).map fun rs => (rs.1, r.2 :: rs.2)

def specs : (κ → List ι) → List (Op κ ι) → (κ → List ι) × List (Result κ ι)
  | hold, [] => (hold, [])
  | hold, op :: ops =>
    let rs := specs (spec hold op).1 ops
    (rs.1, (spec hold op).2 :: rs.2)

def Promises (fuel : Nat) : (κ → List ι) → List (Op κ ι) → Prop
  | _, [] => True
  | hold, op :: ops => Promised fuel hold op ∧ Promises fuel (spec hold op).1 ops

/-- **The linked lists are lists.** Any run of operations on any number of lists returns what it
does for plain lists, and leaves in the memory what it leaves in those. -/
theorem lists_refined (h : Holds m hold) (ops : List (Op κ ι)) (hops : Promises fuel hold ops) :
    ∃ m', execs fuel m ops = some (m', (specs hold ops).2) ∧ Holds m' (specs hold ops).1 := by
  induction ops generalizing m hold with
  | nil => exact ⟨m, rfl, h⟩
  | cons op ops ih =>
    obtain ⟨m₁, hrun, h₁⟩ := h.step hops.1
    obtain ⟨m', hruns, h'⟩ := ih h₁ hops.2
    exact ⟨m', by rw [execs, hrun, Option.bind_some, hruns]; rfl, h'⟩

/-- Two lists; the last entry of the first one is looked for and taken out. -/
theorem lists_refined_two :
    let m : Mem Bool Nat := ⟨⟨id, id⟩, fun _ => 0⟩
    let ops := [.insert_tail false 1, .insert_head false 2, .insert_tail true 3, .next false 2,
      .remove_entry false 1, .remove_head true]
    ∃ m', execs 4 m ops = some (m', (specs (fun _ => []) ops).2) ∧
      Holds m' (specs (fun _ => []) ops).1 := by
  intro m ops
  have hm : Holds m fun _ => [] :=
    ⟨⟨fun _ _ => ⟨isChain_cons_cons.mpr ⟨⟨rfl, rfl⟩, isChain_singleton _⟩, nodup_singleton _⟩,
      fun _ => nodup_nil, nofun⟩, fun _ => rfl⟩
  exact lists_refined hm ops (by simp [ops, Promises, Promised, spec])

/-! ## The queues of the SME -/

abbrev Queue := { l : SmeCmd.Place // l ≠ .caller }

def queues (s : SmeCmd.State) (l : Queue) : List Nat := s.list l

theorem queues_update (s : SmeCmd.State) (l : Queue) (x : List Nat) :
    queues { s with list := update s.list l x } = update (queues s) l x := by
  funext k
  by_cases hk : k = l
  · rw [hk, update_self]; exact update_self _ _ _
  · rw [update_of_ne hk]; exact update_of_ne (fun hkl => hk (Subtype.ext hkl)) _ _

/-- What the operations do is what `SmeCmd` has the functions do. -/
theorem spec_queues (s : SmeCmd.State) (l : Queue) (c : Nat) :
    (spec (queues s) (.insert_tail l c)).1 = queues (SmeCmd.csr_ll_insert_tail s l c) ∧
    (spec (queues s) (.insert_head l c)).1 = queues (SmeCmd.csr_ll_insert_head s l c) ∧
    spec (queues s) (.remove_entry l c) =
      (SmeCmd.csr_ll_remove_entry s l c).map queues .bool ∧
    spec (queues s) (.remove_head l) =
      (SmeCmd.csr_ll_remove_head s l).map queues fun c => .entry (c.map .Link) := by
  have hsame {x : List Nat} (hx : x = queues s l) : update (queues s) l x = queues s := by
    rw [hx, update_eq_self]
  refine ⟨(queues_update s l _).symm, (queues_update s l _).symm, ?_, ?_⟩
  · rcases SmeCmd.remove_entry_cases s l c with ⟨hc, hr⟩ | ⟨hc, hr⟩
    · rw [hr]
      exact Prod.ext (queues_update s l _).symm (congrArg Result.bool (decide_eq_true hc))
    · rw [hr]
      exact Prod.ext (hsame (erase_of_not_mem hc)) (congrArg Result.bool (decide_eq_false hc))
  · have hhead : ∀ x, s.list l = x → (spec (queues s) (.remove_head l)) =
        (update (queues s) l x.tail, .entry (x.head?.map .Link)) := by rintro x rfl; rfl
    rcases SmeCmd.remove_head_cases s l with ⟨d, x, hx, hr⟩ | ⟨hx, hr⟩
    · rw [hr, hhead _ hx]; exact Prod.ext (queues_update s l _).symm rfl
    · rw [hr, hhead _ hx]; exact Prod.ext (hsame hx.symm) rfl

end Qcacld.CsrLinkList
