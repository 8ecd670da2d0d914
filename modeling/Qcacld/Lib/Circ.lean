/-
Circular doubly linked lists of intrusive nodes.

`Linked l ns` says that the nodes `ns` are linked one after the other, both ways, and `Circ l head
xs` that the list of `head` is closed and holds `xs`.
-/
import Qcacld.Lib.Places

set_option autoImplicit false

namespace Qcacld.Lib

open Function List

structure Links (N : Type*) where
  next : N → N
  prev : N → N

namespace Links

variable {N : Type*} {l l' : Links N} {ns us vs xs ys : List N} {head a p x n : N}

/-! ## Linked nodes -/

/-- Each node of the list points to the one after it, and is pointed back to. -/
def Linked (l : Links N) (ns : List N) : Prop :=
  ns.IsChain fun a b => l.next a = b ∧ l.prev b = a

/-- The closed list of `head` holds `xs`. -/
structure Circ (l : Links N) (head : N) (xs : List N) : Prop where
  linked : Linked l (head :: xs ++ [head])
  nodup : (head :: xs).Nodup

theorem Linked.congr (h : Linked l ns) (hnext : ∀ a ∈ ns.dropLast, l'.next a = l.next a)
    (hprev : ∀ a ∈ ns.tail, l'.prev a = l.prev a) : Linked l' ns := by
  induction ns with
  | nil => exact isChain_nil
  | cons a ns ih =>
    cases ns with
    | nil => exact isChain_singleton a
    | cons b ns =>
      obtain ⟨⟨hab, hba⟩, hrest⟩ := isChain_cons_cons.mp h
      refine isChain_cons_cons.mpr ⟨⟨?_, ?_⟩, ih hrest ?_ ?_⟩
      · rw [hnext a (by simp), hab]
      · rw [hprev b (by simp), hba]
      · intro c hc; exact hnext c (by simp [hc])
      · intro c hc; exact hprev c (mem_cons_of_mem b hc)

theorem linked_append : Linked l (us ++ a :: vs) ↔ Linked l (us ++ [a]) ∧ Linked l (a :: vs) :=
  isChain_split

theorem Circ.nodup' (h : Circ l head xs) : (xs ++ [head]).Nodup := by
  have hnd := h.nodup
  rw [nodup_cons] at hnd
  rw [nodup_append]
  refine ⟨hnd.2, nodup_singleton head, ?_⟩
  rintro b hb c hc rfl
  rw [mem_singleton] at hc; exact hnd.1 (hc ▸ hb)

theorem Circ.congr (h : Circ l head xs) (hnext : ∀ a ∈ head :: xs, l'.next a = l.next a)
    (hprev : ∀ a ∈ head :: xs, l'.prev a = l.prev a) : Circ l' head xs := by
  refine ⟨h.linked.congr (fun a ha => hnext a ?_) (fun a ha => hprev a ?_), h.nodup⟩
  · rwa [dropLast_concat] at ha
  · rw [cons_append, tail_cons, mem_append, mem_singleton] at ha
    rw [mem_cons]; exact ha.symm

theorem Circ.split (h : Circ l head (xs ++ x :: ys)) :
    Linked l (head :: xs ++ [x]) ∧ Linked l (x :: (ys ++ [head])) := by
  rw [← linked_append]; simpa using h.linked

theorem Circ.next_head (h : Circ l head xs) : l.next head = xs.headD head := by
  have hlinked := h.linked
  cases xs with
  | nil => exact (isChain_cons_cons.mp hlinked).1.1
  | cons x xs => exact (isChain_cons_cons.mp hlinked).1.1

theorem Circ.next_mem (h : Circ l head (xs ++ x :: ys)) : l.next x = ys.headD head := by
  have hright := h.split.2
  cases ys with
  | nil => exact (isChain_cons_cons.mp hright).1.1
  | cons y ys => exact (isChain_cons_cons.mp hright).1.1

theorem Circ.last (h : Circ l head xs) : ∃ us, head :: xs = us ++ [l.prev head] := by
  obtain ⟨us, p, hus⟩ : ∃ us p, head :: xs = us ++ [p] :=
    ⟨_, _, (dropLast_append_getLast (cons_ne_nil head xs)).symm⟩
  have hlinked := h.linked
  rw [hus, append_assoc, singleton_append] at hlinked
  have hlast := (isChain_cons_cons.mp (linked_append.mp hlinked).2).1.2
  exact ⟨us, hlast ▸ hus⟩

theorem Circ.neighbours (h : Circ l head (xs ++ x :: ys)) :
    ∃ us vs, head :: xs = us ++ [l.prev x] ∧ ys ++ [head] = l.next x :: vs := by
  obtain ⟨hleft, hright⟩ := h.split
  obtain ⟨us, p, hus⟩ : ∃ us p, head :: xs = us ++ [p] :=
    ⟨_, _, (dropLast_append_getLast (cons_ne_nil head xs)).symm⟩
  obtain ⟨n, vs, hvs⟩ := exists_cons_of_ne_nil (show ys ++ [head] ≠ [] by simp)
  rw [hus, append_assoc, singleton_append] at hleft
  rw [hvs] at hright
  have hp := (isChain_cons_cons.mp (linked_append.mp hleft).2).1.2
  have hn := (isChain_cons_cons.mp hright).1.1
  exact ⟨us, vs, hp ▸ hus, hn ▸ hvs⟩

theorem Circ.prev_ne (h : Circ l head (xs ++ x :: ys)) : l.prev x ≠ x := by
  obtain ⟨us, vs, hus, -⟩ := h.neighbours
  have hnd := h.nodup
  rw [← cons_append, hus, nodup_append] at hnd; exact hnd.2.2 _ (by simp) x mem_cons_self

/-! ## The list operations -/

section Operations

variable [DecidableEq N]

def setNext (l : Links N) (a b : N) : Links N := { l with next := update l.next a b }

def setPrev (l : Links N) (a b : N) : Links N := { l with prev := update l.prev a b }

def init (l : Links N) (head : N) : Links N := (l.setPrev head head).setNext head head

/-- The node is linked before the head, after the last one. -/
def addTail (l : Links N) (head node : N) : Links N :=
  let l := l.setNext (l.prev head) node
  let l := l.setPrev node (l.prev head)
  let l := l.setNext node head
  l.setPrev head node

def remove (l : Links N) (node : N) : Links N :=
  let l := l.setNext (l.prev node) (l.next node)
  l.setPrev (l.next node) (l.prev node)

theorem circ_init (l : Links N) (head : N) : Circ (l.init head) head [] := by
  refine ⟨isChain_cons_cons.mpr ⟨⟨?_, ?_⟩, isChain_singleton head⟩, nodup_singleton head⟩
  · exact update_self _ _ _
  · exact update_self _ _ _

theorem Circ.init_frame (h : Circ l head xs) (ha : a ∉ head :: xs) : Circ (l.init a) head xs := by
  refine h.congr (fun b hb => ?_) (fun b hb => ?_)
  · exact update_of_ne (ne_of_mem_of_not_mem hb ha) _ _
  · exact update_of_ne (ne_of_mem_of_not_mem hb ha) _ _

theorem addTail_next (l : Links N) (head node : N) :
    (l.addTail head node).next = update (update l.next (l.prev head) node) node head := rfl

theorem addTail_prev (l : Links N) (head node : N) :
    (l.addTail head node).prev = update (update l.prev node (l.prev head)) head node := rfl

theorem Circ.addTail (h : Circ l head xs) (ha : a ∉ head :: xs) :
    Circ (l.addTail head a) head (xs ++ [a]) := by
  obtain ⟨us, hus⟩ := h.last
  obtain ⟨hne, hax⟩ := not_or.mp (mt mem_cons.mpr ha)
  have hnd := h.nodup
  have hp : l.prev head ∉ us := by
    rw [hus] at hnd
    intro hmem; exact (nodup_append.mp hnd).2.2 _ hmem _ (mem_singleton_self _) rfl
  have hpa : l.prev head ≠ a := by
    intro heq
    rw [hus] at ha; exact ha (by simp [heq])
  refine ⟨?_, ?_⟩
  · have hsplit : head :: (xs ++ [a]) ++ [head] = us ++ l.prev head :: [a, head] := by
      rw [← cons_append, hus]; simp
    rw [hsplit]
    refine linked_append.mpr ⟨?_, ?_⟩
    · -- up to the last node nothing changes
      have hlinked := h.linked
      rw [hus, append_assoc, singleton_append] at hlinked
      refine (linked_append.mp hlinked).1.congr (fun b hb => ?_) (fun b hb => ?_)
      · rw [dropLast_concat] at hb
        have hb' : b ∈ head :: xs := by rw [hus]; exact mem_append_left _ hb
        rw [addTail_next, update_of_ne (ne_of_mem_of_not_mem hb' ha),
          update_of_ne (ne_of_mem_of_not_mem hb hp)]
      · rw [← hus, tail_cons] at hb
        rw [addTail_prev, update_of_ne (ne_of_mem_of_not_mem hb (nodup_cons.mp hnd).1),
          update_of_ne (ne_of_mem_of_not_mem hb hax)]
    · refine isChain_cons_cons.mpr ⟨⟨?_, ?_⟩, isChain_cons_cons.mpr
        ⟨⟨?_, ?_⟩, isChain_singleton head⟩⟩
      · rw [addTail_next, update_of_ne hpa, update_self]
      · rw [addTail_prev, update_of_ne hne, update_self]
      · rw [addTail_next, update_self]
      · rw [addTail_prev, update_self]
  · rw [← cons_append, nodup_append]
    refine ⟨hnd, nodup_singleton a, ?_⟩
    rintro b hb c hc rfl
    rw [mem_singleton] at hc; exact ha (hc ▸ hb)

theorem Circ.addTail_frame {head' : N} (h : Circ l head xs) (h' : Circ l head' ys)
    (hdisj : ∀ b ∈ head' :: ys, b ∉ head :: xs) (ha : a ∉ head' :: ys) :
    Circ (l.addTail head a) head' ys := by
  have hprev : l.prev head ∈ head :: xs := by
    obtain ⟨us, hus⟩ := h.last
    rw [hus]; simp
  refine h'.congr (fun b hb => ?_) (fun b hb => ?_)
  · rw [addTail_next, update_of_ne (ne_of_mem_of_not_mem hb ha),
      update_of_ne (ne_of_mem_of_not_mem hprev (hdisj b hb)).symm]
  · rw [addTail_prev,
      update_of_ne (ne_of_mem_of_not_mem mem_cons_self (hdisj b hb)).symm,
      update_of_ne (ne_of_mem_of_not_mem hb ha)]

theorem remove_next (l : Links N) (x : N) :
    (l.remove x).next = update l.next (l.prev x) (l.next x) := rfl

theorem remove_prev (hx : l.prev x ≠ x) :
    (l.remove x).prev = update l.prev (l.next x) (l.prev x) := by
  have hn : (l.setNext (l.prev x) (l.next x)).next x = l.next x := update_of_ne hx.symm _ _
  simp only [remove, setPrev, hn]
  rfl

theorem Circ.remove (h : Circ l head (xs ++ x :: ys)) : Circ (l.remove x) head (xs ++ ys) := by
  obtain ⟨us, vs, hus, hvs⟩ := h.neighbours
  obtain ⟨hleft, hright⟩ := h.split
  have hnd : (head :: xs ++ ys).Nodup := h.nodup.sublist (by simp)
  have hnd' : (xs ++ (ys ++ [head])).Nodup := by refine h.nodup'.sublist ?_; simp
  rw [hus, append_assoc, singleton_append] at hleft
  rw [hvs] at hright
  refine ⟨?_, hnd⟩
  have hsplit : head :: (xs ++ ys) ++ [head] = us ++ l.prev x :: l.next x :: vs := by
    rw [← cons_append, hus, append_assoc, append_assoc, hvs, singleton_append]
  rw [hsplit]
  refine linked_append.mpr ⟨(linked_append.mp hleft).1.congr ?_ ?_,
    isChain_cons_cons.mpr ⟨⟨?_, ?_⟩, Linked.congr (isChain_cons_cons.mp hright).2 ?_ ?_⟩⟩
  · intro b hb
    rw [dropLast_concat] at hb
    rw [hus, append_assoc] at hnd
    rw [remove_next, update_of_ne ((nodup_append.mp hnd).2.2 b hb _ (by simp))]
  · intro b hb
    rw [← hus, tail_cons] at hb
    rw [hvs] at hnd'
    rw [remove_prev h.prev_ne, update_of_ne ((nodup_append.mp hnd').2.2 b hb _ mem_cons_self)]
  · rw [remove_next, update_self]
  · rw [remove_prev h.prev_ne, update_self]
  · intro b hb
    rw [← hvs, dropLast_concat] at hb
    rw [hus] at hnd
    rw [remove_next,
      update_of_ne ((nodup_append.mp hnd).2.2 _ (mem_append_right us (by simp)) b hb).symm]
  · intro b hb
    rw [hvs] at hnd'
    have hn := (nodup_cons.mp (nodup_append.mp hnd').2.1).1
    rw [remove_prev h.prev_ne, update_of_ne (ne_of_mem_of_not_mem hb hn)]

theorem Circ.remove_frame {head' : N} {zs : List N} (h : Circ l head (xs ++ x :: ys))
    (h' : Circ l head' zs) (hdisj : ∀ b ∈ head' :: zs, b ∉ head :: (xs ++ x :: ys)) :
    Circ (l.remove x) head' zs := by
  obtain ⟨us, vs, hus, hvs⟩ := h.neighbours
  have hp : l.prev x ∈ head :: (xs ++ x :: ys) := by rw [← cons_append, hus]; simp
  have hn : l.next x ∈ head :: (xs ++ x :: ys) := by
    have hmem : l.next x ∈ ys ++ [head] := by rw [hvs]; exact mem_cons_self
    rcases mem_append.mp hmem with hy | hh
    · simp [hy]
    · simp [mem_singleton.mp hh]
  refine h'.congr (fun b hb => ?_) (fun b hb => ?_)
  · rw [remove_next, update_of_ne (ne_of_mem_of_not_mem hp (hdisj b hb)).symm]
  · rw [remove_prev h.prev_ne, update_of_ne (ne_of_mem_of_not_mem hn (hdisj b hb)).symm]

end Operations

theorem Circ.prev_next (h : Circ l head xs) : l.prev (l.next head) = head := by
  have hlinked := h.linked
  cases xs with
  | nil => obtain ⟨⟨hn, hp⟩, -⟩ := isChain_cons_cons.mp hlinked; rw [hn, hp]
  | cons x xs => obtain ⟨⟨hn, hp⟩, -⟩ := isChain_cons_cons.mp hlinked; rw [hn, hp]

/-! ## Adding before a node -/

theorem Circ.rotate (h : Circ l head (xs ++ x :: ys)) : Circ l x (ys ++ head :: xs) := by
  have hperm : head :: xs ++ x :: ys ~ x :: ys ++ head :: xs := perm_append_comm
  refine ⟨?_, hperm.nodup_iff.mp h.nodup⟩
  have hjoin : x :: (ys ++ head :: xs) ++ [x] = x :: ys ++ head :: (xs ++ [x]) := by simp
  rw [hjoin]; exact linked_append.mpr ⟨h.split.2, h.split.1⟩

/-- Each node of a closed list can be taken for its head. -/
theorem Circ.addBefore [DecidableEq N] (h : Circ l head (xs ++ ys)) (ha : a ∉ head :: (xs ++ ys)) :
    Circ (l.addTail (ys.headD head) a) head (xs ++ a :: ys) := by
  cases ys with
  | nil => rw [append_nil] at h ha; exact h.addTail ha
  | cons y ys =>
    have hadd : Circ (l.addTail y a) y (ys ++ head :: xs ++ [a]) := by
      apply h.rotate.addTail
      intro hmem; exact ha (by simpa [or_comm, or_left_comm, or_assoc] using hmem)
    rw [append_assoc, cons_append] at hadd; simpa using hadd.rotate

theorem Circ.addBefore_frame [DecidableEq N] {zs : List N} (h : Circ l head (xs ++ ys))
    (h' : Circ l p zs) (hdisj : ∀ b ∈ p :: zs, b ∉ head :: (xs ++ ys)) (ha : a ∉ p :: zs) :
    Circ (l.addTail (ys.headD head) a) p zs := by
  cases ys with
  | nil => exact h.addTail_frame h' hdisj ha
  | cons y ys =>
    refine h.rotate.addTail_frame h' (fun b hb hmem => hdisj b hb ?_) ha
    simpa [or_comm, or_left_comm, or_assoc] using hmem

/-! ## Families of lists -/

/-- The nodes of the heads and of the elements are all different. -/
structure Layout {ι α : Type*} (node₀ : ι → N) (node : α → N) : Prop where
  head_injective : Injective node₀
  elem_injective : Injective node
  head_ne_elem : ∀ i a, node₀ i ≠ node a

section Family

variable {ι α : Type*} {node₀ : ι → N} {node : α → N} {live : ι → Prop} {hold : ι → List α}
  {i : ι} {e : α}

/-- The lists of the live heads hold what `hold` says, and no element is in two of them. -/
structure Family (l : Links N) (node₀ : ι → N) (node : α → N) (live : ι → Prop)
    (hold : ι → List α) : Prop where
  circ : ∀ i, live i → Circ l (node₀ i) ((hold i).map node)
  once : Exclusive hold

theorem Layout.not_mem (lay : Layout node₀ node) {j : ι} (hij : j ≠ i) {as bs : List α}
    (hdisj : ∀ a ∈ as, a ∉ bs) : ∀ b ∈ node₀ j :: as.map node, b ∉ node₀ i :: bs.map node := by
  intro b hb hb'
  rcases mem_cons.mp hb with rfl | hb
  · rcases mem_cons.mp hb' with heq | hb'
    · exact hij (lay.head_injective heq)
    · obtain ⟨c, -, hc⟩ := mem_map.mp hb'; exact lay.head_ne_elem j c hc.symm
  · obtain ⟨c, hcas, rfl⟩ := mem_map.mp hb
    rcases mem_cons.mp hb' with heq | hb'
    · exact lay.head_ne_elem i c heq.symm
    · obtain ⟨d, hd, hdc⟩ := mem_map.mp hb'; exact hdisj c hcas (lay.elem_injective hdc ▸ hd)

theorem Layout.elem_not_mem (lay : Layout node₀ node) {as : List α} (he : e ∉ as) :
    node e ∉ node₀ i :: as.map node := by
  intro hmem
  rcases mem_cons.mp hmem with heq | hmem
  · exact lay.head_ne_elem i e heq.symm
  · obtain ⟨c, hc, hce⟩ := mem_map.mp hmem; exact he (lay.elem_injective hce ▸ hc)

theorem Family.disjoint (h : Family l node₀ node live hold) {j : ι} (hij : j ≠ i) :
    ∀ a ∈ hold j, a ∉ hold i := by intro a haj hai; exact hij (h.once.unique haj hai)

variable [DecidableEq N]

theorem Family.init (lay : Layout node₀ node) (h : Family l node₀ node live hold)
    (hempty : hold i = []) :
    Family (l.init (node₀ i)) node₀ node (fun j => live j ∨ j = i) hold := by
  refine ⟨fun j hj => ?_, h.once⟩
  by_cases hji : j = i
  · subst hji
    rw [hempty, map_nil]; exact circ_init l (node₀ j)
  · refine (h.circ j (hj.resolve_right hji)).init_frame fun hmem => ?_
    rcases mem_cons.mp hmem with heq | hmem
    · exact hji (lay.head_injective heq).symm
    · obtain ⟨c, -, hc⟩ := mem_map.mp hmem; exact lay.head_ne_elem i c hc.symm

variable [DecidableEq ι]

theorem Family.addBefore (lay : Layout node₀ node) (h : Family l node₀ node live hold)
    (hi : live i) {as bs : List α} (hsplit : hold i = as ++ bs) (he : ∀ j, e ∉ hold j) :
    Family (l.addTail ((bs.map node).headD (node₀ i)) (node e)) node₀ node live
      (update hold i (as ++ e :: bs)) := by
  have hcirc := h.circ i hi
  rw [hsplit, map_append] at hcirc
  refine ⟨fun j hj => ?_, ?_⟩
  · by_cases hji : j = i
    · subst hji
      rw [update_self, map_append, map_cons]
      refine hcirc.addBefore ?_
      rw [← map_append, ← hsplit]; exact lay.elem_not_mem (he j)
    · rw [update_of_ne hji]
      refine hcirc.addBefore_frame (h.circ j hj) ?_ (lay.elem_not_mem (he j))
      rw [← map_append, ← hsplit]; exact lay.not_mem hji (h.disjoint hji)
  · refine h.once.enter (nodup_singleton e) ?_ ?_ fun k hk => update_of_ne hk _ _
    · intro a ha k
      rw [mem_singleton.mp ha]; exact he k
    · rw [update_self, hsplit]; exact perm_middle

theorem Family.addTail (lay : Layout node₀ node) (h : Family l node₀ node live hold)
    (hi : live i) (he : ∀ j, e ∉ hold j) :
    Family (l.addTail (node₀ i) (node e)) node₀ node live (update hold i (hold i ++ [e])) :=
  h.addBefore lay hi (append_nil _).symm he

theorem Family.remove (lay : Layout node₀ node) (h : Family l node₀ node live hold)
    (hi : live i) {as bs : List α} (hsplit : hold i = as ++ e :: bs) :
    Family (l.remove (node e)) node₀ node live (update hold i (as ++ bs)) := by
  have hcirc := h.circ i hi
  rw [hsplit, map_append, map_cons] at hcirc
  refine ⟨fun j hj => ?_, h.once.leave fun j => ?_⟩
  · by_cases hji : j = i
    · subst hji
      rw [update_self, map_append]; exact hcirc.remove
    · rw [update_of_ne hji]
      refine hcirc.remove_frame (h.circ j hj) ?_
      rw [← map_cons, ← map_append, ← hsplit]; exact lay.not_mem hji (h.disjoint hji)
  · by_cases hji : j = i
    · subst hji
      rw [update_self, hsplit]
      exact (List.Sublist.append_left (sublist_cons_self e bs) as).subperm
    · rw [update_of_ne hji]

end Family

end Links

end Qcacld.Lib
