/-
Fragments that wait for the rest of their MSDU: `ol_rx_defrag.c`.

That a tid is on the list is read off its own links: `ol_rx_defrag_waitlist_remove` looks at
`tqe_next`. Fragments come to the first slot only (`ol_rx_reorder_store_frag` asserts it). The list
of fragments is a chain of netbufs with a pointer to one of them as its tail, which need not be the
last: the tail is an index here.
-/
import Qcacld.Lib.Run
import Qcacld.Lib.TailQ
import Mathlib.Algebra.Order.Ring.Int
import Mathlib.Data.List.Induction
import Mathlib.Data.List.Sort

set_option autoImplicit false

namespace Qcacld.RxDefrag

open Lib Function

section

/-! ## Fragments -/

/-- What is read of a fragment: its 802.11 sequence control field, the more-fragments
bit and two addresses. -/
structure Frag where
  id : Nat
  i_seq : Nat
  more_frag : Bool
  addr1 : Nat
  addr2 : Nat
deriving DecidableEq

def Frag.rxseq (f : Frag) : Nat := f.i_seq / 16
def Frag.fragno (f : Frag) : Nat := f.i_seq % 16

/-- `struct ol_rx_reorder_array_elem_t`; it is empty if `head` is NULL. -/
structure FragList where
  head : List Frag
  tail : Nat

def FragList.empty : FragList := ⟨[], 0⟩

/-- The loop that looks for the fragments that follow the first. -/
def fragsFollow : Nat → List Frag → Bool
  | _, [] => true
  | count, f :: next => f.fragno = count + 1 && fragsFollow (count + 1) next

/-- The end of `ol_rx_fraglist_insert`. -/
def FragList.all_frag_present (fl : FragList) : Bool :=
  match fl.head[fl.tail]? with
  | none => false
  | some last => !last.more_frag && fragsFollow 0 (fl.head.drop 1)

/-- The list, and `all_frag_present`. -/
def ol_rx_fraglist_insert (fl : FragList) (frag : Frag) : FragList × Bool :=
  match fl.head[fl.tail]? with
  | none => (⟨[frag], 0⟩, false)
  | some last =>
    -- compare with tail first
    if frag.fragno > last.fragno then
      let fl := ⟨fl.head.take (fl.tail + 1) ++ [frag], fl.tail + 1⟩
      (fl, fl.all_frag_present)
    else
      let cur := fl.head.findIdx fun f => !decide (frag.fragno > f.fragno)
      if (fl.head[cur]?.map Frag.fragno) = some frag.fragno then (fl, false)
      else
        -- the new fragment comes after the one where the search ended
        let fl := ⟨fl.head.insertIdx (cur + 1) frag, if cur < fl.tail then fl.tail + 1 else fl.tail⟩
        (fl, fl.all_frag_present)

/-! ## State -/

structure RxReorder where
  peer : Nat
  tid : Nat
deriving DecidableEq

structure Cfg where
  defrag_timeout_check : Bool
  timeout_ms : Nat

structure Pdev where
  waitlist : TailQ RxReorder
  frags : RxReorder → FragList
  defrag_timeout_ms : RxReorder → Nat
  tids_last_seq : RxReorder → Nat

def Pdev.setFrags (s : Pdev) (e : RxReorder) (fl : FragList) : Pdev :=
  { s with frags := update s.frags e fl }

def Pdev.init : Pdev := ⟨.init, fun _ => .empty, fun _ => 0, fun _ => 0⟩

/-! ## The wait list -/

def ol_rx_defrag_waitlist_add (s : Pdev) (e : RxReorder) : Pdev :=
  { s with waitlist := s.waitlist.insertTail e }

def ol_rx_defrag_waitlist_remove (s : Pdev) (e : RxReorder) : Option Pdev :=
  if s.waitlist.tqe_next e ≠ none then
    (s.waitlist.remove e).map fun q => { s with waitlist := q.clear e }
  -- the other branch has the condition of this one, and is never taken
  else some s

def ol_rx_reorder_flush_frag (s : Pdev) (e : RxReorder) : Pdev := s.setFrags e .empty

/-- TAILQ_FOREACH_SAFE of `ol_rx_defrag_waitlist_flush`, for at most as many passes
through its body as are given. -/
def flushLoop (now_ms : Nat) : Nat → Option RxReorder → Pdev → Option Pdev
  | _, none, s => some s
  | 0, some _, _ => none
  | passes + 1, some e, s =>
    if s.defrag_timeout_ms e > now_ms then some s
    else (ol_rx_defrag_waitlist_remove s e).bind fun s' =>
      flushLoop now_ms passes (s.waitlist.tqe_next e) (ol_rx_reorder_flush_frag s' e)

def ol_rx_defrag_waitlist_flush (s : Pdev) (now_ms passes : Nat) : Option Pdev :=
  flushLoop now_ms passes s.waitlist.tqh_first s

/-! ## Storing -/

/-- A frame that is not fragmented does not wait. -/
def unfragmented (s : Pdev) (e : RxReorder) (frag : Frag) : Bool :=
  !frag.more_frag && frag.fragno == 0 && (s.frags e).head.isEmpty

/-- `cdf_mem_compare` says whether the addresses are equal, and not what `memcmp` says: this is
true of addresses that differ. -/
def DEFRAG_IEEE80211_ADDR_EQ (a1 a2 : Nat) : Bool := decide (a1 = a2) == false

/-- The stored fragments, unless they are taken for those of another MSDU than the new one. -/
def FragList.matching (fl : FragList) (frag : Frag) : FragList :=
  match fl.head with
  | [] => fl
  | f :: _ =>
    if frag.rxseq ≠ f.rxseq || !DEFRAG_IEEE80211_ADDR_EQ frag.addr1 f.addr1 ||
      !DEFRAG_IEEE80211_ADDR_EQ frag.addr2 f.addr2 then .empty
    else fl

/-- `ol_rx_reorder_store_frag`; complete MSDUs go to `ol_rx_defrag`. -/
def ol_rx_reorder_store_frag (cfg : Cfg) (s : Pdev) (e : RxReorder) (seq_num : Nat) (frag : Frag)
    (now_ms : Nat) : Option Pdev :=
  if unfragmented s e frag then some (s.setFrags e .empty)
  else
    let r := ol_rx_fraglist_insert ((s.frags e).matching frag) frag
    let s := s.setFrags e r.1
    (if cfg.defrag_timeout_check then ol_rx_defrag_waitlist_remove s e else some s).map fun s =>
      if r.2 then
        { s.setFrags e .empty with
          defrag_timeout_ms := update s.defrag_timeout_ms e 0
          tids_last_seq := update s.tids_last_seq e seq_num }
      else if cfg.defrag_timeout_check then
        ol_rx_defrag_waitlist_add { s with
          defrag_timeout_ms := update s.defrag_timeout_ms e ((now_ms + cfg.timeout_ms) % 2 ^ 32) } e
      else s

/-! ## Runs -/

/-- `ol_rx_reorder_flush` of a tid, for its first slot. -/
def reorderFlush (s : Pdev) (e : RxReorder) : Option Pdev :=
  ol_rx_defrag_waitlist_remove (s.setFrags e .empty) e

def ol_rx_reorder_init (s : Pdev) (e : RxReorder) : Pdev :=
  { s.setFrags e .empty with
    defrag_timeout_ms := update s.defrag_timeout_ms e 0
    waitlist := s.waitlist.clear e }

inductive Op where
  | store_frag (e : RxReorder) (seq_num : Nat) (frag : Frag) (now_ms : Nat)
  | flush_frag (e : RxReorder)
  | reorder_flush (e : RxReorder)
  | reorder_init (e : RxReorder)
  | waitlist_add (e : RxReorder)
  | waitlist_remove (e : RxReorder)
  | waitlist_flush (now_ms passes : Nat)

def step (cfg : Cfg) (s : Pdev) : Op → Option Pdev
  | .store_frag e seq_num frag now_ms => ol_rx_reorder_store_frag cfg s e seq_num frag now_ms
  | .flush_frag e => some (ol_rx_reorder_flush_frag s e)
  | .reorder_flush e => reorderFlush s e
  | .reorder_init e => some (ol_rx_reorder_init s e)
  | .waitlist_add e => some (ol_rx_defrag_waitlist_add s e)
  | .waitlist_remove e => ol_rx_defrag_waitlist_remove s e
  | .waitlist_flush now_ms passes => ol_rx_defrag_waitlist_flush s now_ms passes

open List

/-! The list of the fragments of one MSDU. -/

/-! ## Arrivals -/

/-- The fragment is in the list already, and `ol_rx_fraglist_insert` frees it. -/
def isDuplicate (fl : FragList) (frag : Frag) : Bool :=
  match fl.head[fl.tail]? with
  | none => false
  | some last =>
    if frag.fragno > last.fragno then false
    else
      let cur := fl.head.findIdx fun f => !decide (frag.fragno > f.fragno)
      (fl.head[cur]?.map Frag.fragno) = some frag.fragno

/-- The list of a tid, what the last call said of it, and the fragments that were freed. -/
structure Arrivals where
  list : FragList
  all_frag_present : Bool
  freed : List Frag

def arrive (s : Arrivals) (frag : Frag) : Arrivals where
  list := (ol_rx_fraglist_insert s.list frag).1
  all_frag_present := (ol_rx_fraglist_insert s.list frag).2
  freed := if isDuplicate s.list frag then s.freed ++ [frag] else s.freed

/-- The fragments `fs` are inserted one after the other. -/
def arrivals (fs : List Frag) : Arrivals := fs.foldl arrive ⟨.empty, false, []⟩

/-! ## What should come of them -/

/-- The first fragment of each number, and those whose number was there before. -/
def sift (fs : List Frag) : List Frag × List Frag :=
  fs.foldl (fun r f =>
    if f.fragno ∈ r.1.map Frag.fragno then (r.1, r.2 ++ [f]) else (r.1 ++ [f], r.2)) ([], [])

def firsts (fs : List Frag) : List Frag := (sift fs).1

def repeats (fs : List Frag) : List Frag := (sift fs).2

/-- The numbers are `0, 1, …, n` without gaps, and fragment `n` says that no more follow. -/
def Complete (fs : List Frag) : Prop :=
  ∃ n, (∀ k, k ∈ fs.map Frag.fragno ↔ k ≤ n) ∧ ∃ f ∈ fs, f.fragno = n ∧ f.more_frag = false

/-- The list is strictly increasing and ends at its tail; every fragment that came is in it or, if
its number was there before, freed; and the fragments are reported to be complete when they are. -/
structure Kept (fs : List Frag) : Prop where
  sorted : ((arrivals fs).list.head.map Frag.fragno).Pairwise (· < ·)
  tail : fs ≠ [] → (arrivals fs).list.tail + 1 = (arrivals fs).list.head.length
  received : (arrivals fs).list.head.Perm (firsts fs)
  freed : (arrivals fs).freed = repeats fs
  present : (arrivals fs).all_frag_present = true ↔ Complete (firsts fs)

/-- `f` comes after `pre` in order: its number is above all that came before, or it came before and
the MSDU is not complete yet. An MSDU of one fragment is none for the list. -/
def InOrder (pre : List Frag) (f : Frag) : Prop :=
  if pre = [] then ¬ (f.fragno = 0 ∧ f.more_frag = false)
  else (∀ g ∈ pre, g.fragno < f.fragno) ∨
    (∃ g ∈ pre, g.fragno = f.fragno) ∧ ¬ Complete (firsts pre)

section Sift

variable {pre fs : List Frag} {f : Frag}

theorem sift_concat (pre : List Frag) (f : Frag) :
    sift (pre ++ [f]) = if f.fragno ∈ (firsts pre).map Frag.fragno
      then (firsts pre, repeats pre ++ [f]) else (firsts pre ++ [f], repeats pre) := by
  unfold firsts repeats sift
  rw [foldl_append]; rfl

theorem arrivals_concat (pre : List Frag) (f : Frag) :
    arrivals (pre ++ [f]) = arrive (arrivals pre) f := by
  unfold arrivals
  rw [foldl_append]; rfl

theorem mem_fragno_firsts (pre : List Frag) (k : Nat) :
    k ∈ (firsts pre).map Frag.fragno ↔ ∃ g ∈ pre, g.fragno = k := by
  induction pre using List.reverseRecOn with
  | nil => simp [firsts, sift]
  | append_singleton pre f ih =>
    have hcat : (∃ g ∈ pre ++ [f], g.fragno = k) ↔ (∃ g ∈ pre, g.fragno = k) ∨ f.fragno = k := by
      simp only [mem_append, mem_singleton, or_and_right, exists_or, exists_eq_left]
    rw [hcat, ← ih, firsts, sift_concat]
    split
    · next hmem => exact ⟨Or.inl, fun h => h.elim id fun hk => hk ▸ hmem⟩
    · rw [map_append, mem_append, map_singleton, mem_singleton, eq_comm]

theorem firsts_of_new (h : ¬ ∃ g ∈ pre, g.fragno = f.fragno) :
    firsts (pre ++ [f]) = firsts pre ++ [f] ∧ repeats (pre ++ [f]) = repeats pre := by
  rw [← mem_fragno_firsts] at h
  rw [firsts, repeats, sift_concat, if_neg h]; exact ⟨rfl, rfl⟩

theorem firsts_of_repeat (h : ∃ g ∈ pre, g.fragno = f.fragno) :
    firsts (pre ++ [f]) = firsts pre ∧ repeats (pre ++ [f]) = repeats pre ++ [f] := by
  rw [← mem_fragno_firsts] at h
  rw [firsts, repeats, sift_concat, if_pos h]; exact ⟨rfl, rfl⟩

theorem Complete.perm {l l' : List Frag} (h : Complete l) (hp : l.Perm l') : Complete l' := by
  obtain ⟨n, hmem, f, hf, hlast⟩ := h
  refine ⟨n, fun k => ?_, f, hp.mem_iff.mp hf, hlast⟩
  rw [← hmem]; exact (hp.map Frag.fragno).mem_iff.symm

end Sift

/-! ## The scan for completeness -/

theorem fragsFollow_iff (count : Nat) (l : List Frag) :
    fragsFollow count l = true ↔ l.map Frag.fragno = range' (count + 1) l.length := by
  induction l generalizing count with
  | nil => exact iff_of_true rfl rfl
  | cons f l ih =>
    rw [fragsFollow, Bool.and_eq_true, decide_eq_true_eq, ih, map_cons, length_cons,
      range'_succ, List.cons.injEq]

/-- A list in order of the numbers is complete if it counts from 0 on and its last fragment has no
more fragments after it. -/
theorem complete_concat_iff {l : List Frag} {last : Frag}
    (hs : ((l ++ [last]).map Frag.fragno).Pairwise (· < ·)) :
    Complete (l ++ [last]) ↔
      (l ++ [last]).map Frag.fragno = range (l.length + 1) ∧ last.more_frag = false := by
  constructor
  · rintro ⟨n, hmem, f, hf, hfn, hmore⟩
    have hrange : (l ++ [last]).map Frag.fragno = range (n + 1) := by
      refine hs.eq_of_mem_iff pairwise_lt_range fun k => ?_
      rw [hmem, mem_range, Nat.lt_succ_iff]
    have hlen : l.length = n := by
      have hlength := congrArg List.length hrange
      rw [length_map, length_append, length_range] at hlength; exact Nat.succ.inj hlength
    -- fragment `n` is the last, since the others are below the last one
    have hfl : f = last := by
      rcases mem_append.mp hf with hf | hf
      · have hlast : last.fragno ≤ n :=
          (hmem _).mp (mem_map_of_mem (mem_append_right _ (mem_singleton_self _)))
        rw [map_append, pairwise_append] at hs
        have hlt := hs.2.2 _ (mem_map_of_mem hf) _ (mem_singleton_self _)
        omega
      · exact mem_singleton.mp hf
    exact ⟨hlen ▸ hrange, hfl ▸ hmore⟩
  · rintro ⟨hrange, hmore⟩
    refine ⟨l.length, fun k => ?_, last, mem_append_right _ (mem_singleton_self _), ?_, hmore⟩
    · rw [hrange, mem_range, Nat.lt_succ_iff]
    · rw [range_succ, map_append] at hrange
      exact (List.cons.inj (append_inj_right' hrange rfl)).1

theorem all_frag_present_iff {l : List Frag} {last : Frag} (hl : l ≠ [])
    (hs : ((l ++ [last]).map Frag.fragno).Pairwise (· < ·)) :
    FragList.all_frag_present ⟨l ++ [last], l.length⟩ = true ↔ Complete (l ++ [last]) := by
  rw [complete_concat_iff hs, FragList.all_frag_present]
  rw [getElem?_concat_length]
  rw [Bool.and_eq_true, Bool.not_eq_true', fragsFollow_iff, and_comm]
  refine and_congr_left' ?_
  obtain ⟨a, l, rfl⟩ := exists_cons_of_ne_nil hl
  rw [cons_append] at hs ⊢
  rw [drop_one, tail_cons, map_cons, length_cons, range_succ_eq_map,
    length_append, length_singleton, List.range'_eq_map_range, List.cons.injEq]
  have hmap : (range (l.length + 1)).map (0 + 1 + ·) =
      (range (l.length + 1)).map Nat.succ := by refine map_congr_left fun k _ => ?_; omega
  rw [hmap]
  constructor
  · intro hrest
    refine ⟨?_, hrest⟩
    rw [map_cons, pairwise_cons, hrest] at hs
    have hlt := hs.1 1 (mem_map.mpr ⟨0, mem_range.mpr (Nat.succ_pos _), rfl⟩)
    omega
  · exact And.right

/-! ## One arrival -/

section Insert

variable {pre : List Frag} {l : List Frag} {last f : Frag}

theorem tail_getElem? : (⟨l ++ [last], l.length⟩ : FragList).head[l.length]? = some last :=
  getElem?_concat_length

theorem insert_above (h : last.fragno < f.fragno) :
    ol_rx_fraglist_insert ⟨l ++ [last], l.length⟩ f =
        (⟨l ++ [last] ++ [f], l.length + 1⟩,
          FragList.all_frag_present ⟨l ++ [last] ++ [f], l.length + 1⟩) ∧
      isDuplicate ⟨l ++ [last], l.length⟩ f = false := by
  have htake : (l ++ [last]).take (l.length + 1) = l ++ [last] := by
    rw [take_of_length_le]
    rw [length_append, length_singleton]
  constructor
  · rw [ol_rx_fraglist_insert, tail_getElem?]
    dsimp only
    rw [if_pos h, htake]
  · rw [isDuplicate, tail_getElem?]
    dsimp only
    rw [if_pos h]

theorem search_spec (h : f.fragno ≤ last.fragno) :
    ∃ pre g post, l ++ [last] = pre ++ g :: post ∧
      (l ++ [last]).findIdx (fun g => !decide (f.fragno > g.fragno)) = pre.length ∧
      f.fragno ≤ g.fragno ∧ ∀ x ∈ pre, x.fragno < f.fragno := by
  have hex : ∃ x ∈ l ++ [last], (!decide (f.fragno > x.fragno)) = true := by
    refine ⟨last, mem_append_right _ (mem_singleton_self _), ?_⟩
    simpa using h
  have hlt := findIdx_lt_length_of_exists hex
  have hsplit := take_append_drop ((l ++ [last]).findIdx fun x => !decide (f.fragno > x.fragno))
    (l ++ [last])
  rw [drop_eq_getElem_cons hlt] at hsplit
  refine ⟨_, _, _, hsplit.symm, ?_, ?_, ?_⟩
  · rw [length_take_of_le (Nat.le_of_lt hlt)]
  · simpa using findIdx_getElem (w := hlt)
  · intro x hx
    obtain ⟨i, hi, rfl⟩ := getElem_of_mem hx
    rw [length_take] at hi
    simpa using not_of_lt_findIdx (lt_of_lt_of_le hi (Nat.min_le_left _ _))

theorem insert_again (hs : ((l ++ [last]).map Frag.fragno).Pairwise (· < ·))
    (h : f.fragno ∈ (l ++ [last]).map Frag.fragno) :
    ol_rx_fraglist_insert ⟨l ++ [last], l.length⟩ f = (⟨l ++ [last], l.length⟩, false) ∧
      isDuplicate ⟨l ++ [last], l.length⟩ f = true := by
  have hle : f.fragno ≤ last.fragno := by
    rw [map_append, mem_append] at h
    rw [map_append, pairwise_append] at hs
    rcases h with h | h
    · exact Nat.le_of_lt (hs.2.2 _ h _ (mem_singleton_self _))
    · exact Nat.le_of_eq (mem_singleton.mp h)
  obtain ⟨front, g, post, heq, hidx, hge, hfront⟩ := search_spec hle
  have hg : g.fragno = f.fragno := by
    rw [heq, map_append, map_cons] at h hs
    rcases mem_append.mp h with h | h
    · obtain ⟨x, hx, hxf⟩ := mem_map.mp h; exact absurd hxf (Nat.ne_of_lt (hfront x hx))
    · rcases mem_cons.mp h with h | h
      · exact h.symm
      · have hlt := (pairwise_cons.mp (pairwise_append.mp hs).2.1).1 _ h; omega
  have hfound : ((l ++ [last])[(l ++ [last]).findIdx
      fun x => !decide (f.fragno > x.fragno)]?.map Frag.fragno) = some f.fragno := by
    rw [hidx, heq, getElem?_append_right (Nat.le_refl _), Nat.sub_self, getElem?_cons_zero,
      Option.map_some, hg]
  constructor
  · rw [ol_rx_fraglist_insert, tail_getElem?]
    dsimp only
    rw [if_neg (Nat.not_lt.mpr hle), if_pos hfound]
  · rw [isDuplicate, tail_getElem?]
    dsimp only
    rw [if_neg (Nat.not_lt.mpr hle), decide_eq_true hfound]

theorem insertIdx_behind (front post : List Frag) (g : Frag) :
    (front ++ g :: post).insertIdx (front.length + 1) f = front ++ g :: f :: post := by
  induction front with
  | nil => rfl
  | cons x front ih => rw [cons_append, length_cons, insertIdx_succ_cons, ih]; rfl

theorem insert_below (h : f.fragno < last.fragno)
    (hnew : f.fragno ∉ (l ++ [last]).map Frag.fragno) :
    ¬ (((ol_rx_fraglist_insert ⟨l ++ [last], l.length⟩ f).1.head).map Frag.fragno).Pairwise
      (· < ·) := by
  obtain ⟨front, g, post, heq, hidx, hge, -⟩ := search_spec (Nat.le_of_lt h)
  have hne : g.fragno ≠ f.fragno := fun he => hnew (he ▸ heq ▸ mem_map_of_mem (by simp))
  have hfound : ¬ ((l ++ [last])[(l ++ [last]).findIdx
      fun x => !decide (f.fragno > x.fragno)]?.map Frag.fragno) = some f.fragno := by
    rw [hidx, heq, getElem?_append_right (Nat.le_refl _), Nat.sub_self, getElem?_cons_zero,
      Option.map_some]
    exact fun he => hne (Option.some.inj he)
  have hhead : (ol_rx_fraglist_insert ⟨l ++ [last], l.length⟩ f).1.head =
      front ++ g :: f :: post := by
    rw [ol_rx_fraglist_insert, tail_getElem?]
    dsimp only
    rw [if_neg (Nat.not_lt.mpr (Nat.le_of_lt h)), if_neg hfound]
    rw [hidx, heq, insertIdx_behind]
  rw [hhead, map_append, map_cons, map_cons]
  intro hs
  have hlt := (pairwise_cons.mp (pairwise_append.mp hs).2.1).1 f.fragno mem_cons_self
  omega

end Insert

/-! ## Runs -/

section Runs

variable {pre : List Frag} {f : Frag}

theorem kept_nil : Kept [] where
  sorted := Pairwise.nil
  tail := fun h => absurd rfl h
  received := Perm.refl _
  freed := rfl
  present := by
    refine iff_of_false Bool.false_ne_true ?_
    rintro ⟨n, -, f, hf, -⟩
    cases hf

theorem Kept.shape (h : Kept pre) (hne : pre ≠ []) :
    ∃ l last, (arrivals pre).list = ⟨l ++ [last], l.length⟩ := by
  have htail := h.tail hne
  have hhead : (arrivals pre).list.head ≠ [] := by
    intro hnil
    rw [hnil] at htail; exact absurd htail (Nat.succ_ne_zero _)
  obtain ⟨l, last, hl⟩ := (eq_nil_or_concat' _).resolve_left hhead
  refine ⟨l, last, ?_⟩
  rw [hl, length_append, length_singleton] at htail
  rw [← Nat.succ.inj htail, ← hl]

theorem Kept.mem_fragno (h : Kept pre) (k : Nat) :
    k ∈ (arrivals pre).list.head.map Frag.fragno ↔ ∃ g ∈ pre, g.fragno = k := by
  rw [(h.received.map Frag.fragno).mem_iff, mem_fragno_firsts]

theorem complete_singleton : Complete [f] ↔ f.fragno = 0 ∧ f.more_frag = false := by
  refine (complete_concat_iff (l := []) (pairwise_singleton _ _)).trans ?_
  refine and_congr_left' ?_
  simp

theorem kept_first (f : Frag) : Kept [f] ↔ InOrder [] f := by
  unfold InOrder
  rw [if_pos rfl, ← complete_singleton]
  constructor
  · intro h hc; exact Bool.false_ne_true (h.present.mpr hc)
  · intro hc
    exact ⟨pairwise_singleton _ _, fun _ => rfl, Perm.refl _, rfl,
      iff_of_false Bool.false_ne_true hc⟩

/-- **One arrival** keeps the list if and only if it is in order. -/
theorem Kept.arrive (h : Kept pre) (hne : pre ≠ []) : Kept (pre ++ [f]) ↔ InOrder pre f := by
  obtain ⟨l, last, hlist⟩ := h.shape hne
  have hs := h.sorted
  have hmem := h.mem_fragno
  have hperm := h.received
  rw [hlist] at hs hmem hperm
  have hlast : ∃ g ∈ pre, g.fragno = last.fragno := (hmem _).mp (by simp)
  have hle : ∀ g ∈ pre, g.fragno ≤ last.fragno := by
    intro g hg
    have hgl := (hmem g.fragno).mpr ⟨g, hg, rfl⟩
    rw [map_append, mem_append] at hgl
    rw [map_append, pairwise_append] at hs
    rcases hgl with hgl | hgl
    · exact Nat.le_of_lt (hs.2.2 _ hgl _ (mem_singleton_self _))
    · exact Nat.le_of_eq (mem_singleton.mp hgl)
  unfold InOrder
  rw [if_neg hne]
  by_cases habove : last.fragno < f.fragno
  · -- a number above all is appended
    have hall : ∀ g ∈ pre, g.fragno < f.fragno := fun g hg => Nat.lt_of_le_of_lt (hle g hg) habove
    refine iff_of_true ?_ (Or.inl hall)
    obtain ⟨hins, hdup⟩ := insert_above (l := l) habove
    have hnew : ¬ ∃ g ∈ pre, g.fragno = f.fragno :=
      fun ⟨g, hg, he⟩ => absurd he (Nat.ne_of_lt (hall g hg))
    obtain ⟨hfirsts, hrepeats⟩ := firsts_of_new hnew
    have hs' : ((l ++ [last] ++ [f]).map Frag.fragno).Pairwise (· < ·) := by
      rw [map_append, pairwise_append]
      refine ⟨hs, pairwise_singleton _ _, fun k hk m hm => ?_⟩
      obtain ⟨g, hg, rfl⟩ := (hmem k).mp hk
      rw [map_singleton, mem_singleton] at hm; exact hm ▸ hall g hg
    have hlen : (l ++ [last]).length = l.length + 1 := by rw [length_append, length_singleton]
    have hperm' : (l ++ [last] ++ [f]).Perm (firsts (pre ++ [f])) := by
      rw [hfirsts]; exact hperm.append_right [f]
    refine ⟨?_, fun _ => ?_, ?_, ?_, ?_⟩
    · rw [arrivals_concat, RxDefrag.arrive, hlist, hins]; exact hs'
    · rw [arrivals_concat, RxDefrag.arrive, hlist, hins]
      rw [length_append, hlen, length_singleton]
    · rw [arrivals_concat, RxDefrag.arrive, hlist, hins]; exact hperm'
    · rw [arrivals_concat, RxDefrag.arrive, hlist, hdup, hrepeats]; exact h.freed
    · rw [arrivals_concat, RxDefrag.arrive, hlist, hins]
      rw [← hlen, all_frag_present_iff (by simp) hs']
      exact ⟨fun hc => hc.perm hperm', fun hc => hc.perm hperm'.symm⟩
  · by_cases hrep : ∃ g ∈ pre, g.fragno = f.fragno
    · -- a number that came before changes nothing, and the MSDU is reported to be incomplete
      obtain ⟨hins, hdup⟩ := insert_again hs ((hmem f.fragno).mpr hrep)
      obtain ⟨hfirsts, hrepeats⟩ := firsts_of_repeat hrep
      have hnot : ¬ ∀ g ∈ pre, g.fragno < f.fragno := by
        obtain ⟨g, hg, he⟩ := hrep
        exact fun hall => absurd he (Nat.ne_of_lt (hall g hg))
      rw [or_iff_right hnot, and_iff_right hrep]
      constructor
      · intro hk hc
        have hpresent := hk.present
        rw [arrivals_concat, RxDefrag.arrive, hlist, hins, hfirsts] at hpresent
        exact Bool.false_ne_true (hpresent.mpr hc)
      · intro hc
        refine ⟨?_, fun _ => ?_, ?_, ?_, ?_⟩
        · rw [arrivals_concat, RxDefrag.arrive, hlist, hins]; exact hs
        · rw [arrivals_concat, RxDefrag.arrive, hlist, hins]
          rw [length_append, length_singleton]
        · rw [arrivals_concat, RxDefrag.arrive, hlist, hins, hfirsts]; exact hperm
        · rw [arrivals_concat, RxDefrag.arrive, hlist, hdup, hrepeats, ← h.freed]; rfl
        · rw [arrivals_concat, RxDefrag.arrive, hlist, hins, hfirsts]
          exact iff_of_false Bool.false_ne_true hc
    · -- a new number below the last one goes behind a larger one
      have hlt : f.fragno < last.fragno := by
        obtain ⟨g, hg, he⟩ := hlast
        rcases Nat.lt_or_eq_of_le (Nat.le_of_not_lt habove) with hlt | heq
        · exact hlt
        · exact absurd ⟨g, hg, he.trans heq.symm⟩ hrep
      refine iff_of_false ?_ ?_
      · intro hk
        have hsorted := hk.sorted
        rw [arrivals_concat, RxDefrag.arrive, hlist] at hsorted
        exact insert_below hlt (fun hin => hrep ((hmem _).mp hin)) hsorted
      · rintro (hall | ⟨hrep', -⟩)
        · obtain ⟨g, hg, he⟩ := hlast
          have hglt := hall g hg
          omega
        · exact hrep hrep'

end Runs

/-- **The fragment list is kept**, after each of the fragments `fs`, if and only if all of them come
in order. -/
theorem frags_kept (fs : List Frag) :
    (∀ pre, pre <+: fs → Kept pre) ↔ ∀ pre f, pre ++ [f] <+: fs → InOrder pre f := by
  constructor
  · intro h pre f hpre
    have hkept := h _ hpre
    by_cases hne : pre = []
    · rw [hne] at hkept ⊢
      exact (kept_first f).mp hkept
    · exact ((h pre ((prefix_append pre [f]).trans hpre)).arrive hne).mp hkept
  · intro h pre hpre
    induction pre using List.reverseRecOn with
    | nil => exact kept_nil
    | append_singleton pre f ih =>
      have hord := h pre f hpre
      have hkept := ih ((prefix_append pre [f]).trans hpre)
      by_cases hne : pre = []
      · rw [hne] at hord ⊢
        exact (kept_first f).mpr hord
      · exact (hkept.arrive hne).mpr hord

def fragOfThree (n : Nat) : Frag := ⟨n, 16 * 7 + n, n < 2, 1, 2⟩

/-- Fragment 1 comes before fragment 0: fragment 0 is put behind it, and lost when fragment 2 is
appended at the tail. -/
theorem fragment_lost :
    ¬ Kept [fragOfThree 1, fragOfThree 0] ∧
      (arrivals [fragOfThree 1, fragOfThree 0]).list.head.map Frag.fragno = [1, 0] ∧
      (arrivals [fragOfThree 1, fragOfThree 0, fragOfThree 2]).list.head.map Frag.fragno = [1, 2] ∧
      (arrivals [fragOfThree 1, fragOfThree 0, fragOfThree 2]).freed = [] := by
  refine ⟨fun h => ?_, by decide, by decide, by decide⟩
  have hs := h.sorted
  exact absurd hs (by decide)

end

open Lib.TailQ List Option

/-! The wait list: `ol_rx_defrag_waitlist_remove` takes the last element of the queue for one that
is not on it. -/

def Pdev.waits (s : Pdev) (e : RxReorder) : Prop := (s.frags e).head ≠ []
deriving Decidable

/-- The wait list is `l`. The links of a tid that is not on it are cleared, and without
the host's timeout check it is not used. -/
structure Inv (cfg : Cfg) (s : Pdev) (l : List RxReorder) : Prop where
  holds : Holds s.waitlist .head l
  nodup : l.Nodup
  exact : ∀ e, e ∈ l ↔ s.waits e
  outside : ∀ e, e ∉ l → s.waitlist.tqe_next e = none
  unchecked : cfg.defrag_timeout_check = false → l = []

variable {cfg : Cfg} {s s' : Pdev} {l l₁ l₂ : List RxReorder} {e e' : RxReorder}

theorem init_inv (cfg : Cfg) : Inv cfg Pdev.init [] where
  holds := holds_init
  nodup := nodup_nil
  exact := fun e => by simp [Pdev.waits, Pdev.init, FragList.empty]
  outside := fun _ _ => rfl
  unchecked := fun _ => rfl

@[simp] theorem waits_setFrags_self (fl : FragList) : (s.setFrags e fl).waits e ↔ fl.head ≠ [] := by
  simp only [Pdev.waits, Pdev.setFrags, update_self]

theorem waits_setFrags_of_ne (fl : FragList) (h : e' ≠ e) :
    (s.setFrags e fl).waits e' ↔ s.waits e' := by
  simp only [Pdev.waits, Pdev.setFrags, update_of_ne h]

theorem Inv.last_iff (h : Inv cfg s l) : s.waitlist.tqh_last = .elem e ↔ l.getLast? = some e := by
  rw [h.holds.tqh_last]
  cases l.getLast? with
  | none => simp
  | some b => simp

theorem Inv.next_eq_none (h : Inv cfg s l) :
    s.waitlist.tqe_next e = none ↔ e ∉ l ∨ s.waitlist.tqh_last = .elem e := by
  constructor
  · intro hnext
    by_cases he : e ∈ l
    · right
      obtain ⟨l₁, l₂, rfl⟩ := append_of_mem he
      rw [h.holds.next] at hnext
      rw [h.last_iff, head?_eq_none_iff.mp hnext]; exact getLast?_concat
    · exact Or.inl he
  · rintro (he | hlast)
    · exact h.outside e he
    · rw [h.last_iff] at hlast
      obtain ⟨l₁, rfl⟩ := getLast?_eq_some_iff.mp hlast
      exact h.holds.next

/-! ## Removing -/

theorem Inv.unlink {q : TailQ RxReorder} (h : Inv cfg s (l₁ ++ e :: l₂))
    (hr : s.waitlist.remove e = some q) {s' : Pdev} (hq : s'.waitlist = q.clear e)
    (hfrags : ∀ k, k ≠ e → s'.frags k = s.frags k) (he : ¬ s'.waits e) : Inv cfg s' (l₁ ++ l₂) := by
  have hgone : e ∉ l₁ ++ l₂ := (nodup_middle.mp h.nodup).notMem
  have hholds := h.holds.remove h.nodup (by simp) hr
  refine ⟨?_, (nodup_middle.mp h.nodup).of_cons, fun k => ?_, fun k hk => ?_, fun hcfg => ?_⟩
  · rw [hq]; exact hholds.clear hgone
  · by_cases hke : k = e
    · subst hke; exact ⟨fun hk => absurd hk hgone, fun hk => absurd hk he⟩
    · have hmem : k ∈ l₁ ++ e :: l₂ ↔ k ∈ l₁ ++ l₂ := by
        simp only [mem_append, mem_cons, hke, false_or]
      rw [← hmem, h.exact k, Pdev.waits, Pdev.waits, hfrags k hke]
  · rw [hq]
    by_cases hke : k = e
    · rw [hke]; exact update_self _ _ _
    · refine (update_of_ne hke _ _).trans ?_
      have hout : k ∉ l₁ ++ e :: l₂ := by
        simp only [mem_append, mem_cons, hke, false_or]
        rwa [mem_append] at hk
      -- the one address that is written is that of the head or of an element
      have hderef := @remove_deref _ _ _ _ _ _ (.elem k) hr h.holds.prev
      rw [if_neg] at hderef
      · exact hderef.trans (h.outside k hout)
      · cases hl : l₁.getLast? with
        | none => simp
        | some b =>
          intro heq
          obtain rfl : k = b := Loc.elem.inj heq
          exact hk (mem_append_left _ (mem_of_getLast? hl))
  · exact absurd (h.unchecked hcfg) (by simp)

theorem Inv.waitlist_remove (h : Inv cfg s l) (hlast : s.waitlist.tqh_last ≠ .elem e) :
    e ∉ l ∧ ol_rx_defrag_waitlist_remove s e = some s ∨
      ∃ l₁ l₂ q, l = l₁ ++ e :: l₂ ∧ s.waitlist.remove e = some q ∧
        ol_rx_defrag_waitlist_remove s e = some { s with waitlist := q.clear e } := by
  by_cases he : e ∈ l
  · right
    obtain ⟨l₁, l₂, rfl⟩ := append_of_mem he
    obtain ⟨q, hq⟩ := h.holds.remove_some
    have hnext : s.waitlist.tqe_next e ≠ none := by
      intro hnone
      rcases h.next_eq_none.mp hnone with hout | hl
      · exact hout he
      · exact hlast hl
    refine ⟨l₁, l₂, q, rfl, hq, ?_⟩
    rw [ol_rx_defrag_waitlist_remove, if_pos hnext, hq, map_some]
  · left
    refine ⟨he, ?_⟩
    rw [ol_rx_defrag_waitlist_remove, if_neg (by rw [h.outside e he]; simp)]

theorem Inv.waitlist_remove_last (h : Inv cfg s l) (hlast : s.waitlist.tqh_last = .elem e) :
    ol_rx_defrag_waitlist_remove s e = some s := by
  rw [ol_rx_defrag_waitlist_remove, if_neg (by rw [h.next_eq_none.mpr (Or.inr hlast)]; simp)]

theorem Inv.setFrags (h : Inv cfg s l) (fl : FragList) (he : e ∈ l ↔ fl.head ≠ []) :
    Inv cfg (s.setFrags e fl) l :=
  { h with
    exact := fun k => by
      by_cases hke : k = e
      · subst hke
        rw [waits_setFrags_self]; exact he
      · rw [waits_setFrags_of_ne fl hke]; exact h.exact k }

/-! ## Adding -/

theorem insertTail_next_of_ne {q : TailQ RxReorder} (hk : e' ≠ e) (hlast : q.tqh_last ≠ .elem e') :
    (q.insertTail e).tqe_next e' = q.tqe_next e' := by
  have h := insertTail_deref_of_ne (q := q) (a := e) (p := .elem e') hlast.symm (by simpa using hk)
  exact h

theorem Inv.link {s' : Pdev} (h : Inv cfg s l) (he : e ∉ l) (hcfg : cfg.defrag_timeout_check = true)
    (hq : s'.waitlist = s.waitlist.insertTail e) (hfrags : ∀ k, k ≠ e → s'.frags k = s.frags k)
    (hwaits : s'.waits e) : Inv cfg s' (l ++ [e]) := by
  refine ⟨?_, ?_, fun k => ?_, fun k hk => ?_, fun hoff => ?_⟩
  · rw [hq]; exact h.holds.insertTail h.nodup (by simp) he (by simp)
  · rw [nodup_append]
    refine ⟨h.nodup, nodup_singleton e, fun a ha b hb => ?_⟩
    rw [mem_singleton.mp hb]
    rintro rfl; exact he ha
  · by_cases hke : k = e
    · subst hke
      simp only [mem_append, mem_singleton, or_true, true_iff]
      exact hwaits
    · simp only [mem_append, mem_singleton, hke, or_false]
      rw [h.exact k, Pdev.waits, Pdev.waits, hfrags k hke]
  · rw [mem_append, mem_singleton, not_or] at hk
    rw [hq, insertTail_next_of_ne hk.2]
    · exact h.outside k hk.1
    · rw [Ne, h.last_iff]
      intro heq; exact hk.1 (mem_of_getLast? heq)
  · rw [hcfg] at hoff; exact absurd hoff (by simp)

/-! ## Flushing -/

theorem flushLoop_prefix {now_ms : Nat} (passes : Nat) (h : Inv cfg s (l₁ ++ e :: l₂))
    (hold : ∀ k ∈ l₁, s.defrag_timeout_ms k ≤ now_ms) :
    ∃ s₁, flushLoop now_ms (l₁.length + passes) (l₁ ++ e :: l₂).head? s
        = flushLoop now_ms passes (some e) s₁ ∧
      Inv cfg s₁ (e :: l₂) ∧ s₁.defrag_timeout_ms = s.defrag_timeout_ms := by
  induction l₁ generalizing s with
  | nil =>
    refine ⟨s, ?_, h, rfl⟩
    rw [length_nil, Nat.zero_add]; rfl
  | cons k l₁ ih =>
    have h : Inv cfg s ([] ++ k :: (l₁ ++ e :: l₂)) := h
    -- `k` is not the last, so that it is removed
    have hnext : s.waitlist.tqe_next k = (l₁ ++ e :: l₂).head? := h.holds.next
    have hsome : s.waitlist.tqe_next k ≠ none := by
      rw [hnext]
      cases l₁ with
      | nil => simp
      | cons b l₁ => simp
    obtain ⟨q, hq⟩ := h.holds.remove_some
    have hrem : ol_rx_defrag_waitlist_remove s k = some { s with waitlist := q.clear k } := by
      rw [ol_rx_defrag_waitlist_remove, if_pos hsome, hq, map_some]
    have hinv : Inv cfg (ol_rx_reorder_flush_frag { s with waitlist := q.clear k } k)
        (l₁ ++ e :: l₂) := by
      refine Inv.unlink h hq rfl (fun k' hk' => ?_) ?_
      · exact update_of_ne hk' _ _
      · rw [ol_rx_reorder_flush_frag, waits_setFrags_self]; simp [FragList.empty]
    obtain ⟨s₁, hloop, hinv₁, htime⟩ := ih hinv fun k' hk' =>
      hold k' (mem_cons_of_mem k hk')
    refine ⟨s₁, ?_, hinv₁, htime⟩
    rw [length_cons, Nat.add_right_comm]
    have hstale := hold k mem_cons_self
    rw [cons_append, head?_cons, flushLoop, if_neg (by omega), hrem, bind_some, hnext]
    exact hloop

theorem flush_fresh {now_ms : Nat} (passes : Nat) (h : Inv cfg s (l₁ ++ e :: l₂))
    (hold : ∀ k ∈ l₁, s.defrag_timeout_ms k ≤ now_ms) (hnew : s.defrag_timeout_ms e > now_ms) :
    ∃ s₁, ol_rx_defrag_waitlist_flush s now_ms (l₁.length + (passes + 1)) = some s₁ ∧
      Inv cfg s₁ (e :: l₂) := by
  obtain ⟨s₁, hloop, hinv, htime⟩ := flushLoop_prefix (passes + 1) h hold
  refine ⟨s₁, ?_, hinv⟩
  rw [ol_rx_defrag_waitlist_flush, show s.waitlist.tqh_first = _ from h.holds.first, hloop,
    flushLoop, if_pos (by rw [htime]; exact hnew)]

/-- The loop that goes to the end of the list leaves the last tid on it, without its
fragments. -/
theorem flush_stale {now_ms : Nat} (passes : Nat) (h : Inv cfg s (l₁ ++ [e]))
    (hold : ∀ k ∈ l₁ ++ [e], s.defrag_timeout_ms k ≤ now_ms) :
    ∃ s₁, ol_rx_defrag_waitlist_flush s now_ms (l₁.length + (passes + 1)) = some s₁ ∧
      Holds s₁.waitlist .head [e] ∧ ¬ s₁.waits e := by
  obtain ⟨s₁, hloop, hinv, htime⟩ := flushLoop_prefix (passes + 1) h
    fun k hk => hold k (mem_append_left _ hk)
  have hstale := hold e (mem_append_right _ mem_cons_self)
  have hlast : s₁.waitlist.tqh_last = .elem e := hinv.holds.tqh_last
  have hnext : s₁.waitlist.tqe_next e = none := hinv.next_eq_none.mpr (Or.inr hlast)
  refine ⟨ol_rx_reorder_flush_frag s₁ e, ?_, hinv.holds, ?_⟩
  · rw [ol_rx_defrag_waitlist_flush, show s.waitlist.tqh_first = _ from h.holds.first, hloop,
      flushLoop, if_neg (by rw [htime]; omega), hinv.waitlist_remove_last hlast, bind_some,
      hnext]
    cases passes with
    | zero => rfl
    | succ n => rfl
  · rw [ol_rx_reorder_flush_frag, waits_setFrags_self]; simp [FragList.empty]

theorem flush_short {now_ms passes : Nat} (h : Inv cfg s (l₁ ++ l₂)) (hl₂ : l₂ ≠ [])
    (hold : ∀ k ∈ l₁, s.defrag_timeout_ms k ≤ now_ms) (hp : passes ≤ l₁.length) :
    ol_rx_defrag_waitlist_flush s now_ms passes = none := by
  obtain ⟨k, rest, hrest⟩ : ∃ k rest, l₁.drop passes ++ l₂ = k :: rest :=
    exists_cons_of_ne_nil (by simp [hl₂])
  have hsplit : l₁ ++ l₂ = l₁.take passes ++ k :: rest := by
    rw [← hrest, ← append_assoc, take_append_drop]
  rw [hsplit] at h
  obtain ⟨s₁, hloop, -, -⟩ := flushLoop_prefix 0 h fun k' hk' => hold k' (mem_of_mem_take hk')
  rw [length_take, Nat.min_eq_left hp, Nat.add_zero] at hloop
  rw [ol_rx_defrag_waitlist_flush, show s.waitlist.tqh_first = _ from h.holds.first, hloop]; rfl

theorem split_fresh (s : Pdev) (now_ms : Nat) (l : List RxReorder) :
    (∀ k ∈ l, s.defrag_timeout_ms k ≤ now_ms) ∨
      ∃ l₁ e l₂, l = l₁ ++ e :: l₂ ∧ (∀ k ∈ l₁, s.defrag_timeout_ms k ≤ now_ms) ∧
        s.defrag_timeout_ms e > now_ms := by
  induction l with
  | nil => exact Or.inl (by simp)
  | cons k l ih =>
    by_cases hk : s.defrag_timeout_ms k ≤ now_ms
    · rcases ih with hall | ⟨l₁, e, l₂, rfl, hold, hnew⟩
      · refine Or.inl fun k' hk' => ?_
        rcases mem_cons.mp hk' with rfl | hl
        · exact hk
        · exact hall k' hl
      · refine Or.inr ⟨k :: l₁, e, l₂, rfl, fun k' hk' => ?_, hnew⟩
        rcases mem_cons.mp hk' with rfl | hl
        · exact hk
        · exact hold k' hl
    · exact Or.inr ⟨[], k, l, rfl, by simp, by omega⟩

/-! ## The whole wait list -/

/-- The wait list is a tail queue of the tids that wait, each once, and a flush is done
after at most as many passes as it has elements. -/
def WaitlistOk (s : Pdev) : Prop :=
  ∃ l, Holds s.waitlist .head l ∧ l.Nodup ∧ (∀ e, e ∈ l ↔ s.waits e) ∧
    ∀ now_ms, ∃ s', ol_rx_defrag_waitlist_flush s now_ms l.length = some s'

theorem not_waitlistOk_of_holds (h : Holds s.waitlist .head l) (he : ¬ (e ∈ l ↔ s.waits e)) :
    ¬ WaitlistOk s := by
  rintro ⟨l', hholds, -, hexact, -⟩
  rw [← hholds.unique h] at he; exact he (hexact e)

/-- One of the tids on the list, within `passes` from `cur` on, is not stale. -/
def fresh (s : Pdev) (now_ms : Nat) : Nat → Option RxReorder → Bool
  | passes + 1, some e =>
    decide (s.defrag_timeout_ms e > now_ms) || fresh s now_ms passes (s.waitlist.tqe_next e)
  | _, _ => false

/-- The steps that keep the list: the tid of a fragment, or of a flush, is not the last
of the list, a flush of stale fragments does not get to the end of it, and nothing else
takes the fragments of a tid that waits or changes its links. -/
def stepOk (cfg : Cfg) (s : Pdev) : Op → Bool
  | .store_frag e _ frag _ =>
    unfragmented s e frag || (cfg.defrag_timeout_check && decide (s.waitlist.tqh_last ≠ .elem e))
  | .flush_frag e => !decide (s.waits e)
  | .reorder_flush e => decide (s.waitlist.tqh_last ≠ .elem e)
  | .reorder_init e => !decide (s.waits e)
  | .waitlist_add _ => false
  | .waitlist_remove e => !decide (s.waits e) || decide (s.waitlist.tqh_last = .elem e)
  | .waitlist_flush now_ms passes =>
    s.waitlist.tqh_first.isNone || fresh s now_ms passes s.waitlist.tqh_first

theorem fresh_eq {now_ms passes : Nat} {p : Loc RxReorder} (h : Holds s.waitlist p l) :
    fresh s now_ms passes l.head? = (l.take passes).any (s.defrag_timeout_ms · > now_ms) := by
  induction passes generalizing p l with
  | zero =>
    cases l with
    | nil => rfl
    | cons e l => rfl
  | succ n ih =>
    cases l with
    | nil => rfl
    | cons e l =>
      have hnext : s.waitlist.tqe_next e = l.head? := h.2.2.first
      rw [head?_cons, fresh, hnext, ih h.2.2, take_succ_cons, any_cons]

theorem insert_head_ne_nil (fl : FragList) (frag : Frag) :
    (ol_rx_fraglist_insert fl frag).1.head ≠ [] := by
  unfold ol_rx_fraglist_insert
  split
  · simp
  · next last hlast =>
    have hne : fl.head ≠ [] := by
      intro hnil
      rw [hnil] at hlast; exact absurd hlast (by simp)
    dsimp only
    split
    · simp
    · split
      · exact hne
      · intro hnil
        have hlen := congrArg List.length hnil
        have hpos := length_pos_iff.mpr hne
        rw [length_insertIdx, length_nil] at hlen
        split at hlen <;> omega

/-- What `ol_rx_reorder_store_frag` comes to for a fragment, once the tid is off the
list. -/
def stored (cfg : Cfg) (s : Pdev) (e : RxReorder) (seq_num now_ms : Nat) (complete : Bool) : Pdev :=
  if complete then
    { s.setFrags e .empty with
      defrag_timeout_ms := update s.defrag_timeout_ms e 0
      tids_last_seq := update s.tids_last_seq e seq_num }
  else if cfg.defrag_timeout_check then
    ol_rx_defrag_waitlist_add { s with
      defrag_timeout_ms := update s.defrag_timeout_ms e ((now_ms + cfg.timeout_ms) % 2 ^ 32) } e
  else s

theorem store_frag_eq {frag : Frag} (h : unfragmented s e frag = false) (seq_num now_ms : Nat) :
    ol_rx_reorder_store_frag cfg s e seq_num frag now_ms =
      (if cfg.defrag_timeout_check then
        ol_rx_defrag_waitlist_remove
          (s.setFrags e (ol_rx_fraglist_insert ((s.frags e).matching frag) frag).1) e
      else
        some (s.setFrags e (ol_rx_fraglist_insert ((s.frags e).matching frag) frag).1)).map fun s₁ =>
          stored cfg s₁ e seq_num now_ms
            (ol_rx_fraglist_insert ((s.frags e).matching frag) frag).2 := by
  rw [ol_rx_reorder_store_frag, h]; rfl

theorem Inv.stored (h : Inv cfg s l) (he : e ∉ l) (hcfg : cfg.defrag_timeout_check = true)
    {s₁ : Pdev} (hq : s₁.waitlist = s.waitlist) (hfrags : ∀ k, k ≠ e → s₁.frags k = s.frags k)
    (hwaits : s₁.waits e) (seq_num now_ms : Nat) (complete : Bool) :
    ∃ l', Inv cfg (stored cfg s₁ e seq_num now_ms complete) l' := by
  cases complete with
  | true =>
    refine ⟨l, ⟨?_, h.nodup, fun k => ?_, ?_, h.unchecked⟩⟩
    · change Holds s₁.waitlist .head l
      rw [hq]; exact h.holds
    · change k ∈ l ↔ (s₁.setFrags e .empty).waits k
      by_cases hke : k = e
      · subst hke
        rw [waits_setFrags_self]; exact ⟨fun hk => absurd hk he, fun hk => absurd rfl hk⟩
      · rw [waits_setFrags_of_ne _ hke, h.exact k, Pdev.waits, Pdev.waits, hfrags k hke]
    · change ∀ k, k ∉ l → s₁.waitlist.tqe_next k = none
      rw [hq]; exact h.outside
  | false =>
    refine ⟨l ++ [e], h.link he hcfg ?_ ?_ ?_⟩
    · rw [RxDefrag.stored, hcfg, ← hq]; rfl
    · rw [RxDefrag.stored, hcfg]; exact hfrags
    · rw [RxDefrag.stored, hcfg]; exact hwaits

theorem Inv.store_frag (h : Inv cfg s l) {seq_num now_ms : Nat} {frag : Frag}
    (hok : stepOk cfg s (.store_frag e seq_num frag now_ms) = true)
    (hs : ol_rx_reorder_store_frag cfg s e seq_num frag now_ms = some s') :
    ∃ l', Inv cfg s' l' := by
  cases hun : unfragmented s e frag with
  | true =>
    rw [ol_rx_reorder_store_frag, if_pos hun] at hs
    cases hs
    refine ⟨l, h.setFrags .empty ?_⟩
    have hnil : (s.frags e).head = [] := by
      simp only [unfragmented, Bool.and_eq_true, List.isEmpty_iff] at hun
      exact hun.2
    rw [h.exact e, Pdev.waits, hnil]; rfl
  | false =>
    rw [stepOk, hun, Bool.false_or, Bool.and_eq_true, decide_eq_true_eq] at hok
    obtain ⟨hcfg, hlast⟩ := hok
    rw [store_frag_eq hun, if_pos hcfg] at hs
    have hfrags : ∀ fl : FragList, ∀ k, k ≠ e → (s.setFrags e fl).frags k = s.frags k :=
      fun fl k hk => update_of_ne hk _ _
    have hwaits := (waits_setFrags_self (s := s) (e := e) _).mpr
      (insert_head_ne_nil ((s.frags e).matching frag) frag)
    by_cases he : e ∈ l
    · -- the tid is taken off the list
      have h₁ := h.setFrags (e := e) (ol_rx_fraglist_insert ((s.frags e).matching frag) frag).1
        ⟨fun _ => insert_head_ne_nil _ _, fun _ => he⟩
      rcases h₁.waitlist_remove (e := e) hlast with ⟨hout, -⟩ | ⟨l₁, l₂, q, rfl, hq, hrem⟩
      · exact absurd he hout
      · rw [hrem, map_some] at hs
        cases hs
        have hgone : e ∉ l₁ ++ l₂ := (nodup_middle.mp h.nodup).notMem
        have h₂ : Inv cfg ({ s with waitlist := q.clear e }.setFrags e .empty) (l₁ ++ l₂) :=
          h.unlink hq rfl (fun k hk => update_of_ne hk _ _) (by simp [FragList.empty])
        refine h₂.stored hgone hcfg ?_ (fun k hk => ?_) ?_ seq_num now_ms _
        · rfl
        · exact (update_of_ne hk _ _).trans (update_of_ne hk _ _).symm
        · exact hwaits
    -- the tid is not on the list, and its cleared link says so
    · have hrem : ∀ fl : FragList, ol_rx_defrag_waitlist_remove (s.setFrags e fl) e
          = some (s.setFrags e fl) := by
        intro fl
        have hnone : (s.setFrags e fl).waitlist.tqe_next e = none := h.outside e he
        rw [ol_rx_defrag_waitlist_remove, if_neg (by rw [hnone]; simp)]
      rw [hrem, map_some] at hs
      cases hs
      refine h.stored he hcfg ?_ (hfrags _) hwaits seq_num now_ms _
      rfl

theorem Inv.waitlist_flush (h : Inv cfg s l) {now_ms passes : Nat}
    (hs : ol_rx_defrag_waitlist_flush s now_ms passes = some s') :
    (stepOk cfg s (.waitlist_flush now_ms passes) = true → ∃ l', Inv cfg s' l') ∧
      (stepOk cfg s (.waitlist_flush now_ms passes) = false → ¬ WaitlistOk s') := by
  have hfirst : s.waitlist.tqh_first = l.head? := h.holds.first
  simp only [stepOk, hfirst, fresh_eq h.holds]
  rcases split_fresh s now_ms l with hall | ⟨l₁, e, l₂, rfl, hold, hnew⟩
  -- all tids have timed out: the walk reaches the last one, which stays on the list
  · rcases eq_nil_or_concat' l with rfl | ⟨l₁, e, rfl⟩
    · rw [ol_rx_defrag_waitlist_flush, hfirst] at hs
      have heq : s = s' := by
        cases passes with
        | zero => exact some.inj hs
        | succ n => exact some.inj hs
      subst heq; exact ⟨fun _ => ⟨[], h⟩, fun hfalse => absurd hfalse (by simp)⟩
    · have hlong : l₁.length < passes := by
        by_contra hshort
        rw [flush_short h (by simp) (fun k hk => hall k (mem_append_left _ hk)) (by omega)] at hs
        exact absurd hs (by simp)
      obtain ⟨n, rfl⟩ : ∃ n, passes = l₁.length + (n + 1) := ⟨passes - l₁.length - 1, by omega⟩
      obtain ⟨s₁, hs₁, hholds, hnot⟩ := flush_stale n h hall
      obtain rfl := some.inj (hs.symm.trans hs₁)
      refine ⟨fun htrue => ?_, fun _ => ?_⟩
      · rw [Bool.or_eq_true] at htrue
        rcases htrue with hnone | hany
        · cases l₁ with
          | nil => simp at hnone
          | cons a l₁ => simp at hnone
        · obtain ⟨k, hk, hkt⟩ := any_eq_true.mp hany
          have := hall k (mem_of_mem_take hk)
          simp only [gt_iff_lt, decide_eq_true_eq] at hkt
          omega
      · refine not_waitlistOk_of_holds (e := e) hholds fun hiff => ?_
        exact hnot (hiff.mp mem_cons_self)
  -- the walk stops at the first tid that has not
  · have hlong : l₁.length < passes := by
      by_contra hshort
      rw [flush_short h (by simp) hold (by omega)] at hs; exact absurd hs (by simp)
    obtain ⟨n, rfl⟩ : ∃ n, passes = l₁.length + (n + 1) := ⟨passes - l₁.length - 1, by omega⟩
    obtain ⟨s₁, hs₁, hinv⟩ := flush_fresh n h hold hnew
    obtain rfl := some.inj (hs.symm.trans hs₁)
    refine ⟨fun _ => ⟨_, hinv⟩, fun hfalse => ?_⟩
    rw [Bool.or_eq_false_iff] at hfalse
    have hany : ((l₁ ++ e :: l₂).take (l₁.length + (n + 1))).any
        (s.defrag_timeout_ms · > now_ms) = true := by
      refine any_eq_true.mpr ⟨e, ?_, by simpa using hnew⟩
      rw [take_length_add_append, take_succ_cons]; exact mem_append_right _ mem_cons_self
    rw [hany] at hfalse; exact absurd hfalse.2 (by simp)

theorem Inv.reorder_init (h : Inv cfg s l) (he : e ∉ l) :
    Inv cfg (ol_rx_reorder_init s e) l where
  holds := h.holds.clear he
  nodup := h.nodup
  exact := fun k => by
    change k ∈ l ↔ (s.setFrags e .empty).waits k
    by_cases hke : k = e
    · subst hke
      rw [waits_setFrags_self]; exact ⟨fun hk => absurd hk he, fun hk => absurd rfl hk⟩
    · rw [waits_setFrags_of_ne _ hke]; exact h.exact k
  outside := fun k hk => by
    by_cases hke : k = e
    · rw [hke]; exact update_self _ _ _
    · exact (update_of_ne hke _ _).trans (h.outside k hk)
  unchecked := h.unchecked

theorem Inv.reorder_flush (h : Inv cfg s l) (hs : reorderFlush s e = some s') :
    (s.waitlist.tqh_last ≠ .elem e → ∃ l', Inv cfg s' l') ∧
      (s.waitlist.tqh_last = .elem e → ¬ WaitlistOk s') := by
  rw [reorderFlush] at hs
  refine ⟨fun hlast => ?_, fun hlast => ?_⟩
  · rcases h.waitlist_remove hlast with ⟨hout, -⟩ | ⟨l₁, l₂, q, rfl, hq, -⟩
    · have hnone : (s.setFrags e .empty).waitlist.tqe_next e = none := h.outside e hout
      rw [ol_rx_defrag_waitlist_remove, if_neg (by rw [hnone]; simp)] at hs
      cases hs
      exact ⟨l, h.setFrags .empty ⟨fun hk => absurd hk hout, fun hk => absurd rfl hk⟩⟩
    · have hnext : (s.setFrags e .empty).waitlist.tqe_next e ≠ none := by
        intro hnone
        rcases h.next_eq_none.mp hnone with hout | hl
        · exact hout (by simp)
        · exact hlast hl
      have hq' : (s.setFrags e .empty).waitlist.remove e = some q := hq
      rw [ol_rx_defrag_waitlist_remove, if_pos hnext, hq', map_some] at hs
      cases hs
      exact ⟨l₁ ++ l₂, h.unlink hq rfl (fun k hk => update_of_ne hk _ _)
        (by simp [Pdev.waits, Pdev.setFrags, FragList.empty])⟩
  · have he : e ∈ l := mem_of_getLast? (h.last_iff.mp hlast)
    have hnone : (s.setFrags e .empty).waitlist.tqe_next e = none :=
      h.next_eq_none.mpr (Or.inr hlast)
    rw [ol_rx_defrag_waitlist_remove, if_neg (by rw [hnone]; simp)] at hs
    cases hs
    refine not_waitlistOk_of_holds (e := e) h.holds fun hiff => ?_
    exact (waits_setFrags_self _).mp (hiff.mp he) rfl

theorem step_inv {op : Op} (h : Inv cfg s l) (hok : stepOk cfg s op = true)
    (hs : step cfg s op = some s') : ∃ l', Inv cfg s' l' := by
  cases op with
  | store_frag e seq_num frag now_ms => exact h.store_frag hok hs
  | flush_frag e =>
    cases hs
    simp only [stepOk, Bool.not_eq_true', decide_eq_false_iff_not] at hok
    refine ⟨l, h.setFrags .empty ⟨fun he => absurd ((h.exact e).mp he) hok, fun hne => ?_⟩⟩
    exact absurd rfl hne
  | reorder_flush e =>
    simp only [stepOk, decide_eq_true_eq] at hok
    exact (h.reorder_flush hs).1 hok
  | reorder_init e =>
    cases hs
    simp only [stepOk, Bool.not_eq_true', decide_eq_false_iff_not] at hok
    exact ⟨l, h.reorder_init fun he => hok ((h.exact e).mp he)⟩
  | waitlist_add e => exact absurd hok (by simp [stepOk])
  | waitlist_remove e =>
    simp only [stepOk, Bool.or_eq_true, Bool.not_eq_true', decide_eq_false_iff_not,
      decide_eq_true_eq] at hok
    have hnone : s.waitlist.tqe_next e = none := by
      refine h.next_eq_none.mpr ?_
      rcases hok with hw | hlast
      · exact Or.inl fun he => hw ((h.exact e).mp he)
      · exact Or.inr hlast
    simp only [step, ol_rx_defrag_waitlist_remove] at hs
    rw [if_neg (by rw [hnone]; simp)] at hs
    cases hs
    exact ⟨l, h⟩
  | waitlist_flush now_ms passes => exact (h.waitlist_flush hs).1 hok

end Qcacld.RxDefrag
