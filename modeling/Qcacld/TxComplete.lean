/-
Completed tx frames and the pool of descriptors: `ol_tx_send.c`.

What happens to a regular frame is up to the build: its descriptor is put on a list that is freed
after the loop, or, with QCA_TX_SINGLE_COMPLETIONS, it is linked into a local chain that is spliced
into the free list of the pool at once; every other frame is freed by itself, unless
QCA_TX_STD_PATH_ONLY says that there are none. The builds are those without ATH_11AC_TXCOMPACT,
where there are references, and with one pool for all. The scheduler, which both functions call at
last, is not part of them here.
-/
import Mathlib.Data.UInt
import Qcacld.Lib.Chain
import Qcacld.TxDescHl

set_option autoImplicit false

namespace Qcacld.TxComplete

open Function
open Lib TxDescHl

section

inductive Build where
  | batch
  | single
  | single_std_only

structure TxDesc where
  pkt_type : PktType
  ref_cnt : Int
  /-- The tx status is `htt_tx_status_ok`. -/
  status_ok : Bool

/-- A descriptor on a list of free ones is used as the pointer to the next one. -/
structure Pdev (ι : Type) where
  desc : ι → TxDesc
  next : ι → Option ι
  freelist : Option ι
  num_free : UInt16
  is_high_latency : Bool
  rsrc_cnt : Int
  target_tx_credit : Int

structure Locals (ι : Type) where
  lcl_freelist : Option ι
  tx_desc_last : Option ι
  tx_descs : List ι

def Locals.init {ι : Type} : Locals ι :=
  { lcl_freelist := none, tx_desc_last := none, tx_descs := [] }

variable {ι : Type} [DecidableEq ι]

/-! ## Freeing descriptors -/

def ol_tx_put_desc_global_pool (s : Pdev ι) (d : ι) : Pdev ι :=
  { s with
    next := update s.next d s.freelist
    freelist := some d
    num_free := s.num_free + 1 }

def ol_tx_desc_free (s : Pdev ι) (d : ι) : Pdev ι := ol_tx_put_desc_global_pool s d

def Pdev.setRef (s : Pdev ι) (d : ι) (n : Int) : Pdev ι :=
  { s with desc := update s.desc d { s.desc d with ref_cnt := n } }

def ol_tx_desc_frame_free_nonstd (s : Pdev ι) (d : ι) : Pdev ι := ol_tx_desc_free (s.setRef d 0) d

def ol_tx_desc_frame_list_free (s : Pdev ι) (tx_descs : List ι) : Pdev ι :=
  tx_descs.foldl (fun s d => ol_tx_desc_free (s.setRef d 0) d) s

/-! ## Completing a frame -/

def ol_tx_msdu_complete_single (c : Pdev ι × Locals ι) (d : ι) : Pdev ι × Locals ι :=
  ({ c.1.setRef d 0 with next := update c.1.next d c.2.lcl_freelist },
    { c.2 with
      tx_desc_last := if c.2.lcl_freelist = none then some d else c.2.tx_desc_last
      lcl_freelist := some d })

def ol_tx_msdu_complete_batch (c : Pdev ι × Locals ι) (d : ι) : Pdev ι × Locals ι :=
  (c.1, { c.2 with tx_descs := c.2.tx_descs ++ [d] })

def ol_tx_msdu_complete (b : Build) (c : Pdev ι × Locals ι) (d : ι) : Pdev ι × Locals ι :=
  match b with
  | .single_std_only => ol_tx_msdu_complete_single c d
  | .single =>
    if (c.1.desc d).pkt_type = .std then ol_tx_msdu_complete_single c d
    else (ol_tx_desc_frame_free_nonstd c.1 d, c.2)
  | .batch =>
    if (c.1.desc d).pkt_type = .std then ol_tx_msdu_complete_batch c d
    else (ol_tx_desc_frame_free_nonstd c.1 d, c.2)

def dropRef (b : Build) (c : Pdev ι × Locals ι) (d : ι) : Pdev ι × Locals ι :=
  let ref_cnt := (c.1.desc d).ref_cnt - 1
  let s := c.1.setRef d ref_cnt
  if ref_cnt = 0 then ol_tx_msdu_complete b (s, c.2) d else (s, c.2)

/-! ## The two handlers -/

def Pdev.splice (s : Pdev ι) (l : Locals ι) : Pdev ι :=
  { s with
    next := l.tx_desc_last.elim s.next fun last => update s.next last s.freelist
    freelist := l.lcl_freelist }

def Pdev.setStatus (s : Pdev ι) (d : ι) (status_ok : Bool) : Pdev ι :=
  { s with desc := update s.desc d { s.desc d with status_ok := status_ok } }

def completeOne (b : Build) (status_ok : Bool) (c : Pdev ι × Locals ι) (d : ι) :
    Pdev ι × Locals ι := dropRef b (c.1.setStatus d status_ok, c.2) d

def ol_tx_completion_handler (b : Build) (status_ok : Bool) (s : Pdev ι) (desc_ids : List ι) :
    Pdev ι :=
  let c := desc_ids.foldl (completeOne b status_ok) (s, Locals.init)
  let s :=
    if c.2.lcl_freelist ≠ none then
      { c.1.splice c.2 with num_free := c.1.num_free + UInt16.ofNat desc_ids.length }
    else ol_tx_desc_frame_list_free c.1 c.2.tx_descs
  if s.is_high_latency then { s with rsrc_cnt := s.rsrc_cnt + desc_ids.length }
  else { s with target_tx_credit := s.target_tx_credit + desc_ids.length }

def ol_tx_inspect_handler (b : Build) (s : Pdev ι) (desc_ids : List ι) : Pdev ι :=
  let c := desc_ids.foldl (dropRef b) (s, Locals.init)
  let s :=
    if c.2.lcl_freelist ≠ none then c.1.splice c.2
    else ol_tx_desc_frame_list_free c.1 c.2.tx_descs
  if s.is_high_latency then s
  else { s with target_tx_credit := s.target_tx_credit + desc_ids.length }

end

open List

/-! Each round adds the descriptor whose last reference goes to the free list, the local chain, or
the list that is freed after the loop. -/

/-! ## Where a descriptor goes -/

def Build.chains : Build → PktType → Bool
  | .batch, _ => false
  | .single, t => t = .std
  | .single_std_only, _ => true

def Build.lists : Build → PktType → Bool
  | .batch, t => t = .std
  | .single, _ => false
  | .single_std_only, _ => false

def Build.frees (b : Build) (t : PktType) : Bool := !b.chains t && !b.lists t

variable {ι : Type}

def Pdev.refs (s : Pdev ι) (d : ι) : Int := (s.desc d).ref_cnt

def Pdev.types (s : Pdev ι) (d : ι) : PktType := (s.desc d).pkt_type

/-- On the free list, once, is each descriptor that has no reference and is not held by the host
for a frame yet to be sent. -/
structure Freelist (held : ι → Prop) (s : Pdev ι) (l : List ι) : Prop where
  freelist : Linked s.next s.freelist l none
  nodup : l.Nodup
  mem : ∀ d, d ∈ l ↔ s.refs d ≤ 0 ∧ ¬ held d
  held : ∀ d, held d → s.refs d ≤ 0

/-- The pool is right: the free list is, and its length is counted. -/
def Accounted (held : ι → Prop) (s : Pdev ι) : Prop :=
  ∃ l, Freelist held s l ∧ s.num_free.toNat = l.length

variable [DecidableEq ι]

/-! ## Which references are the last -/

def released : (ι → Int) → List ι → List ι
  | _, [] => []
  | refs, d :: ids => (if refs d = 1 then [d] else []) ++ released (update refs d (refs d - 1)) ids

theorem mem_released (refs : ι → Int) (ids : List ι) (d : ι) :
    d ∈ released refs ids ↔ 0 < refs d ∧ refs d ≤ ids.count d := by
  induction ids generalizing refs with
  | nil => simp only [released, not_mem_nil, count_nil, false_iff]; omega
  | cons e ids ih =>
    rw [released, mem_append, ih]
    by_cases hde : d = e
    · rw [hde, update_self, count_cons_self]
      by_cases hone : refs e = 1
      · rw [if_pos hone]
        simp only [mem_singleton, true_or, true_iff]
        omega
      · rw [if_neg hone]
        simp only [not_mem_nil, false_or]
        omega
    · have hnot : d ∉ if refs e = 1 then [e] else [] := by
        split
        · exact fun h => hde (mem_singleton.mp h)
        · exact not_mem_nil
      rw [update_of_ne hde, count_cons_of_ne (Ne.symm hde)]; exact or_iff_right hnot

theorem nodup_released (refs : ι → Int) (ids : List ι) : (released refs ids).Nodup := by
  induction ids generalizing refs with
  | nil => exact nodup_nil
  | cons d ids ih =>
    rw [released]
    split
    · apply nodup_cons.mpr
      refine ⟨fun hd => ?_, ih _⟩
      have hpos := ((mem_released _ ids d).mp hd).1
      rw [update_self] at hpos; omega
    · exact ih _

/-! ## One round -/

theorem Pdev.setRef_desc (s : Pdev ι) (d : ι) (n : Int) :
    (s.setRef d n).desc = update s.desc d { s.desc d with ref_cnt := n } := rfl

theorem Pdev.setRef_refs (s : Pdev ι) (d : ι) (n : Int) :
    (s.setRef d n).refs = update s.refs d n := by
  funext e
  rw [Pdev.refs, Pdev.setRef_desc]
  by_cases hde : e = d
  · rw [hde, update_self, update_self]
  · rw [update_of_ne hde, update_of_ne hde]; rfl

theorem Pdev.setRef_types (s : Pdev ι) (d : ι) (n : Int) : (s.setRef d n).types = s.types := by
  funext e
  rw [Pdev.types, Pdev.setRef_desc]
  by_cases hde : e = d
  · rw [hde, update_self]; rfl
  · rw [update_of_ne hde]; rfl

theorem Pdev.setRef_pkt_type (s : Pdev ι) (d e : ι) (n : Int) :
    ((s.setRef d n).desc e).pkt_type = s.types e := congrFun (s.setRef_types d n) e

structure Loop (c : Pdev ι × Locals ι) (p q : List ι) : Prop where
  pool : Linked c.1.next c.1.freelist p none
  chain : Linked c.1.next c.2.lcl_freelist q none
  last : c.2.tx_desc_last = q.getLast?
  nodup : (p ++ (q ++ c.2.tx_descs)).Nodup
  refs : ∀ d ∈ p ++ (q ++ c.2.tx_descs), c.1.refs d ≤ 0
  num_free : c.1.num_free = UInt16.ofNat p.length

variable {c : Pdev ι × Locals ι}

omit [DecidableEq ι] in
theorem Loop.lcl_freelist_eq {p q : List ι} (h : Loop c p q) : c.2.lcl_freelist = q.head? := by
  by_cases hq : q = []
  · rw [hq]; exact (hq ▸ h.chain : Linked c.1.next c.2.lcl_freelist [] none)
  · exact linked_head h.chain hq

theorem Loop.setRef {p q : List ι} (h : Loop c p q) (d : ι) (n : Int) (hn : n ≤ c.1.refs d) :
    Loop (c.1.setRef d n, c.2) p q := by
  refine ⟨h.pool, h.chain, h.last, h.nodup, ?_, h.num_free⟩
  intro e he
  have hle := h.refs e he
  rw [Pdev.setRef_refs]
  by_cases hde : e = d
  · rw [hde, update_self]; exact le_trans hn (hde ▸ hle)
  · rw [update_of_ne hde]; exact hle

theorem Loop.free {p q : List ι} (h : Loop c p q) (d : ι) (hd : d ∉ p ++ (q ++ c.2.tx_descs)) :
    Loop (ol_tx_desc_frame_free_nonstd c.1 d, c.2) (d :: p) q where
  pool := ⟨rfl, by
    rw [mem_append, not_or] at hd
    change Linked (update c.1.next d c.1.freelist) (update c.1.next d c.1.freelist d) p none
    rw [update_self]; exact (linked_update_of_notMem hd.1).mpr h.pool⟩
  chain := by
    have hq : d ∉ q := fun he =>
      hd (mem_append_right p (mem_append_left c.2.tx_descs he))
    exact (linked_update_of_notMem hq).mpr h.chain
  last := h.last
  nodup := nodup_cons.mpr ⟨hd, h.nodup⟩
  num_free := by
    change c.1.num_free + 1 = _
    rw [h.num_free, length_cons, UInt16.ofNat_add]; rfl
  refs := by
    intro e he
    change (c.1.setRef d 0).refs e ≤ 0
    rw [Pdev.setRef_refs]
    by_cases hde : e = d
    · rw [hde, update_self]
    · rw [update_of_ne hde]; exact h.refs e ((mem_cons.mp he).resolve_left hde)

theorem Loop.chained {p q : List ι} (h : Loop c p q) (d : ι) (hd : d ∉ p ++ (q ++ c.2.tx_descs)) :
    Loop (ol_tx_msdu_complete_single c d) p (d :: q) where
  pool := by
    have hp : d ∉ p := fun he => hd (mem_append_left _ he)
    exact (linked_update_of_notMem hp).mpr h.pool
  chain := ⟨rfl, by
    have hq : d ∉ q := fun he =>
      hd (mem_append_right p (mem_append_left c.2.tx_descs he))
    change Linked (update c.1.next d c.2.lcl_freelist) (update c.1.next d c.2.lcl_freelist d) q none
    rw [update_self]; exact (linked_update_of_notMem hq).mpr h.chain⟩
  last := by
    change (if c.2.lcl_freelist = none then some d else c.2.tx_desc_last) = _
    have hnone : c.2.lcl_freelist = none ↔ q = [] := by
      rw [h.lcl_freelist_eq, head?_eq_none_iff]
    by_cases hq : q = []
    · rw [if_pos (hnone.mpr hq), hq]; rfl
    · rw [if_neg (hnone.not.mpr hq), h.last, getLast?_cons_of_ne_nil hq]
  nodup := by apply (perm_middle.nodup_iff).mpr; exact nodup_cons.mpr ⟨hd, h.nodup⟩
  num_free := h.num_free
  refs := by
    intro e he
    change (c.1.setRef d 0).refs e ≤ 0
    rw [Pdev.setRef_refs]
    by_cases hde : e = d
    · rw [hde, update_self]
    · rw [update_of_ne hde]
      apply h.refs e
      exact (mem_cons.mp (perm_middle.mem_iff.mp he)).resolve_left hde

omit [DecidableEq ι] in
theorem Loop.listed {p q : List ι} (h : Loop c p q) (d : ι) (hd : d ∉ p ++ (q ++ c.2.tx_descs))
    (hzero : c.1.refs d ≤ 0) : Loop (ol_tx_msdu_complete_batch c d) p q := by
  have hperm : (p ++ (q ++ (c.2.tx_descs ++ [d]))).Perm (d :: (p ++ (q ++ c.2.tx_descs))) := by
    rw [← append_assoc q, ← append_assoc p]; exact perm_append_singleton d _
  refine ⟨h.pool, h.chain, h.last, ?_, ?_, h.num_free⟩
  · exact hperm.nodup_iff.mpr (nodup_cons.mpr ⟨hd, h.nodup⟩)
  · intro e he
    rcases mem_cons.mp (hperm.mem_iff.mp he) with rfl | he
    · exact hzero
    · exact h.refs e he

def place (d : ι) (p : Bool) : List ι := if p then [d] else []

def Pdev.isLast (s : Pdev ι) (d : ι) : Bool := s.refs d = 1

theorem dropRef_loop {p q : List ι} (b : Build) (h : Loop c p q) (d : ι) :
    Loop (dropRef b c d) (place d (c.1.isLast d && b.frees (c.1.types d)) ++ p)
      (place d (c.1.isLast d && b.chains (c.1.types d)) ++ q) := by
  have hdrop := h.setRef d ((c.1.desc d).ref_cnt - 1) (Int.sub_le_self _ Int.one_nonneg)
  by_cases hlast : c.1.refs d = 1
  · have hd : d ∉ p ++ (q ++ c.2.tx_descs) := fun he => by have hle := h.refs d he; omega
    have hzero : (c.1.desc d).ref_cnt - 1 = 0 := Int.sub_eq_zero.mpr hlast
    have hisLast : c.1.isLast d = true := decide_eq_true hlast
    simp only [dropRef, hzero, if_true, hisLast, Bool.true_and]
    rw [hzero] at hdrop
    cases b with
    | batch =>
      by_cases hstd : c.1.types d = .std
      · have hlisted := hdrop.listed d hd (by rw [Pdev.setRef_refs, update_self])
        simpa [ol_tx_msdu_complete, Pdev.setRef_pkt_type, hstd, place, Build.frees, Build.chains,
          Build.lists] using hlisted
      · simpa [ol_tx_msdu_complete, Pdev.setRef_pkt_type, hstd, place, Build.frees, Build.chains,
          Build.lists] using hdrop.free d hd
    | single =>
      by_cases hstd : c.1.types d = .std
      · simpa [ol_tx_msdu_complete, Pdev.setRef_pkt_type, hstd, place, Build.frees, Build.chains,
          Build.lists] using hdrop.chained d hd
      · simpa [ol_tx_msdu_complete, Pdev.setRef_pkt_type, hstd, place, Build.frees, Build.chains,
          Build.lists] using hdrop.free d hd
    | single_std_only => exact hdrop.chained d hd
  · have hne : (c.1.desc d).ref_cnt - 1 ≠ 0 := fun h => hlast (Int.sub_eq_zero.mp h)
    have hisLast : c.1.isLast d = false := decide_eq_false hlast
    rw [dropRef, if_neg hne, hisLast, Bool.false_and, Bool.false_and]; exact hdrop

theorem dropRef_tx_descs (b : Build) (c : Pdev ι × Locals ι) (d : ι) :
    (dropRef b c d).2.tx_descs =
      c.2.tx_descs ++ place d (c.1.isLast d && b.lists (c.1.types d)) := by
  by_cases hlast : c.1.refs d = 1
  · have hzero : (c.1.desc d).ref_cnt - 1 = 0 := Int.sub_eq_zero.mpr hlast
    have hisLast : c.1.isLast d = true := decide_eq_true hlast
    rw [dropRef, if_pos hzero, hisLast, Bool.true_and]
    cases b <;> by_cases hstd : c.1.types d = .std <;>
      simp [ol_tx_msdu_complete, ol_tx_msdu_complete_single, ol_tx_msdu_complete_batch,
        Pdev.setRef_pkt_type, hstd, place, Build.lists]
  · have hne : (c.1.desc d).ref_cnt - 1 ≠ 0 := fun h => hlast (Int.sub_eq_zero.mp h)
    have hisLast : c.1.isLast d = false := decide_eq_false hlast
    rw [dropRef, if_neg hne, hisLast, Bool.false_and]; exact (append_nil _).symm

theorem msdu_complete_desc (b : Build) (c : Pdev ι × Locals ι) (d : ι) :
    (ol_tx_msdu_complete b c d).1.desc = c.1.desc ∨
      (ol_tx_msdu_complete b c d).1.desc = (c.1.setRef d 0).desc := by
  unfold ol_tx_msdu_complete
  split
  · right; rfl
  · split <;> (right; rfl)
  · split
    · left; rfl
    · right; rfl

theorem dropRef_desc (b : Build) (c : Pdev ι × Locals ι) (d : ι) :
    (dropRef b c d).1.desc = (c.1.setRef d ((c.1.desc d).ref_cnt - 1)).desc := by
  simp only [dropRef]
  split
  · rename_i hzero
    rw [hzero]
    rcases msdu_complete_desc b (c.1.setRef d 0, c.2) d with heq | heq
    · exact heq
    · rw [heq]; simp only [Pdev.setRef, update_self, update_idem]
  · rfl

theorem dropRef_refs (b : Build) (c : Pdev ι × Locals ι) (d : ι) :
    (dropRef b c d).1.refs = update c.1.refs d (c.1.refs d - 1) := by
  rw [← Pdev.setRef_refs]
  exact funext fun e => congrArg TxDesc.ref_cnt (congrFun (dropRef_desc b c d) e)

theorem dropRef_types (b : Build) (c : Pdev ι × Locals ι) (d : ι) :
    (dropRef b c d).1.types = c.1.types := by
  rw [← Pdev.setRef_types c.1 d]
  exact funext fun e => congrArg TxDesc.pkt_type (congrFun (dropRef_desc b c d) e)

/-! ## The loop -/

/-- The state before the round, up to what the loop does not look at. -/
structure Pdev.Same (s s' : Pdev ι) : Prop where
  next : s'.next = s.next
  freelist : s'.freelist = s.freelist
  num_free : s'.num_free = s.num_free
  refs : s'.refs = s.refs
  types : s'.types = s.types

omit [DecidableEq ι] in
theorem Pdev.Same.accounted {held : ι → Prop} {s s' : Pdev ι} (hs : s.Same s') :
    Accounted held s' ↔ Accounted held s := by
  constructor
  · rintro ⟨l, h, hnum⟩
    refine ⟨l, ⟨?_, h.nodup, hs.refs ▸ h.mem, hs.refs ▸ h.held⟩, hs.num_free ▸ hnum⟩
    exact hs.next ▸ hs.freelist ▸ h.freelist
  · rintro ⟨l, h, hnum⟩
    refine ⟨l, ⟨?_, h.nodup, hs.refs.symm ▸ h.mem, hs.refs.symm ▸ h.held⟩, hs.num_free.symm ▸ hnum⟩
    exact hs.next.symm ▸ hs.freelist.symm ▸ h.freelist

omit [DecidableEq ι] in
theorem Loop.same {s s' : Pdev ι} {l : Locals ι} {p q : List ι} (h : Loop (s, l) p q)
    (hs : s.Same s') : Loop (s', l) p q where
  pool := by
    rw [hs.next, hs.freelist]; exact h.pool
  chain := by
    rw [hs.next]; exact h.chain
  last := h.last
  nodup := h.nodup
  refs := by
    rw [hs.refs]; exact h.refs
  num_free := hs.num_free.trans h.num_free

omit [DecidableEq ι] in
theorem reverse_filter_place {r : ι → Bool} (d : ι) (x : Bool) (l : List ι) (p : List ι) :
    (l.filter r).reverse ++ (place d (x && r d) ++ p) =
      ((place d x ++ l).filter r).reverse ++ p := by
  rw [filter_append, reverse_append, append_assoc]
  cases x with
  | false => rfl
  | true =>
    rw [Bool.true_and, place, place, if_pos rfl, filter_cons]
    split <;> rfl

theorem released_cons (s : Pdev ι) (d : ι) (ids : List ι) :
    released s.refs (d :: ids) =
      place d (s.isLast d) ++ released (update s.refs d (s.refs d - 1)) ids := by
  rw [released, place, Pdev.isLast]; simp only [decide_eq_true_eq]

/-- A round of one of the two loops. -/
def Round (b : Build) (f : Pdev ι × Locals ι → ι → Pdev ι × Locals ι) : Prop :=
  ∀ c d, ∃ s, c.1.Same s ∧ f c d = dropRef b (s, c.2) d

variable {b : Build} {f : Pdev ι × Locals ι → ι → Pdev ι × Locals ι}

theorem Round.refs (hf : Round b f) (c : Pdev ι × Locals ι) (d : ι) :
    (f c d).1.refs = update c.1.refs d (c.1.refs d - 1) := by
  obtain ⟨s, hs, hfd⟩ := hf c d
  rw [hfd, dropRef_refs, hs.refs]

theorem Round.types (hf : Round b f) (c : Pdev ι × Locals ι) (d : ι) :
    (f c d).1.types = c.1.types := by
  obtain ⟨s, hs, hfd⟩ := hf c d
  rw [hfd, dropRef_types, hs.types]

theorem foldl_loop (hf : Round b f) (ids : List ι) {p q : List ι} (h : Loop c p q) :
    Loop (ids.foldl f c)
      (((released c.1.refs ids).filter fun d => b.frees (c.1.types d)).reverse ++ p)
      (((released c.1.refs ids).filter fun d => b.chains (c.1.types d)).reverse ++ q) := by
  induction ids generalizing c p q with
  | nil => exact h
  | cons d ids ih =>
    obtain ⟨s, hs, hfd⟩ := hf c d
    have hround := dropRef_loop b (h.same hs) d
    rw [Pdev.isLast, hs.refs, hs.types, ← hfd] at hround
    have hrest := ih hround
    rw [hf.refs, hf.types] at hrest
    rw [released_cons, ← reverse_filter_place, ← reverse_filter_place]; exact hrest

theorem foldl_tx_descs (hf : Round b f) (ids : List ι) (c : Pdev ι × Locals ι) :
    (ids.foldl f c).2.tx_descs =
      c.2.tx_descs ++ (released c.1.refs ids).filter fun d => b.lists (c.1.types d) := by
  induction ids generalizing c with
  | nil => exact (append_nil _).symm
  | cons d ids ih =>
    obtain ⟨s, hs, hfd⟩ := hf c d
    have hround : (f c d).2.tx_descs =
        c.2.tx_descs ++ place d (c.1.isLast d && b.lists (c.1.types d)) := by
      rw [hfd, dropRef_tx_descs, Pdev.isLast, Pdev.isLast, hs.refs, hs.types]
    rw [foldl_cons, ih, hround, hf.refs, hf.types, released_cons, filter_append, append_assoc]
    rw [place, place]
    cases c.1.isLast d with
    | false => rfl
    | true => rw [Bool.true_and, if_pos rfl, filter_cons]; rfl

theorem foldl_refs (hf : Round b f) (ids : List ι) (c : Pdev ι × Locals ι) (d : ι) :
    (ids.foldl f c).1.refs d = c.1.refs d - ids.count d := by
  induction ids generalizing c with
  | nil => exact (Int.sub_zero _).symm
  | cons e ids ih =>
    rw [foldl_cons, ih, hf.refs]
    by_cases hde : d = e
    · rw [hde, update_self, count_cons_self]; omega
    · rw [update_of_ne hde, count_cons_of_ne (Ne.symm hde)]

/-! ## After the loop -/

omit [DecidableEq ι] in
theorem Freelist.all_accounted {held : ι → Prop} {s : Pdev ι} {l : List ι}
    (h : Freelist held s l) : Accounted held s ↔ s.num_free.toNat = l.length := by
  constructor
  · rintro ⟨l', h', hlen⟩; rw [hlen, linked_unique h'.freelist h.freelist]
  · exact fun hlen => ⟨l, h, hlen⟩

theorem Loop.splice {p q : List ι} (h : Loop c p q) (hq : q ≠ []) :
    Linked (c.1.splice c.2).next (c.1.splice c.2).freelist (q ++ p) none := by
  obtain ⟨front, last, rfl⟩ : ∃ front last, q = front ++ [last] :=
    ⟨q.dropLast, q.getLast hq, (dropLast_append_getLast hq).symm⟩
  have hnd := h.nodup
  have hlast : c.2.tx_desc_last = some last := by rw [h.last, getLast?_concat]
  have hp : last ∉ p := fun he =>
    disjoint_of_nodup_append hnd he (mem_append_left _ mem_concat_self)
  have hfront : last ∉ front := fun he =>
    disjoint_of_nodup_append hnd.of_append_right.of_append_left he (mem_singleton_self _)
  apply linked_append.mpr
  refine ⟨c.1.freelist, ?_, ?_⟩
  · rw [Pdev.splice, hlast]; exact linked_concat_update h.chain hfront _
  · rw [Pdev.splice, hlast]; exact (linked_update_of_notMem hp).mpr h.pool

theorem Loop.frame_list_free {s : Pdev ι} {l : Locals ι} {p q : List ι} (tx_descs : List ι)
    (h : Loop (s, { l with tx_descs := tx_descs }) p q) :
    Loop (ol_tx_desc_frame_list_free s tx_descs, { l with tx_descs := [] })
      (tx_descs.reverse ++ p) q := by
  induction tx_descs generalizing s p with
  | nil => exact h
  | cons d ds ih =>
    -- the descriptor leaves the list before it goes to the pool
    have hperm : (p ++ (q ++ d :: ds)).Perm (d :: (p ++ (q ++ ds))) :=
      (perm_middle.append_left p).trans perm_middle
    have hnd := nodup_cons.mp (hperm.nodup_iff.mp h.nodup)
    have hleft : Loop (s, { l with tx_descs := ds }) p q :=
      ⟨h.pool, h.chain, h.last, hnd.2,
        fun e he => h.refs e (hperm.mem_iff.mpr (mem_cons_of_mem d he)), h.num_free⟩
    rw [reverse_cons, append_assoc]; exact ih (hleft.free d hnd.1)

theorem frame_list_free_refs (s : Pdev ι) (tx_descs : List ι) (d : ι) :
    (ol_tx_desc_frame_list_free s tx_descs).refs d = if d ∈ tx_descs then 0 else s.refs d := by
  induction tx_descs generalizing s with
  | nil => rfl
  | cons e ds ih =>
    have hstep : (ol_tx_desc_free (s.setRef e 0) e).refs d = (update s.refs e 0) d :=
      congrFun (s.setRef_refs e 0) d
    rw [ol_tx_desc_frame_list_free, foldl_cons, ← ol_tx_desc_frame_list_free, ih, hstep]
    by_cases hde : d = e
    · rw [hde, update_self, if_pos mem_cons_self]
      split <;> rfl
    · rw [update_of_ne hde]; simp only [mem_cons, hde, false_or]

/-- The descriptors that a message frees by way of the local chain: those in builds with such a
chain, of regular frames, that the message names as often as they have references. -/
def Build.spliced (b : Build) (s : Pdev ι) (ids : List ι) : List ι :=
  ids.dedup.filter fun d => b.chains (s.types d) && decide (0 < s.refs d ∧ s.refs d ≤ ids.count d)

theorem length_filter_chains (b : Build) (s : Pdev ι) (ids : List ι) :
    ((released s.refs ids).filter fun d => b.chains (s.types d)).length =
      (b.spliced s ids).length := by
  apply List.Perm.length_eq
  apply (perm_ext_iff_of_nodup _ _).mpr
  · intro d
    rw [Build.spliced, mem_filter, mem_filter, mem_dedup, mem_released,
      Bool.and_eq_true, decide_eq_true_eq]
    constructor
    · rintro ⟨hlast, hchains⟩
      have hcount : 0 < ids.count d := by omega
      exact ⟨count_pos_iff.mp hcount, hchains, hlast⟩
    · rintro ⟨-, hchains, hlast⟩; exact ⟨hlast, hchains⟩
  · exact (nodup_released _ _).filter _
  · exact (nodup_dedup _).filter _

omit [DecidableEq ι] in
theorem mem_places (b : Build) (t : ι → PktType) (l p : List ι) (d : ι) :
    d ∈ ((l.filter fun d => b.frees (t d)).reverse ++ p) ++
        (((l.filter fun d => b.chains (t d)).reverse ++ []) ++
          ([] ++ l.filter fun d => b.lists (t d))) ↔ d ∈ l ∨ d ∈ p := by
  simp only [mem_append, mem_reverse, mem_filter, not_mem_nil, or_false, false_or, Build.frees]
  cases b.chains (t d) <;> cases b.lists (t d) <;> simp [or_comm]

variable {held : ι → Prop} {s : Pdev ι} {p : List ι}

theorem Freelist.after_loop (h : Freelist held s p) (hnum : s.num_free.toNat = p.length)
    (hf : Round b f) (ids : List ι) :
    ∃ p' q, Loop (ids.foldl f (s, Locals.init)) p' q ∧ q.length = (b.spliced s ids).length ∧
      (q ≠ [] → (ids.foldl f (s, Locals.init)).2.tx_descs = []) ∧
      (∀ d, d ∈ p' ++ (q ++ (ids.foldl f (s, Locals.init)).2.tx_descs) ↔
        (ids.foldl f (s, Locals.init)).1.refs d ≤ 0 ∧ ¬ held d) ∧
      ∀ d, held d → (ids.foldl f (s, Locals.init)).1.refs d ≤ 0 := by
  have hstart : Loop (s, Locals.init) p [] := by
    refine ⟨h.freelist, rfl, rfl, ?_, ?_, ?_⟩
    · exact (append_nil p).symm ▸ h.nodup
    · intro d hd; exact ((h.mem d).mp (append_nil p ▸ hd)).1
    · rw [← hnum]; exact (UInt16.ofNat_toNat).symm
  refine ⟨_, _, foldl_loop hf ids hstart, ?_, ?_, ?_, ?_⟩
  · rw [append_nil, length_reverse]; exact length_filter_chains b s ids
  · intro hq
    rw [foldl_tx_descs hf]
    cases b with
    | batch => exact absurd (by simp [Build.chains]) hq
    | single => simp [Build.lists, Locals.init]
    | single_std_only => simp [Build.lists, Locals.init]
  · intro d
    rw [foldl_tx_descs hf, foldl_refs hf]
    refine (mem_places b s.types (released s.refs ids) p d).trans ?_
    rw [mem_released, h.mem]
    have hheld := h.held d
    constructor
    · rintro (hlast | ⟨hle, hnot⟩)
      · refine ⟨Int.sub_nonpos_of_le hlast.2, fun hd => ?_⟩
        have hle := hheld hd
        omega
      · refine ⟨?_, hnot⟩
        change s.refs d - _ ≤ 0
        omega
    · rintro ⟨hle, hnot⟩
      by_cases hpos : 0 < s.refs d
      · exact Or.inl ⟨hpos, Int.le_of_sub_nonpos hle⟩
      · exact Or.inr ⟨Int.not_lt.mp hpos, hnot⟩
  · intro d hd
    rw [foldl_refs hf]
    have hle := h.held d hd
    change s.refs d - _ ≤ 0
    omega

theorem Loop.splice_freelist {q : List ι} (h : Loop c p q) (hq : q ≠ []) (htx : c.2.tx_descs = [])
    (hmem : ∀ d, d ∈ p ++ (q ++ c.2.tx_descs) ↔ c.1.refs d ≤ 0 ∧ ¬ held d)
    (hheld : ∀ d, held d → c.1.refs d ≤ 0) : Freelist held (c.1.splice c.2) (q ++ p) where
  freelist := h.splice hq
  nodup := by
    have hnd := h.nodup
    rw [htx, append_nil] at hnd; exact nodup_append_comm.mp hnd
  mem := by
    intro d
    have hd := hmem d
    rw [htx, append_nil, mem_append, or_comm, ← mem_append] at hd; exact hd
  held := hheld

theorem Loop.frame_list_free_freelist (h : Loop c p [])
    (hmem : ∀ d, d ∈ p ++ ([] ++ c.2.tx_descs) ↔ c.1.refs d ≤ 0 ∧ ¬ held d)
    (hheld : ∀ d, held d → c.1.refs d ≤ 0) :
    Freelist held (ol_tx_desc_frame_list_free c.1 c.2.tx_descs) (c.2.tx_descs.reverse ++ p) := by
  have hfreed := h.frame_list_free c.2.tx_descs
  refine ⟨hfreed.pool, ?_, ?_, ?_⟩
  · exact hfreed.nodup.of_append_left
  · intro d
    rw [frame_list_free_refs, mem_append, mem_reverse, or_comm, ← mem_append]
    refine (hmem d).trans (and_congr_left fun hnot => ?_)
    split
    · rename_i hd
      have hle := ((hmem d).mp (mem_append_right _ hd)).1
      simp [hle]
    · exact Iff.rfl
  · intro d hd
    rw [frame_list_free_refs]
    split
    · exact le_refl 0
    · exact hheld d hd

/-! ## The two handlers -/

theorem round_inspect (b : Build) : Round (ι := ι) b (dropRef b) :=
  fun c _ => ⟨c.1, ⟨rfl, rfl, rfl, rfl, rfl⟩, rfl⟩

theorem Pdev.same_setStatus (s : Pdev ι) (d : ι) (status_ok : Bool) :
    s.Same (s.setStatus d status_ok) := by
  refine ⟨rfl, rfl, rfl, ?_, ?_⟩
  · funext e
    by_cases hde : e = d
    · simp [Pdev.refs, Pdev.setStatus, hde]
    · simp [Pdev.refs, Pdev.setStatus, hde]
  · funext e
    by_cases hde : e = d
    · simp [Pdev.types, Pdev.setStatus, hde]
    · simp [Pdev.types, Pdev.setStatus, hde]

theorem round_complete (b : Build) (status_ok : Bool) :
    Round (ι := ι) b (completeOne b status_ok) :=
  fun c d => ⟨c.1.setStatus d status_ok, c.1.same_setStatus d status_ok, rfl⟩

variable {pool_size : Nat} {held : Fin pool_size → Prop} {s : Pdev (Fin pool_size)}

theorem accounted_after_loop {f : Pdev (Fin pool_size) × Locals (Fin pool_size) → Fin pool_size →
    Pdev (Fin pool_size) × Locals (Fin pool_size)} (hpool : pool_size < 2 ^ 16)
    (hs : Accounted held s) (hf : Round b f) (ids : List (Fin pool_size)) (n : Nat) :
    Accounted held (if (ids.foldl f (s, Locals.init)).2.lcl_freelist ≠ none then
          { (ids.foldl f (s, Locals.init)).1.splice (ids.foldl f (s, Locals.init)).2 with
            num_free := (ids.foldl f (s, Locals.init)).1.num_free + UInt16.ofNat n }
        else ol_tx_desc_frame_list_free (ids.foldl f (s, Locals.init)).1
          (ids.foldl f (s, Locals.init)).2.tx_descs) ↔
      b.spliced s ids = [] ∨ (b.spliced s ids).length = n % 2 ^ 16 := by
  obtain ⟨l, hl, hnum⟩ := hs
  obtain ⟨p, q, hloop, hlen, htx, hmem, hheld⟩ := hl.after_loop hnum hf ids
  generalize ids.foldl f (s, Locals.init) = c at hloop htx hmem hheld ⊢
  have hspliced : b.spliced s ids = [] ↔ q = [] := by
    rw [← length_eq_zero_iff, ← hlen, length_eq_zero_iff]
  have hnone : c.2.lcl_freelist = none ↔ q = [] := by
    rw [hloop.lcl_freelist_eq, head?_eq_none_iff]
  rw [hspliced, ← hlen]
  by_cases hq : q = []
  · subst hq
    have hfree := hloop.frame_list_free_freelist hmem hheld
    have hbound := hfree.nodup.length_le_card
    rw [Fintype.card_fin] at hbound
    rw [if_neg (not_not.mpr (hnone.mpr rfl)), hfree.all_accounted,
      (hloop.frame_list_free c.2.tx_descs).num_free, UInt16.toNat_ofNat',
      Nat.mod_eq_of_lt (by omega)]
    exact ⟨fun _ => Or.inl rfl, fun _ => rfl⟩
  · have hfree := hloop.splice_freelist hq (htx hq) hmem hheld
    have hbound := hfree.nodup.length_le_card
    rw [Fintype.card_fin, length_append] at hbound
    have hfree' : Freelist held { c.1.splice c.2 with num_free := c.1.num_free + UInt16.ofNat n }
        (q ++ p) := ⟨hfree.freelist, hfree.nodup, hfree.mem, hfree.held⟩
    rw [if_pos (hnone.not.mpr hq), hfree'.all_accounted]
    rw [hloop.num_free, ← UInt16.ofNat_add, UInt16.toNat_ofNat', length_append, or_iff_right hq]
    omega

theorem accounted_credit (s : Pdev (Fin pool_size)) (hl : Bool) (rsrc credit : Int) :
    Accounted held
        (if hl then { s with rsrc_cnt := rsrc } else { s with target_tx_credit := credit }) ↔
      Accounted held s := by
  split
  · exact Pdev.Same.accounted ⟨rfl, rfl, rfl, rfl, rfl⟩
  · exact Pdev.Same.accounted ⟨rfl, rfl, rfl, rfl, rfl⟩

/-- After either handler the pool is right if and only if it was spliced nothing, or, after the
completion handler, as many descriptors as the message has, to 16 bits. -/
theorem accounted_iff (hpool : pool_size < 2 ^ 16) (hs : Accounted held s) (b : Build)
    (status_ok : Bool) (desc_ids : List (Fin pool_size)) :
    (Accounted held (ol_tx_completion_handler b status_ok s desc_ids) ↔
      b.spliced s desc_ids = [] ∨ (b.spliced s desc_ids).length = desc_ids.length % 2 ^ 16) ∧
    (Accounted held (ol_tx_inspect_handler b s desc_ids) ↔ b.spliced s desc_ids = []) := by
  constructor
  · rw [← accounted_after_loop hpool hs (round_complete b status_ok) desc_ids desc_ids.length]
    exact accounted_credit _ _ _ _
  · have hloop := accounted_after_loop hpool hs (round_inspect b) desc_ids 0
    rw [Nat.zero_mod, length_eq_zero_iff, or_self] at hloop
    rw [← hloop]
    apply Pdev.Same.accounted
    -- nothing is added to the counter, whichever way the descriptors go
    simp only [ol_tx_inspect_handler]
    split
    · split
      · exact ⟨rfl, rfl, (UInt16.add_zero _).symm, rfl, rfl⟩
      · exact ⟨rfl, rfl, (UInt16.add_zero _).symm, rfl, rfl⟩
    · split
      · exact ⟨rfl, rfl, rfl, rfl, rfl⟩
      · exact ⟨rfl, rfl, rfl, rfl, rfl⟩

/-- A regular frame and one of management, both with the last of their references. -/
def twoFrames : Pdev (Fin 2) where
  desc := fun d => { pkt_type := if d.val = 0 then .std else .mgmt 0, ref_cnt := 1, status_ok := true }
  next := fun _ => none
  freelist := none
  num_free := 0
  is_high_latency := false
  rsrc_cnt := 0
  target_tx_credit := 0

theorem accounted_twoFrames : Accounted (fun _ => False) twoFrames := by
  refine ⟨[], ⟨rfl, nodup_nil, ?_, fun _ hd => hd.elim⟩, rfl⟩
  have hrefs : ∀ d, ¬ twoFrames.refs d ≤ 0 := by decide
  exact fun d => iff_of_false not_mem_nil fun h => hrefs d h.1

theorem accounted_iff_twoFrames :
    Accounted (fun _ => False) (ol_tx_completion_handler .batch true twoFrames [0, 1]) ∧
      Accounted (fun _ => False) (ol_tx_inspect_handler .batch twoFrames [0, 1]) := by
  have h := accounted_iff (by decide) accounted_twoFrames .batch true [0, 1]
  exact ⟨h.1.mpr (Or.inl (by decide)), h.2.mpr (by decide)⟩

/-- Of two descriptors, three are counted as free. -/
theorem completion_counts_message :
    ¬ ∀ (b : Build) (status_ok : Bool) (pool_size : Nat) (held : Fin pool_size → Prop)
        (s : Pdev (Fin pool_size)) (desc_ids : List (Fin pool_size)),
      pool_size < 2 ^ 16 → Accounted held s →
        Accounted held (ol_tx_completion_handler b status_ok s desc_ids) ∧
          Accounted held (ol_tx_inspect_handler b s desc_ids) := by
  intro h
  obtain ⟨l, hl, hnum⟩ :=
    (h .single true 2 (fun _ => False) twoFrames [0, 1] (by decide) accounted_twoFrames).1
  have hlen := hl.nodup.length_le_card
  rw [← hnum] at hlen; exact absurd hlen (by decide)

end Qcacld.TxComplete
