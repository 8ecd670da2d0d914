/-
Descriptor conservation for the LL flow pools.

`Inv` does not say that a freelist belongs to a pool that still exists. A pool deleted by force
while descriptors are in flight is freed at once, and the descriptors that come back later go to the
freed object's list, where no one finds them again (`desc_lost`).
-/
import Qcacld.FlowPoolInv

set_option autoImplicit false

namespace Qcacld.FlowPool

open Lib Function

section

section

/-! ## What the component promises -/

/-- **Descriptor conservation**: every descriptor is in one place, the counters
are the lengths of the lists, and an active pool's size is accounted for. -/
structure DescConserved (s : Pdev) : Prop where
  once : ∀ d, d < s.pool_size →
    s.freelist.count d + tally (fun pool => pool.freelist.count d) s.pool s.flow_pool_list
      + s.inflight.count d = 1
  num_free_eq : s.num_free = s.freelist.length
  avail_eq : ∀ p ∈ s.flow_pool_list, (s.pool p).avail_desc = (s.pool p).freelist.length
  size_eq : ∀ p ∈ s.flow_pool_list,
    (s.pool p).status = .FLOW_POOL_ACTIVE_UNPAUSED ∨
      (s.pool p).status = .FLOW_POOL_ACTIVE_PAUSED →
    (s.pool p).avail_desc + inflightOf s p + (s.pool p).deficient_desc = (s.pool p).flow_pool_size

/-- No descriptor goes back to a pool object that has been freed. -/
def freeOk (s : Pdev) : Op → Bool
  | .free d => (s.desc_pool d).all fun p => p ∉ s.freed
  | _ => true

def FreedEmpty (s : Pdev) : Prop := ∀ p ∈ s.freed, (s.pool p).freelist = []

section Conserved

variable {s s' : Pdev}

theorem afterDelete_freedEmpty {p : Nat} {force : Bool} (hs : FreedEmpty s) :
    FreedEmpty (afterDelete s p force) := by
  intro q hq
  rw [afterDelete_pool]
  split
  · exact deletedPool_freelist
  · next hne =>
    rw [afterDelete_freed] at hq
    split at hq
    · exact hs q ((List.mem_cons.mp hq).resolve_left hne)
    · exact hs q hq

theorem relabel_freedEmpty (hs : FreedEmpty s) (hr : Relabel s s') : FreedEmpty s' := by
  intro p hp
  rw [hr.rest] at hp
  rw [hr.pool p]; exact hs p hp

theorem created_freedEmpty {p size : Nat} (h : Inv s [] 0 0) (hs : FreedEmpty s)
    (hc : Created s s' p size) : FreedEmpty s' := by
  intro q hq
  rw [hc.freed] at hq
  have hne : q ≠ p := by rw [hc.fresh]; exact Nat.ne_of_lt (h.lt_of_freed hq)
  rw [hc.others q hne]; exact hs q hq

/-- Steps that return nothing to a freed pool leave the freed pools' lists
empty. -/
theorem effect_freedEmpty (h : Inv s [] 0 0) (hs : FreedEmpty s) {e : Op}
    (hok : ∀ d p, e = .free d → d ∈ s.inflight → s.desc_pool d = some p → p ∉ s.freed)
    (he : Effect s e s') : FreedEmpty s' := by
  cases he with
  | relabel hr => exact relabel_freedEmpty hs hr
  | create p size hc hinv hr => exact relabel_freedEmpty (created_freedEmpty h hs hc) hr
  | delete p force hr hp _ => exact afterDelete_freedEmpty (relabel_freedEmpty hs hr)
  | create_delete flow_id id size p vdev_ok hc hinv _ =>
    exact afterDelete_freedEmpty (created_freedEmpty h hs hc)
  | alloc v p d mgmt hp hl =>
    have hnf : p ∉ s.freed := fun hf => by rw [hs p hf] at hl; exact absurd hl (by simp)
    intro q hq
    rw [afterAlloc_pool, if_neg fun (he : q = p) => hnf (he ▸ hq)]; exact hs q hq
  | put d p hd hown _ _ =>
    have hnf : p ∉ s.freed := hok d p rfl hd hown
    intro q hq
    rw [afterPut_pool, if_neg fun (he : q = p) => hnf (he ▸ hq)]; exact hs q hq
  | wake d p hd hown _ _ =>
    have hnf : p ∉ s.freed := hok d p rfl hd hown
    intro q hq
    have hne : q ≠ p := fun he => hnf (he ▸ hq)
    rw [afterWake_pool_of_ne hne, afterPut_pool, if_neg hne]; exact hs q hq
  | finish d p hd hown _ _ hinv hfin =>
    have hnf : p ∉ s.freed := hok d p rfl hd hown
    intro q hq
    rw [hfin.freed] at hq
    rcases List.mem_cons.mp hq with rfl | hq
    · exact hfin.freelist
    · -- a freed pool is not on the list, so it gets no share
      have hne : q ≠ p := fun he => hnf (he ▸ hq)
      have hav := (hfin.others q hne).2.2.2
      have hnl : q ∉ (afterPut s p d).flow_pool_list := fun hl => h.not_freed hl hq
      rw [share_of_notMem hnl, afterPut_pool, if_neg hne, h.avail_eq q, hs q hq] at hav
      have hlen := hinv.avail_eq q
      rw [hav] at hlen; exact List.length_eq_zero_iff.mp hlen.symm

theorem Inv.descConserved (h : Inv s [] 0 0) (hs : FreedEmpty s) : DescConserved s where
  once := fun d hd => by
    have ht := h.total d
    have hz : tally (fun pool : OlPool => pool.freelist.count d) s.pool s.freed = 0 :=
      tally_eq_zero _ _ fun p hp => by rw [hs p hp, List.count_nil]
    rw [if_pos hd, inPools, ← tally_perm _ _ h.listed, tally_append, hz] at ht; exact ht
  num_free_eq := h.num_free_eq
  avail_eq := fun p _ => h.avail_eq p
  size_eq := fun p hp _ => by simpa using h.size_eq p hp

/-- **LL tx descriptor conservation.** In every state of every run in which no descriptor is
returned to a pool object that has been freed, each descriptor is on the global freelist, on one
pool's freelist or in flight, the counters are right and each active pool's size is accounted
for. -/
theorem desc_conserved (cfg : Cfg) (n : Nat) (es : List Op) (s : Pdev)
    (h : run (guarded (fun s e => freeOk s e = true) step) (Pdev.init cfg n) es = some s) :
    DescConserved s := by
  have hinv : Inv s [] 0 0 ∧ FreedEmpty s :=
    guarded_run_invariant (I := fun s => Inv s [] 0 0 ∧ FreedEmpty s)
      (fun s e _ hi hok hst => by
        have he := step_effect hi.1 hst
        refine ⟨effect_inv hi.1 he, effect_freedEmpty hi.1 hi.2 (fun d p hd _ hown => ?_) he⟩
        rw [hd, freeOk, hown] at hok; simpa using hok)
      ⟨init_inv cfg n, fun p hp => absurd hp (by simp [Pdev.init])⟩ h
  exact hinv.1.descConserved hinv.2

def cfgDefault : Cfg where
  tx_flow_stop_queue_th := 15
  tx_flow_start_queue_offset := 10
  stop_le := by decide
  offset_le := by decide

/-- A run with two pools, one of them short of descriptors, that deletes the
other with a descriptor in flight. -/
theorem desc_conserved_two_pools :
    ∃ s, run (guarded (fun s e => freeOk s e = true) step) (Pdev.init cfgDefault 5)
        [.map 0 .FLOW_TYPE_VDEV 1 3 true true, .map 1 .FLOW_TYPE_VDEV 2 4 true true,
          .alloc 0 false, .unmap 0 .FLOW_TYPE_VDEV 1 true, .free 2] = some s ∧
      s.freed = [0] ∧ DescConserved s := by
  exact exists_of_tested (fun s => _) (by decide) fun s hs hfreed =>
    ⟨hfreed, desc_conserved _ _ _ s hs⟩

/-- A descriptor that comes back after its pool has been deleted by force is on
no list any more. -/
theorem desc_lost :
    ∃ s, run step (Pdev.init cfgDefault 2)
        [.map 0 .FLOW_TYPE_VDEV 1 2 true true, .alloc 0 false, .delete 0 true, .free 1] = some s ∧
      ¬ DescConserved s := by
  refine exists_of_tested (fun s => 1 < s.pool_size ∧ s.freelist.count 1
      + tally (fun pool => pool.freelist.count 1) s.pool s.flow_pool_list
      + s.inflight.count 1 = 0) (by decide) fun s hs ⟨hlt, hnone⟩ hc => ?_
  have hone := hc.once 1 hlt
  omega

end Conserved

end

open List

/-! Teardown: the moment is recognised by `avail_desc == flow_pool_size`, which is right as long as
nothing is owed to the pool. -/

/-! ## The protocol -/

/-- **The teardown contract**, as a predicate on states. Freed pools are off the
list, and the list is where `ol_tx_distribute_descs_to_deficient_pools` looks
for destinations. -/
structure TornDown (s : Pdev) : Prop where
  freed_iff : ∀ p, p < s.nextPool → (p ∈ s.freed ↔ p ∈ s.deleted ∧ inflightOf s p = 0)
  freed_once : s.freed.Nodup
  unlinked : ∀ p ∈ s.freed, p ∉ s.flow_pool_list
  emptied : ∀ p ∈ s.freed, (s.pool p).freelist = []
  /-- Its descriptors are in other places. -/
  conserved : DescConserved s

/-- A pool is deleted by force only with nothing in flight, and otherwise, if
nothing is in flight, only with nothing owed to it. -/
def deleteOk (s : Pdev) (e : Op) : Bool :=
  (deletes s e).all fun r =>
    if r.2 then inflightOf s r.1 = 0
    else inflightOf s r.1 ≠ 0 || (s.pool r.1).deficient_desc = 0

/-- A pool that a FLOW_POOL_MAP message of an unsupported type creates and
deletes is created in full; an invalid pool is not made active again; and its
last descriptor comes back when nothing is owed to it. -/
def pendingOk (s : Pdev) : Op → Bool
  | .map _ .other id size _ true => (ol_tx_get_flow_pool s id).isSome || size ≤ s.num_free
  | .alloc v mgmt => (allocPool s v mgmt).all fun p =>
    (s.pool p).status ≠ .FLOW_POOL_INVALID || (s.pool p).avail_desc = 0 || !stops (s.pool p)
  | .free d => (s.desc_pool d).all fun p =>
    (s.pool p).status ≠ .FLOW_POOL_INVALID || inflightOf s p ≠ 1 ||
      (s.pool p).deficient_desc = 0
  | _ => true

def teardownOk (s : Pdev) (e : Op) : Bool := deleteOk s e && pendingOk s e

/-! ## The invariant -/

/-- A linked pool is invalid exactly if it has been deleted, and then some of its
descriptors are in flight. -/
structure Pending (s : Pdev) : Prop where
  invalid_iff : ∀ p ∈ s.flow_pool_list,
    (s.pool p).status = .FLOW_POOL_INVALID ↔ p ∈ s.deleted
  inflight_pos : ∀ p ∈ s.flow_pool_list, p ∈ s.deleted → 0 < inflightOf s p
  freed_deleted : ∀ p ∈ s.freed, p ∈ s.deleted ∧ inflightOf s p = 0
  deleted_lt : ∀ p ∈ s.deleted, p < s.nextPool

section Keep

variable {s s' : Pdev} {p : Nat}

theorem relabel_pending (hs : Pending s) (hr : Relabel s s') : Pending s' := by
  have hstat : ∀ q, (s'.pool q).status = (s.pool q).status := fun q => by rw [hr.pool q]
  have hl : s'.flow_pool_list = s.flow_pool_list := relabel_list hr
  have hd : s'.deleted = s.deleted := by rw [hr.rest]
  have hf : s'.freed = s.freed := by rw [hr.rest]
  have hn : s'.nextPool = s.nextPool := by rw [hr.rest]
  refine ⟨fun q hq => ?_, fun q hq hqd => ?_, fun q hq => ?_, fun q hq => ?_⟩
  · rw [hl] at hq
    rw [hstat, hd]; exact hs.invalid_iff q hq
  · rw [hl] at hq
    rw [hd] at hqd
    rw [hr.inflightOf]; exact hs.inflight_pos q hq hqd
  · rw [hf] at hq
    rw [hd, hr.inflightOf]; exact hs.freed_deleted q hq
  · rw [hd] at hq
    rw [hn]; exact hs.deleted_lt q hq

theorem created_pending {size : Nat} (h : Inv s [] 0 0) (hs : Pending s)
    (hc : Created s s' p size) : Pending s' := by
  have hfresh : p ∉ s.deleted := fun hd => by
    have := hs.deleted_lt p hd
    rw [hc.fresh] at this; omega
  refine ⟨fun q hq => ?_, fun q hq hqd => ?_, fun q hq => ?_, fun q hq => ?_⟩
  · rw [hc.list] at hq
    rw [hc.deleted]
    rcases mem_append.mp hq with hq | hq
    · rw [hc.others q (hc.ne_of_listed h hq)]; exact hs.invalid_iff q hq
    · rw [mem_singleton.mp hq, hc.status]
      exact ⟨fun h' => absurd h' (by simp), fun h' => absurd h' hfresh⟩
  · rw [hc.list] at hq
    rw [hc.deleted] at hqd
    rw [hc.inflightOf]
    rcases mem_append.mp hq with hq | hq
    · exact hs.inflight_pos q hq hqd
    · exact absurd (mem_singleton.mp hq ▸ hqd) hfresh
  · rw [hc.freed] at hq
    rw [hc.deleted, hc.inflightOf]; exact hs.freed_deleted q hq
  · rw [hc.deleted] at hq
    rw [hc.nextPool, hc.fresh]; exact Nat.lt_succ_of_lt (hs.deleted_lt q hq)

theorem delete_pending {force : Bool} (h : Inv s [] 0 0) (hs : Pending s)
    (hp : p ∈ s.flow_pool_list) (hnow : freesNow s p force = true ↔ inflightOf s p = 0) :
    Pending (afterDelete s p force) := by
  have hmem : ∀ q, q ∈ (afterDelete s p force).flow_pool_list ↔
      q ∈ s.flow_pool_list ∧ (q = p → freesNow s p force = false) :=
    fun q => mem_afterDelete_list h.list_nodup hp
  refine ⟨fun q hq => ?_, fun q hq hqd => ?_, fun q hq => ?_, fun q hq => ?_⟩
  · obtain ⟨hq, hqp⟩ := (hmem q).mp hq
    rw [afterDelete_pool, afterDelete_deleted, mem_cons]
    by_cases he : q = p
    · rw [if_pos he, deletedPool, hqp he]; exact ⟨fun _ => .inl he, fun _ => rfl⟩
    · rw [if_neg he, hs.invalid_iff q hq]; exact ⟨.inr, fun h' => h'.resolve_left he⟩
  · obtain ⟨hq, hqp⟩ := (hmem q).mp hq
    rw [afterDelete_deleted, mem_cons] at hqd
    rw [afterDelete_inflightOf]
    by_cases he : q = p
    · refine Nat.pos_of_ne_zero fun hz => ?_
      have hf := hnow.mpr (he ▸ hz)
      rw [hqp he] at hf; exact absurd hf (by decide)
    · exact hs.inflight_pos q hq (hqd.resolve_left he)
  · rw [afterDelete_freed] at hq
    rw [afterDelete_deleted, afterDelete_inflightOf, mem_cons]
    split at hq
    · next hf =>
      rcases mem_cons.mp hq with rfl | hq
      · exact ⟨.inl rfl, hnow.mp hf⟩
      · exact ⟨.inr (hs.freed_deleted q hq).1, (hs.freed_deleted q hq).2⟩
    · exact ⟨.inr (hs.freed_deleted q hq).1, (hs.freed_deleted q hq).2⟩
  · rw [afterDelete_deleted, mem_cons] at hq
    rw [afterDelete_nextPool]
    rcases hq with rfl | hq
    · exact h.lt_of_listed hp
    · exact hs.deleted_lt q hq

/-- A step that touches one linked pool only: its status keeps saying whether it
has been deleted, and a deleted pool keeps something in flight. -/
theorem local_pending (hs : Pending s) (hl : s'.flow_pool_list = s.flow_pool_list)
    (hf : s'.freed = s.freed) (hd : s'.deleted = s.deleted) (hn : s'.nextPool = s.nextPool)
    (hnf : p ∉ s.freed) (hpool : ∀ q, q ≠ p → (s'.pool q).status = (s.pool q).status)
    (hfl : ∀ q, q ≠ p → inflightOf s' q = inflightOf s q) (hp : p ∈ s.flow_pool_list →
      ((s'.pool p).status = .FLOW_POOL_INVALID ↔ p ∈ s.deleted) ∧
        (p ∈ s.deleted → 0 < inflightOf s' p)) : Pending s' := by
  refine ⟨fun q hq => ?_, fun q hq hqd => ?_, fun q hq => ?_, fun q hq => ?_⟩
  · rw [hl] at hq
    rw [hd]
    by_cases he : q = p
    · subst he; exact (hp hq).1
    · rw [hpool q he]; exact hs.invalid_iff q hq
  · rw [hl] at hq
    rw [hd] at hqd
    by_cases he : q = p
    · subst he; exact (hp hq).2 hqd
    · rw [hfl q he]; exact hs.inflight_pos q hq hqd
  · rw [hf] at hq
    rw [hd, hfl q fun he => hnf (he ▸ hq)]; exact hs.freed_deleted q hq
  · rw [hd] at hq
    rw [hn]; exact hs.deleted_lt q hq

end Keep

/-! ## Steps -/

section Step

variable {s s' : Pdev}

theorem Pending.owner_not_freed (hs : Pending s) {d p : Nat} (hd : d ∈ s.inflight)
    (hown : s.desc_pool d = some p) : p ∉ s.freed := by
  intro hf
  have hz := (hs.freed_deleted p hf).2
  have := countP_eq_zero.mp hz d hd
  rw [hown] at this; exact this (by simp)

theorem alloc_pending (h : Inv s [] 0 0) (hs : Pending s) (hem : FreedEmpty s) {v p d : Nat}
    {l : List Nat} (hl : (s.pool p).freelist = d :: l)
    (hstop : (s.pool p).status = .FLOW_POOL_INVALID → stops (s.pool p) = false) :
    Pending (afterAlloc s v p d) := by
  have hmem : d ∈ (s.pool p).freelist := by rw [hl]; exact mem_cons_self
  have hnf : p ∉ s.freed := fun hf => by rw [hem p hf] at hmem; exact absurd hmem (by simp)
  have hstatus : ((afterAlloc s v p d).pool p).status = allocStatus (s.pool p) := by
    rw [afterAlloc_pool, if_pos rfl]
  refine local_pending (p := p) hs rfl rfl rfl rfl hnf (fun q hq => ?_) (fun q hq => ?_)
    fun hlist => ⟨?_, fun _ => ?_⟩
  · rw [afterAlloc_pool, if_neg hq]
  · rw [afterAlloc_inflightOf h hl, if_neg hq]; rfl
  · rw [hstatus, ← hs.invalid_iff p hlist, allocStatus]
    split
    · next hst =>
      refine ⟨fun h' => absurd h' (by simp), fun h' => ?_⟩
      rw [hstop h'] at hst; exact absurd hst (by decide)
    · exact Iff.rfl
  · rw [afterAlloc_inflightOf h hl, if_pos rfl]; omega

/-- A descriptor that comes back keeps the protocol if it is not the last one of
an invalid pool. -/
theorem put_pending (h : Inv s [] 0 0) (hs : Pending s) {d p : Nat} (hd : d ∈ s.inflight)
    (hown : s.desc_pool d = some p)
    (hlast : (s.pool p).status = .FLOW_POOL_INVALID → inflightOf s p ≠ 1) :
    Pending (afterPut s p d) := by
  refine local_pending (p := p) hs rfl rfl rfl rfl (hs.owner_not_freed hd hown)
    (fun q hq => ?_) (fun q hq => afterPut_inflightOf_of_ne h hd hown hq)
    fun hlist => ⟨?_, fun hdel => ?_⟩
  · rw [afterPut_pool, if_neg hq]
  · rw [afterPut_pool, if_pos rfl, ← hs.invalid_iff p hlist]; exact Iff.rfl
  · have hne := hlast ((hs.invalid_iff p hlist).mpr hdel)
    have hone := afterPut_inflightOf_self h hd hown
    omega

theorem wake_pending (h : Inv s [] 0 0) (hs : Pending s) {d p : Nat} (hd : d ∈ s.inflight)
    (hown : s.desc_pool d = some p) (hst : (s.pool p).status = .FLOW_POOL_ACTIVE_PAUSED) :
    Pending (afterWake (afterPut s p d) p) := by
  refine local_pending (p := p) hs rfl rfl rfl rfl (hs.owner_not_freed hd hown)
    (fun q hq => ?_) (fun q hq => afterPut_inflightOf_of_ne h hd hown hq) fun hlist => ?_
  · rw [afterWake_pool_of_ne hq, afterPut_pool, if_neg hq]
  · have hnd : p ∉ s.deleted := fun hdel => by
      rw [(hs.invalid_iff p hlist).mpr hdel] at hst; exact absurd hst (by simp)
    refine ⟨⟨fun h' => ?_, fun h' => absurd h' hnd⟩, fun h' => absurd h' hnd⟩
    rw [afterWake_status] at h'; exact absurd h' (by simp)

theorem finish_pending (h : Inv s [] 0 0) (hs : Pending s) {d p : Nat} (hd : d ∈ s.inflight)
    (hown : s.desc_pool d = some p) (hlist : p ∈ s.flow_pool_list)
    (hall : (s.pool p).avail_desc + 1 = (s.pool p).flow_pool_size)
    (hfin : Finished (afterPut s p d) s' p) : Pending s' := by
  have hsize := h.size_eq p hlist
  have hone := afterPut_inflightOf_self h hd hown
  have hsub : ∀ q, q ∈ s'.flow_pool_list → q ∈ s.flow_pool_list ∧ q ≠ p := by
    intro q hq
    rw [hfin.list] at hq
    obtain ⟨hne, hq⟩ := h.list_nodup.mem_erase_iff.mp hq
    exact ⟨hq, hne⟩
  have hother : ∀ q, q ≠ p → inflightOf s' q = inflightOf s q := by
    intro q hq
    rw [hfin.inflightOf, afterPut_inflightOf_of_ne h hd hown hq]
  have hmemd : ∀ q, q ∈ s'.deleted ↔ q = p ∨ q ∈ s.deleted := by
    intro q
    rw [hfin.deleted]; exact mem_cons
  refine ⟨fun q hq => ?_, fun q hq hqd => ?_, fun q hq => ?_, fun q hq => ?_⟩
  · obtain ⟨hq, hne⟩ := hsub q hq
    rw [(hfin.others q hne).1, afterPut_pool, if_neg hne, hmemd, hs.invalid_iff q hq]
    exact ⟨.inr, fun h' => h'.resolve_left hne⟩
  · obtain ⟨hq, hne⟩ := hsub q hq
    rw [hother q hne]; exact hs.inflight_pos q hq (((hmemd q).mp hqd).resolve_left hne)
  · rw [hfin.freed] at hq
    rw [hmemd]
    by_cases he : q = p
    · -- all of its descriptors are back, so this was the only one in flight
      rw [he, hfin.inflightOf]; exact ⟨.inl rfl, by omega⟩
    · have hq := (mem_cons.mp hq).resolve_left he
      rw [hother q he]; exact ⟨.inr (hs.freed_deleted q hq).1, (hs.freed_deleted q hq).2⟩
  · rw [hfin.nextPool]
    rcases (hmemd q).mp hq with rfl | hq
    · exact h.lt_of_listed hlist
    · exact hs.deleted_lt q hq

theorem effect_pending (h : Inv s [] 0 0) (hs : Pending s) (hem : FreedEmpty s) {e : Op}
    (hok : teardownOk s e = true) (he : Effect s e s') : Pending s' := by
  obtain ⟨hdelete, hpend⟩ := Bool.and_eq_true_iff.mp hok
  cases he with
  | relabel hr => exact relabel_pending hs hr
  | create p size hc hinv hr => exact relabel_pending (created_pending h hs hc) hr
  | @delete _ t p force hr hp hdel =>
    rw [deleteOk, hdel] at hdelete
    have hsize := h.size_eq p hp
    rw [ite_self] at hsize
    refine delete_pending (relabel_inv h hr) (relabel_pending hs hr) (relabel_list hr ▸ hp) ?_
    rw [hr.inflightOf, freesNow, hr.pool p, Bool.or_eq_true, decide_eq_true_eq]
    cases force with
    | true => simpa using hdelete
    | false =>
      simp only [Bool.false_eq_true, or_false]
      have hd : inflightOf s p ≠ 0 ∨ (s.pool p).deficient_desc = 0 := by simpa using hdelete
      omega
  | create_delete flow_id id size p vdev_ok hc hinv hnone =>
    refine delete_pending hinv (created_pending h hs hc) hc.mem ?_
    have hfit : size ≤ s.num_free := by rw [pendingOk, hnone] at hpend; simpa using hpend
    have hfl : inflightOf s p = 0 := by rw [hc.fresh]; exact inflightOf_nextPool h
    have hdef := hc.deficient
    have hsize := hinv.size_eq p hc.mem
    rw [ite_self, hc.inflightOf, hfl] at hsize
    rw [hc.inflightOf, hfl, freesNow, Bool.or_eq_true, decide_eq_true_eq]; omega
  | alloc v p d mgmt hp hl =>
    rw [pendingOk, hp] at hpend
    refine alloc_pending h hs hem hl fun hst => ?_
    have hav := h.avail_eq p
    rw [hl, length_cons] at hav
    rcases (by simpa using hpend : ((s.pool p).status ≠ .FLOW_POOL_INVALID ∨
      (s.pool p).avail_desc = 0) ∨ stops (s.pool p) = false) with (h' | h') | h'
    · exact absurd hst h'
    · omega
    · exact h'
  | put d p hd hown hpaused hinv =>
    rw [pendingOk, hown] at hpend
    refine put_pending h hs hd hown fun hst hone => hinv hst ?_
    -- with nothing owed to it, the pool would be complete
    have hsize := h.size_eq p (h.invalid_listed p hst)
    rw [ite_self] at hsize
    have hdef : (s.pool p).deficient_desc = 0 := by
      rcases (by simpa using hpend : ((s.pool p).status ≠ .FLOW_POOL_INVALID ∨
        inflightOf s p ≠ 1) ∨ (s.pool p).deficient_desc = 0) with (h' | h') | h'
      · exact absurd hst h'
      · exact absurd hone h'
      · exact h'
    omega
  | wake d p hd hown hst hgt => exact wake_pending h hs hd hown hst
  | finish d p hd hown hst hall hinv hfin =>
    exact finish_pending h hs hd hown (h.invalid_listed p hst) hall hfin

theorem Pending.tornDown (h : Inv s [] 0 0) (hs : Pending s) (hem : FreedEmpty s) : TornDown s where
  freed_iff := fun p hlt => by
    refine ⟨hs.freed_deleted p, fun ⟨hdel, hz⟩ => ?_⟩
    by_contra hnf
    have hpos := hs.inflight_pos p (h.listed_of_not_freed hlt hnf) hdel
    omega
  freed_once := (nodup_append.mp h.nodup).2.1
  unlinked := fun p hp hl => h.not_freed hl hp
  emptied := hem
  conserved := h.descConserved hem

end Step

/-! ## Runs -/

/-- **Flow-pool teardown.** In every state of every run that keeps to the
protocol, a pool has been freed exactly if it has been deleted and none of its
descriptors is in flight, once, with nothing left on its freelist and no place on
the list that descriptors are dealt out along; and the next descriptor to come
back is taken in, whatever that sets off. -/
theorem flow_pool_torn_down (cfg : Cfg) (n : Nat) (es : List Op) (s : Pdev)
    (h : run (guarded (fun s e => teardownOk s e = true) step) (Pdev.init cfg n) es = some s) :
    TornDown s ∧ ∀ d ∈ s.inflight, step s (.free d) ≠ none := by
  have hinv : Inv s [] 0 0 ∧ Pending s ∧ FreedEmpty s :=
    guarded_run_invariant (I := fun s => Inv s [] 0 0 ∧ Pending s ∧ FreedEmpty s)
      (fun s e _ hi hok hst => by
        obtain ⟨h1, h2, h3⟩ := hi
        have he := step_effect h1 hst
        exact ⟨effect_inv h1 he, effect_pending h1 h2 h3 hok he,
          effect_freedEmpty h1 h3 (fun d p _ hd hown => h2.owner_not_freed hd hown) he⟩)
      ⟨init_inv cfg n, ⟨fun p hp => absurd hp (by simp [Pdev.init]),
        fun p hp => absurd hp (by simp [Pdev.init]), fun p hp => absurd hp (by simp [Pdev.init]),
        fun p hp => absurd hp (by simp [Pdev.init])⟩, fun p hp => absurd hp (by simp [Pdev.init])⟩ h
  obtain ⟨h1, h2, h3⟩ := hinv
  refine ⟨h2.tornDown h1 h3, fun d hd => ?_⟩
  obtain ⟨p, t, -, ht, -⟩ := free_cases h1 hd
  rw [step, ht]; simp

/-- A pool deleted with a descriptor in flight, next to a deficient one. -/
theorem flow_pool_torn_down_inflight :
    ∃ s, run (guarded (fun s e => teardownOk s e = true) step) (Pdev.init cfgDefault 5)
        [.map 0 .FLOW_TYPE_VDEV 1 3 true true, .map 1 .FLOW_TYPE_VDEV 2 4 true true,
          .alloc 0 false, .unmap 0 .FLOW_TYPE_VDEV 1 true, .free 2] = some s ∧
      s.freed = [0] ∧ TornDown s := by
  exact exists_of_tested (fun s => _) (by decide) fun s hs hfreed =>
    ⟨hfreed, (flow_pool_torn_down _ _ _ s hs).1⟩

/-- A pool that is owed a descriptor when it is deleted is not freed, with
nothing in flight. -/
theorem deficient_pool_leaked :
    ∃ s, run step (Pdev.init cfgDefault 2)
        [.map 0 .FLOW_TYPE_VDEV 1 3 true true, .unmap 0 .FLOW_TYPE_VDEV 1 true] = some s ∧
      ¬ TornDown s := by
  exact exists_of_tested
    (fun s => 0 < s.nextPool ∧ 0 ∈ s.deleted ∧ inflightOf s 0 = 0 ∧ 0 ∉ s.freed) (by decide)
    fun s hs ⟨hlt, hdel, hz, hnf⟩ ht => hnf ((ht.freed_iff 0 hlt).mpr ⟨hdel, hz⟩)

end

/-! Pausing and waking: descriptors also reach a pool through `ol_tx_move_desc_n`, and a pool that
is lifted above `start_th` that way stays paused (`lifted_pool_paused`). -/

/-! ## The hysteresis -/

/-- **The pause contract**, as a predicate on states: a paused pool is not above
its start threshold, and something that can wake it is in flight. -/
structure Hysteresis (s : Pdev) : Prop where
  avail_le : ∀ p ∈ s.flow_pool_list, (s.pool p).status = .FLOW_POOL_ACTIVE_PAUSED →
    (s.pool p).avail_desc ≤ (s.pool p).start_th
  not_stuck : ∀ p ∈ s.flow_pool_list, inflightOf s p = 0 →
    (s.pool p).status ≠ .FLOW_POOL_ACTIVE_PAUSED

/-- Every paused pool that the step from `s` to `s'` lifts above its start
threshold is unpaused, and its netif queues are woken. -/
def WakesLifted (s s' : Pdev) : Prop :=
  ∀ p ∈ s.flow_pool_list, (s.pool p).status = .FLOW_POOL_ACTIVE_PAUSED →
    (s'.pool p).start_th < (s'.pool p).avail_desc →
    (s'.pool p).status = .FLOW_POOL_ACTIVE_UNPAUSED ∧
      s'.pause_cb = ((s.pool p).member_flow_id, .WLAN_WAKE_ALL_NETIF_QUEUE) :: s.pause_cb

/-- No paused pool is lifted above its start threshold by its share of what the
invalid pool `p` has collected, with the descriptor that completes it. -/
def sharesOk (s : Pdev) (p : Nat) : Bool :=
  s.flow_pool_list.all fun q =>
    q = p || (s.pool q).status ≠ .FLOW_POOL_ACTIVE_PAUSED ||
      (s.pool q).avail_desc
        + share (fun r => (s.pool r).deficient_desc) s.flow_pool_list
            ((s.pool p).avail_desc + 1) q ≤ (s.pool q).start_th

/-- The steps that keep the contract. The descriptor that completes an invalid
pool comes back only when dealing the pool out lifts no paused one, and the last
descriptor in flight of a paused pool only when it wakes the pool. -/
def pauseOk (s : Pdev) : Op → Bool
  | .free d => (s.desc_pool d).all fun p =>
    match (s.pool p).status with
    | .FLOW_POOL_INVALID =>
      (s.pool p).avail_desc + 1 ≠ (s.pool p).flow_pool_size || sharesOk s p
    | .FLOW_POOL_ACTIVE_PAUSED =>
      inflightOf s p ≠ 1 || (s.pool p).start_th < (s.pool p).avail_desc + 1
    | _ => true
  | _ => true

/-! ## The invariant -/

/-- A pool of which `n` descriptors are in flight: its thresholds are in order,
and if it is paused it is low and waits for one of them. -/
structure Low (pool : OlPool) (n : Nat) : Prop where
  ordered : pool.stop_th ≤ pool.start_th
  paused : pool.status = .FLOW_POOL_ACTIVE_PAUSED → pool.avail_desc ≤ pool.start_th ∧ 0 < n

/-- Every linked pool is `Low`. -/
def AllLow (s : Pdev) : Prop := ∀ p ∈ s.flow_pool_list, Low (s.pool p) (inflightOf s p)

section Keep

variable {s s' : Pdev} {p d v : Nat}

theorem relabel_allLow (hs : AllLow s) (hr : Relabel s s') : AllLow s' := by
  intro q hq
  rw [relabel_list hr] at hq
  rw [hr.pool q, hr.inflightOf]; exact ⟨(hs q hq).ordered, (hs q hq).paused⟩

theorem created_allLow {size : Nat} (h : Inv s [] 0 0) (hs : AllLow s) (hc : Created s s' p size) :
    AllLow s' := by
  intro q hq
  rw [hc.list] at hq
  rw [hc.inflightOf]
  rcases List.mem_append.mp hq with hq | hq
  · rw [hc.others q (hc.ne_of_listed h hq)]; exact hs q hq
  · rw [List.mem_singleton.mp hq]
    refine ⟨hc.thresholds.1, fun hst => ?_⟩
    rw [hc.status] at hst; exact absurd hst (by simp)

theorem deletedPool_low {force : Bool} {n : Nat} (hs : Low (s.pool p) n) (m : Nat) :
    Low (deletedPool s p force) m := by
  unfold deletedPool
  split
  · exact ⟨hs.ordered, fun hst => absurd hst (by simp)⟩
  · exact ⟨hs.ordered, fun hst => absurd hst (by simp)⟩

theorem delete_allLow {force : Bool} (h : Inv s [] 0 0) (hs : AllLow s)
    (hp : p ∈ s.flow_pool_list) : AllLow (afterDelete s p force) := by
  intro q hq
  have hq := ((mem_afterDelete_list h.list_nodup hp).mp hq).1
  rw [afterDelete_pool, afterDelete_inflightOf]
  split
  · exact deletedPool_low (hs p hp) _
  · exact hs q hq

theorem alloc_allLow {l : List Nat} (h : Inv s [] 0 0) (hs : AllLow s)
    (hl : (s.pool p).freelist = d :: l) : AllLow (afterAlloc s v p d) := by
  intro q hq
  have hlow := hs q hq
  rw [afterAlloc_pool, afterAlloc_inflightOf h hl]
  split
  · next he =>
    subst he
    refine ⟨hlow.ordered, fun hst => ⟨?_, by omega⟩⟩
    have hord := hlow.ordered
    change (s.pool q).avail_desc - 1 ≤ (s.pool q).start_th
    unfold allocStatus at hst
    -- paused by this allocation, which is then below `stop_th`, or before it
    split at hst
    · next hstop =>
      have hlt : (s.pool q).avail_desc - 1 < (s.pool q).stop_th := by simpa [stops] using hstop
      omega
    · have hle := (hlow.paused hst).1; omega
  · exact hlow

/-- What `afterPut` leaves of pool `q`, for an invariant about its status, its
thresholds and its counters. -/
theorem afterPut_low (h : Inv s [] 0 0) (hs : AllLow s) (hd : d ∈ s.inflight)
    (hown : s.desc_pool d = some p) {q : Nat} (hq : q ∈ s.flow_pool_list)
    (hp : (s.pool p).status = .FLOW_POOL_ACTIVE_PAUSED →
      (s.pool p).avail_desc + 1 ≤ (s.pool p).start_th ∧ inflightOf s p ≠ 1) :
    Low ((afterPut s p d).pool q) (inflightOf (afterPut s p d) q) := by
  obtain ⟨-, hfl⟩ := put_back_inv h hd hown
  have hlow := hs q hq
  have hn := hfl q
  rw [afterPut_pool]
  by_cases he : q = p
  · subst he
    rw [if_pos rfl] at hn ⊢
    refine ⟨hlow.ordered, fun hst => ⟨(hp hst).1, ?_⟩⟩
    have hne := (hp hst).2
    omega
  · rw [if_neg he] at hn ⊢
    rw [show inflightOf (afterPut s p d) q = inflightOf s q from hn]; exact hlow

/-- Dealing out a pool that has just been completed, in terms of the state
before the descriptor came back. -/
theorem share_afterPut (q : Nat) :
    share (fun r => ((afterPut s p d).pool r).deficient_desc) (afterPut s p d).flow_pool_list
        ((afterPut s p d).pool p).avail_desc q
      = share (fun r => (s.pool r).deficient_desc) s.flow_pool_list
          ((s.pool p).avail_desc + 1) q := by
  have hav : ((afterPut s p d).pool p).avail_desc = (s.pool p).avail_desc + 1 := by
    rw [afterPut_pool, if_pos rfl, OlPool.push_avail_desc]
  rw [hav]
  refine share_congr (fun r _ => ?_) _ q
  rw [afterPut_pool]
  split
  · next he => rw [he]; rfl
  · rfl

theorem finish_guard (hok : pauseOk s (.free d) = true) (hown : s.desc_pool d = some p)
    (hst : (s.pool p).status = .FLOW_POOL_INVALID)
    (hall : (s.pool p).avail_desc + 1 = (s.pool p).flow_pool_size) :
    ∀ q ∈ s.flow_pool_list, q ≠ p → (s.pool q).status = .FLOW_POOL_ACTIVE_PAUSED →
      (s.pool q).avail_desc
        + share (fun r => (s.pool r).deficient_desc) s.flow_pool_list
            ((s.pool p).avail_desc + 1) q ≤ (s.pool q).start_th := by
  intro q hq hne hqst
  have hshares : sharesOk s p = true := by
    rw [pauseOk, hown] at hok; simpa [hst, hall] using hok
  have hq := List.all_eq_true.mp hshares q hq
  simpa [hne, hqst] using hq

end Keep

/-! ## Steps -/

section Step

variable {s s' : Pdev}

theorem effect_allLow (h : Inv s [] 0 0) (hs : AllLow s) {e : Op} (hok : pauseOk s e = true)
    (he : Effect s e s') : AllLow s' := by
  cases he with
  | relabel hr => exact relabel_allLow hs hr
  | create p size hc hinv hr => exact relabel_allLow (created_allLow h hs hc) hr
  | delete p force hr hp _ =>
    exact delete_allLow (relabel_inv h hr) (relabel_allLow hs hr) (relabel_list hr ▸ hp)
  | create_delete flow_id id size p vdev_ok hc hinv _ =>
    exact delete_allLow hinv (created_allLow h hs hc) hc.mem
  | alloc v p d mgmt _ hl => exact alloc_allLow h hs hl
  | put d p hd hown hpaused _ =>
    intro q hq
    refine afterPut_low h hs hd hown hq fun hst => ⟨hpaused hst, fun hone => ?_⟩
    -- the last one in flight would have to wake the pool
    have hle := hpaused hst
    have hgt : (s.pool p).start_th < (s.pool p).avail_desc + 1 := by
      rw [pauseOk, hown] at hok; simpa [hst, hone] using hok
    omega
  | wake d p hd hown hst hgt =>
    intro q hq
    by_cases heq : q = p
    · subst heq
      rw [afterWake_pool, if_pos rfl, afterPut_pool, if_pos rfl]
      exact ⟨(hs q hq).ordered, fun h' => absurd h' (by simp)⟩
    · have hfl := afterPut_inflightOf_of_ne h hd hown heq
      rw [afterWake_pool, if_neg heq, afterPut_pool, if_neg heq]
      rw [show inflightOf (afterWake (afterPut s p d) p) q = inflightOf s q from hfl]
      exact hs q hq
  | finish d p hd hown hst hall hinv hfin =>
    intro q hq
    rw [hfin.list] at hq
    obtain ⟨hne, hq⟩ := h.list_nodup.mem_erase_iff.mp hq
    obtain ⟨h1, h2, h3, h4⟩ := hfin.others q hne
    rw [afterPut_pool, if_neg hne] at h1 h2 h3 h4
    rw [hfin.inflightOf, afterPut_inflightOf_of_ne h hd hown hne]
    refine ⟨by rw [h2, h3]; exact (hs q hq).ordered, fun hqst => ⟨?_, ?_⟩⟩
    · rw [h1] at hqst
      rw [h2, h4, share_afterPut]; exact (finish_guard hok hown hst hall) q hq hne hqst
    · rw [h1] at hqst; exact ((hs q hq).paused hqst).2

theorem effect_wakesLifted (h : Inv s [] 0 0) (hs : AllLow s) {e : Op} (hok : pauseOk s e = true)
    (he : Effect s e s') : WakesLifted s s' := by
  intro q hq hqst hgt
  have hle := ((hs q hq).paused hqst).1
  cases he with
  | relabel hr => rw [hr.pool q] at hgt; exact absurd hgt (Nat.not_lt.mpr hle)
  | create p size hc _ hr =>
    have hne : q ≠ p := hc.ne_of_listed h hq
    rw [hr.pool q, hc.others q hne] at hgt; exact absurd hgt (Nat.not_lt.mpr hle)
  | delete p force hr _ _ =>
    rw [afterDelete_pool] at hgt
    split at hgt
    · rw [deletedPool_avail_desc] at hgt; exact absurd hgt (Nat.not_lt_zero _)
    · rw [hr.pool q] at hgt; exact absurd hgt (Nat.not_lt.mpr hle)
  | create_delete flow_id id size p vdev_ok hc _ _ =>
    have hne : q ≠ p := hc.ne_of_listed h hq
    rw [afterDelete_pool, if_neg hne, hc.others q hne] at hgt
    exact absurd hgt (Nat.not_lt.mpr hle)
  | alloc v p d mgmt _ _ =>
    rw [afterAlloc_pool] at hgt
    split at hgt
    · next he =>
      subst he
      change (s.pool q).start_th < (s.pool q).avail_desc - 1 at hgt
      omega
    · exact absurd hgt (Nat.not_lt.mpr hle)
  | put d p _ _ hpaused _ =>
    rw [afterPut_pool] at hgt
    split at hgt
    · next he => subst he; exact absurd hgt (Nat.not_lt.mpr (hpaused hqst))
    · exact absurd hgt (Nat.not_lt.mpr hle)
  | wake d p _ _ _ _ =>
    by_cases he : q = p
    · subst he
      refine ⟨afterWake_status, ?_⟩
      unfold afterWake
      rw [afterPut_pool, if_pos rfl]; rfl
    · rw [afterWake_pool, if_neg he, afterPut_pool, if_neg he] at hgt
      exact absurd hgt (Nat.not_lt.mpr hle)
  | finish d p _ hown hst hall _ hfin =>
    have hne : q ≠ p := by
      intro he
      rw [← he, hqst] at hst; exact absurd hst (by simp)
    obtain ⟨-, h2, -, h4⟩ := hfin.others q hne
    rw [afterPut_pool, if_neg hne] at h2 h4
    rw [h2, h4, share_afterPut] at hgt
    exact absurd hgt (Nat.not_lt.mpr (finish_guard hok hown hst hall q hq hne hqst))

theorem AllLow.hysteresis (hs : AllLow s) : Hysteresis s where
  avail_le := fun p hp hst => ((hs p hp).paused hst).1
  not_stuck := fun p hp hz hst => by have hpos := ((hs p hp).paused hst).2; omega

end Step

/-- **Pause hysteresis.** In every state of every run whose steps keep the
contract, a paused pool is at most at its start threshold and has something in
flight; and whichever next step lifts a paused pool above the threshold unpauses
it and wakes its netif queues. -/
theorem pause_hysteresis (cfg : Cfg) (n : Nat) (es : List Op) (s : Pdev)
    (h : run (guarded (fun s e => pauseOk s e = true) step) (Pdev.init cfg n) es = some s) :
    Hysteresis s ∧
      ∀ e s', pauseOk s e = true → step s e = some s' → WakesLifted s s' := by
  have hinv : Inv s [] 0 0 ∧ AllLow s :=
    guarded_run_invariant (I := fun s => Inv s [] 0 0 ∧ AllLow s)
      (fun s e _ hi hok hst => by
        have he := step_effect hi.1 hst
        exact ⟨effect_inv hi.1 he, effect_allLow hi.1 hi.2 hok he⟩)
      ⟨init_inv cfg n, fun p hp => absurd hp (by simp [Pdev.init])⟩ h
  refine ⟨hinv.2.hysteresis, fun e s' hok hst => ?_⟩
  exact effect_wakesLifted hinv.1 hinv.2 hok (step_effect hinv.1 hst)

/-- A pool that is paused and woken again. -/
theorem pause_hysteresis_woken :
    ∃ s, run (guarded (fun s e => pauseOk s e = true) step) (Pdev.init cfgDefault 7)
        [.map 3 .FLOW_TYPE_VDEV 1 7 true true, .alloc 3 false, .alloc 3 false, .alloc 3 false,
          .alloc 3 false, .alloc 3 false, .alloc 3 false, .alloc 3 false, .free 0, .free 1]
        = some s ∧
      s.pause_cb = [(3, .WLAN_WAKE_ALL_NETIF_QUEUE), (3, .WLAN_STOP_ALL_NETIF_QUEUE)] ∧
      Hysteresis s := by
  exact exists_of_tested (fun s => _) (by decide +kernel) fun s hs hwoken =>
    ⟨hwoken, (pause_hysteresis _ _ _ s hs).1⟩

/-- A paused pool that is owed descriptors gets them from a pool that is being
torn down. It is then above its start threshold and still paused. -/
theorem lifted_pool_paused :
    ∃ s, run step (Pdev.init cfgDefault 4)
        [.map 0 .FLOW_TYPE_VDEV 1 3 true true, .map 1 .FLOW_TYPE_VDEV 2 10 true true,
          .alloc 0 false, .alloc 0 false, .alloc 0 false, .alloc 1 false,
          .unmap 0 .FLOW_TYPE_VDEV 1 true, .free 0, .free 1, .free 2] = some s ∧
      ¬ Hysteresis s := by
  exact exists_of_tested (fun s => 1 ∈ s.flow_pool_list ∧
      (s.pool 1).status = .FLOW_POOL_ACTIVE_PAUSED ∧ (s.pool 1).start_th < (s.pool 1).avail_desc)
    (by decide +kernel) fun s hs ⟨hmem, hst, hgt⟩ hh =>
      absurd (hh.avail_le 1 hmem hst) (Nat.not_le.mpr hgt)

end Qcacld.FlowPool
