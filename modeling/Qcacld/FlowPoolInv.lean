/-
What one operation does to the LL flow pools.

`step_effect` collects them: a step is one of a handful of effects, and what the modules above this
one prove about runs they prove about effects.
-/
import Qcacld.FlowPool
import Qcacld.Lib.Bins

set_option autoImplicit false

namespace Qcacld.FlowPool

open Lib Function List Option

/-! ## Deleting a pool -/

section Delete

variable {s : Pdev} {p : Nat}

/-- Whether `ol_tx_delete_flow_pool` frees the pool at once. -/
def freesNow (s : Pdev) (p : Nat) (force : Bool) : Bool :=
  (s.pool p).avail_desc = (s.pool p).flow_pool_size || force

theorem delete_put_eq (n : Nat) (s : Pdev) (l : List Nat) (hl : l.length = n) :
    delete_put n s l
      = some { s with freelist := l.reverse ++ s.freelist, num_free := s.num_free + n } := by
  induction n generalizing s l with
  | zero => obtain rfl := length_eq_zero_iff.mp hl; rfl
  | succ n ih =>
    obtain ⟨d, l, rfl⟩ : ∃ d l', l = d :: l' := exists_cons_of_length_pos (by omega)
    rw [delete_put, ih _ l (by rw [length_cons] at hl; omega)]
    simp only [ol_tx_put_desc_global_pool, reverse_cons, append_assoc,
      singleton_append, some.injEq, Pdev.mk.injEq, true_and, and_true]
    omega

/-- The state after `ol_tx_delete_flow_pool`. -/
def afterDelete (s : Pdev) (p : Nat) (force : Bool) : Pdev :=
  { delete_unlink s p force with
    freelist := (s.pool p).freelist.reverse ++ s.freelist
    num_free := s.num_free + (s.pool p).avail_desc }

def deletedPool (s : Pdev) (p : Nat) (force : Bool) : OlPool :=
  if freesNow s p force then
    { s.pool p with status := .FLOW_POOL_INACTIVE, freelist := [], avail_desc := 0 }
  else
    { s.pool p with
      status := .FLOW_POOL_INVALID
      freelist := []
      avail_desc := 0
      flow_pool_size := (s.pool p).flow_pool_size - (s.pool p).avail_desc
      flow_pool_id := INVALID_FLOW_ID }

theorem delete_unlink_eq (s : Pdev) (p : Nat) (force : Bool) :
    delete_unlink s p force =
      { s with
        deleted := p :: s.deleted
        freed := if freesNow s p force then p :: s.freed else s.freed
        flow_pool_list :=
          if freesNow s p force then s.flow_pool_list.erase p else s.flow_pool_list.erase p ++ [p]
        num_invalid_bin :=
          if freesNow s p force then s.num_invalid_bin else s.num_invalid_bin + 1
        pool := update s.pool p (deletedPool s p force) } := by
  rw [delete_unlink, deletedPool]
  by_cases hc : (s.pool p).avail_desc = (s.pool p).flow_pool_size ∨ force = true
  · have hf : freesNow s p force = true := by simpa [freesNow] using hc
    simp only [hc, hf, if_true]
    rfl
  · have hf : freesNow s p force = false := by simpa [freesNow] using hc
    simp only [hc, hf, if_false, Bool.false_eq_true]
    rfl

section Fields

variable {force : Bool}

theorem deletedPool_freelist : (deletedPool s p force).freelist = [] := by
  rw [deletedPool]
  split <;> rfl

theorem deletedPool_avail_desc : (deletedPool s p force).avail_desc = 0 := by
  rw [deletedPool]
  split <;> rfl

theorem deletedPool_deficient_desc :
    (deletedPool s p force).deficient_desc = (s.pool p).deficient_desc := by
  rw [deletedPool]
  split <;> rfl

theorem afterDelete_pool (q : Nat) :
    (afterDelete s p force).pool q = if q = p then deletedPool s p force else s.pool q := by
  rw [afterDelete, delete_unlink_eq]; exact update_apply _ _ _ _

theorem afterDelete_inflight : (afterDelete s p force).inflight = s.inflight := by
  rw [afterDelete, delete_unlink_eq]

theorem afterDelete_desc_pool : (afterDelete s p force).desc_pool = s.desc_pool := by
  rw [afterDelete, delete_unlink_eq]

theorem afterDelete_inflightOf (q : Nat) :
    inflightOf (afterDelete s p force) q = inflightOf s q := by
  rw [inflightOf, inflightOf, afterDelete_inflight, afterDelete_desc_pool]

theorem afterDelete_nextPool : (afterDelete s p force).nextPool = s.nextPool := by
  rw [afterDelete, delete_unlink_eq]

theorem afterDelete_list : (afterDelete s p force).flow_pool_list
    = if freesNow s p force then s.flow_pool_list.erase p
      else s.flow_pool_list.erase p ++ [p] := by rw [afterDelete, delete_unlink_eq]

theorem afterDelete_freed : (afterDelete s p force).freed
    = if freesNow s p force then p :: s.freed else s.freed := by
  rw [afterDelete, delete_unlink_eq]

theorem afterDelete_deleted : (afterDelete s p force).deleted = p :: s.deleted := by
  rw [afterDelete, delete_unlink_eq]

theorem afterDelete_pause_cb : (afterDelete s p force).pause_cb = s.pause_cb := by
  rw [afterDelete, delete_unlink_eq]

end Fields

theorem delete_eq {held : List Nat} {src k : Nat} (h : Inv s held src k) (force : Bool)
    (hp : p ∈ s.flow_pool_list) :
    ol_tx_delete_flow_pool s p force = some (afterDelete s p force) := by
  have hfree : (delete_unlink s p force).freelist = s.freelist := by rw [delete_unlink_eq]
  have hnum : (delete_unlink s p force).num_free = s.num_free := by rw [delete_unlink_eq]
  rw [ol_tx_delete_flow_pool, if_pos hp, delete_put_eq _ _ _ (h.avail_eq p).symm, hfree, hnum]
  rfl

theorem mem_afterDelete_list {force : Bool} (hnd : s.flow_pool_list.Nodup)
    (hp : p ∈ s.flow_pool_list) {q : Nat} :
    q ∈ (afterDelete s p force).flow_pool_list ↔
      q ∈ s.flow_pool_list ∧ (q = p → freesNow s p force = false) := by
  rw [afterDelete_list]
  by_cases hf : freesNow s p force = true
  · rw [if_pos hf, hnd.mem_erase_iff, hf]
    constructor
    · rintro ⟨hne, hq⟩; exact ⟨hq, fun he => absurd he hne⟩
    · rintro ⟨hq, hne⟩; exact ⟨fun he => absurd (hne he) (by decide), hq⟩
  · rw [if_neg hf, mem_append, mem_singleton, hnd.mem_erase_iff]
    constructor
    · rintro (⟨-, hq⟩ | rfl)
      · exact ⟨hq, fun _ => by simpa using hf⟩
      · exact ⟨hp, fun _ => by simpa using hf⟩
    · rintro ⟨hq, -⟩
      by_cases he : q = p
      · exact .inr he
      · exact .inl ⟨he, hq⟩

/-- **Deletion keeps the invariant.** The pool's free descriptors move to the
global list, and its size shrinks to what is in flight and owed. -/
theorem delete_inv {src : Nat} (h : Inv s [] src 0) (force : Bool) (hp : p ∈ s.flow_pool_list) :
    Inv (afterDelete s p force) [] src 0 := by
  have hnd := h.list_nodup
  have hlt := h.lt_of_listed hp
  have hmem : ∀ q, q ∈ (afterDelete s p force).flow_pool_list ↔
      q ∈ s.flow_pool_list ∧ (q = p → freesNow s p force = false) :=
    fun q => mem_afterDelete_list hnd hp
  refine ⟨fun d => ?_, ?_, fun q => ?_, fun q hq => ?_, fun q d hd => ?_, fun d hd => ?_, ?_,
    fun q hq => ?_, fun q hq => ?_, fun v q hq => ?_, fun q hq => ?_⟩
  · have ht := h.total d
    have hin : inPools (afterDelete s p force) d + (s.pool p).freelist.count d
        = inPools s d + (deletedPool s p force).freelist.count d := by
      rw [inPools, inPools, afterDelete_nextPool, afterDelete, delete_unlink_eq]
      exact tally_update _ s.pool _ nodup_range (mem_range.mpr hlt)
    rw [deletedPool_freelist, count_nil] at hin
    have hg : (afterDelete s p force).freelist.count d
        = (s.pool p).freelist.count d + s.freelist.count d := by
      rw [afterDelete, count_append, count_reverse]
    have hsz : (afterDelete s p force).pool_size = s.pool_size := by
      rw [afterDelete, delete_unlink_eq]
    rw [hg, afterDelete_inflight, hsz]; omega
  · show s.num_free + (s.pool p).avail_desc = ((s.pool p).freelist.reverse ++ s.freelist).length
    rw [length_append, length_reverse, h.avail_eq p, h.num_free_eq]; omega
  · rw [afterDelete_pool]
    split
    · rw [deletedPool_freelist, deletedPool_avail_desc]; rfl
    · exact h.avail_eq q
  · rw [afterDelete_nextPool] at hq
    rw [afterDelete_pool, if_neg (by omega)]; exact h.unallocated q hq
  · rw [afterDelete_desc_pool]
    rw [afterDelete_pool] at hd
    split at hd
    · rw [deletedPool_freelist] at hd; exact absurd hd (by simp)
    · exact h.owner q d hd
  · rw [afterDelete_inflight] at hd
    rw [afterDelete_nextPool, afterDelete_desc_pool]; exact h.inflight_owner d hd
  · rw [afterDelete_nextPool, afterDelete_list, afterDelete_freed]
    refine Perm.trans ?_ h.listed
    have hperm : s.flow_pool_list.Perm (p :: s.flow_pool_list.erase p) := perm_cons_erase hp
    split
    · exact perm_middle.trans (hperm.append_right _).symm
    · rw [append_assoc, singleton_append]; exact perm_middle.trans (hperm.append_right _).symm
  · obtain ⟨hq, hqp⟩ := (hmem q).mp hq
    have he := h.size_eq q hq
    rw [afterDelete_inflightOf, afterDelete_pool]
    by_cases hc : q = p
    · subst hc
      rw [if_pos rfl, deletedPool_avail_desc, deletedPool_deficient_desc]
      have hsz : (deletedPool s q force).flow_pool_size
          = (s.pool q).flow_pool_size - (s.pool q).avail_desc := by
        rw [deletedPool, hqp rfl]; rfl
      omega
    · rw [if_neg hc]; exact he
  · rw [hmem]
    rw [afterDelete_pool] at hq
    split at hq
    · next he =>
      refine ⟨he ▸ hp, fun _ => ?_⟩
      by_contra hf
      rw [deletedPool, if_pos (by simpa using hf)] at hq; exact absurd hq (by simp)
    · next he => exact ⟨h.invalid_listed q hq, fun h' => absurd h' he⟩
  · rw [afterDelete_nextPool]
    rw [afterDelete, delete_unlink_eq] at hq; exact h.vdev_lt v q hq
  · rw [afterDelete_nextPool]
    rw [afterDelete, delete_unlink_eq] at hq; exact h.mgmt_lt q hq

/-- What finishing the invalid pool `p` does: `p` leaves the list and is freed,
and the other pools get their shares of what it had. -/
structure Finished (s s' : Pdev) (p : Nat) : Prop where
  list : s'.flow_pool_list = s.flow_pool_list.erase p
  freed : s'.freed = p :: s.freed
  deleted : s'.deleted = p :: s.deleted
  nextPool : s'.nextPool = s.nextPool
  inflight : s'.inflight = s.inflight
  pause_cb : s'.pause_cb = s.pause_cb
  inflightOf : ∀ q, inflightOf s' q = inflightOf s q
  freelist : (s'.pool p).freelist = []
  status : (s'.pool p).status = .FLOW_POOL_INACTIVE
  others : ∀ q, q ≠ p → (s'.pool q).status = (s.pool q).status ∧
    (s'.pool q).start_th = (s.pool q).start_th ∧ (s'.pool q).stop_th = (s.pool q).stop_th ∧
    (s'.pool q).avail_desc = (s.pool q).avail_desc
      + share (fun r => (s.pool r).deficient_desc) s.flow_pool_list (s.pool p).avail_desc q

/-- **Finishing an invalid pool.** It comes to an end, whatever the list looks
like. -/
theorem free_invalid_spec (h : Inv s [] p 0) (hstat : (s.pool p).status = .FLOW_POOL_INVALID)
    (hall : (s.pool p).avail_desc = (s.pool p).flow_pool_size) :
    ∃ s', ol_tx_free_invalid_flow_pool s p = some s' ∧ Inv s' [] p 0 ∧ Finished s s' p := by
  have hp : p ∈ s.flow_pool_list := h.invalid_listed p hstat
  have he := h.size_eq p hp
  have hdef : (s.pool p).deficient_desc = 0 := by omega
  have hfl : inflightOf s p = 0 := by omega
  obtain ⟨t, k, hrun, ht, hf, htdef, hshare⟩ :=
    distribute_loop_spec s.flow_pool_list h h.list_nodup (fun q hq => h.lt_of_listed hq) hdef
  have htp : p ∈ t.flow_pool_list := hf.list ▸ hp
  have hu : Inv (invalid_settle t p) [] p 0 := by
    have hset := setPool_inv (f := fun pool => { pool with flow_pool_size := pool.avail_desc })
      (p := p) (j := 0) ht rfl rfl id (fun _ => by
        rw [ite_self, hf.inflightOf, hfl, htdef]; rfl) (fun hne => absurd rfl hne)
    exact { hset with }
  have hnow : freesNow (invalid_settle t p) p false = true := by
    have hself : (invalid_settle t p).pool p
        = { t.pool p with flow_pool_size := (t.pool p).avail_desc } := update_self _ _ _
    rw [freesNow, hself]; simp
  have hpu : p ∈ (invalid_settle t p).flow_pool_list := htp
  refine ⟨afterDelete (invalid_settle t p) p false, ?_, delete_inv hu false hpu, ?_⟩
  · rw [ol_tx_free_invalid_flow_pool, if_neg (by rw [hstat]; simp),
      ol_tx_distribute_descs_to_deficient_pools, hrun, bind_some]
    exact delete_eq hu false hpu
  · refine ⟨?_, ?_, ?_, ?_, ?_, ?_, fun q => ?_, ?_, ?_, fun q hq => ?_⟩
    · rw [afterDelete_list, if_pos hnow]; exact congrArg (List.erase · p) hf.list
    · rw [afterDelete_freed, if_pos hnow]; exact congrArg (p :: ·) hf.freed
    · rw [afterDelete_deleted]; exact congrArg (p :: ·) hf.deleted
    · rw [afterDelete_nextPool]; exact hf.nextPool
    · rw [afterDelete_inflight]; exact hf.inflight
    · rw [afterDelete_pause_cb]; exact hf.pause_cb
    · rw [afterDelete_inflightOf]; exact hf.inflightOf q
    · rw [afterDelete_pool, if_pos rfl, deletedPool_freelist]
    · rw [afterDelete_pool, if_pos rfl, deletedPool, if_pos hnow]
    · have hkeep : (invalid_settle t p).pool q = t.pool q := update_of_ne hq _ _
      obtain ⟨h1, -, h3, h4, -⟩ := hf.pool q
      rw [afterDelete_pool, if_neg hq, hkeep]; exact ⟨h1, h3, h4, (hshare q hq).1⟩

end Delete

/-! ## Creating a pool -/

section Create

variable {s : Pdev}

theorem get_global_inv (p : Nat) {held l : List Nat} {d src k : Nat} (h : Inv s held src k)
    (hl : s.freelist = d :: l) :
    Inv { s with
      freelist := l, num_free := s.num_free - 1, desc_pool := update s.desc_pool d (some p) }
      (d :: held) src k := by
  have hmem : d ∈ s.freelist := by rw [hl]; exact mem_cons_self
  have hnot : d ∉ s.inflight := h.notMem_inflight_of_freelist hmem
  have hnum := h.num_free_eq
  rw [hl, length_cons] at hnum
  have hkeep : ∀ e, e ≠ d → update s.desc_pool d (some p) e = s.desc_pool e := fun e he =>
    update_of_ne he _ _
  refine
    { h with
      total := fun x => ?_
      num_free_eq := ?_
      owner := fun q x hx => ?_
      inflight_owner := fun x hx => ?_
      size_eq := fun q hq => ?_ }
  · have ht := h.total x
    rw [hl, count_cons] at ht
    rw [count_cons]
    show l.count x + inPools s x + s.inflight.count x + _ = if x < s.pool_size then 1 else 0
    omega
  · show s.num_free - 1 = l.length; omega
  · have hne : x ≠ d := fun he => h.freelist_notMem_pool hmem q (he ▸ hx)
    exact (hkeep x hne).trans (h.owner q x hx)
  · have hne : x ≠ d := fun he => hnot (he ▸ hx)
    obtain ⟨q, hq, hxq⟩ := h.inflight_owner x hx
    exact ⟨q, hq, (hkeep x hne).trans hxq⟩
  · have hfl := inflightOf_update (s := s) hnot (some p) q
    have he := h.size_eq q hq
    rw [← hfl] at he; exact he

/-- Taking `n` descriptors off the global list, for the pool `p` that does not
exist yet. -/
theorem create_take_spec (n p : Nat) {held : List Nat} {src k : Nat} (h : Inv s held src k)
    (hn : n ≤ s.num_free) (hheld : ∀ d ∈ held, s.desc_pool d = some p) :
    ∃ s' held', create_take p n s held = some (s', held') ∧ Inv s' held' src k ∧
      held'.length = held.length + n ∧ (∀ d ∈ held', s'.desc_pool d = some p) ∧
      s' = { s with
        freelist := s'.freelist, num_free := s'.num_free, desc_pool := s'.desc_pool } ∧
      ∀ q, inflightOf s' q = inflightOf s q := by
  induction n generalizing s held with
  | zero => exact ⟨s, held, rfl, h, rfl, hheld, rfl, fun _ => rfl⟩
  | succ n ih =>
    have hlen := h.num_free_eq
    obtain ⟨d, l, hl⟩ : ∃ d l, s.freelist = d :: l :=
      exists_cons_of_length_pos (by omega)
    have hget : ol_tx_get_desc_global_pool s
        = some ({ s with freelist := l, num_free := s.num_free - 1 }, d) := by
      rw [ol_tx_get_desc_global_pool, hl]
    have hmem : d ∈ s.freelist := by rw [hl]; exact mem_cons_self
    have hnot : d ∉ s.inflight := h.notMem_inflight_of_freelist hmem
    have h1 := get_global_inv p h hl
    obtain ⟨s', held', hrun, h', hlen', howner, hs', hfl⟩ := ih h1 (by
        show n ≤ s.num_free - 1
        omega) (by
      intro e he
      show update s.desc_pool d (some p) e = some p
      by_cases hed : e = d
      · rw [hed, update_self]
      · rw [update_of_ne hed]; exact hheld e ((mem_cons.mp he).resolve_left hed))
    refine ⟨s', held', ?_, h', ?_, howner, hs', fun q => ?_⟩
    · rw [create_take, hget, bind_some]; exact hrun
    · rw [hlen', length_cons]; omega
    · rw [hfl]; exact inflightOf_update (s := s) hnot (some p) q

theorem inflightOf_nextPool {held : List Nat} {src k : Nat} (h : Inv s held src k) :
    inflightOf s s.nextPool = 0 := by
  refine countP_eq_zero.mpr fun d hd => ?_
  obtain ⟨p, hp, hdp⟩ := h.inflight_owner d hd
  rw [hdp]
  simp only [some.injEq, decide_eq_true_eq]
  omega

theorem link_inv {held : List Nat} {pool : OlPool} (h : Inv s held 0 0)
    (howner : ∀ d ∈ held, s.desc_pool d = some s.nextPool) (hfree : pool.freelist = held)
    (hav : pool.avail_desc = held.length)
    (hsize : pool.avail_desc + pool.deficient_desc = pool.flow_pool_size)
    (hstat : pool.status ≠ .FLOW_POOL_INVALID) :
    Inv { s with
      pool := update s.pool s.nextPool pool
      nextPool := s.nextPool + 1
      flow_pool_list := s.flow_pool_list ++ [s.nextPool] } [] 0 0 := by
  have hpool : ∀ q, update s.pool s.nextPool pool q = if q = s.nextPool then pool else s.pool q :=
    fun q => update_apply _ _ _ _
  refine ⟨fun d => ?_, h.num_free_eq, fun q => ?_, fun q hq => ?_, fun q d hd => ?_,
    fun d hd => ?_, ?_, fun q hq => ?_, fun q hq => ?_, fun v q hq => ?_, fun q hq => ?_⟩
  · have ht := h.total d
    have hin : tally (fun pool : OlPool => pool.freelist.count d)
        (update s.pool s.nextPool pool) (range (s.nextPool + 1))
          = inPools s d + held.count d := by
      rw [range_succ, tally_append, tally_cons, tally_nil, update_self, hfree,
        tally_update_of_notMem _ _ _ (by simp), inPools]
      omega
    show s.freelist.count d + tally _ (update s.pool s.nextPool pool) (range (s.nextPool + 1))
      + s.inflight.count d + 0 = if d < s.pool_size then 1 else 0
    omega
  · show (update s.pool s.nextPool pool q).avail_desc
      = (update s.pool s.nextPool pool q).freelist.length
    rw [hpool]
    split
    · rw [hav, hfree]
    · exact h.avail_eq q
  · change s.nextPool + 1 ≤ q at hq
    show (update s.pool s.nextPool pool q).freelist = []
    rw [hpool, if_neg (by omega)]; exact h.unallocated q (by omega)
  · change d ∈ (update s.pool s.nextPool pool q).freelist at hd
    rw [hpool] at hd
    split at hd
    · next he => rw [hfree] at hd; exact he ▸ howner d hd
    · exact h.owner q d hd
  · obtain ⟨q, hq, hdq⟩ := h.inflight_owner d hd; exact ⟨q, Nat.lt_succ_of_lt hq, hdq⟩
  · rw [range_succ, append_assoc, singleton_append]
    exact perm_middle.trans ((h.listed.cons _).trans (perm_append_singleton _ _).symm)
  · show (update s.pool s.nextPool pool q).avail_desc + inflightOf s q
      + (update s.pool s.nextPool pool q).deficient_desc + (if q = 0 then 0 else 0)
        = (update s.pool s.nextPool pool q).flow_pool_size
    rw [hpool, ite_self]
    rcases mem_append.mp hq with hq | hq
    · have hne : q ≠ s.nextPool := Nat.ne_of_lt (h.lt_of_listed hq)
      have he := h.size_eq q hq
      rw [ite_self] at he
      rw [if_neg hne]; exact he
    · rw [mem_singleton.mp hq, if_pos rfl, inflightOf_nextPool h]; omega
  · change (update s.pool s.nextPool pool q).status = .FLOW_POOL_INVALID at hq
    rw [hpool] at hq
    split at hq
    · exact absurd hq hstat
    · exact mem_append_left _ (h.invalid_listed q hq)
  · exact Nat.lt_succ_of_lt (h.vdev_lt v q hq)
  · exact Nat.lt_succ_of_lt (h.mgmt_lt q hq)

structure Created (s s' : Pdev) (p size : Nat) : Prop where
  fresh : p = s.nextPool
  nextPool : s'.nextPool = p + 1
  list : s'.flow_pool_list = s.flow_pool_list ++ [p]
  freed : s'.freed = s.freed
  deleted : s'.deleted = s.deleted
  inflight : s'.inflight = s.inflight
  pause_cb : s'.pause_cb = s.pause_cb
  inflightOf : ∀ q, inflightOf s' q = inflightOf s q
  others : ∀ q, q ≠ p → s'.pool q = s.pool q
  status : (s'.pool p).status = .FLOW_POOL_ACTIVE_UNPAUSED
  deficient : (s'.pool p).deficient_desc = size - s.num_free
  thresholds : (s'.pool p).stop_th ≤ (s'.pool p).start_th ∧
    100 * (s'.pool p).start_th ≤ 80 * (s'.pool p).flow_pool_size

/-- **Creating a pool**, once its memory has been allocated. -/
theorem create_spec (h : Inv s [] 0 0) (id size : Nat) :
    ∃ s', ol_tx_create_flow_pool s id size true = some (s', some s.nextPool) ∧
      Inv s' [] 0 0 ∧ Created s s' s.nextPool size := by
  let n := if s.num_free ≥ size then size else s.num_free
  have hn : n ≤ s.num_free := by
    show (if s.num_free ≥ size then size else s.num_free) ≤ s.num_free
    split <;> omega
  have hns : n ≤ size := by
    show (if s.num_free ≥ size then size else s.num_free) ≤ size
    split <;> omega
  obtain ⟨s1, held, hrun, h1, hlen, howner, hs1, hfl⟩ :=
    create_take_spec n s.nextPool h hn (by simp)
  rw [ol_tx_create_flow_pool, if_pos rfl]
  dsimp only
  rw [hrun, map_some]
  have hnp : s1.nextPool = s.nextPool := by rw [hs1]
  rw [← hnp]
  refine ⟨_, rfl, link_inv h1 (by rw [hnp]; exact howner) rfl ?_ (Nat.add_sub_cancel' hns)
    (by simp), ?_⟩
  · rw [hlen, length_nil, Nat.zero_add]
  · have hpool : ∀ q, q ≠ s1.nextPool → ∀ x, update s1.pool s1.nextPool x q = s.pool q := by
      intro q hq x
      rw [update_of_ne hq]
      rw [hs1]
    refine ⟨hnp, rfl, ?_, ?_, ?_, ?_, ?_, hfl, fun q hq => hpool q hq _, ?_, ?_, ?_⟩
    · rw [hs1]
    · rw [hs1]
    · rw [hs1]
    · rw [hs1]
    · rw [hs1]
    · show (update s1.pool s1.nextPool _ s1.nextPool).status = _; rw [update_self]
    · show (update s1.pool s1.nextPool _ s1.nextPool).deficient_desc = _
      rw [update_self]
      show size - (if s.num_free ≥ size then size else s.num_free) = size - s.num_free
      split <;> omega
    · show (update s1.pool s1.nextPool _ s1.nextPool).stop_th ≤
          (update s1.pool s1.nextPool _ s1.nextPool).start_th ∧
        100 * (update s1.pool s1.nextPool _ s1.nextPool).start_th
          ≤ 80 * (update s1.pool s1.nextPool _ s1.nextPool).flow_pool_size
      rw [update_self]
      dsimp only
      have hstop := s.cfg.stop_le
      have hoff := s.cfg.offset_le
      refine ⟨Nat.div_le_div_right (Nat.mul_le_mul_right _ (by omega)), ?_⟩
      have hmul : (s.cfg.tx_flow_stop_queue_th + s.cfg.tx_flow_start_queue_offset) * size
          ≤ 80 * size := Nat.mul_le_mul_right _ (by omega)
      omega

end Create

/-! ## Pointers to pools -/

/-- The states differ only in who points at which pool and in the flow ids that
the pools remember. -/
structure Relabel (s s' : Pdev) : Prop where
  rest : s' = { s with
    pool := s'.pool, vdev_pool := s'.vdev_pool, mgmt_pool := s'.mgmt_pool }
  pool : ∀ p, s'.pool p = { s.pool p with member_flow_id := (s'.pool p).member_flow_id }
  vdev_lt : ∀ v p, s'.vdev_pool v = some p → p < s.nextPool
  mgmt_lt : ∀ p, s'.mgmt_pool = some p → p < s.nextPool

theorem Relabel.inflightOf {s s' : Pdev} (h : Relabel s s') (p : Nat) :
    inflightOf s' p = inflightOf s p := by rw [h.rest]; rfl

theorem relabel_inv {s s' : Pdev} {held : List Nat} {src k : Nat} (h : Inv s held src k)
    (hr : Relabel s s') : Inv s' held src k := by
  have hin : ∀ d, inPools s' d = inPools s d := by
    intro d
    have hnp : s'.nextPool = s.nextPool := by rw [hr.rest]
    simp only [inPools, tally, hnp]
    congr 1
    exact map_congr_left fun p _ => by rw [hr.pool p]
  refine ⟨fun d => ?_, ?_, fun p => ?_, fun p hp => ?_, fun p d hd => ?_, fun d hd => ?_, ?_,
    fun p hp => ?_, fun p hp => ?_, fun v p hp => ?_, fun p hp => ?_⟩
  · rw [hin, hr.rest]; exact h.total d
  · rw [hr.rest]; exact h.num_free_eq
  · rw [hr.pool p]; exact h.avail_eq p
  · rw [hr.rest] at hp
    rw [hr.pool p]; exact h.unallocated p hp
  · rw [hr.pool p] at hd
    rw [hr.rest]; exact h.owner p d hd
  · rw [hr.rest] at hd
    rw [hr.rest]; exact h.inflight_owner d hd
  · rw [hr.rest]; exact h.listed
  · rw [hr.rest] at hp
    rw [hr.inflightOf, hr.pool p]; exact h.size_eq p hp
  · rw [hr.pool p] at hp
    rw [hr.rest]; exact h.invalid_listed p hp
  · have hlt := hr.vdev_lt v p hp
    rw [hr.rest]; exact hlt
  · have hlt := hr.mgmt_lt p hp
    rw [hr.rest]; exact hlt

section Vdev

variable {s : Pdev} {held : List Nat} {src k p vdev_id : Nat} {vdev_ok : Bool}

theorem Relabel.refl (h : Inv s held src k) : Relabel s s :=
  ⟨rfl, fun _ => rfl, h.vdev_lt, h.mgmt_lt⟩

theorem relabel_vdev (h : Inv s held src k) (m : Nat) (o : Option Nat)
    (ho : ∀ q, o = some q → q < s.nextPool) :
    Relabel s { s.setPool p (fun pool => { pool with member_flow_id := m }) with
      vdev_pool := update s.vdev_pool vdev_id o } := by
  refine ⟨rfl, fun q => ?_, fun v q hq => ?_, h.mgmt_lt⟩
  · rw [setPool_pool]
    split
    · next he => rw [he]
    · rfl
  · change update s.vdev_pool vdev_id o v = some q at hq
    by_cases hv : v = vdev_id
    · rw [hv, update_self] at hq; exact ho q hq
    · rw [update_of_ne hv] at hq; exact h.vdev_lt v q hq

theorem relabel_vdev_map (h : Inv s held src k) (hp : p < s.nextPool) :
    Relabel s (ol_tx_flow_pool_vdev_map s p vdev_id vdev_ok) := by
  rw [ol_tx_flow_pool_vdev_map]
  split
  · exact relabel_vdev h _ _ fun q hq => some.inj hq ▸ hp
  · exact Relabel.refl h

theorem relabel_vdev_unmap (h : Inv s held src k) :
    Relabel s (ol_tx_flow_pool_vdev_unmap s p vdev_id vdev_ok) := by
  rw [ol_tx_flow_pool_vdev_unmap]
  split
  · exact relabel_vdev h _ _ fun q hq => absurd hq (by simp)
  · exact Relabel.refl h

end Vdev

/-! ## Allocating and freeing descriptors -/

section AllocFree

variable {s : Pdev} {p d v : Nat}

def stops (pool : OlPool) : Bool := pool.avail_desc - 1 < pool.stop_th

def allocStatus (pool : OlPool) : Status :=
  if stops pool then .FLOW_POOL_ACTIVE_PAUSED else pool.status

def afterAlloc (s : Pdev) (v p d : Nat) : Pdev :=
  { ({ s.setPool p OlPool.pop with inflight := d :: s.inflight } : Pdev).setPool p
      (fun pool => { pool with status := allocStatus (s.pool p) }) with
    pause_cb :=
      if stops (s.pool p) then (v, .WLAN_STOP_ALL_NETIF_QUEUE) :: s.pause_cb else s.pause_cb }

theorem afterAlloc_pool (q : Nat) : (afterAlloc s v p d).pool q
    = if q = p then { (s.pool p).pop with status := allocStatus (s.pool p) } else s.pool q := by
  show update (update s.pool p (s.pool p).pop) p
    { update s.pool p (s.pool p).pop p with status := allocStatus (s.pool p) } q = _
  rw [update_self, update_idem, update_apply]

/-- **Allocation.** Nothing happens without a pool or a free descriptor;
otherwise the head of the pool's list is in flight. -/
theorem alloc_cases {s' : Pdev} (h : Inv s [] 0 0) (o : Option Nat)
    (hs : ol_tx_desc_alloc s v o = some s') :
    s' = s ∨ ∃ p d l, o = some p ∧ (s.pool p).freelist = d :: l ∧ s' = afterAlloc s v p d := by
  cases o with
  | none => exact .inl (some.inj hs).symm
  | some p =>
    rw [ol_tx_desc_alloc] at hs
    split at hs
    · cases hs
    by_cases hz : (s.pool p).avail_desc = 0
    · rw [if_neg (not_not.mpr hz)] at hs; exact .inl (some.inj hs).symm
    · rw [if_pos hz] at hs
      have hav := h.avail_eq p
      obtain ⟨d, l, hl⟩ : ∃ d l, (s.pool p).freelist = d :: l :=
        exists_cons_of_length_pos (by omega)
      refine .inr ⟨p, d, l, rfl, hl, ?_⟩
      rw [ol_tx_get_desc_flow_pool, hl] at hs
      dsimp only [map_some] at hs
      have hpop : (s.setPool p OlPool.pop).pool p = (s.pool p).pop := setPool_self
      rw [some.injEq, hpop, OlPool.pop_avail_desc] at hs
      have hth : (s.pool p).pop.stop_th = (s.pool p).stop_th := rfl
      rw [← hs, hth, afterAlloc]
      by_cases hst : (s.pool p).avail_desc - 1 < (s.pool p).stop_th
      · have hs : stops (s.pool p) = true := by simpa [stops] using hst
        rw [if_pos hst, allocStatus, if_pos hs, if_pos hs]; rfl
      · have hs : ¬ stops (s.pool p) = true := by simpa [stops] using hst
        rw [if_neg hst, allocStatus, if_neg hs, if_neg hs]; simp [Pdev.setPool, OlPool.pop]

theorem inflightOf_cons {o : Nat → Option Nat} {l : List Nat} {e q : Nat} :
    (e :: l).countP (fun x => o x = some q)
      = l.countP (fun x => o x = some q) + if o e = some q then 1 else 0 := by
  rw [countP_cons]; simp

theorem afterAlloc_inflightOf {l : List Nat} (h : Inv s [] 0 0)
    (hl : (s.pool p).freelist = d :: l) (q : Nat) :
    inflightOf (afterAlloc s v p d) q = inflightOf s q + if q = p then 1 else 0 := by
  have hown : s.desc_pool d = some p := h.owner p d (by rw [hl]; exact mem_cons_self)
  show (d :: s.inflight).countP (fun x => s.desc_pool x = some q) = _
  rw [inflightOf_cons, hown, inflightOf]; simp only [some.injEq, eq_comm (a := p)]

theorem launch_inv {held : List Nat} (h : Inv s (d :: held) p 1) (hp : p < s.nextPool)
    (hown : s.desc_pool d = some p) : Inv { s with inflight := d :: s.inflight } held p 0 := by
  have hfl : ∀ q, inflightOf { s with inflight := d :: s.inflight } q
      = inflightOf s q + if q = p then 1 else 0 := by
    intro q
    show (d :: s.inflight).countP (fun x => s.desc_pool x = some q) = _
    rw [inflightOf_cons, hown, inflightOf]; simp only [some.injEq, eq_comm (a := p)]
  refine
    { h with
      total := fun x => ?_
      inflight_owner := fun x hx => ?_
      size_eq := fun q hq => ?_ }
  · have ht := h.total x
    rw [count_cons] at ht
    show s.freelist.count x + inPools s x + (d :: s.inflight).count x + _
      = if x < s.pool_size then 1 else 0
    rw [count_cons]; omega
  · rcases mem_cons.mp hx with rfl | hx
    · exact ⟨p, hp, hown⟩
    · exact h.inflight_owner x hx
  · have he := h.size_eq q hq
    rw [hfl, ite_self]
    show (s.pool q).avail_desc + _ + (s.pool q).deficient_desc + 0 = (s.pool q).flow_pool_size
    omega

theorem land_inv (h : Inv s [] p 0) (hd : d ∈ s.inflight) (hown : s.desc_pool d = some p) :
    Inv { s with inflight := s.inflight.erase d } [d] p 1 ∧
      ∀ q, inflightOf { s with inflight := s.inflight.erase d } q + (if q = p then 1 else 0)
        = inflightOf s q := by
  have hperm : s.inflight.Perm (d :: s.inflight.erase d) := perm_cons_erase hd
  have hfl : ∀ q, inflightOf { s with inflight := s.inflight.erase d } q
      + (if q = p then 1 else 0) = inflightOf s q := by
    intro q
    rw [inflightOf, inflightOf, hperm.countP_eq, inflightOf_cons, hown]
    simp only [some.injEq, eq_comm (a := p)]
  refine ⟨{ h with
    total := fun x => ?_
    inflight_owner := fun x hx => h.inflight_owner x (mem_of_mem_erase hx)
    size_eq := fun q hq => ?_ }, hfl⟩
  · have ht := h.total x
    rw [hperm.count_eq, count_cons] at ht
    show s.freelist.count x + inPools s x + (s.inflight.erase d).count x + _
      = if x < s.pool_size then 1 else 0
    rw [count_cons]; omega
  · have he := h.size_eq q hq
    have hq' := hfl q
    rw [ite_self] at he
    show (s.pool q).avail_desc + inflightOf { s with inflight := s.inflight.erase d } q
      + (s.pool q).deficient_desc + _ = (s.pool q).flow_pool_size
    omega

theorem Inv.lt_of_mem_pool {held : List Nat} {src k : Nat} (h : Inv s held src k)
    (hd : d ∈ (s.pool p).freelist) : p < s.nextPool := by
  by_contra hge
  rw [h.unallocated p (by omega)] at hd; exact absurd hd (by simp)

theorem alloc_inv {l : List Nat} (h : Inv s [] 0 0) (hl : (s.pool p).freelist = d :: l) :
    Inv (afterAlloc s v p d) [] 0 0 := by
  have hmem : d ∈ (s.pool p).freelist := by rw [hl]; exact mem_cons_self
  have hlt : p < s.nextPool := h.lt_of_mem_pool hmem
  have h1 : Inv (s.setPool p OlPool.pop) [d] p 1 :=
    get_desc_inv (h.zero p) (by rw [ol_tx_get_desc_flow_pool, hl])
  have h2 := launch_inv h1 hlt (h.owner p d hmem)
  -- the status does not enter the invariant, unless it is INVALID
  have hstat : allocStatus (s.pool p) = .FLOW_POOL_INVALID →
      ((s.setPool p OlPool.pop).pool p).status = .FLOW_POOL_INVALID := by
    rw [allocStatus, setPool_self]
    split
    · exact fun hst => absurd hst (by simp)
    · exact id
  have h3 := setPool_inv (f := fun pool => { pool with status := allocStatus (s.pool p) })
    (p := p) (j := 0) h2 rfl rfl hstat (fun hp => h2.size_eq p hp) fun _ => rfl
  exact { h3.zero 0 with }

def afterPut (s : Pdev) (p d : Nat) : Pdev :=
  ol_tx_put_desc_flow_pool { s with inflight := s.inflight.erase d } p d

theorem afterPut_pool (q : Nat) :
    (afterPut s p d).pool q = if q = p then (s.pool p).push d else s.pool q :=
  setPool_pool { s with inflight := s.inflight.erase d } p q (·.push d)

/-- Putting back keeps the invariant, and takes one descriptor of pool `p` out
of the air. -/
theorem put_back_inv (h : Inv s [] 0 0) (hd : d ∈ s.inflight) (hown : s.desc_pool d = some p) :
    Inv (afterPut s p d) [] p 0 ∧
      ∀ q, inflightOf (afterPut s p d) q + (if q = p then 1 else 0) = inflightOf s q := by
  obtain ⟨h1, hfl⟩ := land_inv (h.zero p) hd hown
  obtain ⟨p', hp', hown'⟩ := h.inflight_owner d hd
  have hlt : p < s.nextPool := by
    rw [hown] at hown'
    rw [some.inj hown']; exact hp'
  have hnot : d ∉ ({ s with inflight := s.inflight.erase d } : Pdev).inflight :=
    h1.held_notMem_inflight mem_cons_self
  refine ⟨put_with_inv h1 hlt rfl rfl rfl (fun hp => ?_) fun hne => absurd rfl hne, fun q => ?_⟩
  · have he := h1.size_eq p hp
    rw [if_pos rfl] at he
    rw [ite_self]
    show (s.pool p).avail_desc + 1 + _ + (s.pool p).deficient_desc + 0 = (s.pool p).flow_pool_size
    change (s.pool p).avail_desc + _ + (s.pool p).deficient_desc + 1 = (s.pool p).flow_pool_size
      at he
    omega
  · rw [← hfl q]; exact congrArg (· + _) ((frame_put_desc (p := p) hnot).inflightOf q)

theorem afterPut_inflightOf_of_ne (h : Inv s [] 0 0) (hd : d ∈ s.inflight)
    (hown : s.desc_pool d = some p) {q : Nat} (hq : q ≠ p) :
    inflightOf (afterPut s p d) q = inflightOf s q := by
  have hfl := (put_back_inv h hd hown).2 q
  rw [if_neg hq] at hfl; exact hfl

theorem afterPut_inflightOf_self (h : Inv s [] 0 0) (hd : d ∈ s.inflight)
    (hown : s.desc_pool d = some p) : inflightOf (afterPut s p d) p + 1 = inflightOf s p := by
  have hfl := (put_back_inv h hd hown).2 p
  rw [if_pos rfl] at hfl; exact hfl

def afterWake (s : Pdev) (p : Nat) : Pdev :=
  { s.setPool p (fun pool => { pool with status := .FLOW_POOL_ACTIVE_UNPAUSED }) with
    pause_cb := ((s.pool p).member_flow_id, .WLAN_WAKE_ALL_NETIF_QUEUE) :: s.pause_cb }

theorem afterWake_pool (q : Nat) : (afterWake s p).pool q
    = if q = p then { s.pool p with status := .FLOW_POOL_ACTIVE_UNPAUSED } else s.pool q :=
  setPool_pool s p q fun pool => { pool with status := .FLOW_POOL_ACTIVE_UNPAUSED }

theorem afterWake_pool_of_ne {q : Nat} (hq : q ≠ p) : (afterWake s p).pool q = s.pool q :=
  update_of_ne hq _ _

theorem afterWake_status : ((afterWake s p).pool p).status = .FLOW_POOL_ACTIVE_UNPAUSED := by
  show (update s.pool p _ p).status = _
  rw [update_self]

theorem wake_inv {held : List Nat} {src k : Nat} (h : Inv s held src k) :
    Inv (afterWake s p) held src k := by
  have hset := setPool_inv (f := fun pool => { pool with status := .FLOW_POOL_ACTIVE_UNPAUSED })
    (p := p) (j := k) h rfl rfl (fun hst => absurd hst (by simp)) (fun hp => h.size_eq p hp)
    fun _ => rfl
  exact { hset with }

def finishFree (s : Pdev) (p : Nat) : Option Pdev :=
  match (s.pool p).status with
  | .FLOW_POOL_ACTIVE_PAUSED =>
    if (s.pool p).avail_desc > (s.pool p).start_th then some (afterWake s p) else some s
  | .FLOW_POOL_INVALID =>
    if (s.pool p).avail_desc = (s.pool p).flow_pool_size then ol_tx_free_invalid_flow_pool s p
    else some s
  | .FLOW_POOL_ACTIVE_UNPAUSED => some s
  | .FLOW_POOL_INACTIVE => some s

/-- **Freeing.** The descriptor goes back to its pool, which may then wake its
netif queues or, if it is invalid and complete, be finished. -/
theorem free_cases (h : Inv s [] 0 0) (hd : d ∈ s.inflight) :
    ∃ p s', s.desc_pool d = some p ∧ ol_tx_desc_free s d = some s' ∧
      ((s' = afterPut s p d ∧
          ((s.pool p).status = .FLOW_POOL_ACTIVE_PAUSED →
            (s.pool p).avail_desc + 1 ≤ (s.pool p).start_th) ∧
          ((s.pool p).status = .FLOW_POOL_INVALID →
            (s.pool p).avail_desc + 1 ≠ (s.pool p).flow_pool_size)) ∨
        (s' = afterWake (afterPut s p d) p ∧ (s.pool p).status = .FLOW_POOL_ACTIVE_PAUSED ∧
          (s.pool p).start_th < (s.pool p).avail_desc + 1) ∨
        ((s.pool p).status = .FLOW_POOL_INVALID ∧
          (s.pool p).avail_desc + 1 = (s.pool p).flow_pool_size ∧
          Inv s' [] p 0 ∧ Finished (afterPut s p d) s' p)) := by
  obtain ⟨p, -, hown⟩ := h.inflight_owner d hd
  obtain ⟨hput, -⟩ := put_back_inv h hd hown
  have hpool : (afterPut s p d).pool p = (s.pool p).push d := by rw [afterPut_pool, if_pos rfl]
  have hst : ((afterPut s p d).pool p).status = (s.pool p).status := by rw [hpool]; rfl
  have hav : ((afterPut s p d).pool p).avail_desc = (s.pool p).avail_desc + 1 := by
    rw [hpool]; rfl
  have hth : ((afterPut s p d).pool p).start_th = (s.pool p).start_th := by rw [hpool]; rfl
  have hsz : ((afterPut s p d).pool p).flow_pool_size = (s.pool p).flow_pool_size := by
    rw [hpool]; rfl
  have hfree : ol_tx_desc_free s d = finishFree (afterPut s p d) p := by
    rw [ol_tx_desc_free, if_pos hd, hown, bind_some]; rfl
  refine ⟨p, ?_⟩
  rw [hfree, finishFree, hst, hav, hth, hsz]
  cases hc : (s.pool p).status with
  | FLOW_POOL_ACTIVE_PAUSED =>
    by_cases hgt : (s.pool p).avail_desc + 1 > (s.pool p).start_th
    · rw [if_pos hgt]; exact ⟨_, hown, rfl, .inr (.inl ⟨rfl, rfl, hgt⟩)⟩
    · rw [if_neg hgt]
      exact ⟨_, hown, rfl, .inl ⟨rfl, fun _ => by omega, fun h' => absurd h' (by simp)⟩⟩
  | FLOW_POOL_INVALID =>
    by_cases he : (s.pool p).avail_desc + 1 = (s.pool p).flow_pool_size
    · rw [if_pos he]
      obtain ⟨t, ht, hinv, hfin⟩ := free_invalid_spec hput (hst.trans hc) (by rw [hav, hsz, he])
      exact ⟨t, hown, ht, .inr (.inr ⟨rfl, he, hinv, hfin⟩)⟩
    · rw [if_neg he]
      exact ⟨_, hown, rfl, .inl ⟨rfl, fun h' => absurd h' (by simp), fun _ => he⟩⟩
  | FLOW_POOL_ACTIVE_UNPAUSED =>
    exact ⟨_, hown, rfl, .inl ⟨rfl, fun h' => absurd h' (by simp), fun h' => absurd h' (by simp)⟩⟩
  | FLOW_POOL_INACTIVE =>
    exact ⟨_, hown, rfl, .inl ⟨rfl, fun h' => absurd h' (by simp), fun h' => absurd h' (by simp)⟩⟩

end AllocFree

/-! ## What a step can do -/

def deletes (s : Pdev) : Op → Option (Nat × Bool)
  | .delete p force => some (p, force)
  | .unmap _ .FLOW_TYPE_VDEV id _ => (ol_tx_get_flow_pool s id).map fun p => (p, false)
  | _ => none

inductive Effect (s : Pdev) : Op → Pdev → Prop where
  | relabel {e s'} : Relabel s s' → Effect s e s'
  | create {e t s'} (p size : Nat) : Created s t p size → Inv t [] 0 0 → Relabel t s' →
      Effect s e s'
  | delete {e t} (p : Nat) (force : Bool) : Relabel s t → p ∈ s.flow_pool_list →
      deletes s e = some (p, force) → Effect s e (afterDelete t p force)
  | create_delete {t} (flow_id id size p : Nat) (vdev_ok : Bool) : Created s t p size →
      Inv t [] 0 0 → ol_tx_get_flow_pool s id = none →
      Effect s (.map flow_id .other id size vdev_ok true) (afterDelete t p false)
  | alloc {l} (v p d : Nat) (mgmt : Bool) : allocPool s v mgmt = some p →
      (s.pool p).freelist = d :: l → Effect s (.alloc v mgmt) (afterAlloc s v p d)
  | put (d p : Nat) : d ∈ s.inflight → s.desc_pool d = some p →
      ((s.pool p).status = .FLOW_POOL_ACTIVE_PAUSED →
        (s.pool p).avail_desc + 1 ≤ (s.pool p).start_th) →
      ((s.pool p).status = .FLOW_POOL_INVALID →
        (s.pool p).avail_desc + 1 ≠ (s.pool p).flow_pool_size) →
      Effect s (.free d) (afterPut s p d)
  | wake (d p : Nat) : d ∈ s.inflight → s.desc_pool d = some p →
      (s.pool p).status = .FLOW_POOL_ACTIVE_PAUSED →
      (s.pool p).start_th < (s.pool p).avail_desc + 1 →
      Effect s (.free d) (afterWake (afterPut s p d) p)
  | finish {s'} (d p : Nat) : d ∈ s.inflight → s.desc_pool d = some p →
      (s.pool p).status = .FLOW_POOL_INVALID →
      (s.pool p).avail_desc + 1 = (s.pool p).flow_pool_size → Inv s' [] p 0 →
      Finished (afterPut s p d) s' p → Effect s (.free d) s'

section Step

variable {s s' : Pdev}

theorem mem_of_get_flow_pool {id p : Nat} (h : ol_tx_get_flow_pool s id = some p) :
    p ∈ s.flow_pool_list :=
  mem_of_find?_eq_some h

theorem relabel_list {t : Pdev} (h : Relabel s t) : t.flow_pool_list = s.flow_pool_list := by
  rw [h.rest]

theorem Created.ne_of_listed {t : Pdev} {p size q : Nat} (hc : Created s t p size)
    (h : Inv s [] 0 0) (hq : q ∈ s.flow_pool_list) : q ≠ p := by
  rw [hc.fresh]; exact Nat.ne_of_lt (h.lt_of_listed hq)

theorem Created.mem {t : Pdev} {p size : Nat} (h : Created s t p size) : p ∈ t.flow_pool_list := by
  rw [h.list]; exact mem_append_right _ mem_cons_self

theorem step_effect (h : Inv s [] 0 0) {e : Op} (hs : step s e = some s') : Effect s e s' := by
  cases e with
  | register_mgmt ok =>
    obtain ⟨r, hr, rfl⟩ := map_eq_some_iff.mp hs
    cases ok with
    | false =>
      rw [← some.inj hr]
      exact .relabel ⟨rfl, fun _ => rfl, h.vdev_lt, fun p hp => absurd hp (by simp)⟩
    | true =>
      obtain ⟨t, ht, hinv, hc⟩ := create_spec h TX_FLOW_MGMT_POOL_ID TX_FLOW_MGMT_POOL_SIZE
      rw [hr] at ht
      rw [some.inj ht]
      refine .create _ _ hc hinv ⟨rfl, fun _ => rfl, hinv.vdev_lt, fun p hp => ?_⟩
      rw [← some.inj hp]; exact hinv.lt_of_listed hc.mem
  | create id size ok =>
    obtain ⟨r, hr, rfl⟩ := map_eq_some_iff.mp hs
    cases ok with
    | false => rw [← some.inj hr]; exact .relabel (Relabel.refl h)
    | true =>
      obtain ⟨t, ht, hinv, hc⟩ := create_spec h id size
      rw [hr] at ht
      rw [some.inj ht]; exact .create _ _ hc hinv (Relabel.refl hinv)
  | delete p force =>
    have hp : p ∈ s.flow_pool_list := by
      by_contra hne
      rw [step, ol_tx_delete_flow_pool, if_neg hne] at hs; exact absurd hs (by simp)
    rw [step, delete_eq h force hp] at hs
    rw [← some.inj hs]; exact .delete p force (Relabel.refl h) hp rfl
  | map flow_id type id size vdev_ok ok =>
    rw [step, ol_tx_flow_pool_map_handler] at hs
    split at hs
    · next p hp =>
      have hlt := h.lt_of_listed (mem_of_get_flow_pool hp)
      cases type with
      | FLOW_TYPE_VDEV => rw [← some.inj hs]; exact .relabel (relabel_vdev_map h hlt)
      | other => rw [← some.inj hs]; exact .relabel (Relabel.refl h)
    · next hnone =>
      cases ok with
      | false => rw [← some.inj hs]; exact .relabel (Relabel.refl h)
      | true =>
        obtain ⟨t, ht, hinv, hc⟩ := create_spec h id size
        rw [ht, bind_some] at hs
        cases type with
        | FLOW_TYPE_VDEV =>
          rw [← some.inj hs]
          exact .create _ _ hc hinv (relabel_vdev_map hinv (hinv.lt_of_listed hc.mem))
        | other =>
          dsimp only at hs
          rw [delete_eq hinv false hc.mem] at hs
          rw [← some.inj hs]; exact .create_delete flow_id id size _ vdev_ok hc hinv hnone
  | unmap flow_id type id vdev_ok =>
    rw [step, ol_tx_flow_pool_unmap_handler] at hs
    split at hs
    · rw [← some.inj hs]; exact .relabel (Relabel.refl h)
    · next p hp =>
      cases type with
      | FLOW_TYPE_VDEV =>
        have hmem := mem_of_get_flow_pool hp
        have hr : Relabel s (ol_tx_flow_pool_vdev_unmap s p flow_id vdev_ok) :=
          relabel_vdev_unmap h
        rw [delete_eq (relabel_inv h hr) false (relabel_list hr ▸ hmem)] at hs
        rw [← some.inj hs]
        exact .delete p false hr hmem (by rw [deletes, hp]; rfl)
      | other => rw [← some.inj hs]; exact .relabel (Relabel.refl h)
  | alloc v mgmt =>
    rcases alloc_cases h (allocPool s v mgmt) hs with rfl | ⟨p, d, l, hp, hl, rfl⟩
    · exact .relabel (Relabel.refl h)
    · exact .alloc v p d mgmt hp hl
  | free d =>
    have hd : d ∈ s.inflight := by
      by_contra hne
      rw [step, ol_tx_desc_free, if_neg hne] at hs; exact absurd hs (by simp)
    obtain ⟨p, t, hown, ht, hcases⟩ := free_cases h hd
    rw [step, ht] at hs
    cases hs
    rcases hcases with ⟨rfl, h1, h2⟩ | ⟨rfl, h1, h2⟩ | ⟨h1, h2, h3, h4⟩
    · exact .put d p hd hown h1 h2
    · exact .wake d p hd hown h1 h2
    · exact .finish d p hd hown h1 h2 h3 h4

theorem effect_inv (h : Inv s [] 0 0) {e : Op} (he : Effect s e s') : Inv s' [] 0 0 := by
  cases he with
  | relabel hr => exact relabel_inv h hr
  | create p size hc hinv hr => exact relabel_inv hinv hr
  | delete p force hr hp _ => exact delete_inv (relabel_inv h hr) force (relabel_list hr ▸ hp)
  | create_delete flow_id id size p vdev_ok hc hinv _ => exact delete_inv hinv false hc.mem
  | alloc v p d mgmt hp hl => exact alloc_inv h hl
  | put d p hd hown _ _ => exact (put_back_inv h hd hown).1.zero 0
  | wake d p hd hown _ _ => exact (wake_inv (put_back_inv h hd hown).1).zero 0
  | finish d p hd hown _ _ hinv _ => exact hinv.zero 0

theorem init_inv (cfg : Cfg) (n : Nat) : Inv (Pdev.init cfg n) [] 0 0 := by
  refine ⟨fun d => ?_, by simp [Pdev.init], fun p => rfl, fun p _ => rfl,
    fun p d hd => absurd hd (by simp [Pdev.init, OlPool.unallocated]),
    fun d hd => absurd hd (by simp [Pdev.init]), Perm.refl _,
    fun p hp => absurd hp (by simp [Pdev.init]),
    fun p hp => absurd hp (by simp [Pdev.init, OlPool.unallocated]),
    fun v p hp => absurd hp (by simp [Pdev.init]), fun p hp => absurd hp (by simp [Pdev.init])⟩
  show (range n).count d + 0 + 0 + 0 = if d < n then 1 else 0
  rw [nodup_range.count]; simp only [mem_range, Nat.add_zero]

end Step

end Qcacld.FlowPool
