/-
LL tx descriptor pools: `ol_txrx_flow_control.c` and the flow control version of `ol_tx_desc.c`.

A FLOW_POOL_MAP message from the firmware creates a pool and fills it from the global list; when the
list is short the pool remembers how many descriptors it is owed (`deficient_desc`). Pool objects
live in an explicit memory, `Pdev.pool`; a freed object keeps the contents it had (`Pdev.freed`
lists the freed ones), so that the model can say what happens to a descriptor that is returned to
one. Popping an empty freelist dereferences a null pointer and has no result.
-/
import Qcacld.Lib.Run
import Qcacld.Lib.Count

set_option autoImplicit false

namespace Qcacld.FlowPool

open Lib Function

/-! ## Data -/

inductive Status where
  | FLOW_POOL_ACTIVE_UNPAUSED
  | FLOW_POOL_ACTIVE_PAUSED
  | FLOW_POOL_INVALID
  | FLOW_POOL_INACTIVE
deriving DecidableEq

/-- The two requests that the descriptor code makes through `pdev->pause_cb`. -/
inductive NetifAction where
  | WLAN_STOP_ALL_NETIF_QUEUE
  | WLAN_WAKE_ALL_NETIF_QUEUE
deriving DecidableEq

/-- `enum htt_flow_type`, as far as the map handlers tell its values apart. -/
inductive FlowType where
  | FLOW_TYPE_VDEV
  | other

def INVALID_FLOW_ID : Nat := 0xFF
def TX_FLOW_MGMT_POOL_ID : Nat := 0xEF
def TX_FLOW_MGMT_POOL_SIZE : Nat := 32

/-- The configured thresholds, in percent of the pool size, with the ranges the
configuration allows. -/
structure Cfg where
  tx_flow_stop_queue_th : Nat
  tx_flow_start_queue_offset : Nat
  stop_le : tx_flow_stop_queue_th ≤ 50
  offset_le : tx_flow_start_queue_offset ≤ 30

structure OlPool where
  flow_pool_id : Nat
  flow_pool_size : Nat
  avail_desc : Nat
  deficient_desc : Nat
  status : Status
  member_flow_id : Nat
  stop_th : Nat
  start_th : Nat
  freelist : List Nat

def OlPool.unallocated : OlPool where
  flow_pool_id := 0
  flow_pool_size := 0
  avail_desc := 0
  deficient_desc := 0
  status := .FLOW_POOL_INACTIVE
  member_flow_id := 0
  stop_th := 0
  start_th := 0
  freelist := []

/-- The part of the pdev that deals with tx descriptors. Descriptors are their
ids, below `pool_size`; pools are their addresses, below `nextPool`.

`inflight`, `deleted` and `freed` are not in the source: the descriptors that a
caller of `ol_tx_desc_alloc` holds, the pools that `ol_tx_delete_flow_pool` was
called for, and those that went to `cdf_mem_free`. -/
structure Pdev where
  cfg : Cfg
  pool_size : Nat
  freelist : List Nat
  num_free : Nat
  pool : Nat → OlPool
  nextPool : Nat
  flow_pool_list : List Nat
  num_invalid_bin : Int
  /-- `tx_desc->pool`. -/
  desc_pool : Nat → Option Nat
  vdev_pool : Nat → Option Nat
  mgmt_pool : Option Nat
  /-- Calls of `pause_cb`, the latest first. -/
  pause_cb : List (Nat × NetifAction)
  inflight : List Nat
  deleted : List Nat
  freed : List Nat

/-- The pdev once its `n` descriptors have been linked into the global list. -/
def Pdev.init (cfg : Cfg) (n : Nat) : Pdev where
  cfg := cfg
  pool_size := n
  freelist := List.range n
  num_free := n
  pool := fun _ => OlPool.unallocated
  nextPool := 0
  flow_pool_list := []
  num_invalid_bin := 0
  desc_pool := fun _ => none
  vdev_pool := fun _ => none
  mgmt_pool := none
  pause_cb := []
  inflight := []
  deleted := []
  freed := []

def Pdev.setPool (s : Pdev) (p : Nat) (f : OlPool → OlPool) : Pdev :=
  { s with pool := update s.pool p (f (s.pool p)) }

/-! ## Single descriptors -/

def OlPool.pop (pool : OlPool) : OlPool :=
  { pool with freelist := pool.freelist.tail, avail_desc := pool.avail_desc - 1 }

def OlPool.push (pool : OlPool) (d : Nat) : OlPool :=
  { pool with freelist := d :: pool.freelist, avail_desc := pool.avail_desc + 1 }

@[simp] theorem OlPool.push_avail_desc (pool : OlPool) (d : Nat) :
    (pool.push d).avail_desc = pool.avail_desc + 1 := rfl

@[simp] theorem OlPool.pop_avail_desc (pool : OlPool) :
    pool.pop.avail_desc = pool.avail_desc - 1 := rfl

theorem OlPool.pop_freelist {pool : OlPool} {d : Nat} {l : List Nat}
    (h : pool.freelist = d :: l) : pool.pop.freelist = l := by rw [OlPool.pop, h]; rfl

def ol_tx_get_desc_global_pool (s : Pdev) : Option (Pdev × Nat) :=
  match s.freelist with
  | [] => none
  | d :: l => some ({ s with freelist := l, num_free := s.num_free - 1 }, d)

def ol_tx_put_desc_global_pool (s : Pdev) (d : Nat) : Pdev :=
  { s with freelist := d :: s.freelist, num_free := s.num_free + 1 }

def ol_tx_get_desc_flow_pool (s : Pdev) (p : Nat) : Option (Pdev × Nat) :=
  match (s.pool p).freelist with
  | [] => none
  | d :: _ => some (s.setPool p OlPool.pop, d)

def ol_tx_put_desc_flow_pool (s : Pdev) (p d : Nat) : Pdev :=
  { s.setPool p (·.push d) with desc_pool := update s.desc_pool d (some p) }

/-! ## Moving descriptors between pools -/

def move_take (src : Nat) : Nat → Pdev → List Nat → Option (Pdev × List Nat)
  | 0, s, temp_list => some (s, temp_list)
  | n + 1, s, temp_list =>
    (ol_tx_get_desc_flow_pool s src).bind fun r => move_take src n r.1 (r.2 :: temp_list)

/-- The second loop, which stops once the destination is no longer deficient. -/
def move_put (dst : Nat) : Nat → Pdev → List Nat → Nat → Option (Pdev × List Nat × Nat)
  | 0, s, temp_list, count => some (s, temp_list, count)
  | n + 1, s, temp_list, count =>
    if (s.pool dst).deficient_desc = 0 then some (s, temp_list, count)
    else
      match temp_list with
      | [] => none
      | d :: temp_list =>
        let s := s.setPool dst fun pool =>
          { pool with deficient_desc := pool.deficient_desc - 1 }
        move_put dst n (ol_tx_put_desc_flow_pool s dst d) temp_list (count + 1)

/-- The third loop: what is left goes back to the source. -/
def move_back (src : Nat) : Pdev → List Nat → Pdev
  | s, [] => s
  | s, d :: temp_list => move_back src (ol_tx_put_desc_flow_pool s src d) temp_list

def ol_tx_move_desc_n (s : Pdev) (src dst desc_move_count : Nat) : Option (Pdev × Nat) :=
  (move_take src desc_move_count s []).bind fun r =>
    (move_put dst desc_move_count r.1 r.2 0).map fun t => (move_back src t.1 t.2.1, t.2.2)

/-- The `TAILQ_FOREACH` of `ol_tx_distribute_descs_to_deficient_pools`. -/
def distribute_loop (src : Nat) : List Nat → Pdev → Nat → Option Pdev
  | [], s, _ => some s
  | dst :: rest, s, desc_count =>
    let deficient := (s.pool dst).deficient_desc
    if deficient ≠ 0 then
      let desc_move_count := if deficient > desc_count then desc_count else deficient
      (ol_tx_move_desc_n s src dst desc_move_count).bind fun r =>
        if desc_count - r.2 = 0 then some r.1
        else distribute_loop src rest r.1 (desc_count - r.2)
    else if desc_count = 0 then some s
    else distribute_loop src rest s desc_count

def ol_tx_distribute_descs_to_deficient_pools (s : Pdev) (src : Nat) : Option Pdev :=
  distribute_loop src s.flow_pool_list s (s.pool src).avail_desc

/-! ## Creating and deleting pools -/

/-- The loop of `ol_tx_create_flow_pool`: descriptors of the global list become
the new pool's. -/
def create_take (p : Nat) : Nat → Pdev → List Nat → Option (Pdev × List Nat)
  | 0, s, temp_list => some (s, temp_list)
  | n + 1, s, temp_list =>
    (ol_tx_get_desc_global_pool s).bind fun r =>
      create_take p n { r.1 with desc_pool := update r.1.desc_pool r.2 (some p) }
        (r.2 :: temp_list)

/-- `ol_tx_create_flow_pool`, with the address of the pool or `none` for NULL. -/
def ol_tx_create_flow_pool (s : Pdev) (flow_pool_id flow_pool_size : Nat) (malloc_ok : Bool) :
    Option (Pdev × Option Nat) :=
  if malloc_ok then
    let p := s.nextPool
    let stop_threshold := s.cfg.tx_flow_stop_queue_th
    let start_threshold := stop_threshold + s.cfg.tx_flow_start_queue_offset
    let size := if s.num_free ≥ flow_pool_size then flow_pool_size else s.num_free
    (create_take p size s []).map fun r =>
      let pool : OlPool :=
        { flow_pool_id := flow_pool_id
          flow_pool_size := flow_pool_size
          avail_desc := size
          deficient_desc := flow_pool_size - size
          status := .FLOW_POOL_ACTIVE_UNPAUSED
          member_flow_id := 0
          stop_th := stop_threshold * flow_pool_size / 100
          start_th := start_threshold * flow_pool_size / 100
          freelist := r.2 }
      ({ r.1 with
          pool := update r.1.pool p pool
          nextPool := p + 1
          flow_pool_list := r.1.flow_pool_list ++ [p] }, some p)
  else some (s, none)

/-- The last loop of `ol_tx_delete_flow_pool`: `size` descriptors of `temp_list`
go to the global list. -/
def delete_put : Nat → Pdev → List Nat → Option Pdev
  | 0, s, _ => some s
  | _ + 1, _, [] => none
  | n + 1, s, d :: temp_list => delete_put n (ol_tx_put_desc_global_pool s d) temp_list

/-- The pool object and the list of pools as `ol_tx_delete_flow_pool` leaves
them: freed, or invalid and back at the end of the list. -/
def delete_unlink (s : Pdev) (p : Nat) (force : Bool) : Pdev :=
  let s := { s with flow_pool_list := s.flow_pool_list.erase p, deleted := p :: s.deleted }
  if (s.pool p).avail_desc = (s.pool p).flow_pool_size ∨ force = true then
    { s.setPool p (fun pool =>
        { pool with status := .FLOW_POOL_INACTIVE, freelist := [], avail_desc := 0 }) with
      freed := p :: s.freed }
  else
    { s.setPool p (fun pool =>
        { pool with
          status := .FLOW_POOL_INVALID
          freelist := []
          avail_desc := 0
          flow_pool_size := pool.flow_pool_size - pool.avail_desc
          flow_pool_id := INVALID_FLOW_ID }) with
      num_invalid_bin := s.num_invalid_bin + 1
      flow_pool_list := s.flow_pool_list ++ [p] }

/-- `ol_tx_delete_flow_pool`. `TAILQ_REMOVE` of a pool that is not linked has no
result. -/
def ol_tx_delete_flow_pool (s : Pdev) (p : Nat) (force : Bool) : Option Pdev :=
  if p ∈ s.flow_pool_list then
    delete_put (s.pool p).avail_desc (delete_unlink s p force) (s.pool p).freelist
  else none

/-- The last corrections of `ol_tx_free_invalid_flow_pool`: the pool is as large
as what is left in it. -/
def invalid_settle (s : Pdev) (p : Nat) : Pdev :=
  { s.setPool p (fun pool => { pool with flow_pool_size := pool.avail_desc }) with
    num_invalid_bin := s.num_invalid_bin - 1 }

def ol_tx_free_invalid_flow_pool (s : Pdev) (p : Nat) : Option Pdev :=
  if (s.pool p).status ≠ .FLOW_POOL_INVALID then some s
  else
    (ol_tx_distribute_descs_to_deficient_pools s p).bind fun s =>
      ol_tx_delete_flow_pool (invalid_settle s p) p false

/-! ## FLOW_POOL_MAP and FLOW_POOL_UNMAP -/

def ol_tx_get_flow_pool (s : Pdev) (flow_pool_id : Nat) : Option Nat :=
  s.flow_pool_list.find? fun p => (s.pool p).flow_pool_id = flow_pool_id

/-- `vdev_ok` is whether a vdev with this id exists. -/
def ol_tx_flow_pool_vdev_map (s : Pdev) (p vdev_id : Nat) (vdev_ok : Bool) : Pdev :=
  if vdev_ok then
    { s.setPool p (fun pool => { pool with member_flow_id := vdev_id }) with
      vdev_pool := update s.vdev_pool vdev_id (some p) }
  else s

def ol_tx_flow_pool_vdev_unmap (s : Pdev) (p vdev_id : Nat) (vdev_ok : Bool) : Pdev :=
  if vdev_ok then
    { s.setPool p (fun pool => { pool with member_flow_id := INVALID_FLOW_ID }) with
      vdev_pool := update s.vdev_pool vdev_id none }
  else s

def ol_tx_flow_pool_map_handler (s : Pdev) (flow_id : Nat) (type : FlowType)
    (flow_pool_id flow_pool_size : Nat) (vdev_ok malloc_ok : Bool) : Option Pdev :=
  match ol_tx_get_flow_pool s flow_pool_id with
  | some p =>
    match type with
    | .FLOW_TYPE_VDEV => some (ol_tx_flow_pool_vdev_map s p flow_id vdev_ok)
    | .other => some s
  | none =>
    (ol_tx_create_flow_pool s flow_pool_id flow_pool_size malloc_ok).bind fun r =>
      match r.2 with
      | none => some r.1
      | some p =>
        match type with
        | .FLOW_TYPE_VDEV => some (ol_tx_flow_pool_vdev_map r.1 p flow_id vdev_ok)
        | .other => ol_tx_delete_flow_pool r.1 p false

def ol_tx_flow_pool_unmap_handler (s : Pdev) (flow_id : Nat) (type : FlowType)
    (flow_pool_id : Nat) (vdev_ok : Bool) : Option Pdev :=
  match ol_tx_get_flow_pool s flow_pool_id with
  | none => some s
  | some p =>
    match type with
    | .FLOW_TYPE_VDEV =>
      ol_tx_delete_flow_pool (ol_tx_flow_pool_vdev_unmap s p flow_id vdev_ok) p false
    | .other => some s

def ol_tx_register_global_mgmt_pool (s : Pdev) (malloc_ok : Bool) : Option Pdev :=
  (ol_tx_create_flow_pool s TX_FLOW_MGMT_POOL_ID TX_FLOW_MGMT_POOL_SIZE malloc_ok).map fun r =>
    { r.1 with mgmt_pool := r.2 }

/-! ## Allocating and freeing descriptors -/

/-- `ol_tx_desc_alloc` for a frame of vdev `v`. A pool that has been freed is not to be read. -/
def ol_tx_desc_alloc (s : Pdev) (v : Nat) : Option Nat → Option Pdev
  | none => some s
  | some p =>
    if p ∈ s.freed then none
    else if (s.pool p).avail_desc ≠ 0 then
      (ol_tx_get_desc_flow_pool s p).map fun r =>
        let s := { r.1 with inflight := r.2 :: r.1.inflight }
        if (s.pool p).avail_desc < (s.pool p).stop_th then
          { s.setPool p (fun pool => { pool with status := .FLOW_POOL_ACTIVE_PAUSED }) with
            pause_cb := (v, .WLAN_STOP_ALL_NETIF_QUEUE) :: s.pause_cb }
        else s
    else some s

/-- The pool that `ol_tx_desc_alloc_wrapper` takes a frame's descriptor from. -/
def allocPool (s : Pdev) (v : Nat) (mgmt : Bool) : Option Nat :=
  if mgmt then s.mgmt_pool else s.vdev_pool v

def ol_tx_desc_alloc_wrapper (s : Pdev) (v : Nat) (mgmt : Bool) : Option Pdev :=
  ol_tx_desc_alloc s v (allocPool s v mgmt)

/-- `ol_tx_desc_free`, for a descriptor in flight. -/
def ol_tx_desc_free (s : Pdev) (d : Nat) : Option Pdev :=
  if d ∈ s.inflight then
    (s.desc_pool d).bind fun p =>
      let s := ol_tx_put_desc_flow_pool { s with inflight := s.inflight.erase d } p d
      let pool := s.pool p
      match pool.status with
      | .FLOW_POOL_ACTIVE_PAUSED =>
        if pool.avail_desc > pool.start_th then
          some { s.setPool p (fun pool => { pool with status := .FLOW_POOL_ACTIVE_UNPAUSED }) with
            pause_cb := (pool.member_flow_id, .WLAN_WAKE_ALL_NETIF_QUEUE) :: s.pause_cb }
        else some s
      | .FLOW_POOL_INVALID =>
        if pool.avail_desc = pool.flow_pool_size then ol_tx_free_invalid_flow_pool s p
        else some s
      | .FLOW_POOL_ACTIVE_UNPAUSED => some s
      | .FLOW_POOL_INACTIVE => some s
  else none

/-! ## Runs -/

/-- What happens to the pools. `ol_tx_move_desc_n` and
`ol_tx_distribute_descs_to_deficient_pools` run inside `free`, the only place
that calls them. -/
inductive Op where
  | register_mgmt (malloc_ok : Bool)
  | create (flow_pool_id flow_pool_size : Nat) (malloc_ok : Bool)
  | delete (p : Nat) (force : Bool)
  | map (flow_id : Nat) (type : FlowType) (flow_pool_id flow_pool_size : Nat)
      (vdev_ok malloc_ok : Bool)
  | unmap (flow_id : Nat) (type : FlowType) (flow_pool_id : Nat) (vdev_ok : Bool)
  | alloc (v : Nat) (mgmt : Bool)
  | free (d : Nat)

def step (s : Pdev) : Op → Option Pdev
  | .register_mgmt ok => ol_tx_register_global_mgmt_pool s ok
  | .create id size ok => (ol_tx_create_flow_pool s id size ok).map (·.1)
  | .delete p force => ol_tx_delete_flow_pool s p force
  | .map flow_id type id size vdev_ok ok =>
    ol_tx_flow_pool_map_handler s flow_id type id size vdev_ok ok
  | .unmap flow_id type id vdev_ok => ol_tx_flow_pool_unmap_handler s flow_id type id vdev_ok
  | .alloc v mgmt => ol_tx_desc_alloc_wrapper s v mgmt
  | .free d => ol_tx_desc_free s d

/-- How many descriptors of pool `p` are in flight. -/
def inflightOf (s : Pdev) (p : Nat) : Nat :=
  s.inflight.countP fun d => s.desc_pool d = some p

open List

/-! `Inv` holds in every state of every run: every descriptor is on one freelist or in flight, the
counters are the lengths of the lists, and a linked pool's size is what it has, what is in flight
and what it is owed. -/

/-! ## The invariant -/

/-- How often descriptor `d` is on a freelist of some pool object, freed or
not. -/
def inPools (s : Pdev) (d : Nat) : Nat :=
  tally (fun pool => pool.freelist.count d) s.pool (range s.nextPool)

/-- The descriptors in hand are `held`, and `k` of the pool `src` are counted already. -/
structure Inv (s : Pdev) (held : List Nat) (src k : Nat) : Prop where
  total : ∀ d, s.freelist.count d + inPools s d + s.inflight.count d + held.count d
    = if d < s.pool_size then 1 else 0
  num_free_eq : s.num_free = s.freelist.length
  avail_eq : ∀ p, (s.pool p).avail_desc = (s.pool p).freelist.length
  unallocated : ∀ p, s.nextPool ≤ p → (s.pool p).freelist = []
  owner : ∀ p, ∀ d ∈ (s.pool p).freelist, s.desc_pool d = some p
  inflight_owner : ∀ d ∈ s.inflight, ∃ p, p < s.nextPool ∧ s.desc_pool d = some p
  listed : (s.flow_pool_list ++ s.freed).Perm (range s.nextPool)
  size_eq : ∀ p ∈ s.flow_pool_list,
    (s.pool p).avail_desc + inflightOf s p + (s.pool p).deficient_desc
      + (if p = src then k else 0) = (s.pool p).flow_pool_size
  invalid_listed : ∀ p, (s.pool p).status = .FLOW_POOL_INVALID → p ∈ s.flow_pool_list
  vdev_lt : ∀ v p, s.vdev_pool v = some p → p < s.nextPool
  mgmt_lt : ∀ p, s.mgmt_pool = some p → p < s.nextPool

section Facts

variable {s : Pdev} {held : List Nat} {src k : Nat}

theorem Inv.nodup (h : Inv s held src k) : (s.flow_pool_list ++ s.freed).Nodup :=
  h.listed.nodup_iff.mpr nodup_range

theorem Inv.list_nodup (h : Inv s held src k) : s.flow_pool_list.Nodup :=
  (nodup_append.mp h.nodup).1

theorem Inv.lt_of_listed (h : Inv s held src k) {p : Nat} (hp : p ∈ s.flow_pool_list) :
    p < s.nextPool :=
  mem_range.mp (h.listed.subset (mem_append_left _ hp))

theorem Inv.lt_of_freed (h : Inv s held src k) {p : Nat} (hp : p ∈ s.freed) : p < s.nextPool :=
  mem_range.mp (h.listed.subset (mem_append_right _ hp))

theorem Inv.not_freed (h : Inv s held src k) {p : Nat} (hp : p ∈ s.flow_pool_list) :
    p ∉ s.freed := fun hf => (nodup_append.mp h.nodup).2.2 p hp p hf rfl

theorem Inv.listed_of_not_freed (h : Inv s held src k) {p : Nat} (hp : p < s.nextPool)
    (hf : p ∉ s.freed) : p ∈ s.flow_pool_list := by
  have hmem := h.listed.symm.subset (mem_range.mpr hp)
  exact (mem_append.mp hmem).resolve_right hf

theorem Inv.held_notMem_inflight (h : Inv s held src k) {d : Nat} (hd : d ∈ held) :
    d ∉ s.inflight := by
  intro hi
  have ht := h.total d
  have h1 : 0 < held.count d := count_pos_iff.mpr hd
  have h2 : 0 < s.inflight.count d := count_pos_iff.mpr hi
  split at ht <;> omega

theorem Inv.notMem_inflight_of_freelist (h : Inv s held src k) {d : Nat}
    (hd : d ∈ s.freelist) : d ∉ s.inflight := by
  intro hi
  have ht := h.total d
  have h1 : 0 < s.freelist.count d := count_pos_iff.mpr hd
  have h2 : 0 < s.inflight.count d := count_pos_iff.mpr hi
  split at ht <;> omega

theorem Inv.count_of_mem_pool (h : Inv s held src k) {p d : Nat} (hd : d ∈ (s.pool p).freelist) :
    s.freelist.count d = 0 ∧ s.inflight.count d = 0 ∧ held.count d = 0 := by
  have hlt : p < s.nextPool := by
    by_contra hge
    rw [h.unallocated p (by omega)] at hd; exact absurd hd (by simp)
  have hle := le_tally (fun pool : OlPool => pool.freelist.count d) s.pool (mem_range.mpr hlt)
  have hpos : 0 < (s.pool p).freelist.count d := count_pos_iff.mpr hd
  have ht := h.total d
  rw [inPools] at ht
  split at ht <;> omega

theorem Inv.freelist_notMem_pool (h : Inv s held src k) {d : Nat} (hd : d ∈ s.freelist)
    (p : Nat) : d ∉ (s.pool p).freelist := fun hp =>
  absurd (h.count_of_mem_pool hp).1 (Nat.ne_of_gt (count_pos_iff.mpr hd))

theorem Inv.held_notMem_pool (h : Inv s held src k) {d : Nat} (hd : d ∈ held) (p : Nat) :
    d ∉ (s.pool p).freelist := fun hp =>
  absurd (h.count_of_mem_pool hp).2.2 (Nat.ne_of_gt (count_pos_iff.mpr hd))

theorem Inv.zero (h : Inv s held src 0) (src' : Nat) : Inv s held src' 0 := by
  refine { h with size_eq := fun p hp => ?_ }
  have he := h.size_eq p hp
  rw [ite_self] at he ⊢
  exact he

end Facts

/-! ## Pool objects -/

section SetPool

variable {s : Pdev} {p q : Nat} {f : OlPool → OlPool}

theorem setPool_pool (s : Pdev) (p q : Nat) (f : OlPool → OlPool) :
    (s.setPool p f).pool q = if q = p then f (s.pool p) else s.pool q :=
  update_apply _ _ _ _

@[simp] theorem setPool_self : (s.setPool p f).pool p = f (s.pool p) := by
  rw [setPool_pool, if_pos rfl]

theorem setPool_of_ne (h : q ≠ p) : (s.setPool p f).pool q = s.pool q := by
  rw [setPool_pool, if_neg h]

theorem inPools_setPool (s : Pdev) (f : OlPool → OlPool) (d : Nat) (hp : p < s.nextPool) :
    inPools (s.setPool p f) d + (s.pool p).freelist.count d
      = inPools s d + (f (s.pool p)).freelist.count d :=
  tally_update _ s.pool _ nodup_range (mem_range.mpr hp)

theorem setPool_inv {held : List Nat} {src k j : Nat} (h : Inv s held src k)
    (hfree : (f (s.pool p)).freelist = (s.pool p).freelist)
    (havail : (f (s.pool p)).avail_desc = (s.pool p).avail_desc)
    (hstat : (f (s.pool p)).status = .FLOW_POOL_INVALID → (s.pool p).status = .FLOW_POOL_INVALID)
    (hsize : p ∈ s.flow_pool_list →
      (f (s.pool p)).avail_desc + inflightOf s p + (f (s.pool p)).deficient_desc
        + (if p = src then j else 0) = (f (s.pool p)).flow_pool_size) (hj : p ≠ src → j = k) :
    Inv (s.setPool p f) held src j := by
  have hlist : ∀ q, ((s.setPool p f).pool q).freelist = (s.pool q).freelist := by
    intro q
    rw [setPool_pool]
    split
    · next he => rw [he, hfree]
    · rfl
  refine
    { h with
      total := fun d => ?_
      avail_eq := fun q => ?_
      unallocated := fun q hq => ?_
      owner := fun q d hd => ?_
      size_eq := fun q hq => ?_
      invalid_listed := fun q hq => ?_ }
  · have hin : inPools (s.setPool p f) d = inPools s d := by
      simp only [inPools, tally, hlist]
      rfl
    rw [hin]; exact h.total d
  · rw [hlist, ← h.avail_eq q, setPool_pool]
    split
    · next he => rw [he, havail]
    · rfl
  · rw [hlist]; exact h.unallocated q hq
  · rw [hlist] at hd; exact h.owner q d hd
  · rw [setPool_pool]
    by_cases hqp : q = p
    · subst hqp
      rw [if_pos rfl]; exact hsize hq
    · rw [if_neg hqp]
      have he := h.size_eq q hq
      by_cases hqs : q = src
      · rw [hj fun h' => hqp (hqs.trans h'.symm)]; exact he
      · rw [if_neg hqs] at he ⊢
        exact he
  · rw [setPool_pool] at hq
    split at hq
    · next he => exact he ▸ h.invalid_listed p (hstat hq)
    · exact h.invalid_listed q hq

end SetPool

/-! ## Single descriptors -/

section Single

variable {s s' : Pdev} {held : List Nat} {src k p d : Nat}

/-- The owner of a descriptor that is not in flight does not matter for what is
in flight. -/
theorem inflightOf_update (hd : d ∉ s.inflight) (o : Option Nat) (q : Nat) :
    inflightOf { s with desc_pool := update s.desc_pool d o } q = inflightOf s q := by
  refine countP_congr fun e he => ?_
  have hne : e ≠ d := fun h => hd (h ▸ he)
  show decide (update s.desc_pool d o e = some q) = true ↔ _
  rw [update_of_ne hne]

theorem get_desc_inv (h : Inv s held src k)
    (hg : ol_tx_get_desc_flow_pool s src = some (s', d)) : Inv s' (d :: held) src (k + 1) := by
  rw [ol_tx_get_desc_flow_pool] at hg
  split at hg
  · exact absurd hg (by simp)
  · next e l hl =>
    obtain ⟨rfl, rfl⟩ := hg
    have hlt : src < s.nextPool := by
      by_contra hge
      rw [h.unallocated src (by omega)] at hl; exact absurd hl (by simp)
    have hav := h.avail_eq src
    rw [hl, length_cons] at hav
    refine
      { h with
        total := fun x => ?_
        avail_eq := fun q => ?_
        unallocated := fun q hq => ?_
        owner := fun q x hx => ?_
        size_eq := fun q hq => ?_
        invalid_listed := fun q hq => ?_ }
    · have ht := h.total x
      have hin := inPools_setPool s OlPool.pop x hlt
      rw [OlPool.pop_freelist hl, hl, count_cons] at hin
      rw [count_cons]
      show s.freelist.count x + inPools (s.setPool src OlPool.pop) x + s.inflight.count x + _
        = if x < s.pool_size then 1 else 0
      omega
    · rw [setPool_pool]
      split
      · rw [OlPool.pop_freelist hl, OlPool.pop_avail_desc]; omega
      · exact h.avail_eq q
    · have hne : q ≠ src := fun he => by change s.nextPool ≤ q at hq; omega
      rw [setPool_of_ne hne]; exact h.unallocated q hq
    · rw [setPool_pool] at hx
      split at hx
      · next he => rw [he]; exact h.owner src x (mem_of_mem_tail hx)
      · exact h.owner q x hx
    · have he := h.size_eq q hq
      rw [setPool_pool]
      by_cases hqs : q = src
      · subst hqs
        rw [if_pos rfl] at he ⊢
        rw [if_pos rfl]
        show (s.pool q).avail_desc - 1 + inflightOf s q + (s.pool q).deficient_desc + (k + 1)
          = (s.pool q).flow_pool_size
        omega
      · rw [if_neg hqs] at he ⊢
        rw [if_neg hqs]; exact he
    · rw [setPool_pool] at hq
      split at hq
      · next he => exact he ▸ h.invalid_listed src hq
      · exact h.invalid_listed q hq

theorem put_with_inv {j : Nat} {g : OlPool → OlPool} (h : Inv s (d :: held) src k)
    (hp : p < s.nextPool) (hg : (g (s.pool p)).freelist = d :: (s.pool p).freelist)
    (hav : (g (s.pool p)).avail_desc = (s.pool p).avail_desc + 1)
    (hstat : (g (s.pool p)).status = (s.pool p).status) (hsize : p ∈ s.flow_pool_list →
      (g (s.pool p)).avail_desc + inflightOf s p + (g (s.pool p)).deficient_desc
        + (if p = src then j else 0) = (g (s.pool p)).flow_pool_size) (hj : p ≠ src → j = k) :
    Inv { s.setPool p g with desc_pool := update s.desc_pool d (some p) } held src j := by
  have hnot : d ∉ s.inflight := h.held_notMem_inflight mem_cons_self
  have hfl : ∀ q, inflightOf { s.setPool p g with desc_pool := update s.desc_pool d (some p) } q
      = inflightOf s q := fun q => inflightOf_update (s := s) hnot (some p) q
  have hpool : ∀ q, ({ s.setPool p g with
      desc_pool := update s.desc_pool d (some p) } : Pdev).pool q
        = if q = p then g (s.pool p) else s.pool q := fun q => setPool_pool s p q g
  have howner : ∀ e, e ≠ d → update s.desc_pool d (some p) e = s.desc_pool e :=
    fun e he => update_of_ne he _ _
  -- the descriptor was on no list, so its old owner entry is not used
  have hfree : ∀ q, d ∉ (s.pool q).freelist := h.held_notMem_pool mem_cons_self
  refine
    { h with
      total := fun x => ?_
      avail_eq := fun q => ?_
      unallocated := fun q hq => ?_
      owner := fun q x hx => ?_
      inflight_owner := fun x hx => ?_
      size_eq := fun q hq => ?_
      invalid_listed := fun q hq => ?_ }
  · have ht := h.total x
    have hin := inPools_setPool s g x hp
    rw [hg, count_cons] at hin
    rw [count_cons] at ht
    show s.freelist.count x + inPools (s.setPool p g) x + s.inflight.count x + _
      = if x < s.pool_size then 1 else 0
    omega
  · rw [hpool]
    split
    · rw [hg, hav, h.avail_eq p, length_cons]
    · exact h.avail_eq q
  · have hne : q ≠ p := fun he => by change s.nextPool ≤ q at hq; omega
    rw [hpool, if_neg hne]; exact h.unallocated q hq
  · rw [hpool] at hx
    split at hx
    · next he =>
      rw [he]
      rw [hg] at hx
      rcases mem_cons.mp hx with rfl | hx
      · exact update_self _ _ _
      · have hne : x ≠ d := fun hxd => hfree p (hxd ▸ hx)
        exact (howner x hne).trans (h.owner p x hx)
    · have hne : x ≠ d := fun hxd => hfree q (hxd ▸ hx)
      exact (howner x hne).trans (h.owner q x hx)
  · have hne : x ≠ d := fun he => hnot (he ▸ hx)
    obtain ⟨q, hq, hxq⟩ := h.inflight_owner x hx
    exact ⟨q, hq, (howner x hne).trans hxq⟩
  · rw [hfl, hpool]
    by_cases hqp : q = p
    · subst hqp
      rw [if_pos rfl]; exact hsize hq
    · rw [if_neg hqp]
      have he := h.size_eq q hq
      by_cases hqs : q = src
      · rw [hj fun h' => hqp (hqs.trans h'.symm)]; exact he
      · rw [if_neg hqs] at he ⊢
        exact he
  · rw [hpool] at hq
    split at hq
    · next he => exact he ▸ h.invalid_listed p (hstat ▸ hq)
    · exact h.invalid_listed q hq

end Single

/-! ## What moving descriptors leaves alone -/

/-- The parts of the state that the moving of descriptors between pools does not
touch. -/
structure Frame (s s' : Pdev) : Prop where
  list : s'.flow_pool_list = s.flow_pool_list
  freed : s'.freed = s.freed
  deleted : s'.deleted = s.deleted
  nextPool : s'.nextPool = s.nextPool
  inflight : s'.inflight = s.inflight
  pause_cb : s'.pause_cb = s.pause_cb
  inflightOf : ∀ p, inflightOf s' p = inflightOf s p
  pool : ∀ p, (s'.pool p).status = (s.pool p).status ∧
    (s'.pool p).flow_pool_size = (s.pool p).flow_pool_size ∧
    (s'.pool p).start_th = (s.pool p).start_th ∧ (s'.pool p).stop_th = (s.pool p).stop_th ∧
    (s'.pool p).member_flow_id = (s.pool p).member_flow_id

theorem Frame.refl (s : Pdev) : Frame s s :=
  ⟨rfl, rfl, rfl, rfl, rfl, rfl, fun _ => rfl, fun _ => ⟨rfl, rfl, rfl, rfl, rfl⟩⟩

theorem Frame.trans {s t u : Pdev} (h : Frame s t) (h' : Frame t u) : Frame s u where
  list := h'.list.trans h.list
  freed := h'.freed.trans h.freed
  deleted := h'.deleted.trans h.deleted
  nextPool := h'.nextPool.trans h.nextPool
  inflight := h'.inflight.trans h.inflight
  pause_cb := h'.pause_cb.trans h.pause_cb
  inflightOf := fun p => (h'.inflightOf p).trans (h.inflightOf p)
  pool := fun p => by
    obtain ⟨h1, h2, h3, h4, h5⟩ := h.pool p
    obtain ⟨h1', h2', h3', h4', h5'⟩ := h'.pool p
    exact ⟨h1'.trans h1, h2'.trans h2, h3'.trans h3, h4'.trans h4, h5'.trans h5⟩

theorem frame_setPool {s : Pdev} {p : Nat} {f : OlPool → OlPool}
    (hf : ∀ x, (f x).status = x.status ∧ (f x).flow_pool_size = x.flow_pool_size ∧
      (f x).start_th = x.start_th ∧ (f x).stop_th = x.stop_th ∧
      (f x).member_flow_id = x.member_flow_id) : Frame s (s.setPool p f) where
  list := rfl
  freed := rfl
  deleted := rfl
  nextPool := rfl
  inflight := rfl
  pause_cb := rfl
  inflightOf := fun _ => rfl
  pool := fun q => by
    rw [setPool_pool]
    split
    · next he => exact he ▸ hf _
    · exact ⟨rfl, rfl, rfl, rfl, rfl⟩

theorem frame_put_desc {s : Pdev} {p d : Nat} (hd : d ∉ s.inflight) :
    Frame s (ol_tx_put_desc_flow_pool s p d) := by
  have hf : Frame s (s.setPool p (·.push d)) := frame_setPool fun _ => ⟨rfl, rfl, rfl, rfl, rfl⟩
  exact { hf with inflightOf := fun q => inflightOf_update (s := s.setPool p (·.push d)) hd _ q }

/-! ## Moving descriptors between pools -/

section Move

variable {s : Pdev} {src dst k : Nat}

/-- The first loop takes `n` descriptors off the source pool, and nothing
else. -/
theorem move_take_spec (n : Nat) {held : List Nat} (h : Inv s held src k)
    (hn : n ≤ (s.pool src).avail_desc) :
    ∃ s' held', move_take src n s held = some (s', held') ∧
      Inv s' held' src (k + n) ∧ Frame s s' ∧ held'.length = held.length + n ∧
      (∀ p, p ≠ src → s'.pool p = s.pool p) ∧
      (s'.pool src).avail_desc + n = (s.pool src).avail_desc ∧
      (s'.pool src).deficient_desc = (s.pool src).deficient_desc := by
  induction n generalizing s held k with
  | zero => exact ⟨s, held, rfl, h, Frame.refl s, rfl, fun _ _ => rfl, rfl, rfl⟩
  | succ n ih =>
    have hav := h.avail_eq src
    obtain ⟨d, l, hl⟩ : ∃ d l, (s.pool src).freelist = d :: l :=
      exists_cons_of_length_pos (by omega)
    have hget : ol_tx_get_desc_flow_pool s src = some (s.setPool src OlPool.pop, d) := by
      rw [ol_tx_get_desc_flow_pool, hl]
    have h1 := get_desc_inv h hget
    have hf1 : Frame s (s.setPool src OlPool.pop) :=
      frame_setPool fun _ => ⟨rfl, rfl, rfl, rfl, rfl⟩
    obtain ⟨s', held', hrun, h', hf, hlen, hother, hsrc, hdef⟩ := ih h1 (by
      rw [setPool_self, OlPool.pop_avail_desc]; omega)
    refine ⟨s', held', ?_, ?_, hf1.trans hf, ?_, fun p hp => ?_, ?_, ?_⟩
    · rw [move_take, hget, Option.bind_some]; exact hrun
    · rw [show k + (n + 1) = k + 1 + n by omega]; exact h'
    · rw [hlen, length_cons]; omega
    · rw [hother p hp, setPool_of_ne hp]
    · rw [setPool_self, OlPool.pop_avail_desc] at hsrc; omega
    · rw [hdef, setPool_self]; rfl

/-- The second loop, for a destination that is owed at least as much as it is
given. -/
theorem move_put_spec (n : Nat) {held : List Nat} (count : Nat) (h : Inv s held src k)
    (hne : dst ≠ src) (hdst : dst < s.nextPool) (hlen : held.length = n)
    (hdef : n ≤ (s.pool dst).deficient_desc) :
    ∃ s', move_put dst n s held count = some (s', [], count + n) ∧
      Inv s' [] src k ∧ Frame s s' ∧ (∀ p, p ≠ dst → s'.pool p = s.pool p) ∧
      (s'.pool dst).avail_desc = (s.pool dst).avail_desc + n ∧
      (s'.pool dst).deficient_desc + n = (s.pool dst).deficient_desc := by
  induction n generalizing s held count with
  | zero =>
    obtain rfl := length_eq_zero_iff.mp hlen
    exact ⟨s, rfl, h, Frame.refl s, fun _ _ => rfl, rfl, rfl⟩
  | succ n ih =>
    obtain ⟨d, l, rfl⟩ : ∃ d l, held = d :: l :=
      exists_cons_of_length_pos (by omega)
    have hnot : d ∉ s.inflight := h.held_notMem_inflight mem_cons_self
    let dec : OlPool → OlPool := fun pool =>
      { pool with deficient_desc := pool.deficient_desc - 1 }
    have hput : ol_tx_put_desc_flow_pool (s.setPool dst dec) dst d
        = { s.setPool dst (fun pool => (dec pool).push d) with
            desc_pool := update s.desc_pool d (some dst) } := by
      simp [ol_tx_put_desc_flow_pool, Pdev.setPool]
    -- the debt goes down by one and the list up by one, so the size equation stays
    have h1 : Inv (ol_tx_put_desc_flow_pool (s.setPool dst dec) dst d) l src k := by
      rw [hput]
      refine put_with_inv h hdst rfl rfl rfl (fun hmem => ?_) fun _ => rfl
      have he := h.size_eq dst hmem
      rw [if_neg hne] at he ⊢
      show (s.pool dst).avail_desc + 1 + _ + ((s.pool dst).deficient_desc - 1) + 0
        = (s.pool dst).flow_pool_size
      omega
    have hf1 : Frame s (ol_tx_put_desc_flow_pool (s.setPool dst dec) dst d) :=
      (frame_setPool (p := dst) (f := dec) fun _ => ⟨rfl, rfl, rfl, rfl, rfl⟩).trans
        (frame_put_desc (s := s.setPool dst dec) hnot)
    have hpool : ∀ p, (ol_tx_put_desc_flow_pool (s.setPool dst dec) dst d).pool p
        = if p = dst then (dec (s.pool dst)).push d else s.pool p := by
      intro p
      rw [hput]; exact setPool_pool s dst p fun pool => (dec pool).push d
    obtain ⟨s', hrun, h', hf, hother, hav, hdf⟩ := ih (count + 1) h1 hdst
      (by rw [length_cons] at hlen; omega) (by
        rw [hpool, if_pos rfl]
        show n ≤ (s.pool dst).deficient_desc - 1
        omega)
    rw [hpool, if_pos rfl] at hav hdf
    refine ⟨s', ?_, h', hf1.trans hf, fun p hp => ?_, ?_, ?_⟩
    · rw [move_put, if_neg (by omega), show count + (n + 1) = count + 1 + n by omega]
      exact hrun
    · rw [hother p hp, hpool, if_neg hp]
    · rw [hav]
      show (s.pool dst).avail_desc + 1 + n = _
      omega
    · change (s'.pool dst).deficient_desc + n = (s.pool dst).deficient_desc - 1 at hdf; omega

/-- **`ol_tx_move_desc_n`**, for a count that the source has and the destination
is owed: exactly so many descriptors change pools. -/
theorem move_desc_n_spec (n : Nat) (h : Inv s [] src k) (hne : dst ≠ src)
    (hdst : dst < s.nextPool) (hav : n ≤ (s.pool src).avail_desc)
    (hdef : n ≤ (s.pool dst).deficient_desc) :
    ∃ s', ol_tx_move_desc_n s src dst n = some (s', n) ∧ Inv s' [] src (k + n) ∧ Frame s s' ∧
      (∀ p, p ≠ dst → p ≠ src → s'.pool p = s.pool p) ∧
      (s'.pool dst).avail_desc = (s.pool dst).avail_desc + n ∧
      (s'.pool dst).deficient_desc + n = (s.pool dst).deficient_desc ∧
      (s'.pool src).avail_desc + n = (s.pool src).avail_desc ∧
      (s'.pool src).deficient_desc = (s.pool src).deficient_desc := by
  obtain ⟨s1, held, hrun1, h1, hf1, hlen, hother1, hsrc1, hsdef1⟩ := move_take_spec n h hav
  have hd1 : s1.pool dst = s.pool dst := hother1 dst hne
  obtain ⟨s2, hrun2, h2, hf2, hother2, hav2, hdef2⟩ := move_put_spec n 0 h1 hne
    (by rw [hf1.nextPool]; exact hdst) (by rw [hlen, length_nil]; omega) (by rw [hd1]; exact hdef)
  have hs2 : s2.pool src = s1.pool src := hother2 src (Ne.symm hne)
  refine ⟨s2, ?_, h2, hf1.trans hf2, fun p hp hps => ?_, ?_, ?_, ?_, ?_⟩
  · rw [ol_tx_move_desc_n, hrun1, Option.bind_some, hrun2, Option.map_some, Nat.zero_add]; rfl
  · rw [hother2 p hp, hother1 p hps]
  · rw [hav2, hd1]
  · rw [hdef2, hd1]
  · rw [hs2]; exact hsrc1
  · rw [hs2, hsdef1]

end Move

/-! ## Dealing out a pool's descriptors -/

/-- What pool `p` gets when `n` descriptors are dealt out along `l` to pools that
are owed `owed`. -/
def share (owed : Nat → Nat) : List Nat → Nat → Nat → Nat
  | [], _, _ => 0
  | q :: l, n, p => if p = q then min (owed q) n else share owed l (n - owed q) p

theorem share_of_notMem {owed : Nat → Nat} {l : List Nat} {p : Nat} (hp : p ∉ l) (n : Nat) :
    share owed l n p = 0 := by
  induction l generalizing n with
  | nil => rfl
  | cons q l ih => rw [mem_cons, not_or] at hp; rw [share, if_neg hp.1, ih hp.2]

theorem share_zero (owed : Nat → Nat) (l : List Nat) (p : Nat) : share owed l 0 p = 0 := by
  induction l with
  | nil => rfl
  | cons q l ih => rw [share, Nat.zero_sub, ih]; simp

theorem share_congr {owed owed' : Nat → Nat} {l : List Nat} (h : ∀ q ∈ l, owed q = owed' q)
    (n p : Nat) : share owed l n p = share owed' l n p := by
  induction l generalizing n with
  | nil => rfl
  | cons q l ih =>
    rw [share, share, h q mem_cons_self, ih fun r hr => h r (mem_cons_of_mem q hr)]

section Distribute

variable {s : Pdev} {src k : Nat}

/-- **The distribution loop.** Every pool of the list gets its share, in the
order of the list, until the source is empty. -/
theorem distribute_loop_spec (l : List Nat) (h : Inv s [] src k) (hl : l.Nodup)
    (hlt : ∀ q ∈ l, q < s.nextPool) (hsrc : (s.pool src).deficient_desc = 0) :
    ∃ s' k', distribute_loop src l s (s.pool src).avail_desc = some s' ∧ Inv s' [] src k' ∧
      Frame s s' ∧ (s'.pool src).deficient_desc = 0 ∧
      ∀ p, p ≠ src →
        (s'.pool p).avail_desc = (s.pool p).avail_desc
          + share (fun q => (s.pool q).deficient_desc) l (s.pool src).avail_desc p ∧
        (s'.pool p).deficient_desc
          + share (fun q => (s.pool q).deficient_desc) l (s.pool src).avail_desc p
          = (s.pool p).deficient_desc := by
  induction l generalizing s k with
  | nil => exact ⟨s, k, rfl, h, Frame.refl s, hsrc, fun p _ => ⟨rfl, rfl⟩⟩
  | cons dst l ih =>
    obtain ⟨hdl, hl⟩ := nodup_cons.mp hl
    have hlt' : ∀ q ∈ l, q < s.nextPool := fun q hq => hlt q (mem_cons_of_mem dst hq)
    rw [distribute_loop]
    by_cases hdef : (s.pool dst).deficient_desc = 0
    · -- nothing is owed here
      have hshare : ∀ p, share (fun q => (s.pool q).deficient_desc) (dst :: l)
          (s.pool src).avail_desc p
            = share (fun q => (s.pool q).deficient_desc) l (s.pool src).avail_desc p := by
        intro p
        rw [share]
        simp only [hdef, Nat.sub_zero, Nat.zero_min]
        split
        · next he => rw [he, share_of_notMem hdl]
        · rfl
      simp only [hdef, ne_eq, not_true_eq_false, if_false, hshare]
      split
      · next hz =>
        refine ⟨s, k, rfl, h, Frame.refl s, hsrc, fun p _ => ?_⟩
        rw [hz, share_zero]; exact ⟨rfl, rfl⟩
      · exact ih h hl hlt' hsrc
    · have hne : dst ≠ src := fun he => hdef (he ▸ hsrc)
      have hmin : (if (s.pool dst).deficient_desc > (s.pool src).avail_desc
          then (s.pool src).avail_desc else (s.pool dst).deficient_desc)
            = min (s.pool dst).deficient_desc (s.pool src).avail_desc := by
        split <;> omega
      simp only [hdef, ne_eq, not_false_eq_true, if_true, hmin]
      obtain ⟨s1, hrun, h1, hf1, hother, hav, hd, hsav, hsdef⟩ :=
        move_desc_n_spec (min (s.pool dst).deficient_desc (s.pool src).avail_desc)
          h hne (hlt dst mem_cons_self) (by omega) (by omega)
      rw [hrun, Option.bind_some]
      have hleft : (s1.pool src).avail_desc
          = (s.pool src).avail_desc - (s.pool dst).deficient_desc := by omega
      have hsub : (s.pool src).avail_desc
          - min (s.pool dst).deficient_desc (s.pool src).avail_desc
            = (s1.pool src).avail_desc := by omega
      rw [hsub]
      split
      · next hz =>
        refine ⟨s1, _, rfl, h1, hf1, hsdef.trans hsrc, fun p hp => ?_⟩
        rw [share]
        split
        · next he => rw [he]; exact ⟨hav, hd⟩
        · next he => rw [← hleft, hz, share_zero, hother p he hp]; exact ⟨rfl, rfl⟩
      · obtain ⟨s2, k2, hrun2, h2, hf2, hsrc2, hp2⟩ := ih h1 hl
          (fun q hq => hf1.nextPool ▸ hlt' q hq) (hsdef.trans hsrc)
        refine ⟨s2, k2, hrun2, h2, hf1.trans hf2, hsrc2, fun p hp => ?_⟩
        -- the pools further down the list are owed what they were owed before
        have howed : ∀ q ∈ l, (s1.pool q).deficient_desc = (s.pool q).deficient_desc := by
          intro q hq
          by_cases hqs : q = src
          · rw [hqs, hsdef]
          · rw [hother q (fun he => hdl (he ▸ hq)) hqs]
        obtain ⟨ha, hb⟩ := hp2 p hp
        rw [share_congr howed, hleft] at ha hb
        rw [share]
        split
        · next he =>
          rw [he, share_of_notMem hdl] at ha hb
          rw [he]; omega
        · next he => rw [hother p he hp] at ha hb; exact ⟨ha, hb⟩

end Distribute

end Qcacld.FlowPool
