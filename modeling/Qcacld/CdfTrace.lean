/-
The rings of trace records.

`cdf_trace` and `cdf_dp_trace` each put records in a table of their own with a head, a tail and a
number, and the dumps walk from an index they compute to the tail. The lock is given up between two
records, so a dump has a state for each record it reads (`world`).
-/
import Qcacld.Lib.Fifo

set_option autoImplicit false

namespace Qcacld.CdfTrace

open Lib Function List

variable {R W C : Type}

def u32 (x : Int) : Nat := (x % 2 ^ 32).toNat

/-! ## One ring -/

def INVALID_CDF_TRACE_ADDR : Nat := 0xffffffff

structure Ring (R : Type) where
  head : Nat
  tail : Nat
  num : Nat
  tbl : Nat → R

def Ring.init (tbl : Nat → R) : Ring R :=
  { head := INVALID_CDF_TRACE_ADDR, tail := INVALID_CDF_TRACE_ADDR, num := 0, tbl }

/-- Where the next record goes, and the head then. -/
def Ring.next (max : Nat) (r : Ring R) : Nat × Nat :=
  if r.head = INVALID_CDF_TRACE_ADDR then (0, 0)
  else
    let tail := if r.tail + 1 = max then 0 else r.tail + 1
    (if r.head = tail then if r.head + 1 = max then 0 else r.head + 1 else r.head, tail)

/-- `fill` writes the record, over what was in its slot. -/
def Ring.put (max : Nat) (fill : R → R) (r : Ring R) : Ring R :=
  { head := (r.next max).1
    tail := (r.next max).2
    num := if r.num + 1 > max then max else r.num + 1
    tbl := update r.tbl (r.next max).2 (fill (r.tbl (r.next max).2)) }

/-- The record that `put` writes. -/
def Ring.filled (max : Nat) (fill : R → R) (r : Ring R) : R := fill (r.tbl (r.next max).2)

/-- The index that a dump of `count` records starts at. -/
def Ring.start (max : Nat) (r : Ring R) (count : Nat) : Nat :=
  if count = 0 then r.head
  else
    let count := if count > r.num then r.num else count
    if r.tail ≥ u32 (count - 1) then u32 (r.tail - count + 1)
    else if count ≠ max then u32 (max - u32 (u32 (count - 1) - r.tail))
    else r.head

/-- The number of records that `count` asks for. -/
def Ring.lines (r : Ring R) (count : Nat) : Nat := if count = 0 then r.num else min count r.num

/-- The state at each record that a dump reads: `s` at the first, `later` at the others. -/
def world (s : W) (later : Nat → W) : Nat → W
  | 0 => s
  | k + 1 => later k

/-- The loop of a dump: the indices it reads at, with the state then. -/
def visits (max tail : Nat) (world : Nat → W) : Nat → Nat → Nat → Option (List (W × Nat))
  | 0, _, _ => none
  | fuel + 1, k, i =>
    if i = tail then some [(world k, i)]
    else (visits max tail world fuel (k + 1) (if i + 1 = max then 0 else i + 1)).map
      ((world k, i) :: ·)

def Ring.dump (max : Nat) (ring : W → Ring R) (s : W) (later : Nat → W) (fuel count : Nat) :
    Option (List (W × Nat)) :=
  if (ring s).head = INVALID_CDF_TRACE_ADDR then some []
  else visits max (ring s).tail (world s later) fuel 0 ((ring s).start max count)

/-- `log` has been put: the last `max` of it are in the ring. -/
def Ring.Holds (max : Nat) (r : Ring R) (log : List R) : Prop :=
  log = [] ∧ r.head = INVALID_CDF_TRACE_ADDR ∧ r.num = 0 ∨
    log ≠ [] ∧ r.head < max ∧ r.tail < max ∧ r.num = min log.length max ∧
      (r.head + r.num = r.tail + 1 ∨ r.head + r.num = r.tail + 1 + max) ∧
      Fifo r.tbl max r.head (log.drop (log.length - max))

section Ring

variable {max : Nat} {r : Ring R} {log : List R}

theorem Ring.Holds.put (h : r.Holds max log) (hmax : 0 < max) (hinv : max ≤ INVALID_CDF_TRACE_ADDR)
    (fill : R → R) : (r.put max fill).Holds max (log ++ [r.filled max fill]) := by
  obtain ⟨rfl, hhead, hnum⟩ | ⟨hne, hhead, htail, hnum, hdist, hheld⟩ := h
  · -- the first record
    have hnext : r.next max = (0, 0) := if_pos hhead
    refine Or.inr ⟨cons_ne_nil _ _, ?_⟩
    rw [Ring.put, Ring.filled, hnext, hnum]
    have hdrop : 1 - max = 0 := by omega
    simp only [nil_append, length_singleton, hdrop, drop_zero]
    refine ⟨hmax, hmax, by split <;> omega, by split <;> omega, ?_, trivial⟩
    rw [Nat.zero_mod, update_self]
  · have hlen : 0 < log.length := length_pos_iff.mpr hne
    have hkept : (log.drop (log.length - max)).length = r.num := by rw [length_drop]; omega
    obtain ⟨head, tail, hnext⟩ : ∃ head tail, r.next max = (head, tail) := ⟨_, _, rfl⟩
    have hsplit := hnext
    rw [Ring.next, if_neg (by omega), Prod.mk.injEq] at hsplit
    obtain ⟨hhead', htail'⟩ := hsplit
    rw [htail'] at hhead'
    refine Or.inr ⟨append_ne_nil_of_right_ne_nil _ (cons_ne_nil _ _), ?_⟩
    rw [Ring.put, Ring.filled, hnext, length_append, length_singleton]
    dsimp only
    -- the new tail is the slot behind the records
    have hslot : tail = (r.head + r.num) % max := by
      have hwrap : (r.head + r.num) % max = (r.tail + 1) % max := by
        obtain hdist | hdist := hdist <;> rw [hdist]
        exact Nat.add_mod_right _ _
      rw [hwrap, ← htail']
      split
      next heq => rw [heq, Nat.mod_self]
      next hne => exact (Nat.mod_eq_of_lt (by omega)).symm
    by_cases hfull : log.length < max
    · have hkeep : log.length + 1 - max = 0 := by omega
      have hzero : log.length - max = 0 := by omega
      have hpush := hheld.push (by omega) (fill (r.tbl tail))
      rw [hkept, ← hslot, hzero, drop_zero] at hpush
      have hnot : r.head ≠ tail := by split at htail' <;> omega
      rw [if_neg hnot] at hhead'
      rw [hkeep, drop_zero, ← hhead']
      refine ⟨hhead, ?_, ?_, ?_, hpush⟩
      · exact hslot ▸ Nat.mod_lt _ hmax
      · split <;> omega
      · split at htail' <;> split <;> omega
    · -- the oldest record gives up its slot
      have hsame : r.head = tail := by split at htail' <;> omega
      rw [if_pos hsame] at hhead'
      have hrest := hheld.drop 1
      rw [drop_drop, show log.length - max + 1 = log.length + 1 - max by omega] at hrest
      have hleft : (log.drop (log.length + 1 - max)).length = max - 1 := by
        rw [length_drop]; omega
      have hpush := hrest.push (by omega) (fill (r.tbl tail))
      have hback : (r.head + 1 + (max - 1)) % max = tail := by
        rw [show r.head + 1 + (max - 1) = r.head + max by omega, Nat.add_mod_right,
          Nat.mod_eq_of_lt hhead, hsame]
      rw [hleft, hback] at hpush
      rw [drop_append_of_le_length (by omega)]
      refine ⟨?_, ?_, ?_, ?_, hpush.of_mod ?_⟩
      · split at hhead' <;> omega
      · exact hslot ▸ Nat.mod_lt _ hmax
      · split <;> omega
      · split at hhead' <;> split <;> omega
      · rw [← hhead']
        split
        next heq => rw [heq, Nat.mod_self, Nat.zero_mod]
        next => rfl

theorem visits_eq (tail : Nat) (world : Nat → W) {d i : Nat} (k extra : Nat) (hi : i < max)
    (htail : tail < max) (hd : i + d = tail ∨ i + d = tail + max) (hlt : d < max) :
    visits max tail world (d + 1 + extra) k i =
      some ((range (d + 1)).map fun j => (world (k + j), (i + j) % max)) := by
  induction d generalizing i k with
  | zero =>
    have heq : i = tail := by omega
    rw [Nat.zero_add, Nat.add_comm, visits, if_pos heq]
    simp only [range_one, map_cons, map_nil, Nat.add_zero, Nat.mod_eq_of_lt hi]
  | succ d ih =>
    have hne : i ≠ tail := by omega
    have hmod : (if i + 1 = max then 0 else i + 1) = (i + 1) % max := by
      split
      next heq => rw [heq, Nat.mod_self]
      next hlast => exact (Nat.mod_eq_of_lt (by omega)).symm
    rw [Nat.add_right_comm, visits, if_neg hne, ih (k + 1) (by split <;> omega)
      (by split <;> omega) (by omega), range_succ_eq_map (n := d + 1), Option.map_some, map_cons,
      map_map, hmod, Nat.add_zero, Nat.add_zero i, Nat.mod_eq_of_lt hi]
    refine congrArg (fun l => some ((world k, i) :: l)) (map_congr_left fun j _ => ?_)
    rw [Nat.mod_add_mod, Function.comp_apply, Nat.succ_eq_add_one, Nat.add_right_comm k,
      Nat.add_right_comm i]
    rfl

theorem Ring.Holds.next_lt (h : r.Holds max log) (hmax : 0 < max) : (r.next max).2 < max := by
  rw [Ring.next]
  split
  next => exact hmax
  next hhead =>
    obtain ⟨-, hhead', -⟩ | ⟨-, -, htail, -⟩ := h
    · exact absurd hhead' hhead
    · dsimp only
      split <;> omega

theorem Ring.Holds.num_eq (h : r.Holds max log) : r.num = min log.length max := by
  obtain ⟨rfl, -, hnum⟩ | ⟨-, -, -, hnum, -⟩ := h
  · rw [hnum, length_nil, Nat.zero_min]
  · exact hnum

/-- The walk from the start index to the tail has as many steps as there are lines, and reads the
last records. -/
theorem Ring.Holds.dump (h : r.Holds max log) (hinv : max ≤ INVALID_CDF_TRACE_ADDR)
    {ring : W → Ring R} {s : W} (hs : ring s = r) (later : Nat → W) (count extra : Nat) :
    ∃ i, Ring.dump max ring s later (max + extra) count =
        some ((range (r.lines count)).map fun j => (world s later j, (i + j) % max)) ∧
      ((range (r.lines count)).map fun j => r.tbl ((i + j) % max)) =
        log.drop (log.length - r.lines count) := by
  rw [Ring.dump, hs]
  obtain ⟨rfl, hhead, hnum⟩ | ⟨hne, hhead, htail, hnum, hdist, hheld⟩ := h
  · have hlines : r.lines count = 0 := by
      rw [Ring.lines]
      split <;> omega
    rw [if_pos hhead, hlines]; exact ⟨0, rfl, rfl⟩
  · have hlen : 0 < log.length := length_pos_iff.mpr hne
    rw [INVALID_CDF_TRACE_ADDR] at hinv ⊢
    have hlines : 0 < r.lines count ∧ r.lines count ≤ r.num := by
      rw [Ring.lines]
      split <;> omega
    obtain ⟨hstart, hwalk⟩ : r.start max count < max ∧
        (r.start max count + r.lines count = r.tail + 1 ∨
          r.start max count + r.lines count = r.tail + 1 + max) := by
      simp only [Ring.start, Ring.lines, u32]
      split_ifs <;> omega
    refine ⟨r.start max count, ?_, ?_⟩
    · have hvisits := visits_eq r.tail (world s later) (d := r.lines count - 1) 0
        (max - r.lines count + extra) hstart htail (by omega) (by omega)
      simp only [Nat.zero_add, Nat.sub_add_cancel hlines.1] at hvisits
      rw [if_neg (by omega), ← hvisits]
      congr 1
      omega
    · have hlast := hheld.drop (r.num - r.lines count)
      rw [drop_drop, show log.length - max + (r.num - r.lines count) =
        log.length - r.lines count by omega] at hlast
      refine (fifo_map_range r.tbl max (r.start max count) _).unique (hlast.of_mod ?_) ?_
      · obtain heq | heq : r.head + (r.num - r.lines count) = r.start max count ∨
            r.head + (r.num - r.lines count) = r.start max count + max := by omega
        · rw [heq]
        · rw [heq, Nat.add_mod_right]
      · rw [length_map, length_range, length_drop]; omega

theorem Ring.Holds.dump_steps (h : r.Holds max log) (hmax : 0 < max)
    (hinv : max ≤ INVALID_CDF_TRACE_ADDR) {ring : W → Ring R} {s : W} (hs : ring s = r)
    (later : Nat → W) (count extra : Nat) :
    ∃ l, Ring.dump max ring s later (max + extra) count = some l ∧
      l.length = r.lines count ∧ ∀ v ∈ l, v.2 < max := by
  obtain ⟨i, hdump, -⟩ := h.dump hinv hs later count extra
  refine ⟨_, hdump, ?_, fun v hv => ?_⟩
  · rw [length_map, length_range]
  · obtain ⟨j, -, rfl⟩ := mem_map.mp hv; exact Nat.mod_lt _ hmax

theorem world_self (s : W) (j : Nat) : world s (fun _ => s) j = s := by
  cases j <;> rfl

end Ring

/-! ## `cdf_trace` -/

def MAX_CDF_TRACE_RECORDS : Nat := 4000
def CDF_MODULE_ID_MAX : Nat := 24

structure Record where
  time : Nat
  module : Nat
  code : Nat
  session : Nat
  data : Nat
  pid : Nat
  deriving DecidableEq

structure Trace (C : Type) where
  ring : Ring Record
  cb_table : Nat → Option C
  restore_cb_table : Nat → Option C

def cdf_trace_init (tbl : Nat → Record) : Trace C :=
  { ring := .init tbl, cb_table := fun _ => none, restore_cb_table := fun _ => none }

def cdf_trace (s : Trace C) (r : Record) : Trace C :=
  if (s.cb_table r.module).isNone then s
  else { s with ring := s.ring.put MAX_CDF_TRACE_RECORDS fun _ => r }

def cdf_trace_register (s : Trace C) (moduleID : Nat) (cb : Option C) : Trace C :=
  { s with cb_table := update s.cb_table moduleID cb }

def cdf_trace_enable (s : Trace C) (bitmask : Nat) (enable : Bool) : Trace C :=
  let chosen i := i < CDF_MODULE_ID_MAX && (bitmask == 0 || bitmask.testBit i)
  if enable then
    { s with cb_table := fun i =>
        if chosen i && (s.restore_cb_table i).isSome then s.restore_cb_table i else s.cb_table i }
  else
    { s with
      restore_cb_table := fun i => if chosen i then s.cb_table i else s.restore_cb_table i
      cb_table := fun i => if chosen i then none else s.cb_table i }

/-- The calls of the callbacks. -/
def cdf_trace_dump_all (s : Trace C) (later : Nat → Trace C) (fuel code count bitmask : Nat) :
    Option (List (C × Record × Nat)) :=
  (Ring.dump MAX_CDF_TRACE_RECORDS Trace.ring s later fuel count).map fun l =>
    l.filterMap fun (s, i) =>
      let r := s.ring.tbl i
      if (code == 0 || code == r.code) && (bitmask == 0 || bitmask.testBit r.module) then
        (s.cb_table r.module).map (·, r, i % 2 ^ 16)
      else none

inductive Call (C : Type) where
  | trace (r : Record)
  | register (moduleID : Nat) (cb : Option C)
  | enable (bitmask : Nat) (enable : Bool)

def step (s : Trace C) : Call C → Trace C
  | .trace r => cdf_trace s r
  | .register moduleID cb => cdf_trace_register s moduleID cb
  | .enable bitmask enable => cdf_trace_enable s bitmask enable

/-- The record that a call puts. -/
def puts (s : Trace C) : Call C → List Record
  | .trace r => if (s.cb_table r.module).isNone then [] else [r]
  | _ => []

/-- The state and the records that were put after `calls`. -/
def run (tbl : Nat → Record) (calls : List (Call C)) : Trace C × List Record :=
  calls.foldl (fun p c => (step p.1 c, p.2 ++ puts p.1 c)) (cdf_trace_init tbl, [])

theorem run_holds (tbl : Nat → Record) (calls : List (Call C)) :
    (run tbl calls).1.ring.Holds MAX_CDF_TRACE_RECORDS (run tbl calls).2 := by
  refine calls.foldlRecOn _ (motive := fun (p : Trace C × List Record) =>
    p.1.ring.Holds _ p.2) (Or.inl ⟨rfl, rfl, rfl⟩) ?_
  intro p h c _
  cases c with
  | trace r =>
    simp only [step, puts, cdf_trace]
    split
    next => rwa [append_nil]
    next => exact h.put (by decide) (by decide) fun _ => r
  | register | enable bitmask enable =>
    simp only [step, puts, append_nil, cdf_trace_register, cdf_trace_enable]
    first | exact h | (split <;> exact h)

/-! ## `cdf_dp_trace` -/

def MAX_CDF_DP_TRACE_RECORDS : Nat := 4000
def CDF_DP_TRACE_RECORD_SIZE : Nat := 16
def NBUF_TX_PKT_DATA_TRACK : Nat := 1

inductive CDF_DP_TRACE_ID where
  | INVALID | DROP_PACKET_RECORD | HDD_PACKET_PTR_RECORD | HDD_PACKET_RECORD
  | CE_PACKET_PTR_RECORD | CE_PACKET_RECORD | TXRX_QUEUE_PACKET_PTR_RECORD
  | TXRX_PACKET_PTR_RECORD | HTT_PACKET_PTR_RECORD | HTC_PACKET_PTR_RECORD
  | HIF_PACKET_PTR_RECORD | HDD_TX_TIMEOUT | HDD_SOFTAP_TX_TIMEOUT | VDEV_PAUSE | VDEV_UNPAUSE

open CDF_DP_TRACE_ID

structure Nbuf where
  packet_track : Nat
  dp_trace : Bool

structure DpRecord where
  time : Nat
  code : CDF_DP_TRACE_ID
  data : Nat → Nat
  size : Nat
  pid : Nat

structure DpTrace where
  ring : Ring DpRecord
  verbosity : Nat

def cdf_dp_trace_init (tbl : Nat → DpRecord) : DpTrace := { ring := .init tbl, verbosity := 0 }

def cdf_dp_trace_enable_track (verbosity : Nat) (code : CDF_DP_TRACE_ID) : Bool :=
  verbosity == 3 || verbosity == 2 && code.ctorIdx ≤ HIF_PACKET_PTR_RECORD.ctorIdx ||
    verbosity == 1 && code.ctorIdx ≤ CE_PACKET_RECORD.ctorIdx ||
    verbosity == 0 && code.ctorIdx == DROP_PACKET_RECORD.ctorIdx

/-- Whether `cdf_dp_trace` gets to `register_record`. -/
def registers (verbosity : Nat) (nbuf : Option Nbuf) (code : CDF_DP_TRACE_ID) : Bool :=
  match nbuf, code with
  | none, HDD_TX_TIMEOUT | none, HDD_SOFTAP_TX_TIMEOUT | none, VDEV_PAUSE | none, VDEV_UNPAUSE =>
    cdf_dp_trace_enable_track verbosity code
  | none, _ => false
  | some nbuf, _ => nbuf.packet_track == NBUF_TX_PKT_DATA_TRACK &&
    cdf_dp_trace_enable_track verbosity code && nbuf.dp_trace

structure DpArgs where
  nbuf : Option Nbuf
  code : CDF_DP_TRACE_ID
  data : Option (Nat → Nat)
  size : Nat
  /-- The bytes from the argument `data` on. -/
  addr : Nat → Nat
  time : Nat
  pid : Nat

/-- The bytes that are not copied stay. -/
def DpArgs.fill (a : DpArgs) (r : DpRecord) : DpRecord :=
  match a.data with
  | none => { r with code := a.code, size := 0, time := a.time, pid := a.pid }
  | some data =>
    let size := if a.size > CDF_DP_TRACE_RECORD_SIZE then CDF_DP_TRACE_RECORD_SIZE else a.size
    let src := match a.code with
      | HDD_PACKET_PTR_RECORD | CE_PACKET_PTR_RECORD | TXRX_QUEUE_PACKET_PTR_RECORD
      | TXRX_PACKET_PTR_RECORD | HTT_PACKET_PTR_RECORD | HTC_PACKET_PTR_RECORD
      | HIF_PACKET_PTR_RECORD => a.addr
      | DROP_PACKET_RECORD | HDD_PACKET_RECORD | CE_PACKET_RECORD => data
      | _ => r.data
    { code := a.code, size, time := a.time, pid := a.pid
      data := fun i => if i < size then src i else r.data i }

def cdf_dp_trace (s : DpTrace) (a : DpArgs) : DpTrace :=
  if registers s.verbosity a.nbuf a.code then
    { s with ring := s.ring.put MAX_CDF_DP_TRACE_RECORDS a.fill }
  else s

/-- The calls of `cdf_dp_display_record`, which is the callback of each code. -/
def cdf_dp_trace_dump_all (s : DpTrace) (later : Nat → DpTrace) (fuel count : Nat) :
    Option (List (DpRecord × Nat)) :=
  (Ring.dump MAX_CDF_DP_TRACE_RECORDS DpTrace.ring s later fuel count).map fun l =>
    l.map fun (s, i) => (s.ring.tbl i, i % 2 ^ 16)

inductive DpCall where
  | trace (a : DpArgs)
  | set_value (verbosity : Nat)

def dpStep (s : DpTrace) : DpCall → DpTrace
  | .trace a => cdf_dp_trace s a
  | .set_value verbosity => { s with verbosity }

def dpPuts (s : DpTrace) : DpCall → List DpRecord
  | .trace a =>
    if registers s.verbosity a.nbuf a.code then [s.ring.filled MAX_CDF_DP_TRACE_RECORDS a.fill]
    else []
  | .set_value _ => []

def dpRun (tbl : Nat → DpRecord) (calls : List DpCall) : DpTrace × List DpRecord :=
  calls.foldl (fun p c => (dpStep p.1 c, p.2 ++ dpPuts p.1 c)) (cdf_dp_trace_init tbl, [])

theorem dpRun_holds (tbl : Nat → DpRecord) (calls : List DpCall) :
    (dpRun tbl calls).1.ring.Holds MAX_CDF_DP_TRACE_RECORDS (dpRun tbl calls).2 := by
  refine calls.foldlRecOn _ (motive := fun (p : DpTrace × List DpRecord) =>
    p.1.ring.Holds _ p.2) (Or.inl ⟨rfl, rfl, rfl⟩) ?_
  intro p h c _
  cases c with
  | trace a =>
    simp only [dpStep, dpPuts, cdf_dp_trace]
    split
    next => exact h.put (by decide) (by decide) _
    next => rwa [append_nil]
  | set_value verbosity => rwa [dpPuts, append_nil]

/-! ## The dumps -/

theorem cdf_trace_dump_all_eq {s : Trace C} {log : List Record}
    (h : s.ring.Holds MAX_CDF_TRACE_RECORDS log) (count extra : Nat) :
    ((cdf_trace_dump_all s (fun _ => s) (MAX_CDF_TRACE_RECORDS + extra) 0 count 0).map fun l =>
        l.map fun (cb, r, _) => (cb, r)) =
      some ((log.drop (log.length - s.ring.lines count)).filterMap fun r =>
        (s.cb_table r.module).map (·, r)) := by
  obtain ⟨i, hdump, hstored⟩ := h.dump (by decide) rfl (fun _ => s) count extra
  rw [cdf_trace_dump_all, hdump, ← hstored]
  simp only [Option.map_some, world_self, filterMap_map, map_filterMap]
  refine congrArg (fun f => some (filterMap f _)) (funext fun j => ?_)
  exact Option.map_map _ _ _

theorem cdf_dp_trace_dump_all_eq {s : DpTrace} {log : List DpRecord}
    (h : s.ring.Holds MAX_CDF_DP_TRACE_RECORDS log) (count extra : Nat) :
    ((cdf_dp_trace_dump_all s (fun _ => s) (MAX_CDF_DP_TRACE_RECORDS + extra) count).map fun l =>
        l.map Prod.fst) = some (log.drop (log.length - s.ring.lines count)) := by
  obtain ⟨i, hdump, hstored⟩ := h.dump (by decide) rfl (fun _ => s) count extra
  rw [cdf_dp_trace_dump_all, hdump, ← hstored]
  simp only [Option.map_some, world_self, map_map]
  rfl

/-- **The dumps** end after as many steps as there are lines, whatever is put meanwhile, and if
nothing is, show the last records that were put. -/
theorem dump_all_stored (tbl : Nat → Record) (dpTbl : Nat → DpRecord) (calls : List (Call C))
    (dpCalls : List DpCall) (later : Nat → Trace C) (dpLater : Nat → DpTrace) (count extra : Nat) :
    (let (s, log) := run tbl calls
     let fuel := MAX_CDF_TRACE_RECORDS + extra
     s.ring.num = min log.length MAX_CDF_TRACE_RECORDS ∧
      (s.ring.next MAX_CDF_TRACE_RECORDS).2 < MAX_CDF_TRACE_RECORDS ∧
      ((cdf_trace_dump_all s (fun _ => s) fuel 0 count 0).map fun l =>
          l.map fun (cb, r, _) => (cb, r)) =
        some ((log.drop (log.length - s.ring.lines count)).filterMap fun r =>
          (s.cb_table r.module).map (·, r)) ∧
      ∃ l, Ring.dump MAX_CDF_TRACE_RECORDS Trace.ring s later fuel count = some l ∧
        l.length = s.ring.lines count ∧ ∀ v ∈ l, v.2 < MAX_CDF_TRACE_RECORDS) ∧
    (let (s, log) := dpRun dpTbl dpCalls
     let fuel := MAX_CDF_DP_TRACE_RECORDS + extra
     s.ring.num = min log.length MAX_CDF_DP_TRACE_RECORDS ∧
      (s.ring.next MAX_CDF_DP_TRACE_RECORDS).2 < MAX_CDF_DP_TRACE_RECORDS ∧
      ((cdf_dp_trace_dump_all s (fun _ => s) fuel count).map fun l => l.map Prod.fst) =
        some (log.drop (log.length - s.ring.lines count)) ∧
      ∃ l, Ring.dump MAX_CDF_DP_TRACE_RECORDS DpTrace.ring s dpLater fuel count = some l ∧
        l.length = s.ring.lines count ∧ ∀ v ∈ l, v.2 < MAX_CDF_DP_TRACE_RECORDS) := by
  have h := run_holds tbl calls
  have hdp := dpRun_holds dpTbl dpCalls
  have hpos : 0 < MAX_CDF_TRACE_RECORDS := by decide
  have hinv : MAX_CDF_TRACE_RECORDS ≤ INVALID_CDF_TRACE_ADDR := by decide
  refine ⟨⟨h.num_eq, h.next_lt hpos, ?_, h.dump_steps hpos hinv rfl later count extra⟩,
    hdp.num_eq, hdp.next_lt hpos, ?_, hdp.dump_steps hpos hinv rfl dpLater count extra⟩
  · exact cdf_trace_dump_all_eq h count extra
  · exact cdf_dp_trace_dump_all_eq hdp count extra

/-- The records of a module stay when its tracing is turned off, and have no callback then. -/
theorem disabled_not_dumped :
    ∃ (tbl : Nat → Record) (calls : List (Call Unit)),
      let (s, log) := run tbl calls
      log.length = 1 ∧ (∃ r ∈ log, s.cb_table r.module = none) ∧
        cdf_trace_dump_all s (fun _ => s) MAX_CDF_TRACE_RECORDS 0 0 0 = some [] :=
  ⟨fun _ => ⟨0, 0, 0, 0, 0, 0⟩, [.register 7 (some ()), .trace ⟨0, 7, 1, 0, 0, 0⟩, .enable 128 false],
    rfl, ⟨⟨0, 7, 1, 0, 0, 0⟩, by decide⟩, rfl⟩

end Qcacld.CdfTrace
