/-
The ring of receive buffers that the host shares with the target, of `htt_rx.c`.

The host posts empty buffers at `alloc_idx` (`htt_rx_ring_fill_n`) and takes the filled ones off at
`sw_rd_idx.msdu_payld` (`htt_rx_netbuf_pop`); `fill_cnt` counts what is in the ring. With full
reorder offload the buffers go to the hash table of `RxHash` in place of the ring of buffers, and
come back in any order; `sw_rd_idx` is not used there. The runs here are those without.

The sizes are computed with `int`, and overflow for a throughput from 1718 Mbps on (the driver
configures 800): there `htt_rx_ring_fill_level` has no result, and with it `htt_rx_attach`.

`Holding` is the invariant of the ring with the list of the buffers that are in it. A fill pushes at
the end of that list and a pop takes from its front, so that the order of the buffers is that of a
queue (`Lib.Fifo`), and every count is the length of the list.
-/
import Qcacld.Lib.Fifo
import Qcacld.RxHash

set_option autoImplicit false

namespace Qcacld.RxRing

open Lib RxHash Function List

/-! ## Sizes -/

def HTT_RX_RING_SIZE_MIN : Nat := 128
def HTT_RX_RING_SIZE_MAX : Nat := 2048
def HTT_RX_AVG_FRM_BYTES : Nat := 1000
def HTT_RX_HOST_LATENCY_MAX_MS : Nat := 20
def HTT_RX_HOST_LATENCY_WORST_LIKELY_MS : Nat := 10

def CDF_IS_PWR2 (value : Nat) : Bool := (value ^^^ (value - 1)) == (value <<< 1) - 1

/-- The position of the highest bit; an `int` has 32 of them. -/
def log2Loop : Nat → Nat → Nat → Nat
  | 0, _, log2 => log2
  | fuel + 1, value, log2 => if value = 0 then log2 else log2Loop fuel (value >>> 1) (log2 + 1)

def cdf_get_pwr2 (value : Nat) : Nat :=
  if CDF_IS_PWR2 value then value else 1 <<< log2Loop 32 value 0

/-- `mbps` is `ol_cfg_max_thruput_mbps`, which is 800. -/
def htt_rx_ring_size (mbps : Nat) : Nat :=
  let size := mbps * 1000 / (8 * HTT_RX_AVG_FRM_BYTES) * HTT_RX_HOST_LATENCY_MAX_MS
  cdf_get_pwr2
    (if size < HTT_RX_RING_SIZE_MIN then HTT_RX_RING_SIZE_MIN
      else if size > HTT_RX_RING_SIZE_MAX then HTT_RX_RING_SIZE_MAX else size)

def INT_MAX : Nat := 2 ^ 31 - 1

/-- No result where `size` is not an `int`; the products of `htt_rx_ring_size` are smaller. -/
def htt_rx_ring_fill_level (mbps ring_size : Nat) : Option Nat :=
  let size := mbps * 1000 / 8 * HTT_RX_AVG_FRM_BYTES * HTT_RX_HOST_LATENCY_WORST_LIKELY_MS
  if size > INT_MAX then none else some (if size ≥ ring_size then ring_size - 1 else size)

/-! ## The ring -/

structure Ring where
  is_full_reorder_offload : Bool
  size : Nat
  size_mask : Nat
  fill_level : Nat
  fill_cnt : Int
  alloc_idx : Nat
  msdu_payld : Nat
  netbufs_ring : Nat → Nat
  paddrs_ring : Nat → UInt64
  refill_ref_cnt : Int
  hash_table : Table
  /-- All buffers that were posted, in order. -/
  posted : List Nat
  /-- All buffers that were popped, in order. -/
  popped : List Nat

/-- What becomes of an attempt to get a buffer: the allocation or the mapping can fail.
`malloc` is for an entry of the hash table. -/
inductive Nbuf where
  | no_memory
  | map_failed
  | mapped (netbuf : Nat) (paddr : UInt64) (malloc : Option Nat)

/-- The buffer goes to the slot `idx`; with reorder offload, to the hash table. -/
def storeNetbuf (r : Ring) (idx netbuf : Nat) (paddr : UInt64) (malloc : Option Nat) :
    Option Ring :=
  if r.is_full_reorder_offload then
    (htt_rx_hash_list_insert r.hash_table malloc paddr.toUInt32 netbuf).map fun t =>
      { r with hash_table := t }
  else some { r with netbufs_ring := update r.netbufs_ring idx netbuf }

def post (r : Ring) (idx netbuf : Nat) (paddr : UInt64) : Ring :=
  { r with
    paddrs_ring := update r.paddrs_ring idx (paddr &&& 0x1fffffffff)
    fill_cnt := r.fill_cnt + 1
    posted := r.posted ++ [netbuf] }

def fillLoop (env : Nat → Nbuf) : Nat → Nat → Ring → Nat → Option (Ring × Nat)
  | 0, _, r, idx => some (r, idx)
  | num + 1, k, r, idx =>
    match env k with
    | .no_memory => some (r, idx)
    | .map_failed => some (r, idx)
    | .mapped netbuf paddr malloc =>
      (storeNetbuf r idx netbuf paddr malloc).bind fun r =>
        fillLoop env num (k + 1) (post r idx netbuf paddr) ((idx + 1) &&& r.size_mask)

/-- `num` is okay if it is not positive. -/
def htt_rx_ring_fill_n (env : Nat → Nbuf) (r : Ring) (num : Int) : Option Ring :=
  (fillLoop env num.toNat 0 r r.alloc_idx).map fun l => { l.1 with alloc_idx := l.2 }

/-- Both indices are 32 bits wide. -/
def htt_rx_ring_elems (r : Ring) : Nat :=
  (r.alloc_idx + 2 ^ 32 - r.msdu_payld) % 2 ^ 32 &&& r.size_mask

def htt_rx_netbuf_pop (r : Ring) : Ring × Nat :=
  ({ r with
      msdu_payld := (r.msdu_payld + 1) &&& r.size_mask
      fill_cnt := r.fill_cnt - 1
      popped := r.popped ++ [r.netbufs_ring r.msdu_payld] },
    r.netbufs_ring r.msdu_payld)

def htt_rx_fill_ring_count (env : Nat → Nbuf) (r : Ring) : Option Ring :=
  htt_rx_ring_fill_n env r (r.fill_level - r.fill_cnt)

/-- The first half of `htt_rx_msdu_buff_replenish`: the one thread that finds the count
at zero fills the ring. -/
def replenish_enter (env : Nat → Nbuf) (r : Ring) : Option Ring :=
  let r := { r with refill_ref_cnt := r.refill_ref_cnt - 1 }
  if r.refill_ref_cnt = 0 then htt_rx_fill_ring_count env r else some r

/-- The second half: the count is given back. -/
def replenish_leave (r : Ring) : Ring := { r with refill_ref_cnt := r.refill_ref_cnt + 1 }

/-- The ring of `htt_rx_attach` before the first fill; its memory has any contents. -/
def attached (mbps fill_level : Nat) (netbufs_ring : Nat → Nat) (paddrs_ring : Nat → UInt64)
    (hash_table : Table) : Ring where
  is_full_reorder_offload := false
  size := htt_rx_ring_size mbps
  size_mask := htt_rx_ring_size mbps - 1
  fill_level := fill_level
  fill_cnt := 0
  alloc_idx := 0
  msdu_payld := 0
  netbufs_ring := netbufs_ring
  paddrs_ring := paddrs_ring
  refill_ref_cnt := 1
  hash_table := hash_table
  posted := []
  popped := []

/-- `htt_rx_attach` fills the ring to its level. -/
def htt_rx_attach (env : Nat → Nbuf) (mbps : Nat) (netbufs_ring : Nat → Nat)
    (paddrs_ring : Nat → UInt64) (hash_table : Table) : Option Ring :=
  (htt_rx_ring_fill_level mbps (htt_rx_ring_size mbps)).bind fun fill_level =>
    htt_rx_ring_fill_n env (attached mbps fill_level netbufs_ring paddrs_ring hash_table) fill_level

/-! ## Runs -/

structure St where
  ring : Ring
  /-- The threads between the two halves of a replenish. -/
  inside : Nat

inductive Op where
  | pop
  | replenish_enter (env : Nat → Nbuf)
  | replenish_leave

def step (s : St) : Op → Option St
  | .pop =>
    if htt_rx_ring_elems s.ring = 0 then none
    else some { s with ring := (htt_rx_netbuf_pop s.ring).1 }
  | .replenish_enter env =>
    (replenish_enter env s.ring).map fun r => { s with ring := r, inside := s.inside + 1 }
  | .replenish_leave =>
    if s.inside = 0 then none
    else some { s with ring := replenish_leave s.ring, inside := s.inside - 1 }

/-! ## The size is a power of two -/

theorem eq_two_pow_of_xor {v : Nat} (hv : 0 < v) (h : v ^^^ (v - 1) = 2 * v - 1) :
    ∃ k, v = 2 ^ k := by
  induction v using Nat.strong_induction_on with
  | _ v ih =>
    obtain ⟨w, rfl | rfl⟩ : ∃ w, v = 2 * w ∨ v = 2 * w + 1 := ⟨v / 2, by omega⟩
    · -- the lowest bit of `2 w - 1` is set and that of `2 w` is not
      have hw : 0 < w := by omega
      have hpred : 2 * w - 1 = 2 * (w - 1) + 1 := by omega
      have hxor : w ^^^ (w - 1) = 2 * w - 1 := by
        have hdiv := congrArg (· / 2) h
        simp only [Nat.xor_div_two, hpred] at hdiv
        have e1 : 2 * w / 2 = w := by omega
        have e2 : (2 * (w - 1) + 1) / 2 = w - 1 := by omega
        have e3 : (2 * (2 * w) - 1) / 2 = 2 * w - 1 := by omega
        rwa [e1, e2, e3] at hdiv
      obtain ⟨k, hk⟩ := ih w (by omega) hw hxor
      exact ⟨k + 1, by rw [hk, Nat.pow_succ, Nat.mul_comm]⟩
    · refine ⟨0, ?_⟩
      have hdiv := congrArg (· / 2) h
      simp only [Nat.xor_div_two] at hdiv
      have e1 : (2 * w + 1) / 2 = w := by omega
      have e2 : (2 * w + 1 - 1) / 2 = w := by omega
      have e3 : (2 * (2 * w + 1) - 1) / 2 = 2 * w := by omega
      rw [e1, e2, e3, Nat.xor_self] at hdiv; omega

theorem log2Loop_le {fuel value n l : Nat} (h : value < 2 ^ n) : log2Loop fuel value l ≤ l + n := by
  induction fuel generalizing value n l with
  | zero => exact Nat.le_add_right l n
  | succ fuel ih =>
    rw [log2Loop]
    split
    · exact Nat.le_add_right l n
    · next hv =>
      cases n with
      | zero => omega
      | succ n =>
        have hlt : value >>> 1 < 2 ^ n := by omega
        have hle := ih (l := l + 1) hlt
        omega

/-- **The ring size** is a power of two that divides the range of the indices. -/
theorem ring_size_pow (mbps : Nat) : ∃ k ≤ 32, htt_rx_ring_size mbps = 2 ^ k := by
  have hpwr2 : ∀ v, 128 ≤ v → v ≤ 2048 → ∃ k ≤ 32, cdf_get_pwr2 v = 2 ^ k := by
    intro v hlo hhi
    unfold cdf_get_pwr2
    split
    · next hp =>
      rw [CDF_IS_PWR2, beq_iff_eq, Nat.shiftLeft_eq, Nat.pow_one, Nat.mul_comm] at hp
      obtain ⟨k, rfl⟩ := eq_two_pow_of_xor (by omega) hp
      refine ⟨k, ?_, rfl⟩
      have hk : k ≤ 11 := (Nat.pow_le_pow_iff_right (Nat.lt_succ_self 1)).mp hhi
      omega
    · refine ⟨_, ?_, Nat.one_shiftLeft _⟩
      have hle : log2Loop 32 v 0 ≤ 0 + 12 := log2Loop_le (by omega)
      omega
  unfold htt_rx_ring_size
  dsimp only
  split
  · exact hpwr2 _ (by decide) (by decide)
  · split
    · exact hpwr2 _ (by decide) (by decide)
    · next hlo hhi => exact hpwr2 _ (not_lt.mp hlo) (not_lt.mp hhi)

theorem fill_level_lt {mbps size level : Nat} (hsize : 0 < size)
    (h : htt_rx_ring_fill_level mbps size = some level) : level < size := by
  unfold htt_rx_ring_fill_level at h
  dsimp only at h
  split at h
  · exact absurd h (by simp)
  · cases h
    split <;> omega

/-- **The level is computed without overflow** up to 1717 Mbps, and not above. -/
theorem fill_level_iff (mbps size : Nat) :
    htt_rx_ring_fill_level mbps size ≠ none ↔ mbps ≤ 1717 := by
  have hsize : mbps * 1000 / 8 * HTT_RX_AVG_FRM_BYTES * HTT_RX_HOST_LATENCY_WORST_LIKELY_MS
      = mbps * 1250000 := by
    rw [show mbps * 1000 = mbps * 125 * 8 by omega, Nat.mul_div_cancel _ (by decide),
      HTT_RX_AVG_FRM_BYTES, HTT_RX_HOST_LATENCY_WORST_LIKELY_MS]
    omega
  rw [htt_rx_ring_fill_level, hsize, INT_MAX]
  split
  · simp only [ne_eq, not_true_eq_false, false_iff]; omega
  · simp only [ne_eq, reduceCtorEq, not_false_eq_true, true_iff]; omega

/-! ## The accounting of the ring -/

/-- What holds of the ring, with the buffers that are in it; `idx` is where the next one
goes. -/
structure Holding (r : Ring) (idx : Nat) (live : List Nat) : Prop where
  mode : r.is_full_reorder_offload = false
  size : ∃ k ≤ 32, r.size = 2 ^ k
  mask : r.size_mask = r.size - 1
  level : r.fill_level < r.size
  cnt : r.fill_cnt = live.length
  le_level : live.length ≤ r.fill_level
  read : r.msdu_payld < r.size
  alloc : idx = (r.msdu_payld + live.length) % r.size
  posted : r.posted = r.popped ++ live
  holds : Fifo r.netbufs_ring r.size r.msdu_payld live

variable {r : Ring} {idx : Nat} {live : List Nat}

theorem Holding.and_mask (h : Holding r idx live) (x : Nat) : x &&& r.size_mask = x % r.size := by
  obtain ⟨k, -, hk⟩ := h.size
  rw [h.mask, hk]; exact Nat.and_two_pow_sub_one_eq_mod x k

theorem Holding.length_lt (h : Holding r idx live) : live.length < r.size :=
  Nat.lt_of_le_of_lt h.le_level h.level

theorem Holding.elems (h : Holding r r.alloc_idx live) : htt_rx_ring_elems r = live.length := by
  have hread := h.read
  have hdvd : r.size ∣ 2 ^ 32 := by
    obtain ⟨k, hk, hsize⟩ := h.size
    rw [hsize]; exact Nat.pow_dvd_pow 2 hk
  have hle : r.size ≤ 2 ^ 32 := Nat.le_of_dvd (by decide) hdvd
  rw [htt_rx_ring_elems, h.and_mask, Nat.mod_mod_of_dvd _ hdvd, h.alloc]
  obtain ⟨c, hc⟩ := hdvd
  -- the difference is `live.length` up to a multiple of the size
  have hmod : (r.msdu_payld + live.length) % r.size + 2 ^ 32 - r.msdu_payld ≡
      live.length [MOD r.size] := by
    refine Nat.ModEq.add_right_cancel' r.msdu_payld ?_
    rw [Nat.sub_add_cancel (by omega), hc, Nat.add_comm live.length]
    rw [Nat.ModEq, Nat.add_mul_mod_self_left, Nat.mod_mod]
  rw [hmod, Nat.mod_eq_of_lt h.length_lt]

theorem Holding.post (h : Holding r idx live) (hlt : live.length < r.fill_level) (netbuf : Nat)
    (paddr : UInt64) :
    Holding (post { r with netbufs_ring := update r.netbufs_ring idx netbuf } idx netbuf paddr)
      ((idx + 1) &&& r.size_mask) (live ++ [netbuf]) where
  mode := h.mode
  size := h.size
  mask := h.mask
  level := h.level
  cnt := by simp only [RxRing.post, h.cnt, length_append, length_singleton]; omega
  le_level := by rw [length_append, length_singleton]; exact hlt
  read := h.read
  alloc := by rw [h.and_mask, h.alloc, Nat.mod_add_mod, length_append, length_singleton]; rfl
  posted := by simp only [RxRing.post, h.posted, append_assoc]
  holds := by
    have hpush := h.holds.push h.length_lt netbuf
    rw [← h.alloc] at hpush; exact hpush

/-- **The loop of a fill** posts some buffers, at most `num`. -/
theorem Holding.fillLoop (h : Holding r idx live) (env : Nat → Nbuf) (num k : Nat)
    (hnum : live.length + num ≤ r.fill_level) :
    ∃ r' idx' live', RxRing.fillLoop env num k r idx = some (r', idx') ∧ Holding r' idx' live' ∧
      r'.refill_ref_cnt = r.refill_ref_cnt := by
  induction num generalizing k r idx live with
  | zero => exact ⟨r, idx, live, rfl, h, rfl⟩
  | succ num ih =>
    rw [RxRing.fillLoop]
    split
    · exact ⟨r, idx, live, rfl, h, rfl⟩
    · exact ⟨r, idx, live, rfl, h, rfl⟩
    · next netbuf paddr malloc _ =>
      rw [storeNetbuf, if_neg (by rw [h.mode]; simp)]
      have hposted := h.post (by omega) netbuf paddr
      refine ih hposted (k + 1) ?_
      rw [length_append, length_singleton]
      change live.length + 1 + num ≤ r.fill_level
      omega

theorem Holding.fill_ring_count (h : Holding r r.alloc_idx live) (env : Nat → Nbuf) :
    ∃ r' live', htt_rx_fill_ring_count env r = some r' ∧ Holding r' r'.alloc_idx live' ∧
      r'.refill_ref_cnt = r.refill_ref_cnt := by
  have hcnt := h.cnt
  have hle := h.le_level
  obtain ⟨r', idx', live', hloop, h', href⟩ :=
    h.fillLoop env ((r.fill_level : Int) - r.fill_cnt).toNat 0 (by omega)
  refine ⟨{ r' with alloc_idx := idx' }, live', ?_, ?_, href⟩
  · rw [htt_rx_fill_ring_count, htt_rx_ring_fill_n, hloop]; rfl
  · exact ⟨h'.mode, h'.size, h'.mask, h'.level, h'.cnt, h'.le_level, h'.read, h'.alloc, h'.posted,
      h'.holds⟩

theorem Holding.setRef (h : Holding r idx live) (n : Int) :
    Holding { r with refill_ref_cnt := n } idx live :=
  ⟨h.mode, h.size, h.mask, h.level, h.cnt, h.le_level, h.read, h.alloc, h.posted, h.holds⟩

theorem Holding.replenish (h : Holding r r.alloc_idx live) (env : Nat → Nbuf) :
    ∃ r', replenish_enter env r = some r' ∧ (∃ live', Holding r' r'.alloc_idx live') ∧
      r'.refill_ref_cnt = r.refill_ref_cnt - 1 := by
  have h' := h.setRef (r.refill_ref_cnt - 1)
  rw [replenish_enter]
  split
  · obtain ⟨r', live', hfill, hlive', href⟩ := Holding.fill_ring_count h' env
    exact ⟨r', hfill, ⟨live', hlive'⟩, href⟩
  · exact ⟨_, rfl, ⟨live, h'⟩, rfl⟩

theorem Holding.pop {b : Nat} (h : Holding r r.alloc_idx (b :: live)) :
    (htt_rx_netbuf_pop r).2 = b ∧
      Holding (htt_rx_netbuf_pop r).1 (htt_rx_netbuf_pop r).1.alloc_idx live := by
  obtain ⟨hb, hrest⟩ := h.holds.pop
  rw [Nat.mod_eq_of_lt h.read] at hb
  refine ⟨hb, h.mode, h.size, h.mask, h.level, ?_, ?_, ?_, ?_, ?_, ?_⟩
  · have hcnt := h.cnt
    rw [length_cons] at hcnt
    simp only [htt_rx_netbuf_pop]
    omega
  · exact Nat.le_of_succ_le h.le_level
  · simp only [htt_rx_netbuf_pop, h.and_mask]; exact Nat.mod_lt _ (Nat.zero_lt_of_lt h.read)
  · simp only [htt_rx_netbuf_pop, h.and_mask]
    rw [h.alloc, Nat.mod_add_mod, length_cons, Nat.add_assoc, Nat.add_comm 1]
  · simp only [htt_rx_netbuf_pop, hb, h.posted, append_assoc, singleton_append]
  · simp only [htt_rx_netbuf_pop, h.and_mask]; exact hrest

structure Inv (s : St) : Prop where
  ring : ∃ live, Holding s.ring s.ring.alloc_idx live
  ref : s.ring.refill_ref_cnt = 1 - s.inside

theorem Inv.step {s s' : St} {op : Op} (h : Inv s) (hs : step s op = some s') : Inv s' := by
  obtain ⟨live, hring⟩ := h.ring
  have href := h.ref
  cases op with
  | pop =>
    rw [RxRing.step] at hs
    split at hs
    · exact absurd hs (by simp)
    · next hne =>
      -- the distance of the indices is not zero, so a buffer is there
      rw [hring.elems] at hne
      obtain ⟨b, rest, rfl⟩ := exists_cons_of_length_pos (Nat.pos_of_ne_zero hne)
      cases hs
      exact ⟨⟨rest, hring.pop.2⟩, href⟩
  | replenish_enter env =>
    obtain ⟨r, hr, rfl⟩ := Option.map_eq_some_iff.mp hs
    obtain ⟨r', hr', hlive, href'⟩ := hring.replenish env
    obtain rfl := Option.some.inj (hr.symm.trans hr')
    -- one more thread is inside, and refill_ref_cnt has gone down by one
    refine ⟨hlive, ?_⟩
    push_cast
    omega
  | replenish_leave =>
    rw [RxRing.step] at hs
    split at hs
    · exact absurd hs (by simp)
    · next hin =>
      cases hs
      refine ⟨⟨live, hring.setRef _⟩, ?_⟩
      simp only [replenish_leave]
      omega

/-- The accounting of the ring: the count of the buffers in it is the distance of the two
indices and within the level, and what was popped is what was posted first. -/
structure Accounted (r : Ring) : Prop where
  cnt : r.fill_cnt = htt_rx_ring_elems r
  le_level : r.fill_cnt ≤ r.fill_level
  level : r.fill_level < r.size
  /-- The published index is at most a ring ahead of the read index, less one. -/
  alloc : r.alloc_idx = (r.msdu_payld + htt_rx_ring_elems r) % r.size
  popped : r.posted.take r.popped.length = r.popped
  length : r.posted.length = r.popped.length + htt_rx_ring_elems r
  /-- The next pops return the others in order. -/
  next : Fifo r.netbufs_ring r.size r.msdu_payld (r.posted.drop r.popped.length)

theorem Holding.accounted (h : Holding r r.alloc_idx live) : Accounted r := by
  have hel := h.elems
  refine ⟨?_, ?_, h.level, ?_, ?_, ?_, ?_⟩
  · rw [hel]; exact h.cnt
  · rw [h.cnt]; exact Int.ofNat_le.mpr h.le_level
  · rw [hel]; exact h.alloc
  · rw [h.posted, take_left]
  · rw [h.posted, length_append, hel]
  · rw [h.posted, drop_left]; exact h.holds

/-- The ring that `htt_rx_attach` leaves behind is in order. -/
theorem attach_holding {env : Nat → Nbuf} {mbps : Nat} {netbufs_ring : Nat → Nat}
    {paddrs_ring : Nat → UInt64} {hash_table : Table} {r₀ : Ring}
    (h₀ : htt_rx_attach env mbps netbufs_ring paddrs_ring hash_table = some r₀) :
    ∃ live, Holding r₀ r₀.alloc_idx live ∧ r₀.refill_ref_cnt = 1 := by
  obtain ⟨level, hlevel, hfilled⟩ := Option.bind_eq_some_iff.mp h₀
  obtain ⟨k, hk, hsize⟩ := ring_size_pow mbps
  have hpos : 0 < htt_rx_ring_size mbps := by rw [hsize]; exact Nat.two_pow_pos k
  have hstart : Holding (attached mbps level netbufs_ring paddrs_ring hash_table) 0 [] :=
    ⟨rfl, ⟨k, hk, hsize⟩, rfl, fill_level_lt hpos hlevel, rfl, Nat.zero_le _, hpos,
      (Nat.zero_mod _).symm, rfl, trivial⟩
  obtain ⟨r, live, hfill, hr, href⟩ := Holding.fill_ring_count hstart env
  have heq : r = r₀ := by
    refine Option.some.inj (hfill.symm.trans (Eq.trans ?_ hfilled))
    exact congrArg (htt_rx_ring_fill_n env _) (Int.sub_zero _)
  subst heq; exact ⟨live, hr, href⟩

/-- **Accounting of the rx ring.** In every state of every run of pops of posted buffers
and of replenishes of any number of threads, with allocations and mappings that may fail
at any buffer, the ring is accounted for, a pop returns the earliest posted buffer that
was not popped, and a replenish comes to an end. -/
theorem rx_ring_accounted (env : Nat → Nbuf) (mbps : Nat) (netbufs_ring : Nat → Nat)
    (paddrs_ring : Nat → UInt64) (hash_table : Table) (r₀ : Ring)
    (h₀ : htt_rx_attach env mbps netbufs_ring paddrs_ring hash_table = some r₀) (es : List Op)
    (s : St) (h : run step ⟨r₀, 0⟩ es = some s) :
    Accounted s.ring ∧
      (htt_rx_ring_elems s.ring ≠ 0 →
        s.ring.posted[s.ring.popped.length]? = some (htt_rx_netbuf_pop s.ring).2) ∧
      ∀ env, ∃ s', step s (.replenish_enter env) = some s' := by
  have hinv : Inv s := by
    obtain ⟨live, hlive, href⟩ := attach_holding h₀
    refine run_invariant (fun _ _ _ hi hst => hi.step hst) ?_ h
    exact ⟨⟨live, hlive⟩, href⟩
  obtain ⟨live, hring⟩ := hinv.ring
  refine ⟨hring.accounted, fun hne => ?_, fun env => ?_⟩
  · rw [hring.elems] at hne
    obtain ⟨b, rest, rfl⟩ := exists_cons_of_length_pos (Nat.pos_of_ne_zero hne)
    rw [hring.pop.1, hring.posted, getElem?_append_right (Nat.le_refl _), Nat.sub_self]; rfl
  · obtain ⟨r, hr, -⟩ := hring.replenish env; exact ⟨_, by rw [step, hr, Option.map_some]⟩

def upTo (n start : Nat) : Nat → Nbuf := fun k =>
  if k < n then .mapped (start + k) 0x1000 none else .no_memory

def noEntries : Table :=
  ⟨⟨fun _ => .head (.listhead 0), fun _ => .head (.listhead 0)⟩, fun _ => ⟨0, 0, false⟩, []⟩

/-- Three buffers are posted, and after two pops two more. -/
theorem rx_ring_accounted_five :
    ∃ r₀ s, htt_rx_attach (upTo 3 1) 800 (fun _ => 0) (fun _ => 0) noEntries = some r₀ ∧
      run step ⟨r₀, 0⟩ [.pop, .pop, .replenish_enter (upTo 2 4), .replenish_leave, .pop] = some s ∧
      s.ring.posted = [1, 2, 3, 4, 5] ∧ s.ring.popped = [1, 2, 3] ∧ Accounted s.ring := by
  obtain ⟨r₀, hr₀, hq⟩ := (Option.any_eq_true
    (fun r₀ : Ring => (run step (⟨r₀, 0⟩ : St)
      [.pop, .pop, .replenish_enter (upTo 2 4), .replenish_leave, .pop]).any fun s : St =>
        decide (s.ring.posted = [1, 2, 3, 4, 5] ∧ s.ring.popped = [1, 2, 3]))
    (htt_rx_attach (upTo 3 1) 800 (fun _ => 0) (fun _ => 0) noEntries)).mp (by decide +kernel)
  obtain ⟨s, hs, hlists⟩ := (Option.any_eq_true _ _).mp hq
  obtain ⟨hposted, hpopped⟩ := of_decide_eq_true hlists
  exact ⟨r₀, s, hr₀, hs, hposted, hpopped,
    (rx_ring_accounted (upTo 3 1) 800 _ _ noEntries r₀ hr₀ _ s hs).1⟩

end Qcacld.RxRing
