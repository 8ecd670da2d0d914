/-
The segments of a TCP jumbo frame: `__cdf_nbuf_get_tso_info` in `cdf_nbuf.c`.

Buffers are their virtual addresses, and the DMA mapping is a parameter. The inner loop is a
recursion over the room that is left in `tso_frags`; there is no result where it leaves this array
or that of the page fragments. Left out are `total_len` and the constant fields of the flags.
-/
import Mathlib.Data.UInt
import Mathlib.Data.List.Range

set_option autoImplicit false

namespace Qcacld.TsoSegment

open Function List

def FRAG_NUM_MAX : Nat := 6
def ETH_P_IP : UInt16 := 0x0800
def ETH_P_IPV6 : UInt16 := 0x86DD
def IPPROTO_TCP : UInt8 := 6

/-- The flags of a TCP header that are copied to each segment. -/
structure TcpFlags where
  syn : Bool
  rst : Bool
  psh : Bool
  ack : Bool
  urg : Bool
  ece : Bool
  cwr : Bool

/-- A `struct sk_buff`, with what the functions read of its headers. `frags` has the address and the
size of each page fragment. -/
structure Skb where
  data : Nat
  headlen : Nat
  frags : List (Nat × Nat)
  gso_size : Nat
  l2_hdrlen : Nat
  ip_hdrlen : Nat
  tcp_hdrlen : Nat
  ethproto : UInt16
  ip_protocol : UInt8
  ip_id : UInt16
  seq : UInt32
  fin : Bool
  flags : TcpFlags

/-- Ethernet, IP and TCP header. -/
def Skb.eit (skb : Skb) : Nat := skb.l2_hdrlen + skb.ip_hdrlen + skb.tcp_hdrlen

/-- The payload in the linear part. -/
def Skb.rest (skb : Skb) : Nat := skb.headlen - skb.eit

def Skb.len (skb : Skb) : Nat := skb.headlen + (skb.frags.map Prod.snd).sum

structure TsoFrag where
  paddr_low_32 : Nat
  paddr_upper_16 : Nat
  length : Nat
  vaddr : Nat

/-- A segment; `ip_len` has 16 bits. -/
structure TsoSeg where
  fin : Bool
  flags : TcpFlags
  ip_len : Nat
  tcp_seq_num : UInt32
  ip_id : UInt16
  ipv4_checksum_en : Bool
  tcp_ipv4_checksum_en : Bool
  tcp_ipv6_checksum_en : Bool
  num_frags : Nat
  tso_frags : Nat → TsoFrag

structure CmnSegInfo where
  ip_tcp_hdr_len : Nat
  eit_hdr : Nat
  eit_hdr_len : Nat
  ipv4_csum_en : Bool
  tcp_ipv4_csum_en : Bool
  tcp_ipv6_csum_en : Bool
  ip_id : UInt16
  tcp_seq_num : UInt32

/-- The variables that are carried through the loops; the 32 bits of `tso_frag_paddr_lo` and
`tso_frag_paddr_hi` are those of `tso_frag_paddr`. -/
structure Vars where
  tso_frag_vaddr : Nat
  tso_frag_paddr : Nat
  tso_frag_len : Nat
  skb_frag_len : Nat
  foffset : Nat
  skb_proc : Nat
  tso_seg_size : Nat
  frag : Nat
  ip_id : UInt16
  tcp_seq_num : UInt32

/-- Subtraction of `uint32_t`. -/
def sub32 (a b : Nat) : Nat := (a + (2 ^ 32 - b % 2 ^ 32)) % 2 ^ 32

variable (dma : Nat → Nat) (skb : Skb)

/-- `none` where the headers are not those of TCP. -/
def cdf_nbuf_get_tso_cmn_seg_info : Option CmnSegInfo :=
  let l2_len := skb.l2_hdrlen % 2 ^ 16
  let info (ipv4 : Bool) (ip_id : UInt16) : CmnSegInfo :=
    { ip_tcp_hdr_len := (skb.eit - l2_len) % 2 ^ 16
      eit_hdr := skb.data
      eit_hdr_len := skb.eit
      ipv4_csum_en := ipv4
      tcp_ipv4_csum_en := ipv4
      tcp_ipv6_csum_en := !ipv4
      ip_id := ip_id
      tcp_seq_num := skb.seq }
  if skb.ethproto = ETH_P_IP then
    if skb.ip_protocol ≠ IPPROTO_TCP then none else some (info true skb.ip_id)
  else if skb.ethproto = ETH_P_IPV6 then some (info false 0)
  else none

def mkFrag (vaddr paddr len : Nat) : TsoFrag :=
  { paddr_low_32 := paddr % 2 ^ 32
    paddr_upper_16 := paddr / 2 ^ 32 % 2 ^ 16
    length := len % 2 ^ 16
    vaddr := vaddr }

/-- A segment before the inner loop, with the header as its first fragment. -/
def startSeg (info : CmnSegInfo) (v : Vars) : TsoSeg :=
  { fin := false
    flags := skb.flags
    ip_len := info.ip_tcp_hdr_len
    tcp_seq_num := v.tcp_seq_num
    ip_id := v.ip_id
    ipv4_checksum_en := info.ipv4_csum_en
    tcp_ipv4_checksum_en := info.tcp_ipv4_csum_en
    tcp_ipv6_checksum_en := info.tcp_ipv6_csum_en
    num_frags := 1
    tso_frags := update (fun _ => ⟨0, 0, 0, 0⟩) 0
      (mkFrag info.eit_hdr (dma info.eit_hdr) info.eit_hdr_len) }

def addFrag (i : Nat) (v : Vars) (seg : TsoSeg) : TsoSeg :=
  { seg with
    tso_frags := update seg.tso_frags i (mkFrag v.tso_frag_vaddr v.tso_frag_paddr v.tso_frag_len)
    ip_len := (seg.ip_len + v.tso_frag_len % 2 ^ 16) % 2 ^ 16
    num_frags := seg.num_frags + 1 }

/-- From the variables of a fragment to those of the next one, in which `j` page fragments have been
begun: whether it is one of the linear part or of the same page fragment. -/
def nextFrag (j : Nat) (from_frag_table : Bool) (v : Vars) : Option (Nat × Bool × Vars) :=
  if v.tso_frag_len < v.skb_frag_len then
    let skb_frag_len := sub32 v.skb_frag_len v.tso_frag_len
    let tso_frag_len := min skb_frag_len v.tso_seg_size
    let vaddr := v.tso_frag_vaddr + tso_frag_len
    some (j, from_frag_table,
      { v with
        skb_frag_len := skb_frag_len
        tso_frag_len := tso_frag_len
        tso_frag_vaddr := vaddr
        tso_frag_paddr := dma (if from_frag_table then v.frag + v.foffset else vaddr) })
  else
    match skb.frags[j]? with
    | none => none
    | some (addr, size) =>
      let tso_frag_len := min v.skb_frag_len v.tso_seg_size
      some (j + 1, true,
        { v with
          tso_frag_len := tso_frag_len
          frag := addr
          skb_frag_len := size
          tso_frag_vaddr := addr
          tso_frag_paddr := dma addr
          foffset := (v.foffset + tso_frag_len) % 2 ^ 32 })

/-- The inner loop, with room for so many fragments. Whether no data are left is the first
component. -/
def fragLoop : Nat → Nat → Bool → TsoSeg → Vars → Option (Bool × TsoSeg × Vars)
  | 0, _, _, _, _ => none
  | room + 1, j, from_frag_table, seg, v =>
    let seg := addFrag (FRAG_NUM_MAX - (room + 1)) v seg
    let v := { v with
      skb_proc := sub32 v.skb_proc (v.tso_frag_len % 2 ^ 16)
      tcp_seq_num := v.tcp_seq_num + .ofNat v.tso_frag_len }
    if v.skb_proc = 0 then some (true, seg, v)
    else
      let more_tso_frags := decide (sub32 v.tso_seg_size v.tso_frag_len ≠ 0)
      let v := { v with
        tso_seg_size := if more_tso_frags then v.tso_seg_size else skb.gso_size }
      match nextFrag dma skb j from_frag_table v with
      | none => none
      | some (j, from_frag_table, v) =>
        if more_tso_frags then fragLoop room j from_frag_table seg v else some (false, seg, v)

/-- The outer loop, over the `num_seg` segments to come and the elements of the list: the segments
that are filled in. -/
def segLoop (info : CmnSegInfo) : Nat → Nat → Vars → Option (List TsoSeg)
  | 0, _, _ => some []
  | _ + 1, 0, _ => some []
  | num_seg + 1, elems + 1, v =>
    match fragLoop dma skb (FRAG_NUM_MAX - 1) 0 false (startSeg dma skb info v)
      { v with ip_id := v.ip_id + 1 } with
    | none => none
    | some (true, seg, _) => some [seg]
    | some (false, seg, v) =>
      let seg := { seg with fin := if num_seg = 0 then skb.fin else seg.fin }
      (segLoop info num_seg elems v).map (seg :: ·)

/-- For a list of `num_segs` elements. -/
def cdf_nbuf_get_tso_info (num_segs : Nat) : Option (List TsoSeg) :=
  match cdf_nbuf_get_tso_cmn_seg_info skb with
  | none => some []
  | some info =>
    let skb_frag_len := sub32 skb.headlen info.eit_hdr_len
    let vaddr := skb.data + info.eit_hdr_len
    segLoop dma skb info num_segs num_segs
      { tso_frag_vaddr := vaddr
        tso_frag_paddr := dma vaddr
        tso_frag_len := min skb_frag_len skb.gso_size
        skb_frag_len := skb_frag_len
        foffset := 0
        skb_proc := skb_frag_len
        tso_seg_size := skb.gso_size
        frag := 0
        ip_id := info.ip_id
        tcp_seq_num := info.tcp_seq_num }

/-- A TCP jumbo frame. -/
structure Jumbo extends Skb where
  tcp : ethproto = ETH_P_IP ∧ ip_protocol = IPPROTO_TCP ∨ ethproto = ETH_P_IPV6
  gso_pos : 0 < gso_size
  gso_lt : gso_size < 2 ^ 16
  headers : toSkb.eit ≤ headlen
  frags_pos : ∀ f ∈ frags, 0 < f.2
  payload_pos : toSkb.eit < toSkb.len
  len_lt : toSkb.len < 2 ^ 32

def numSegLoop (skb : Jumbo) (tmp_len : Nat) : Nat :=
  if tmp_len = 0 then 0
  else if skb.gso_size < tmp_len then numSegLoop skb (tmp_len - skb.gso_size) + 1
  else 1
termination_by tmp_len
decreasing_by have := skb.gso_pos; omega

def cdf_nbuf_get_tso_num_seg (skb : Jumbo) : Nat := numSegLoop skb (skb.len - skb.eit)

/-! ## What the segments are to be -/

def TsoFrag.bytes (f : TsoFrag) : List Nat := range' f.vaddr f.length

/-- The fragments with the payload. -/
def TsoSeg.payload (seg : TsoSeg) : List TsoFrag :=
  (range' 1 (seg.num_frags - 1)).map seg.tso_frags

def TsoSeg.bytes (seg : TsoSeg) : List Nat := seg.payload.flatMap TsoFrag.bytes

def Skb.payload (skb : Skb) : List Nat :=
  range' (skb.data + skb.eit) skb.rest ++
    skb.frags.flatMap fun f => range' f.1 f.2

structure Segmented (num_segs : Nat) (segs : List TsoSeg) : Prop where
  count : segs.length = num_segs
  bytes : segs.flatMap TsoSeg.bytes = skb.payload
  mapped : ∀ seg ∈ segs, ∀ f ∈ seg.payload,
    f.paddr_low_32 + 2 ^ 32 * f.paddr_upper_16 = dma f.vaddr % 2 ^ 48
  full : ∀ k (h : k < segs.length), k + 1 < num_segs → segs[k].bytes.length = skb.gso_size
  seq : ∀ k (h : k < segs.length), segs[k].tcp_seq_num = skb.seq + .ofNat (k * skb.gso_size)
  ip_id : ∀ k (h : k < segs.length),
    segs[k].ip_id = (if skb.ethproto = ETH_P_IP then skb.ip_id else 0) + .ofNat k
  ip_len : ∀ seg ∈ segs, seg.ip_len = skb.ip_hdrlen + skb.tcp_hdrlen + seg.bytes.length
  fin : ∀ k (h : k < segs.length), segs[k].fin = (skb.fin && k + 1 = num_segs)

variable {dma}

/-! ## The payload in the linear part -/

/-- The variables with `r` bytes of the linear part to go, from `a` on. -/
def linear (dma : Nat → Nat) (gso r a : Nat) (s : UInt32) (d : UInt16) : Vars :=
  { tso_frag_vaddr := a
    tso_frag_paddr := dma a
    tso_frag_len := min r gso
    skb_frag_len := r
    foffset := 0
    skb_proc := r
    tso_seg_size := gso
    frag := 0
    ip_id := d
    tcp_seq_num := s }

/-- A segment with one fragment of payload. -/
def oneFrag (dma : Nat → Nat) (skb : Skb) (info : CmnSegInfo) (r a : Nat) (s : UInt32)
    (d : UInt16) : TsoSeg :=
  addFrag 1 (linear dma skb.gso_size r a s d)
    (startSeg dma skb info (linear dma skb.gso_size r a s d))

/-- Where fragment `k` begins: the address goes on by the length of the new fragment, not by that of
the one before. -/
def addr (g r a : Nat) : Nat → Nat
  | 0 => a
  | k + 1 => a + k * g + min (r - (k + 1) * g) g

def segCount (g r : Nat) : Nat := (r - 1) / g + 1

theorem sub32_eq {a b : Nat} (h : b ≤ a) (ha : a < 2 ^ 32) : sub32 a b = a - b := by
  unfold sub32; omega

theorem segCount_of_lt {g r : Nat} (hg : 0 < g) (h : g < r) :
    segCount g r = segCount g (r - g) + 1 := by
  unfold segCount
  rw [show r - 1 = r - g - 1 + g by omega, Nat.add_div_right _ hg]

theorem addr_succ {g r : Nat} (a : Nat) (k : Nat) (hk : k * g < r - g) :
    addr g (r - g) (a + min (r - g) g) k = addr g r a (k + 1) := by
  cases k with
  | zero => simp [addr]
  | succ k =>
    rw [Nat.add_one_mul] at hk
    have hsub : r - g - (k + 1) * g = r - (k + 1 + 1) * g := by
      rw [Nat.add_one_mul (k + 1), Nat.sub_sub, Nat.add_comm g]
    rw [addr, addr, hsub, Nat.min_eq_right (by omega), Nat.add_one_mul k]; omega

variable {skb} {info : CmnSegInfo} {r : Nat}

/-- The last segment: the function returns without having set FIN. -/
theorem fragLoop_last (hg : skb.gso_size < 2 ^ 16) (hr : r ≤ skb.gso_size) (a : Nat)
    (s : UInt32) (d : UInt16) (seg : TsoSeg) :
    ∃ v, fragLoop dma skb 5 0 false seg (linear dma skb.gso_size r a s d) =
      some (true, addFrag 1 (linear dma skb.gso_size r a s d) seg, v) := by
  have hz : sub32 r (r % 2 ^ 16) = 0 := by
    rw [Nat.mod_eq_of_lt (by omega), sub32_eq (Nat.le_refl r) (by omega), Nat.sub_self]
  rw [fragLoop]
  simp only [linear, Nat.min_eq_left hr, hz, if_true]
  exact ⟨_, rfl⟩

/-- A segment before the last one has one fragment of payload. -/
theorem fragLoop_full (hg : 0 < skb.gso_size) (hg' : skb.gso_size < 2 ^ 16) (hr : r < 2 ^ 32)
    (h : skb.gso_size < r) (a : Nat) (s : UInt32) (d : UInt16) (seg : TsoSeg) :
    fragLoop dma skb 5 0 false seg (linear dma skb.gso_size r a s d) =
      some (false, addFrag 1 (linear dma skb.gso_size r a s d) seg,
        linear dma skb.gso_size (r - skb.gso_size) (a + min (r - skb.gso_size) skb.gso_size)
          (s + .ofNat skb.gso_size) d) := by
  have hself : sub32 skb.gso_size skb.gso_size = 0 := by
    rw [sub32_eq (Nat.le_refl _) (by omega), Nat.sub_self]
  rw [fragLoop]
  simp only [linear, Nat.min_eq_right h.le, Nat.mod_eq_of_lt hg', sub32_eq h.le hr, hself, nextFrag,
    h, if_true]
  rw [if_neg (Nat.sub_ne_zero_of_lt h)]; rfl

/-- The segments for `r` bytes of the linear part. -/
def pieces (dma : Nat → Nat) (skb : Skb) (info : CmnSegInfo) (r a : Nat) (s : UInt32)
    (d : UInt16) : List TsoSeg :=
  (range (segCount skb.gso_size r)).map fun k =>
    oneFrag dma skb info (r - k * skb.gso_size) (addr skb.gso_size r a k)
      (s + .ofNat (k * skb.gso_size)) (d + .ofNat k)

/-- **The outer loop** cuts what is in the linear part, and ends there. -/
theorem segLoop_linear (hg : 0 < skb.gso_size) (hg' : skb.gso_size < 2 ^ 16) (n r a : Nat)
    (s : UInt32) (d : UInt16) (hr : r < 2 ^ 32) (h : segCount skb.gso_size r ≤ n) :
    segLoop dma skb info n n (linear dma skb.gso_size r a s d) =
      some (pieces dma skb info r a s d) := by
  induction n generalizing r a s d with
  | zero => cases h
  | succ n ih =>
    change (match fragLoop dma skb 5 0 false _ (linear dma skb.gso_size r a s (d + 1)) with
      | none => none
      | some (true, seg, _) => some [seg]
      | some (false, seg, v) => _) = _
    by_cases hlast : r ≤ skb.gso_size
    · obtain ⟨v, hv⟩ := fragLoop_last hg' hlast a s (d + 1)
        (startSeg dma skb info (linear dma skb.gso_size r a s d))
      have hone : segCount skb.gso_size r = 1 := by rw [segCount, Nat.div_eq_of_lt (by omega)]
      rw [hv, pieces, hone]
      simp [oneFrag, addr]
      rfl
    · have hlt := Nat.lt_of_not_le hlast
      rw [segCount_of_lt hg hlt] at h
      rw [fragLoop_full hg hg' hr hlt, pieces, segCount_of_lt hg hlt]
      dsimp only
      rw [ih _ _ _ _ (by omega) (Nat.le_of_succ_le_succ h), range_succ_eq_map, map_cons, map_map,
        Option.map_some, if_neg fun hn => Nat.not_succ_le_zero _ (hn ▸ Nat.le_of_succ_le_succ h)]
      congr 2
      · simp [oneFrag, addr]; rfl
      · refine map_congr_left fun k hk => ?_
        have hkr : k * skb.gso_size < r - skb.gso_size := by
          have hle := (Nat.le_div_iff_mul_le hg).mp (Nat.le_of_lt_succ (mem_range.mp hk))
          omega
        have hd : d + 1 + UInt16.ofNat k = d + UInt16.ofNat (k + 1) := by
          rw [Nat.add_comm k 1, UInt16.ofNat_add, ← UInt16.add_assoc]; rfl
        rw [comp_apply, addr_succ a k hkr, Nat.sub_sub, hd, UInt32.add_assoc, ← UInt32.ofNat_add,
          Nat.add_comm skb.gso_size, ← Nat.succ_mul]

/-! ## The theorem -/

theorem numSegLoop_eq (skb : Jumbo) (n : Nat) (h : 0 < n) :
    numSegLoop skb n = segCount skb.gso_size n := by
  induction n using Nat.strong_induction_on with
  | _ n ih =>
    rw [numSegLoop, if_neg h.ne']
    have hg := skb.gso_pos
    split
    next hlt => rw [ih _ (by omega) (by omega), segCount_of_lt hg hlt]
    next hle => rw [segCount, Nat.div_eq_of_lt (by omega)]

theorem flatMap_pieces {g r a n : Nat} (h : r ≤ n * g) :
    (range n).flatMap (fun k => range' (a + k * g) (min (r - k * g) g)) = range' a r := by
  induction n generalizing r a with
  | zero =>
    rw [Nat.zero_mul] at h
    rw [Nat.le_zero.mp h]; rfl
  | succ n ih =>
    rw [Nat.add_one_mul] at h
    have hstep : ∀ k, range' (a + (k + 1) * g) (min (r - (k + 1) * g) g) =
        range' (a + g + k * g) (min (r - g - k * g) g) := fun k => by
      rw [Nat.add_one_mul, Nat.sub_sub, Nat.add_comm (k * g), Nat.add_assoc a]
    rw [range_succ_eq_map, flatMap_cons, flatMap_map]
    simp only [hstep]
    rw [ih (by omega), Nat.zero_mul, Nat.sub_zero, Nat.add_zero]
    rcases Nat.le_total r g with hr | hr
    · rw [Nat.min_eq_left hr, Nat.sub_eq_zero_of_le hr, range'_zero, append_nil]
    · rw [Nat.min_eq_right hr, range'_append_1, Nat.add_sub_cancel' hr]

theorem oneFrag_payload (r a : Nat) (s : UInt32) (d : UInt16) :
    (oneFrag dma skb info r a s d).payload = [mkFrag a (dma a) (min r skb.gso_size)] := rfl

theorem oneFrag_bytes (hg : skb.gso_size < 2 ^ 16) (r a : Nat) (s : UInt32) (d : UInt16) :
    (oneFrag dma skb info r a s d).bytes = range' a (min r skb.gso_size) := by
  have hlen : min r skb.gso_size % 2 ^ 16 = min r skb.gso_size :=
    Nat.mod_eq_of_lt (Nat.lt_of_le_of_lt (Nat.min_le_right _ _) hg)
  rw [TsoSeg.bytes, oneFrag_payload, flatMap_cons, flatMap_nil, append_nil, TsoFrag.bytes, mkFrag,
    hlen]

theorem cmn_seg_info_eq (skb : Jumbo) :
    ∃ info, cdf_nbuf_get_tso_cmn_seg_info skb.toSkb = some info ∧
      info.ip_tcp_hdr_len = (skb.ip_hdrlen + skb.tcp_hdrlen) % 2 ^ 16 ∧
      info.eit_hdr_len = skb.eit ∧ info.tcp_seq_num = skb.seq ∧
      info.ip_id = if skb.ethproto = ETH_P_IP then skb.ip_id else 0 := by
  have hlen : (skb.eit - skb.l2_hdrlen % 2 ^ 16) % 2 ^ 16 =
      (skb.ip_hdrlen + skb.tcp_hdrlen) % 2 ^ 16 := by unfold Skb.eit; omega
  unfold cdf_nbuf_get_tso_cmn_seg_info
  rcases skb.tcp with ⟨hip, htcp⟩ | hip
  · rw [if_pos hip, if_neg (not_not.mpr htcp), if_pos hip]; exact ⟨_, rfl, hlen, rfl, rfl, rfl⟩
  · have hne : skb.ethproto ≠ ETH_P_IP := by rw [hip]; decide
    rw [if_neg hne, if_pos hip, if_neg hne]; exact ⟨_, rfl, hlen, rfl, rfl, rfl⟩

theorem num_seg_eq (skb : Jumbo) :
    cdf_nbuf_get_tso_num_seg skb = segCount skb.gso_size (skb.len - skb.eit) :=
  numSegLoop_eq skb _ (Nat.sub_pos_of_lt skb.payload_pos)

theorem tso_info_eq (dma : Nat → Nat) (skb : Jumbo) :
    ∃ info, info.ip_tcp_hdr_len = (skb.ip_hdrlen + skb.tcp_hdrlen) % 2 ^ 16 ∧
      cdf_nbuf_get_tso_info dma skb.toSkb (cdf_nbuf_get_tso_num_seg skb) =
        some (pieces dma skb.toSkb info skb.rest (skb.data + skb.eit) skb.seq
          (if skb.ethproto = ETH_P_IP then skb.ip_id else 0)) := by
  obtain ⟨info, hinfo, hlen, heit, hseq, hid⟩ := cmn_seg_info_eq skb
  have hhead : skb.headlen < 2 ^ 32 := Nat.lt_of_le_of_lt (Nat.le_add_right _ _) skb.len_lt
  have hcount : segCount skb.gso_size skb.rest ≤ cdf_nbuf_get_tso_num_seg skb := by
    rw [num_seg_eq]
    refine Nat.succ_le_succ (Nat.div_le_div_right (Nat.sub_le_sub_right ?_ 1))
    exact Nat.sub_le_sub_right (Nat.le_add_right _ _) _
  refine ⟨info, hlen, ?_⟩
  unfold cdf_nbuf_get_tso_info
  rw [hinfo]
  dsimp only
  rw [heit, hseq, hid, sub32_eq skb.headers hhead]
  exact segLoop_linear skb.gso_pos skb.gso_lt _ _ _ _ _
    (Nat.lt_of_le_of_lt (Nat.sub_le _ _) hhead) hcount

theorem le_segCount_mul {g : Nat} (hg : 0 < g) (r : Nat) : r ≤ segCount g r * g := by
  have h := Nat.lt_mul_div_succ (r - 1) hg
  rw [segCount, Nat.mul_comm]; omega

theorem mul_lt_of_lt_segCount {g r k : Nat} (hg : 0 < g) (h : k + 1 < segCount g r) :
    (k + 1) * g < r := by
  have hle := (Nat.le_div_iff_mul_le hg).mp (Nat.le_of_lt_succ h)
  rw [Nat.add_one_mul] at *
  omega

/-- The addresses are right if there is one piece, or if the last one is as long as the others. -/
theorem addr_eq {g r : Nat} (hg : 0 < g) (h : r ≤ g ∨ g ∣ r) (a : Nat) {k : Nat}
    (hk : k < segCount g r) : addr g r a k = a + k * g := by
  cases k with
  | zero => simp [addr]
  | succ k =>
    have hlt := mul_lt_of_lt_segCount hg hk
    rw [addr, Nat.add_one_mul] at *
    rcases h with h | ⟨q, rfl⟩
    · omega
    · have hq : (k + 2) * g ≤ q * g := by
        refine Nat.mul_le_mul_right g (Nat.lt_of_mul_lt_mul_left (a := g) ?_)
        rw [Nat.mul_add_one, Nat.mul_comm]; exact hlt
      rw [Nat.add_mul, Nat.mul_comm q] at hq; omega

/-- Otherwise no piece reaches the end. -/
theorem addr_end {g r : Nat} (hg : 0 < g) (h : ¬ (r ≤ g ∨ g ∣ r)) (a : Nat) {k : Nat}
    (hk : k < segCount g r) : addr g r a k + min (r - k * g) g < a + r := by
  cases k with
  | zero => rw [addr]; omega
  | succ k =>
    have hlt := mul_lt_of_lt_segCount hg hk
    have hne : r ≠ (k + 2) * g := fun hr => h (Or.inr ⟨k + 2, hr.trans (Nat.mul_comm _ _)⟩)
    rw [addr]
    rw [Nat.add_one_mul] at *
    rw [Nat.add_mul] at hne; omega

variable {a : Nat} {s : UInt32} {d : UInt16}

@[simp] theorem length_pieces : (pieces dma skb info r a s d).length = segCount skb.gso_size r := by
  simp [pieces]

theorem pieces_get {k : Nat} (h : k < (pieces dma skb info r a s d).length) :
    (pieces dma skb info r a s d)[k] =
      oneFrag dma skb info (r - k * skb.gso_size) (addr skb.gso_size r a k)
        (s + .ofNat (k * skb.gso_size)) (d + .ofNat k) := by simp [pieces]

theorem pieces_bytes (hg : skb.gso_size < 2 ^ 16) :
    (pieces dma skb info r a s d).flatMap TsoSeg.bytes =
      (range (segCount skb.gso_size r)).flatMap fun k =>
        range' (addr skb.gso_size r a k) (min (r - k * skb.gso_size) skb.gso_size) := by
  rw [pieces, flatMap_map]; exact flatMap_congr fun k _ => oneFrag_bytes hg _ _ _ _

/-- The bytes are those of the payload only if nothing is in page fragments. -/
theorem frags_eq_nil (skb : Jumbo) (h : (range (segCount skb.gso_size skb.rest)).flatMap (fun k =>
      range' (addr skb.gso_size skb.rest (skb.data + skb.eit) k)
        (min (skb.rest - k * skb.gso_size) skb.gso_size)) = skb.payload) : skb.frags = [] := by
  have hl := congrArg length h
  have hr := congrArg length (flatMap_pieces (a := 0) (le_segCount_mul skb.gso_pos skb.rest))
  simp only [Skb.payload, length_append, length_flatMap, length_range'] at hl hr
  cases hf : skb.frags with
  | nil => rfl
  | cons f fs =>
    have hpos := skb.frags_pos f (hf ▸ mem_cons_self)
    rw [hf, map_cons, sum_cons] at hl; omega

/-- **Only a payload in the linear part is segmented right**, in one piece or in equal ones, and
without FIN. -/
theorem tso_info_right_iff (dma : Nat → Nat) (skb : Jumbo) :
    (∃ segs, cdf_nbuf_get_tso_info dma skb.toSkb (cdf_nbuf_get_tso_num_seg skb) = some segs ∧
      Segmented dma skb.toSkb (cdf_nbuf_get_tso_num_seg skb) segs) ↔
    skb.frags = [] ∧ (skb.rest ≤ skb.gso_size ∨ skb.gso_size ∣ skb.rest) ∧ skb.fin = false ∧
      skb.ip_hdrlen + skb.tcp_hdrlen + min skb.rest skb.gso_size < 2 ^ 16 := by
  obtain ⟨info, hlen, heq⟩ := tso_info_eq dma skb
  rw [heq]
  have hg := skb.gso_pos
  have hg' := skb.gso_lt
  have hone : 0 < segCount skb.gso_size skb.rest := Nat.succ_pos _
  constructor
  · rintro ⟨segs, hsegs, h⟩
    cases hsegs
    have hbytes := h.bytes
    rw [pieces_bytes hg'] at hbytes
    have hfrags := frags_eq_nil skb hbytes
    refine ⟨hfrags, ?_, ?_, ?_⟩
    · -- the last byte is in none of the pieces
      by_contra hne
      rw [Skb.payload, hfrags, flatMap_nil, append_nil] at hbytes
      have hmem : skb.data + skb.eit + skb.rest - 1 ∈ range' (skb.data + skb.eit) skb.rest := by
        rw [mem_range'_1]; omega
      rw [← hbytes, mem_flatMap] at hmem
      obtain ⟨k, hlt, hk⟩ := hmem
      have hend := addr_end hg hne (skb.data + skb.eit) (mem_range.mp hlt)
      rw [mem_range'_1] at hk; omega
    · have hlast := h.fin (segCount skb.gso_size skb.rest - 1)
        (by rw [length_pieces]; exact Nat.sub_lt hone Nat.one_pos)
      rw [pieces_get, ← h.count, length_pieces, Nat.sub_add_cancel hone, decide_eq_true rfl,
        Bool.and_true] at hlast
      exact hlast.symm
    · have hhdr := h.ip_len _ (getElem_mem (by rw [length_pieces]; exact hone))
      rw [pieces_get, oneFrag_bytes hg', length_range', Nat.zero_mul, Nat.sub_zero] at hhdr
      change (info.ip_tcp_hdr_len + min (skb.rest - 0) skb.gso_size % 2 ^ 16) % 2 ^ 16 = _ at hhdr
      omega
  · rintro ⟨hfrags, hpieces, hfin, hhdr⟩
    have hnum : cdf_nbuf_get_tso_num_seg skb = segCount skb.gso_size skb.rest := by
      rw [num_seg_eq, Skb.len, hfrags]; rfl
    refine ⟨_, rfl, length_pieces.trans hnum.symm, ?_, ?_, ?_, ?_, ?_, ?_, ?_⟩
    · rw [pieces_bytes hg', Skb.payload, hfrags, flatMap_nil, append_nil,
        ← flatMap_pieces (le_segCount_mul hg skb.rest)]
      exact flatMap_congr fun k hk => by rw [addr_eq hg hpieces _ (mem_range.mp hk)]
    · intro seg hseg f hf
      obtain ⟨k, -, rfl⟩ := mem_map.mp hseg
      rw [oneFrag_payload, mem_singleton] at hf
      subst hf
      simp only [mkFrag]
      omega
    · intro k h hk
      have hlt := mul_lt_of_lt_segCount hg (hnum ▸ hk)
      rw [pieces_get, oneFrag_bytes hg', length_range']
      rw [Nat.add_one_mul] at hlt; omega
    · intro k h
      rw [pieces_get]; rfl
    · intro k h
      rw [pieces_get]; rfl
    · intro seg hseg
      obtain ⟨k, -, rfl⟩ := mem_map.mp hseg
      rw [oneFrag_bytes hg', length_range']
      change (info.ip_tcp_hdr_len + min (skb.rest - _) skb.gso_size % 2 ^ 16) % 2 ^ 16 = _
      omega
    · intro k h
      rw [pieces_get, hfin]; rfl

/-- A header of 54 bytes, and 3000 bytes of payload in a page fragment. -/
def pagedJumbo : Jumbo where
  data := 0
  headlen := 54
  frags := [(4096, 3000)]
  gso_size := 1448
  l2_hdrlen := 14
  ip_hdrlen := 20
  tcp_hdrlen := 20
  ethproto := ETH_P_IP
  ip_protocol := IPPROTO_TCP
  ip_id := 0
  seq := 0
  fin := false
  flags := ⟨false, false, false, true, false, false, false⟩
  tcp := Or.inl ⟨rfl, rfl⟩
  gso_pos := by decide
  gso_lt := by decide
  headers := by decide
  frags_pos := by decide
  payload_pos := by decide
  len_lt := by decide

/-- One segment without payload is made of it, and not three. -/
theorem pagedJumbo_not_segmented :
    ¬ ∃ segs, cdf_nbuf_get_tso_info id pagedJumbo.toSkb (cdf_nbuf_get_tso_num_seg pagedJumbo) =
        some segs ∧
      Segmented id pagedJumbo.toSkb (cdf_nbuf_get_tso_num_seg pagedJumbo) segs := by
  obtain ⟨info, -, heq⟩ := tso_info_eq id pagedJumbo
  rw [heq]
  rintro ⟨segs, hsegs, h⟩
  cases hsegs
  have hcount := h.count
  rw [length_pieces, num_seg_eq] at hcount; exact absurd hcount (by decide)

end Qcacld.TsoSegment
