/-
The packet log: records of any size in a buffer that is written round and round.

A payload that does not fit before the end of the buffer goes to its start, while the header stays
where it is; a header that does not fit goes to the start with its payload.
-/
import Mathlib.Data.UInt

set_option autoImplicit false

namespace Qcacld.Pktlog

/-! ## The buffer -/

/-- The build, which decides on the size of a header, and the size of `log_data`. -/
structure Cfg where
  heliumplus : Bool
  buf_size : Nat

/-- `sizeof(struct ath_pktlog_hdr)`. -/
def Cfg.hdrSize (c : Cfg) : Nat := if c.heliumplus then 16 else 12

/-- `struct ath_pktlog_arg`, with the bytes that the caller copies to `buf` afterwards; their number
is `log_size`. -/
structure Arg where
  flags : UInt32
  missed_cnt : UInt16
  log_type : UInt16
  timestamp : UInt16
  type_specific_data : UInt32
  payload : List UInt8

def Arg.log_size (a : Arg) : Nat := a.payload.length

def bytes16 (v : UInt16) : List UInt8 := [v.toUInt8, (v >>> 8).toUInt8]

def bytes32 (v : UInt32) : List UInt8 := bytes16 v.toUInt16 ++ bytes16 (v >>> 16).toUInt16

structure BufHdr where
  magic_num : UInt32
  version : UInt32

def BufHdr.bytes (b : BufHdr) : List UInt8 := bytes32 b.magic_num ++ bytes32 b.version

def Arg.hdr (c : Cfg) (a : Arg) : List UInt8 :=
  bytes16 a.flags.toUInt16 ++ bytes16 a.missed_cnt ++ bytes16 a.log_type ++
    bytes16 (UInt16.ofNat a.log_size) ++ bytes32 a.timestamp.toUInt32 ++
    if c.heliumplus then bytes32 a.type_specific_data else []

/-- `struct ath_pktlog_buf`; `rd_offset` is `none` for -1. -/
structure LogBuf where
  log_data : Nat → UInt8
  rd_offset : Option Nat
  wr_offset : Nat
  bytes_written : Nat
  msg_index : Nat
  offset : Nat

/-- The offset that the log is read from when it is sent to the user. -/
def PKTLOG_READ_OFFSET : Nat := 8

/-- The log as `pktlog_enable` sets it up, in a buffer with any content. -/
def pktlog_enable (mem : Nat → UInt8) : LogBuf where
  log_data := mem
  rd_offset := none
  wr_offset := 0
  bytes_written := 0
  msg_index := 1
  offset := PKTLOG_READ_OFFSET

def blit (mem : Nat → UInt8) (p : Nat) (bytes : List UInt8) : Nat → UInt8 := fun i =>
  if p ≤ i then bytes.getD (i - p) (mem i) else mem i

def slice (mem : Nat → UInt8) (p n : Nat) : List UInt8 := (List.range' p n).map mem

def sizeAt (mem : Nat → UInt8) (rd : Nat) : Nat :=
  (mem (rd + 6)).toNat + 256 * (mem (rd + 7)).toNat

/-- `PKTLOG_MOV_RD_IDX`; the comparison at its end is one of unsigned numbers. -/
def movRdIdx (c : Cfg) (mem : Nat → UInt8) (rd : Nat) : Nat :=
  let size := sizeAt mem rd
  let rd := if rd + c.hdrSize + size ≤ c.buf_size then rd + c.hdrSize + size else size
  if c.hdrSize ≤ c.buf_size - rd ∨ c.buf_size < rd then rd else 0

/-! ## Writing -/

/-- A loop that moves `rd_offset` as long as it is in the way, for at most as many passes as are
given. -/
def movWhile (c : Cfg) (mem : Nat → UInt8) (inTheWay : Nat → Bool) : Nat → Nat → Option Nat
  | passes, rd =>
    if inTheWay rd then
      match passes with
      | 0 => none
      | passes + 1 => movWhile c mem inTheWay passes (movRdIdx c mem rd)
    else some rd

def startRdIdx (c : Cfg) (s : LogBuf) : Nat :=
  match s.rd_offset with
  | none => s.wr_offset
  | some rd =>
    if s.wr_offset ≤ rd ∧ rd < s.wr_offset + c.hdrSize then movRdIdx c s.log_data rd else rd

/-- The buffer, and the place for the payload. -/
def pktlog_getbuf_intsafe (c : Cfg) (s : LogBuf) (a : Arg) : Option (LogBuf × Nat) :=
  let rd := startRdIdx c s
  let mem := blit s.log_data s.wr_offset (a.hdr c)
  let cur := s.wr_offset + c.hdrSize
  let folds := decide (c.buf_size - cur < a.log_size)
  (if folds then movWhile c mem (fun rd => cur ≤ rd ∧ rd < c.buf_size) c.buf_size rd
    else some rd).bind fun rd =>
  let cur := if folds then 0 else cur
  (movWhile c mem (fun rd => cur ≤ rd ∧ rd < cur + a.log_size) c.buf_size rd).map fun rd =>
  let wr := cur + a.log_size
  ({ s with
      log_data := mem
      rd_offset := some rd
      wr_offset := if c.hdrSize ≤ c.buf_size - wr then wr else 0 }, cur)

def logRecord (c : Cfg) (s : LogBuf) (a : Arg) : Option LogBuf :=
  (pktlog_getbuf_intsafe c s a).map fun r =>
    { r.1 with log_data := blit r.1.log_data r.2 a.payload }

def logAll (c : Cfg) : LogBuf → List Arg → Option LogBuf
  | s, [] => some s
  | s, a :: as => (logRecord c s a).bind fun s => logAll c s as

/-! ## Reading -/

/-- `fold_offset` after a record, whose payload would begin at `log_data_offset`; `cur` is the next
record. -/
def foldOffset (c : Cfg) (wr log_data_offset size cur : Nat) (fold : Option Nat) : Option Nat :=
  let fold :=
    if fold = none ∧ c.buf_size - log_data_offset ≤ size then some (log_data_offset - 1) else fold
  if fold = none ∧ cur = 0 ∧ cur ≠ wr then some (log_data_offset + size - 1) else fold

/-- The `do` loop of the readers, with `fold_offset` and `end_offset`. -/
def findEnd (c : Cfg) (mem : Nat → UInt8) (wr : Nat) :
    Nat → Nat → Option Nat → Option (Option Nat × Nat)
  | 0, _, _ => none
  | passes + 1, cur, fold =>
    let log_data_offset := cur + c.hdrSize
    let size := sizeAt mem cur
    let cur := movRdIdx c mem cur
    let fold := foldOffset c wr log_data_offset size cur fold
    if cur = wr then some (fold, log_data_offset + size - 1)
    else findEnd c mem wr passes cur fold

/-- What the readers copy out of `log_data`, when `ret` bytes have been copied from the header of
the buffer and `rem_len` are left. -/
def copyLog (mem : Nat → UInt8) (start : Nat) (fold : Option Nat) (stop ppos ret rem_len : Nat) :
    List UInt8 :=
  let ppos_data := ppos + ret - 8 + start
  match fold with
  | none =>
    if stop < ppos_data then [] else slice mem ppos_data (min rem_len (stop - ppos_data + 1))
  | some fold =>
    let first :=
      if ppos_data ≤ fold then slice mem ppos_data (min rem_len (fold - ppos_data + 1)) else []
    let rem_len := rem_len - first.length
    if rem_len = 0 then first
    else
      let ppos_data := ppos + (ret + first.length) - (8 + (fold - start + 1))
      if ppos_data ≤ stop then
        first ++ slice mem ppos_data (min rem_len (stop - ppos_data + 1))
      else first

/-- The bytes that `pktlog_read` and `pktlog_read_proc_entry` copy; `bufhdr` are the eight bytes of
the header of the buffer. -/
def readBytes (c : Cfg) (bufhdr : List UInt8) (s : LogBuf) (nbytes ppos : Nat) :
    Option (List UInt8) :=
  let hdr := if ppos < 8 then (bufhdr.drop ppos).take (min (8 - ppos) nbytes) else []
  let rem_len := nbytes - hdr.length
  match s.rd_offset with
  | none => some hdr
  | some start =>
    if rem_len = 0 then some hdr
    else (findEnd c s.log_data s.wr_offset c.buf_size start none).map fun r =>
      hdr ++ copyLog s.log_data start r.1 r.2 ppos hdr.length rem_len

def pktlog_read (c : Cfg) (bufhdr : List UInt8) (s : LogBuf) (nbytes ppos : Nat) :
    Option (List UInt8 × LogBuf) :=
  (readBytes c bufhdr s nbytes ppos).map fun ret => (ret, s)

/-- `pktlog_read_proc_entry`, with `read_complete`. -/
def pktlog_read_proc_entry (c : Cfg) (bufhdr : List UInt8) (s : LogBuf) (nbytes ppos : Nat) :
    Option (List UInt8 × LogBuf × Bool) :=
  (readBytes c bufhdr s nbytes ppos).map fun ret =>
    if ret.length = 0 then
      (ret, { s with
        rd_offset := none
        wr_offset := 0
        bytes_written := 0
        offset := PKTLOG_READ_OFFSET }, true)
    else (ret, s, false)

/-! ## Sending -/

def VOS_LOG_PKT_LOG_SIZE : Nat := 2048
def HOST_LOG_PKT_LOG_THRESHOLD : Nat := 40960

def wholeRecords (c : Cfg) (ret : List UInt8) : Nat → Nat → Nat
  | 0, index => index
  | passes + 1, index =>
    if ret.length - index < c.hdrSize then index
    else
      let size := (ret.getD (index + 6) 0).toNat + 256 * (ret.getD (index + 7) 0).toNat
      if ret.length - index < size + c.hdrSize then index
      else wholeRecords c ret passes (index + (size + c.hdrSize))

/-- How `pktlog_send_per_pkt_stats_to_user` ends. -/
inductive SendEnd where
  | invalid
  | noMemory
  | complete
  | cutOff

/-- The `do` loop of `pktlog_send_per_pkt_stats_to_user`, with the reports it sends; `alloc` says
whether there is memory for the report of each pass. -/
def sendLoop (c : Cfg) (bufhdr : List UInt8) (alloc : Nat → Bool) :
    Nat → LogBuf → Nat → List (List UInt8) → Option (LogBuf × List (List UInt8) × SendEnd)
  | 0, _, _, _ => none
  | passes + 1, s, num_bytes_read, reports =>
    if alloc passes then
      (pktlog_read_proc_entry c bufhdr s VOS_LOG_PKT_LOG_SIZE s.offset).bind
        fun (ret, s', read_complete) =>
          let whole := wholeRecords c ret (ret.length + 1) 0
          -- `pktlog_read_proc_entry` has moved the offset, or set it back
          let s' := if ret.length = 0 then s' else { s' with offset := s.offset + whole }
          let (s', reports) :=
            if whole = 0 then (s', reports)
            else ({ s' with msg_index := s'.msg_index + 1 }, reports ++ [ret.take whole])
          let num_bytes_read := num_bytes_read + whole
          if HOST_LOG_PKT_LOG_THRESHOLD < num_bytes_read then some (s', reports, .cutOff)
          else if read_complete then some (s', reports, .complete)
          else sendLoop c bufhdr alloc passes s' num_bytes_read reports
    else some (s, reports, .noMemory)

def pktlog_send_per_pkt_stats_to_user (c : Cfg) (bufhdr : List UInt8) (alloc : Nat → Bool)
    (passes : Nat) (s : LogBuf) : Option (LogBuf × List (List UInt8) × SendEnd) :=
  if s.rd_offset = none then some (s, [], .invalid)
  else sendLoop c bufhdr alloc passes s 0 []

open List

/-! What lies in the log: the records that were written last, one after the other. Their addresses
are counted through two rounds of the buffer (`phys`). -/

/-! ## Memory -/

@[simp] theorem length_slice (mem : Nat → UInt8) (p n : Nat) : (slice mem p n).length = n := by
  simp [slice]

theorem slice_add (mem : Nat → UInt8) (p m n : Nat) :
    slice mem p (m + n) = slice mem p m ++ slice mem (p + m) n := by
  rw [slice, slice, slice, ← map_append, List.range'_append_1]

theorem slice_congr {mem mem' : Nat → UInt8} {p n : Nat}
    (h : ∀ i, p ≤ i → i < p + n → mem' i = mem i) : slice mem' p n = slice mem p n := by
  apply map_congr_left
  intro i hi
  rw [mem_range'_1] at hi; exact h i hi.1 hi.2

theorem getElem?_slice (mem : Nat → UInt8) (p : Nat) {n i : Nat} (hi : i < n) :
    (slice mem p n)[i]? = some (mem (p + i)) := by simp [slice, hi]

theorem slice_take (mem : Nat → UInt8) (p n k : Nat) :
    (slice mem p n).take k = slice mem p (min k n) := by
  rw [slice, slice, ← map_take]
  rcases Nat.le_total n k with h | h
  · rw [take_range'_of_length_le h, Nat.min_eq_right h]
  · rw [take_range'_of_length_ge h, Nat.min_eq_left h]

theorem blit_outside (mem : Nat → UInt8) (p : Nat) (bytes : List UInt8) {i : Nat}
    (h : i < p ∨ p + bytes.length ≤ i) : blit mem p bytes i = mem i := by
  unfold blit
  split
  · rw [getD_eq_getElem?_getD, getElem?_eq_none (by omega)]; rfl
  · rfl

theorem slice_blit_outside (mem : Nat → UInt8) {p q n : Nat} (bytes : List UInt8)
    (h : q + n ≤ p ∨ p + bytes.length ≤ q) :
    slice (blit mem p bytes) q n = slice mem q n :=
  slice_congr fun _ _ _ => blit_outside mem p bytes (by omega)

theorem slice_blit (mem : Nat → UInt8) (p : Nat) (bytes : List UInt8) :
    slice (blit mem p bytes) p bytes.length = bytes := by
  apply ext_getElem?
  intro i
  by_cases hi : i < bytes.length
  · rw [getElem?_slice _ _ hi, getElem?_eq_getElem hi, blit, if_pos (by omega),
      Nat.add_sub_cancel_left, getD_eq_getElem?_getD, getElem?_eq_getElem hi]
    rfl
  · rw [getElem?_eq_none (by rw [length_slice]; omega), getElem?_eq_none (by omega)]

/-! ## Records -/

variable (c : Cfg)

theorem hdrSize_bounds : 12 ≤ c.hdrSize ∧ c.hdrSize ≤ 16 := by
  unfold Cfg.hdrSize
  split <;> omega

theorem length_hdr (a : Arg) : (a.hdr c).length = c.hdrSize := by
  unfold Arg.hdr Cfg.hdrSize
  split <;> rfl

/-- A record of less than 64 KiB that takes at most half of the buffer. -/
structure Record (c : Cfg) where
  arg : Arg
  size_lt : arg.log_size < 2 ^ 16
  fits : 2 * (c.hdrSize + arg.log_size) ≤ c.buf_size

variable {c}

def Record.size (r : Record c) : Nat := r.arg.log_size

theorem Record.fits' (r : Record c) : 2 * (c.hdrSize + r.size) ≤ c.buf_size := r.fits

def Record.bytes (r : Record c) : List UInt8 := r.arg.hdr c ++ r.arg.payload

@[simp] theorem Record.length_bytes (r : Record c) : r.bytes.length = c.hdrSize + r.size := by
  rw [Record.bytes, length_append, length_hdr]; rfl

theorem bytes16_size (n : Nat) (hn : n < 2 ^ 16) :
    ((UInt16.ofNat n).toUInt8).toNat + 256 * ((UInt16.ofNat n >>> 8).toUInt8).toNat = n := by
  simp only [UInt16.toNat_toUInt8, UInt16.toNat_shiftRight, UInt16.toNat_ofNat', UInt16.reduceToNat,
    Nat.reduceMod, Nat.shiftRight_eq_div_pow]
  omega

theorem sizeAt_of_slice {mem : Nat → UInt8} {p : Nat} (r : Record c)
    (h : slice mem p c.hdrSize = r.arg.hdr c) : sizeAt mem p = r.size := by
  have hH := hdrSize_bounds c
  have h6 : mem (p + 6) = (UInt16.ofNat r.size).toUInt8 := by
    have hget := getElem?_slice mem p (show 6 < c.hdrSize by omega)
    rw [h] at hget; exact (Option.some.inj hget).symm
  have h7 : mem (p + 7) = (UInt16.ofNat r.size >>> 8).toUInt8 := by
    have hget := getElem?_slice mem p (show 7 < c.hdrSize by omega)
    rw [h] at hget; exact (Option.some.inj hget).symm
  rw [sizeAt, h6, h7]; exact bytes16_size r.size r.size_lt

/-! ## Two rounds

The writer is in the second of two rounds through the buffer, and what it has not yet written over
is in the first or the second one. An address of both rounds together is a number below twice the
size of the buffer. -/

section Rounds

variable (c)

def phys (x : Nat) : Nat := if x < c.buf_size then x else x - c.buf_size

def lapEnd (x : Nat) : Nat := if x < c.buf_size then c.buf_size else 2 * c.buf_size

def payAt (x size : Nat) : Nat :=
  if x + c.hdrSize + size ≤ lapEnd c x then x + c.hdrSize else lapEnd c x

def nextAt (x : Nat) : Nat := if x + c.hdrSize ≤ lapEnd c x then x else lapEnd c x

variable {c}

theorem phys_lt {x : Nat} (h : x < c.buf_size) : phys c x = x := if_pos h

theorem phys_ge {x : Nat} (h : c.buf_size ≤ x) : phys c x = x - c.buf_size :=
  if_neg (Nat.not_lt.mpr h)

theorem phys_cases (x : Nat) :
    x < c.buf_size ∧ phys c x = x ∨ c.buf_size ≤ x ∧ phys c x = x - c.buf_size := by
  unfold phys
  split <;> omega

theorem lapEnd_cases (x : Nat) : x < c.buf_size ∧ lapEnd c x = c.buf_size ∨
    c.buf_size ≤ x ∧ lapEnd c x = 2 * c.buf_size := by
  unfold lapEnd
  split <;> omega

theorem payAt_cases (x size : Nat) :
    x + c.hdrSize + size ≤ lapEnd c x ∧ payAt c x size = x + c.hdrSize ∨
      lapEnd c x < x + c.hdrSize + size ∧ payAt c x size = lapEnd c x := by
  unfold payAt
  split <;> omega

theorem nextAt_cases (x : Nat) : x + c.hdrSize ≤ lapEnd c x ∧ nextAt c x = x ∨
    lapEnd c x < x + c.hdrSize ∧ nextAt c x = lapEnd c x := by
  unfold nextAt
  split <;> omega

theorem phys_ne {x y : Nat} (hxy : x < y) (hy : y < x + c.buf_size) : phys c x ≠ phys c y := by
  have hpx := phys_cases (c := c) x
  have hpy := phys_cases (c := c) y
  omega

theorem phys_add {x i n : Nat} (hx : x + n ≤ lapEnd c x) (hi : i < n) :
    phys c x + i = phys c (x + i) := by
  have hl := lapEnd_cases (c := c) x
  have hpx := phys_cases (c := c) x
  have hpi := phys_cases (c := c) (x + i)
  omega

theorem slice_phys_congr {mem mem' : Nat → UInt8} {x n : Nat} (hx : x + n ≤ lapEnd c x)
    (h : ∀ y, x ≤ y → y < x + n → mem' (phys c y) = mem (phys c y)) :
    slice mem' (phys c x) n = slice mem (phys c x) n := by
  apply slice_congr
  intro i hi1 hi2
  have hadd := phys_add hx (show i - phys c x < n by omega)
  have hi : phys c x + (i - phys c x) = i := by omega
  rw [hi] at hadd
  rw [hadd]; exact h _ (by omega) (by omega)

end Rounds

/-! ## Records in the buffer -/

def Laid (mem : Nat → UInt8) : Nat → List (Record c) → Nat → Prop
  | v, [], w => v = w
  | v, r :: rs, w =>
    v + c.hdrSize ≤ lapEnd c v ∧ payAt c v r.size + r.size ≤ 2 * c.buf_size ∧
      slice mem (phys c v) c.hdrSize = r.arg.hdr c ∧
      slice mem (phys c (payAt c v r.size)) r.size = r.arg.payload ∧
      Laid mem (nextAt c (payAt c v r.size + r.size)) rs w

section Laid

variable {mem : Nat → UInt8} {v w : Nat} {rs : List (Record c)}

theorem payAt_bounds (r : Record c) (hv : v + c.hdrSize ≤ lapEnd c v)
    (h2 : payAt c v r.size + r.size ≤ 2 * c.buf_size) :
    v + c.hdrSize ≤ payAt c v r.size ∧
      payAt c v r.size + r.size ≤ lapEnd c (payAt c v r.size) ∧
      payAt c v r.size + r.size ≤ nextAt c (payAt c v r.size + r.size) := by
  have hl := lapEnd_cases (c := c) v
  have hp := payAt_cases (c := c) v r.size
  have hlp := lapEnd_cases (c := c) (payAt c v r.size)
  have hls := lapEnd_cases (c := c) (payAt c v r.size + r.size)
  have hn := nextAt_cases (c := c) (payAt c v r.size + r.size)
  omega

theorem Laid.le (h : Laid mem v rs w) : v + rs.length ≤ w := by
  induction rs generalizing v with
  | nil => exact Nat.le_of_eq h
  | cons r rs ih =>
    obtain ⟨hv, h2, -, -, hrest⟩ := h
    have hb := payAt_bounds r hv h2
    have hH := hdrSize_bounds c
    have hle := ih hrest
    rw [length_cons]; omega

theorem Laid.frame {mem' : Nat → UInt8} (h : Laid mem v rs w)
    (hmem : ∀ x, v ≤ x → x < w → mem' (phys c x) = mem (phys c x)) : Laid mem' v rs w := by
  induction rs generalizing v with
  | nil => exact h
  | cons r rs ih =>
    obtain ⟨hv, h2, hhdr, hpay, hrest⟩ := h
    have hb := payAt_bounds r hv h2
    have hle := hrest.le
    refine ⟨hv, h2, ?_, ?_, ih hrest fun x h1 h3 => hmem x (by omega) h3⟩
    · rw [← hhdr]; exact slice_phys_congr hv fun y h1 h3 => hmem y h1 (by omega)
    · rw [← hpay]; exact slice_phys_congr hb.2.1 fun y h1 h3 => hmem y (by omega) (by omega)

theorem Laid.append (h : Laid mem v rs w) (r : Record c) (hw : w + c.hdrSize ≤ lapEnd c w)
    (h2 : payAt c w r.size + r.size ≤ 2 * c.buf_size)
    (hhdr : slice mem (phys c w) c.hdrSize = r.arg.hdr c)
    (hpay : slice mem (phys c (payAt c w r.size)) r.size = r.arg.payload) :
    Laid mem v (rs ++ [r]) (nextAt c (payAt c w r.size + r.size)) := by
  induction rs generalizing v with
  | nil =>
    have hvw : v = w := h
    subst hvw; exact ⟨hw, h2, hhdr, hpay, rfl⟩
  | cons r' rs ih =>
    obtain ⟨hv, h2', hhdr', hpay', hrest⟩ := h
    exact ⟨hv, h2', hhdr', hpay', ih hrest⟩

theorem Laid.mov {r : Record c} (h : Laid mem v (r :: rs) w) (hw : w < 2 * c.buf_size) :
    movRdIdx c mem (phys c v) = phys c (nextAt c (payAt c v r.size + r.size)) := by
  obtain ⟨hv, h2, hhdr, -, hrest⟩ := h
  have hle := hrest.le
  have hH := hdrSize_bounds c
  have hl := lapEnd_cases (c := c) v
  have hp := payAt_cases (c := c) v r.size
  have hls := lapEnd_cases (c := c) (payAt c v r.size + r.size)
  have hn := nextAt_cases (c := c) (payAt c v r.size + r.size)
  have hpv := phys_cases (c := c) v
  have hpn := phys_cases (c := c) (nextAt c (payAt c v r.size + r.size))
  rw [movRdIdx, sizeAt_of_slice r hhdr]
  split <;> split <;> omega

theorem Laid.rebase (h : Laid mem v rs w) (hv : c.buf_size ≤ v) (hw : w ≤ 2 * c.buf_size) :
    Laid mem (v - c.buf_size) rs (w - c.buf_size) := by
  induction rs generalizing v with
  | nil =>
    have hvw : v = w := h
    subst hvw; exact rfl
  | cons r rs ih =>
    obtain ⟨hlap, h2, hhdr, hpay, hrest⟩ := h
    have hH := hdrSize_bounds c
    have hl := lapEnd_cases (c := c) v
    have hp := payAt_cases (c := c) v r.size
    have hls := lapEnd_cases (c := c) (payAt c v r.size + r.size)
    have hn := nextAt_cases (c := c) (payAt c v r.size + r.size)
    have hl' := lapEnd_cases (c := c) (v - c.buf_size)
    have hp' := payAt_cases (c := c) (v - c.buf_size) r.size
    have hpay' : payAt c (v - c.buf_size) r.size = payAt c v r.size - c.buf_size := by omega
    have hls' := lapEnd_cases (c := c) (payAt c v r.size - c.buf_size + r.size)
    have hn' := nextAt_cases (c := c) (payAt c v r.size - c.buf_size + r.size)
    have hnext : nextAt c (payAt c v r.size - c.buf_size + r.size) =
        nextAt c (payAt c v r.size + r.size) - c.buf_size := by omega
    have hphys (x : Nat) (h1 : c.buf_size ≤ x) (h3 : x < 2 * c.buf_size) :
        phys c (x - c.buf_size) = phys c x := by rw [phys_ge h1, phys_lt (by omega)]
    refine ⟨by omega, by omega, ?_, ?_, ?_⟩
    · rw [hphys v hv (by omega)]; exact hhdr
    · rw [hpay']
      rcases Nat.eq_zero_or_pos r.size with h0 | h0
      · rw [h0] at hpay ⊢
        exact hpay
      · rw [hphys _ (by omega) (by omega)]; exact hpay
    · rw [hpay', hnext]; exact ih hrest (by omega)

end Laid

end Qcacld.Pktlog
