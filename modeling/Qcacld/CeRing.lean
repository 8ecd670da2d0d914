/-
The rings of a copy engine, of `ce_service.c`.

A destination descriptor is done when its `nbytes` is not 0. The accesses to the target do not fail:
the platforms built here do not put it to sleep. The workaround of `war_ce_src_ring_write_idx_set`
is off, and the register is written. The host is little endian and the build is the one with
`QCA_WIFI_3_0`, with 37 bit addresses. `posted` and `returned`, and for the source ring `poster` and
`unread`, are a record of what has happened that no function reads.
-/
import Qcacld.Lib.Run
import Mathlib.Data.Nat.Bitwise
import Qcacld.Lib.Fifo

set_option autoImplicit false

namespace Qcacld.CeRing

open Lib Function

section

/-! ## Indices -/

def CE_RING_DELTA (nentries_mask fromidx : Nat) (toidx : Int) : Nat :=
  ((toidx - fromidx) % 2 ^ 32).toNat &&& nentries_mask

def CE_RING_IDX_INCR (nentries_mask idx : Nat) : Nat := (idx + 1) &&& nentries_mask

inductive Status where
  | success
  | e_failure
  | e_resources
  | enomem

/-! ## The source ring -/

def CE_SEND_FLAG_SWAP_DISABLE : Nat := 1
def CE_SEND_FLAG_GATHER : Nat := 0x00010000
def CE_ATTR_BYTE_SWAP_DATA : Nat := 0x02
def CE_SENDLIST_ITEM_CTXT : Nat := 0xcecebeef
def CE_SENDLIST_ITEMS_MAX : Nat := 12

structure SrcDesc where
  buffer_addr : Nat
  buffer_addr_hi : Nat
  byte_swap : Bool
  gather : Bool
  nbytes : Nat
  meta_data : Nat
  toeplitz_hash_result : Nat
  deriving Inhabited

/-- What is posted and what a completion returns: the context with the data of the
descriptor. -/
structure Transfer where
  context : Nat
  buffer : Nat
  nbytes : Nat
  transfer_id : Nat
  deriving DecidableEq

def HIF_CE_DESC_ADDR_TO_DMA (buffer_addr buffer_addr_hi : Nat) : Nat :=
  buffer_addr + (buffer_addr_hi &&& 0x1F) <<< 32

def SrcDesc.transfer (desc : SrcDesc) (context : Nat) : Transfer where
  context := context
  buffer := HIF_CE_DESC_ADDR_TO_DMA desc.buffer_addr desc.buffer_addr_hi
  nbytes := desc.nbytes
  transfer_id := desc.meta_data

/-- The two ways to post to a source ring: `ce_send` and `ce_send_fast`. -/
inductive Poster where
  | send
  | fast
  deriving DecidableEq

structure Posted where
  poster : Poster
  transfer : Transfer
  deriving DecidableEq

/-- `read_index` and `write_reg` are the registers of the engine. `unread` has the slots whose
descriptor the hardware has not been through since it was written. -/
structure Src where
  attr_flags : Nat
  nentries_mask : Nat
  sw_index : Nat
  write_index : Nat
  hw_index : Nat
  per_transfer_context : Nat → Nat
  shadow_base : Nat → SrcDesc
  base_addr_owner_space : Nat → SrcDesc
  read_index : Nat
  write_reg : Nat
  poster : Nat → Poster
  unread : Nat → Bool
  posted : List Posted
  returned : List Posted

structure SendArgs where
  buffer : Nat
  nbytes : Nat
  flags : Nat
  user_flags : Nat
  deriving Repr

/-- The descriptor of a send. `user_flags` go to the word of `buffer_addr_hi`, whose other
bits the host never reads back; lengths and ids keep the 16 bits of their fields. -/
def srcDesc (attr_flags : Nat) (a : SendArgs) (transfer_id : Nat) (old : SrcDesc) : SrcDesc where
  buffer_addr := a.buffer &&& 0xFFFFFFFF
  buffer_addr_hi := (a.user_flags ||| (a.buffer >>> 32) &&& 0x1F) &&& 0x1F
  byte_swap := attr_flags &&& CE_ATTR_BYTE_SWAP_DATA ≠ 0 ∧ a.flags &&& CE_SEND_FLAG_SWAP_DISABLE = 0
  gather := a.flags &&& CE_SEND_FLAG_GATHER ≠ 0
  nbytes := a.nbytes % 2 ^ 16
  meta_data := transfer_id % 2 ^ 16
  toeplitz_hash_result := old.toeplitz_hash_result

def Src.post (r : Src) (poster : Poster) (per_transfer_context : Nat) (desc : SrcDesc) : Src :=
  { r with
    shadow_base := update r.shadow_base r.write_index desc
    base_addr_owner_space := update r.base_addr_owner_space r.write_index desc
    per_transfer_context := update r.per_transfer_context r.write_index per_transfer_context
    write_index := CE_RING_IDX_INCR r.nentries_mask r.write_index
    poster := update r.poster r.write_index poster
    unread := update r.unread r.write_index true
    posted := r.posted ++ [⟨poster, desc.transfer per_transfer_context⟩] }

def Src.writeIdxSet (r : Src) : Src := { r with write_reg := r.write_index }

def ce_send_nolock (r : Src) (per_transfer_context : Nat) (a : SendArgs) (transfer_id : Nat) :
    Status × Src :=
  if CE_RING_DELTA r.nentries_mask r.write_index (r.sw_index - 1) = 0 then (.e_failure, r)
  else
    let desc := srcDesc r.attr_flags a transfer_id (r.shadow_base r.write_index)
    let r := r.post .send per_transfer_context desc
    -- a descriptor that more are to follow is not yet shown to the hardware
    (.success, if desc.gather then r else r.writeIdxSet)

def ce_send := ce_send_nolock

/-- A list of buffers; there is only room for `CE_SENDLIST_ITEMS_MAX`. -/
structure Sendlist where
  items : List SendArgs
  length_le : items.length ≤ CE_SENDLIST_ITEMS_MAX

def SendArgs.gathered (item : SendArgs) : SendArgs :=
  { item with flags := item.flags ||| CE_SEND_FLAG_GATHER }

/-- All but the last item go out gathered and with the context that says so. -/
def sendItems (per_transfer_context transfer_id : Nat) : List SendArgs → Src → Status × Src
  | [], r => (.enomem, r)
  | [item], r => ce_send_nolock r per_transfer_context item transfer_id
  | item :: items, r =>
    sendItems per_transfer_context transfer_id items
      (ce_send_nolock r CE_SENDLIST_ITEM_CTXT item.gathered transfer_id).2

/-- `num_items` is asserted to be positive: with no item the loop bound `num_items - 1` would
be `0xffffffff`. -/
def ce_sendlist_send (r : Src) (per_transfer_context : Nat) (sl : Sendlist) (transfer_id : Nat) :
    Option (Status × Src) :=
  if sl.items.length = 0 then none
  else if CE_RING_DELTA r.nentries_mask r.write_index (r.sw_index - 1) ≥ sl.items.length then
    some (sendItems per_transfer_context transfer_id sl.items r)
  else some (.enomem, r)

/-- Both reaping calls hand back the entry at `sw_index`. -/
def Src.take (r : Src) (t : Transfer) : Src :=
  { r with
    per_transfer_context := update r.per_transfer_context r.sw_index 0
    sw_index := CE_RING_IDX_INCR r.nentries_mask r.sw_index
    returned := r.returned ++ [⟨r.poster r.sw_index, t⟩] }

/-- `sw_idx` and `hw_idx` are set also when nothing is done. -/
structure SendNext where
  sw_idx : Nat
  hw_idx : Nat
  done : Option (Transfer × Nat)

/-- The copy of the hardware's index, read again if the host has caught up with it. -/
def Src.refresh (r : Src) : Src :=
  if r.hw_index = r.sw_index then { r with hw_index := r.read_index } else r

def ce_completed_send_next_nolock (r : Src) : SendNext × Src :=
  let r := r.refresh
  if r.hw_index ≠ r.sw_index ∧ r.hw_index ≠ 0xffffffff then
    let t := (r.shadow_base r.sw_index).transfer (r.per_transfer_context r.sw_index)
    (⟨r.sw_index, r.hw_index,
      some (t, (r.base_addr_owner_space r.sw_index).toeplitz_hash_result)⟩, r.take t)
  else (⟨r.sw_index, r.hw_index, none⟩, r)

def ce_completed_send_next := ce_completed_send_next_nolock

/-- Unlike a completion this reads the descriptor of the hardware's ring. -/
def ce_cancel_send_next (r : Src) : Option (Transfer × Nat) × Src :=
  if r.write_index ≠ r.sw_index then
    let desc := r.base_addr_owner_space r.sw_index
    let t := desc.transfer (r.per_transfer_context r.sw_index)
    (some (t, desc.toeplitz_hash_result), r.take t)
  else (none, r)

def Src.hwRead (r : Src) (hash : Nat) : Option Src :=
  if r.read_index = r.write_reg then none
  else
    some { r with
      base_addr_owner_space := update r.base_addr_owner_space r.read_index
        { r.base_addr_owner_space r.read_index with toeplitz_hash_result := hash }
      unread := update r.unread r.read_index false
      read_index := CE_RING_IDX_INCR r.nentries_mask r.read_index }

inductive SrcOp where
  | send (per_transfer_context : Nat) (a : SendArgs) (transfer_id : Nat)
  | sendlist (per_transfer_context : Nat) (sl : Sendlist) (transfer_id : Nat)
  | completed
  | cancel
  | hwRead (hash : Nat)

def srcStep (r : Src) : SrcOp → Option Src
  | .send ctx a id => some (ce_send r ctx a id).2
  | .sendlist ctx sl id => (ce_sendlist_send r ctx sl id).map Prod.snd
  | .completed => some (ce_completed_send_next r).2
  | .cancel => some (ce_cancel_send_next r).2
  | .hwRead hash => r.hwRead hash

/-! ## The destination ring -/

def CE_RECV_FLAG_SWAPPED : Nat := 1

structure DestDesc where
  buffer_addr : Nat
  buffer_addr_hi : Nat
  nbytes : Nat
  meta_data : Nat
  byte_swap : Bool
  deriving Inhabited

structure RecvBuf where
  context : Nat
  buffer : Nat
  deriving DecidableEq

def DestDesc.recvBuf (desc : DestDesc) (context : Nat) : RecvBuf where
  context := context
  buffer := HIF_CE_DESC_ADDR_TO_DMA desc.buffer_addr desc.buffer_addr_hi

/-- `fastpath` is `ce_is_fastpath_enabled` for an engine of `htt_rx_data`. `consumed` has the
slots that the hardware has filled a buffer of and not yet written the descriptor of. -/
structure Dest where
  fastpath : Bool
  nentries_mask : Nat
  sw_index : Nat
  write_index : Nat
  per_transfer_context : Nat → Nat
  base_addr_owner_space : Nat → DestDesc
  read_index : Nat
  write_reg : Nat
  consumed : List Nat
  posted : List RecvBuf
  returned : List RecvBuf

def destDesc (buffer : Nat) (old : DestDesc) : DestDesc :=
  { old with
    buffer_addr := buffer &&& 0xFFFFFFFF
    buffer_addr_hi := (buffer >>> 32) &&& 0x1F
    nbytes := 0 }

/-- A full ring of a fast path engine takes one more buffer, in the slot that is kept free
otherwise; the hardware is not told of that one. -/
def ce_recv_buf_enqueue (r : Dest) (per_recv_context buffer : Nat) : Status × Dest :=
  if CE_RING_DELTA r.nentries_mask r.write_index (r.sw_index - 1) > 0 ∨ r.fastpath = true then
    let desc := destDesc buffer (r.base_addr_owner_space r.write_index)
    let write_index := CE_RING_IDX_INCR r.nentries_mask r.write_index
    (.success,
      { r with
        base_addr_owner_space := update r.base_addr_owner_space r.write_index desc
        per_transfer_context := update r.per_transfer_context r.write_index per_recv_context
        write_reg := if write_index ≠ r.sw_index then write_index else r.write_reg
        write_index := if write_index ≠ r.sw_index then write_index else r.write_index
        posted := r.posted ++ [desc.recvBuf per_recv_context] })
  else (.e_failure, r)

/-- Both calls that hand back a buffer take the one at `sw_index`; `desc` is what is left of
its descriptor. -/
def Dest.take (r : Dest) (desc : DestDesc) (b : RecvBuf) : Dest :=
  { r with
    base_addr_owner_space := update r.base_addr_owner_space r.sw_index desc
    per_transfer_context := update r.per_transfer_context r.sw_index 0
    sw_index := CE_RING_IDX_INCR r.nentries_mask r.sw_index
    returned := r.returned ++ [b] }

structure RecvNext where
  buf : RecvBuf
  nbytes : Nat
  transfer_id : Nat
  flags : Nat

def ce_completed_recv_next_nolock (r : Dest) : Option RecvNext × Dest :=
  let desc := r.base_addr_owner_space r.sw_index
  if desc.nbytes = 0 then (none, r)
  else
    let b := desc.recvBuf (r.per_transfer_context r.sw_index)
    (some
      { buf := b
        nbytes := desc.nbytes
        transfer_id := desc.meta_data
        flags := if desc.byte_swap then CE_RECV_FLAG_SWAPPED else 0 },
      r.take { desc with nbytes := 0 } b)

def ce_completed_recv_next := ce_completed_recv_next_nolock

/-- The descriptor is left as it is, `nbytes` included. -/
def ce_revoke_recv_next (r : Dest) : Option RecvBuf × Dest :=
  if r.write_index ≠ r.sw_index then
    let desc := r.base_addr_owner_space r.sw_index
    let b := desc.recvBuf (r.per_transfer_context r.sw_index)
    (some b, r.take desc b)
  else (none, r)

def Dest.hwConsume (r : Dest) : Option Dest :=
  if r.read_index = r.write_reg then none
  else
    some { r with
      consumed := r.read_index :: r.consumed
      read_index := CE_RING_IDX_INCR r.nentries_mask r.read_index }

def Dest.hwWrite (r : Dest) (slot nbytes meta_data : Nat) (byte_swap : Bool) : Option Dest :=
  if slot ∈ r.consumed ∧ nbytes ≠ 0 then
    some { r with
      base_addr_owner_space := update r.base_addr_owner_space slot
        { r.base_addr_owner_space slot with
          nbytes := nbytes, meta_data := meta_data, byte_swap := byte_swap }
      consumed := r.consumed.erase slot }
  else none

inductive DestOp where
  | enqueue (per_recv_context buffer : Nat)
  | completed
  | revoke
  | hwConsume
  | hwWrite (slot nbytes meta_data : Nat) (byte_swap : Bool)

def destStep (r : Dest) : DestOp → Option Dest
  | .enqueue ctx buffer => some (ce_recv_buf_enqueue r ctx buffer).2
  | .completed => some (ce_completed_recv_next r).2
  | .revoke => some (ce_revoke_recv_next r).2
  | .hwConsume => r.hwConsume
  | .hwWrite slot nbytes id swap => r.hwWrite slot nbytes id swap

/-! ## The engine -/

structure CE where
  src : Src
  dest : Dest

inductive Op where
  | src (op : SrcOp)
  | dest (op : DestOp)

def step (c : CE) : Op → Option CE
  | .src op => (srcStep c.src op).map fun r => { c with src := r }
  | .dest op => (destStep c.dest op).map fun r => { c with dest := r }

/-- The rings as `ce_init` leaves them: sizes a power of 2, all indices where the idle
hardware stands, the memory zeroed. -/
def Src.init (attr_flags bits start : Nat) : Src where
  attr_flags := attr_flags
  nentries_mask := 2 ^ bits - 1
  sw_index := start
  write_index := start
  hw_index := start
  per_transfer_context := fun _ => 0
  shadow_base := fun _ => default
  base_addr_owner_space := fun _ => default
  read_index := start
  write_reg := start
  poster := fun _ => .send
  unread := fun _ => false
  posted := []
  returned := []

def Dest.init (fastpath : Bool) (bits start : Nat) : Dest where
  fastpath := fastpath
  nentries_mask := 2 ^ bits - 1
  sw_index := start
  write_index := start
  per_transfer_context := fun _ => 0
  base_addr_owner_space := fun _ => default
  read_index := start
  write_reg := start
  consumed := []
  posted := []
  returned := []

open List

/-! The entries that were posted to the source ring and have not been returned stand in it between
`sw_index` and `write_index`, in the order they were posted in (`Src.Holds`). -/

/-! ## Indices -/

def PowMask (nentries_mask : Nat) : Prop := ∃ bits ≤ 31, nentries_mask + 1 = 2 ^ bits

variable {mask i k w : Nat}

theorem PowMask.and_eq (h : PowMask mask) (x : Nat) : x &&& mask = x % (mask + 1) := by
  obtain ⟨bits, -, hbits⟩ := h
  rw [hbits, show mask = 2 ^ bits - 1 by omega, Nat.and_two_pow_sub_one_eq_mod]

theorem PowMask.incr (h : PowMask mask) (idx : Nat) :
    CE_RING_IDX_INCR mask idx = (idx + 1) % (mask + 1) := h.and_eq _

theorem PowMask.incr_lt (h : PowMask mask) (idx : Nat) : CE_RING_IDX_INCR mask idx < mask + 1 := by
  rw [h.incr]; exact Nat.mod_lt _ (Nat.succ_pos mask)

theorem PowMask.ne_ff (h : PowMask mask) (hi : i < mask + 1) : i ≠ 0xffffffff := by
  obtain ⟨bits, hbits, hsize⟩ := h
  have hpow : 2 ^ bits ≤ 2 ^ 31 := Nat.pow_le_pow_right (by decide) hbits
  omega

/-- **The masked difference** is the number of free slots, one of which is kept. -/
theorem PowMask.delta (h : PowMask mask) (hi : i < mask + 1) (hw : Ahead (mask + 1) i k w) :
    CE_RING_DELTA mask w (i - 1) = mask - k := by
  rw [CE_RING_DELTA, h.and_eq]
  obtain ⟨bits, hbits, hsize⟩ := h
  have hdvd : ((mask + 1 : Nat) : Int) ∣ 2 ^ 32 := by
    rw [hsize]
    exact_mod_cast Nat.pow_dvd_pow 2 (show bits ≤ 32 by omega)
  have hk := hw.1
  have hmod : ((i : Int) - 1 - w) % ((mask + 1 : Nat) : Int) = mask - k := by
    -- the index in front has wrapped or it has not
    have hcase : w = i + k ∨ w + (mask + 1) = i + k := by
      by_cases hwrap : i + k < mask + 1
      · exact .inl (hw.2 ▸ Nat.mod_eq_of_lt hwrap)
      · right
        rw [← hw.2, Nat.mod_eq_sub_mod (by omega), Nat.mod_eq_of_lt (by omega)]; omega
    rcases hcase with hw' | hw'
    · rw [show (i : Int) - 1 - w = mask - k + ((mask + 1 : Nat) : Int) * (-1) by omega,
        Int.add_mul_emod_self_left]
      exact Int.emod_eq_of_lt (by omega) (by omega)
    · rw [show (i : Int) - 1 - w = mask - k by omega]
      exact Int.emod_eq_of_lt (by omega) (by omega)
  have hnat : (((((i : Int) - 1 - w) % 2 ^ 32).toNat % (mask + 1) : Nat) : Int) = mask - k := by
    rw [Int.natCast_mod, Int.toNat_of_nonneg (Int.emod_nonneg _ (by decide)),
      Int.emod_emod_of_dvd _ hdvd, hmod]
  omega

/-! ## The source ring -/

def entries (poster : Nat → Poster) (descs : Nat → SrcDesc) (ctxs : Nat → Nat) (j : Nat) : Posted :=
  ⟨poster j, (descs j).transfer (ctxs j)⟩

/-- `live` is in the ring, and of the entries that `keep` counts it is what was posted and not
returned. A completion reads the shadow of the ring, and a cancel the ring itself. -/
structure Src.Holds (keep : Posted → Bool) (r : Src) (live : List Posted) : Prop where
  mask : PowMask r.nentries_mask
  shadow : Queued (entries r.poster r.shadow_base r.per_transfer_context) (r.nentries_mask + 1)
    r.sw_index r.write_index keep r.posted r.returned live
  base : Queued (entries r.poster r.base_addr_owner_space r.per_transfer_context)
    (r.nentries_mask + 1) r.sw_index r.write_index keep r.posted r.returned live
  hw_lt : r.hw_index < r.nentries_mask + 1
  read_lt : r.read_index < r.nentries_mask + 1
  reg_lt : r.write_reg < r.nentries_mask + 1

/-- What is between the indices is exactly what was posted and not returned. -/
def Src.Matched (r : Src) : Prop := ∃ live, r.Holds (fun _ => true) live

def SendArgs.transfer (a : SendArgs) (context transfer_id : Nat) : Transfer :=
  (srcDesc 0 a transfer_id default).transfer context

section Source

variable {keep : Posted → Bool} {r r' : Src} {live : List Posted} {x : Posted} {a : SendArgs}
  {ctx id hash : Nat}

/-- `k` slots are between `sw_index` and `write_index`. Every ring is so for some `k`,
whatever its entries are. -/
structure Src.Spaced (r : Src) (k : Nat) : Prop where
  mask : PowMask r.nentries_mask
  sw_lt : r.sw_index < r.nentries_mask + 1
  ahead : Ahead (r.nentries_mask + 1) r.sw_index k r.write_index

theorem Src.Spaced.delta (h : r.Spaced k) :
    CE_RING_DELTA r.nentries_mask r.write_index (r.sw_index - 1) = r.nentries_mask - k :=
  h.mask.delta h.sw_lt h.ahead

theorem Src.Spaced.full_or_room (h : r.Spaced k) : k = r.nentries_mask ∨ k < r.nentries_mask := by
  have hlt := h.ahead.1
  omega

theorem Src.Holds.spaced (h : r.Holds keep live) : r.Spaced live.length :=
  ⟨h.mask, h.shadow.index_lt, h.shadow.ahead⟩

theorem entries_update (poster : Nat → Poster) (descs : Nat → SrcDesc) (ctxs : Nat → Nat) (w : Nat)
    (p : Poster) (desc : SrcDesc) (c : Nat) :
    entries (update poster w p) (update descs w desc) (update ctxs w c) =
      update (entries poster descs ctxs) w ⟨p, desc.transfer c⟩ := by
  funext j
  by_cases hj : j = w
  · subst hj; simp only [entries, update_self]
  · simp only [entries, update_of_ne hj]

theorem entries_clear (poster : Nat → Poster) (descs : Nat → SrcDesc) (ctxs : Nat → Nat) (i : Nat) :
    entries poster descs (update ctxs i 0) =
      update (entries poster descs ctxs) i ⟨poster i, (descs i).transfer 0⟩ := by
  rw [← entries_update, update_eq_self, update_eq_self]

theorem Src.Holds.post (h : r.Holds keep live) (hroom : live.length < r.nentries_mask) (p : Poster)
    (ctx : Nat) (desc : SrcDesc) :
    (r.post p ctx desc).Holds keep (live ++ [⟨p, desc.transfer ctx⟩]) := by
  refine ⟨h.mask, ?_, ?_, h.hw_lt, h.read_lt, h.reg_lt⟩
  · have hpush := h.shadow.push (by omega) ⟨p, desc.transfer ctx⟩
    rw [← h.mask.incr] at hpush
    simp only [Src.post, entries_update]
    exact hpush
  · have hpush := h.base.push (by omega) ⟨p, desc.transfer ctx⟩
    rw [← h.mask.incr] at hpush
    simp only [Src.post, entries_update]
    exact hpush

theorem Src.Holds.writeIdxSet (h : r.Holds keep live) : r.writeIdxSet.Holds keep live :=
  ⟨h.mask, h.shadow, h.base, h.hw_lt, h.read_lt, h.shadow.ahead.lt⟩

theorem Src.Spaced.send_full (h : r.Spaced k) (hfull : k = r.nentries_mask) :
    ce_send_nolock r ctx a id = (.e_failure, r) := by
  rw [ce_send_nolock, h.delta, hfull, Nat.sub_self, if_pos rfl]

/-- What the sends that put `ts` into the ring leave. -/
structure Src.Sent (r : Src) (ts : List Posted) (r' : Src) : Prop where
  nentries_mask : r'.nentries_mask = r.nentries_mask
  posted : r'.posted = r.posted ++ ts
  returned : r'.returned = r.returned
  sw_index : r'.sw_index = r.sw_index

theorem Src.Sent.trans {ts ts' : List Posted} {r'' : Src} (h : r.Sent ts r')
    (h' : r'.Sent ts' r'') : r.Sent (ts ++ ts') r'' where
  nentries_mask := h'.nentries_mask.trans h.nentries_mask
  posted := by rw [h'.posted, h.posted, append_assoc]
  returned := h'.returned.trans h.returned
  sw_index := h'.sw_index.trans h.sw_index

theorem Src.Spaced.send_room (h : r.Spaced k) (hroom : k < r.nentries_mask) (ctx : Nat)
    (a : SendArgs) (id : Nat) :
    ∃ r', ce_send_nolock r ctx a id = (.success, r') ∧ r'.Spaced (k + 1) ∧
      r.Sent [⟨.send, a.transfer ctx id⟩] r' := by
  have hnext := h.ahead.next (by omega)
  rw [← h.mask.incr] at hnext
  rw [ce_send_nolock, h.delta, if_neg (by omega)]
  refine ⟨_, rfl, ?_, ?_⟩
  · split
    · exact ⟨h.mask, h.sw_lt, hnext⟩
    · exact ⟨h.mask, h.sw_lt, hnext⟩
  · split
    · exact ⟨rfl, rfl, rfl, rfl⟩
    · exact ⟨rfl, rfl, rfl, rfl⟩

theorem Src.Holds.send (h : r.Holds keep live) :
    ∃ live', (ce_send_nolock r ctx a id).2.Holds keep live' := by
  rcases h.spaced.full_or_room with hfull | hroom
  · rw [h.spaced.send_full hfull]; exact ⟨live, h⟩
  · have hpost := h.post hroom .send ctx (srcDesc r.attr_flags a id (r.shadow_base r.write_index))
    rw [ce_send_nolock, h.spaced.delta, if_neg (by omega)]
    dsimp only
    split
    · exact ⟨_, hpost⟩
    · exact ⟨_, hpost.writeIdxSet⟩

theorem Src.Holds.take (h : r.Holds keep (x :: live)) : (r.take x.transfer).Holds keep live := by
  have hposter : r.poster r.sw_index = x.poster := congrArg Posted.poster (h.shadow.pop x).1
  refine ⟨h.mask, ?_, ?_, h.hw_lt, h.read_lt, h.reg_lt⟩
  · have hpop := (h.shadow.pop ⟨r.poster r.sw_index, (r.shadow_base r.sw_index).transfer 0⟩).2
    rw [← h.mask.incr] at hpop
    simp only [Src.take, entries_clear]
    rw [hposter]; rwa [hposter] at hpop
  · have hpop :=
      (h.base.pop ⟨r.poster r.sw_index, (r.base_addr_owner_space r.sw_index).transfer 0⟩).2
    rw [← h.mask.incr] at hpop
    simp only [Src.take, entries_clear]
    rw [hposter]; rwa [hposter] at hpop

theorem Src.Holds.refresh (h : r.Holds keep live) : r.refresh.Holds keep live := by
  rw [Src.refresh]
  split
  · exact ⟨h.mask, h.shadow, h.base, h.read_lt, h.read_lt, h.reg_lt⟩
  · exact h

theorem Src.Holds.length_eq (h : r.Holds (fun _ => true) live) :
    r.posted.length = r.returned.length + live.length :=
  h.shadow.posted_length

theorem Src.Holds.completed_cons (h : r.Holds keep (x :: live)) :
    (ce_completed_send_next r).2 = r.refresh ∨
      (ce_completed_send_next r).2 = r.refresh.take x.transfer := by
  have hhead := congrArg Posted.transfer (h.refresh.shadow.pop x).1
  rw [ce_completed_send_next, ce_completed_send_next_nolock]
  split
  · right; rw [← hhead, entries]
  · exact .inl rfl

theorem Src.Holds.completed_nil (h : r.Holds (fun _ => true) []) :
    (ce_completed_send_next r).2.Matched ↔ r.refresh.hw_index = r.refresh.sw_index := by
  rw [ce_completed_send_next, ce_completed_send_next_nolock]
  by_cases hhw : r.refresh.hw_index = r.refresh.sw_index
  · rw [if_neg fun hdone => hdone.1 hhw]; exact ⟨fun _ => hhw, fun _ => ⟨[], h.refresh⟩⟩
  · rw [if_pos ⟨hhw, h.refresh.mask.ne_ff h.refresh.hw_lt⟩]
    refine ⟨fun hmatched => ?_, fun heq => absurd heq hhw⟩
    -- more has been returned than was posted
    obtain ⟨live', hlive'⟩ := hmatched
    have hafter := hlive'.length_eq
    have hbefore := h.refresh.length_eq
    simp only [Src.take, length_append, length_cons, length_nil] at hafter hbefore
    omega

theorem Src.Holds.cancel (h : r.Holds keep live) : (ce_cancel_send_next r).2.Holds keep live.tail := by
  rw [ce_cancel_send_next]
  by_cases hempty : r.write_index = r.sw_index
  · rw [if_neg (not_not.mpr hempty)]
    have hnil := h.shadow.eq_nil_iff.mp hempty
    subst hnil; exact h
  · rw [if_pos hempty]
    obtain ⟨x, live, rfl⟩ := exists_cons_of_ne_nil (mt h.shadow.eq_nil_iff.mpr hempty)
    have hhead := congrArg Posted.transfer (h.base.pop x).1
    rw [entries] at hhead
    dsimp only at hhead ⊢
    rw [hhead]; exact h.take

theorem Src.Holds.hwRead (h : r.Holds keep live) (hr : r.hwRead hash = some r') :
    r'.Holds keep live := by
  rw [Src.hwRead] at hr
  split at hr
  · cases hr
  · cases hr
    refine ⟨h.mask, h.shadow, ?_, h.hw_lt, h.mask.incr_lt _, h.reg_lt⟩
    -- the hash is not part of the entry
    have hsame : entries r.poster (update r.base_addr_owner_space r.read_index
        { r.base_addr_owner_space r.read_index with toeplitz_hash_result := hash })
        r.per_transfer_context =
          entries r.poster r.base_addr_owner_space r.per_transfer_context := by
      funext j
      by_cases hj : j = r.read_index
      · subst hj
        simp only [entries, update_self]
        rfl
      · simp only [entries, update_of_ne hj]
    rw [hsame]; exact h.base

/-! ### Sending a list -/

/-- What a list of items posts: the last one has the context. -/
def itemsPosted (per_transfer_context transfer_id : Nat) : List SendArgs → List Posted
  | [] => []
  | [item] => [⟨.send, item.transfer per_transfer_context transfer_id⟩]
  | item :: items =>
    ⟨.send, item.transfer CE_SENDLIST_ITEM_CTXT transfer_id⟩ ::
      itemsPosted per_transfer_context transfer_id items

theorem sendItems_keeps {P : Src → Prop}
    (hsend : ∀ r ctx a id, P r → P (ce_send_nolock r ctx a id).2) (h : P r) (ctx id : Nat)
    (items : List SendArgs) : P (sendItems ctx id items r).2 := by
  induction items generalizing r with
  | nil => exact h
  | cons item items ih =>
    cases items with
    | nil => exact hsend r ctx item id h
    | cons next items =>
      rw [sendItems]
      · exact ih (hsend r CE_SENDLIST_ITEM_CTXT item.gathered id h)
      · exact cons_ne_nil next items

theorem sendlist_keeps {P : Src → Prop}
    (hsend : ∀ r ctx a id, P r → P (ce_send_nolock r ctx a id).2) (h : P r) {sl : Sendlist}
    (hr : srcStep r (.sendlist ctx sl id) = some r') : P r' := by
  rw [srcStep, Option.map_eq_some_iff] at hr
  obtain ⟨out, hout, rfl⟩ := hr
  rw [ce_sendlist_send] at hout
  split at hout
  · cases hout
  · split at hout
    · cases hout; exact sendItems_keeps hsend h ctx id sl.items
    · cases hout; exact h

theorem Src.Spaced.sendItems (h : r.Spaced k) (ctx id : Nat) (items : List SendArgs)
    (hne : items ≠ []) (hroom : k + items.length ≤ r.nentries_mask) :
    ∃ r', sendItems ctx id items r = (.success, r') ∧ r.Sent (itemsPosted ctx id items) r' := by
  induction items generalizing r k with
  | nil => exact absurd rfl hne
  | cons item items ih =>
    rw [length_cons] at hroom
    cases items with
    | nil =>
      obtain ⟨r', hsend, -, hsent⟩ := h.send_room (by omega) ctx item id
      exact ⟨r', hsend, hsent⟩
    | cons next items =>
      obtain ⟨r₁, hsend, hr₁, hsent⟩ :=
        h.send_room (by omega) CE_SENDLIST_ITEM_CTXT item.gathered id
      obtain ⟨r', hitems, hsent'⟩ := ih hr₁ (cons_ne_nil next items) (by
        rw [hsent.nentries_mask]; omega)
      refine ⟨r', ?_, hsent.trans hsent'⟩
      rw [CeRing.sendItems, hsend]
      · exact hitems
      · exact cons_ne_nil next items

/-- **All or none.** A list for which there is no room leaves the ring as it is. -/
theorem Src.Spaced.sendlist (h : r.Spaced k) (ctx id : Nat) (sl : Sendlist) (hne : sl.items ≠ []) :
    ce_sendlist_send r ctx sl id = some (.enomem, r) ∨
      ∃ r', ce_sendlist_send r ctx sl id = some (.success, r') ∧
        r.Sent (itemsPosted ctx id sl.items) r' := by
  have hlt := h.ahead.1
  rw [ce_sendlist_send, if_neg (mt length_eq_zero_iff.mp hne), h.delta]
  by_cases hroom : r.nentries_mask - k ≥ sl.items.length
  · rw [if_pos hroom]
    obtain ⟨r', hitems, hsent⟩ := h.sendItems ctx id sl.items hne (by omega)
    exact .inr ⟨r', congrArg some hitems, hsent⟩
  · rw [if_neg hroom]; exact .inl rfl

/-! ### The shape of the ring, in every run -/

def Src.Shaped (r : Src) : Prop :=
  PowMask r.nentries_mask ∧ r.sw_index < r.nentries_mask + 1 ∧ r.write_index < r.nentries_mask + 1

theorem Src.Shaped.spaced (h : r.Shaped) : ∃ k, r.Spaced k := by
  obtain ⟨k, hk⟩ := exists_ahead h.2.1 h.2.2
  exact ⟨k, h.1, h.2.1, hk⟩

theorem Src.Shaped.send (h : r.Shaped) : (ce_send_nolock r ctx a id).2.Shaped := by
  rw [ce_send_nolock]
  split
  · exact h
  · dsimp only
    split
    · exact ⟨h.1, h.2.1, h.1.incr_lt _⟩
    · exact ⟨h.1, h.2.1, h.1.incr_lt _⟩

theorem Src.Shaped.take (h : r.Shaped) (t : Transfer) : (r.take t).Shaped :=
  ⟨h.1, h.1.incr_lt _, h.2.2⟩

theorem Src.Shaped.refresh (h : r.Shaped) : r.refresh.Shaped := by
  rw [Src.refresh]
  split
  · exact h
  · exact h

theorem Src.Shaped.step (h : r.Shaped) {op : SrcOp} (hr : srcStep r op = some r') : r'.Shaped := by
  cases op with
  | send ctx a id => cases hr; exact h.send
  | sendlist ctx sl id => exact sendlist_keeps (fun _ _ _ _ => Src.Shaped.send) h hr
  | completed =>
    cases hr
    rw [ce_completed_send_next, ce_completed_send_next_nolock]
    split
    · exact h.refresh.take _
    · exact h.refresh
  | cancel =>
    cases hr
    rw [ce_cancel_send_next]
    split
    · exact h.take _
    · exact h
  | hwRead hash =>
    rw [srcStep, Src.hwRead] at hr
    split at hr
    · cases hr
    · cases hr; exact h

/-! ### Steps -/

/-- A completion on an empty ring finds the copy of the hardware's index, and the index
itself, where the host stands. -/
def srcOk (r : Src) : SrcOp → Prop
  | .completed =>
    r.write_index = r.sw_index → r.hw_index = r.sw_index ∧ r.read_index = r.sw_index
  | _ => True

instance (r : Src) (op : SrcOp) : Decidable (srcOk r op) := by
  unfold srcOk
  split <;> infer_instance

theorem refresh_caught_up :
    r.refresh.hw_index = r.refresh.sw_index ↔
      r.hw_index = r.sw_index ∧ r.read_index = r.sw_index := by
  rw [Src.refresh]
  by_cases hhw : r.hw_index = r.sw_index
  · rw [if_pos hhw]; exact ⟨fun hread => ⟨hhw, hread⟩, And.right⟩
  · rw [if_neg hhw]; exact ⟨fun heq => absurd heq hhw, fun heq => absurd heq.1 hhw⟩

theorem Src.Holds.completed (h : r.Holds (fun _ => true) live) :
    (ce_completed_send_next r).2.Matched ↔ srcOk r .completed := by
  cases live with
  | nil =>
    have hempty : r.write_index = r.sw_index := h.shadow.eq_nil_iff.mpr rfl
    rw [h.completed_nil, refresh_caught_up]; exact ⟨fun heq _ => heq, fun hok => hok hempty⟩
  | cons x live =>
    refine ⟨fun _ hempty => ?_, fun _ => ?_⟩
    · exact absurd (h.shadow.eq_nil_iff.mp hempty) (cons_ne_nil x live)
    · rcases h.completed_cons with heq | heq
      · rw [heq]; exact ⟨_, h.refresh⟩
      · rw [heq]; exact ⟨_, h.refresh.take⟩

/-- **One step of the source ring** keeps its entries in order exactly if it meets `srcOk`. -/
theorem Src.Holds.step_iff (h : r.Holds (fun _ => true) live) {op : SrcOp}
    (hr : srcStep r op = some r') :
    r'.Matched ↔ srcOk r op := by
  cases op with
  | send ctx a id => cases hr; exact iff_of_true h.send trivial
  | sendlist ctx sl id =>
    refine iff_of_true ?_ trivial
    refine sendlist_keeps (P := Src.Matched) (fun r ctx a id hmatched => ?_) ⟨live, h⟩ hr
    obtain ⟨live, hlive⟩ := hmatched
    exact hlive.send
  | completed => cases hr; exact h.completed
  | cancel => cases hr; exact iff_of_true ⟨_, h.cancel⟩ trivial
  | hwRead hash => exact iff_of_true ⟨_, h.hwRead hr⟩ trivial

/-! ### The order of the indices -/

/-- The invariant of `struct CE_ring_state`: from `sw_index` on come `hw_index`, the read
index, the write index the hardware knows and `write_index`; the hardware is done with what
is behind its read index. -/
structure Src.Ordered (keep : Posted → Bool) (r : Src) (hw read reg : Nat) (live : List Posted) :
    Prop where
  holds : r.Holds keep live
  hw_le : hw ≤ read
  read_le : read ≤ reg
  reg_le : reg ≤ live.length
  hw_ahead : Ahead (r.nentries_mask + 1) r.sw_index hw r.hw_index
  read_ahead : Ahead (r.nentries_mask + 1) r.sw_index read r.read_index
  reg_ahead : Ahead (r.nentries_mask + 1) r.sw_index reg r.write_reg
  done : ∀ k < read, r.unread ((r.sw_index + k) % (r.nentries_mask + 1)) = false

variable {hw read reg : Nat}

theorem powMask_init {bits : Nat} (hbits : bits ≤ 31) : PowMask (2 ^ bits - 1) :=
  ⟨bits, hbits, Nat.sub_add_cancel Nat.one_le_two_pow⟩

theorem src_ordered_init {attr_flags bits start : Nat} (hbits : bits ≤ 31) (hstart : start < 2 ^ bits) :
    (Src.init attr_flags bits start).Ordered keep 0 0 0 [] := by
  have hs : start < 2 ^ bits - 1 + 1 := by omega
  exact ⟨⟨powMask_init hbits, queued_nil hs, queued_nil hs, hs, hs, hs⟩, le_rfl, le_rfl, le_rfl,
    ahead_zero hs, ahead_zero hs, ahead_zero hs, nofun⟩

theorem Src.Ordered.post (h : r.Ordered keep hw read reg live)
    (hroom : live.length < r.nentries_mask) (p : Poster) (ctx : Nat) (desc : SrcDesc) :
    (r.post p ctx desc).Ordered keep hw read reg (live ++ [⟨p, desc.transfer ctx⟩]) := by
  refine ⟨h.holds.post hroom p ctx desc, h.hw_le, h.read_le, ?_, h.hw_ahead, h.read_ahead,
    h.reg_ahead, ?_⟩
  · rw [length_append]; exact Nat.le_add_right_of_le h.reg_le
  · intro k hk
    have hread := h.read_le
    have hreg := h.reg_le
    have hne : (r.sw_index + k) % (r.nentries_mask + 1) ≠ r.write_index := by
      intro heq
      have hlen := Ahead.unique ⟨by omega, heq⟩ h.holds.shadow.ahead
      omega
    simp only [Src.post]
    rw [update_of_ne hne]; exact h.done k hk

theorem Src.Ordered.writeIdxSet (h : r.Ordered keep hw read reg live) :
    r.writeIdxSet.Ordered keep hw read live.length live :=
  ⟨h.holds.writeIdxSet, h.hw_le, h.read_le.trans h.reg_le, le_rfl, h.hw_ahead, h.read_ahead,
    h.holds.shadow.ahead, h.done⟩

theorem Src.Ordered.send (h : r.Ordered keep hw read reg live) (ctx : Nat) (a : SendArgs) (id : Nat) :
    ∃ reg' live', (ce_send_nolock r ctx a id).2.Ordered keep hw read reg' live' := by
  rcases h.holds.spaced.full_or_room with hfull | hroom
  · rw [h.holds.spaced.send_full hfull]; exact ⟨reg, live, h⟩
  · have hpost := h.post hroom .send ctx (srcDesc r.attr_flags a id (r.shadow_base r.write_index))
    rw [ce_send_nolock, h.holds.spaced.delta, if_neg (by omega)]
    dsimp only
    split
    · exact ⟨_, _, hpost⟩
    · exact ⟨_, _, hpost.writeIdxSet⟩

theorem Src.Ordered.refresh (h : r.Ordered keep hw read reg live) :
    ∃ hw', r.refresh.Ordered keep hw' read reg live := by
  have hholds := h.holds.refresh
  rw [Src.refresh] at hholds ⊢
  split
  · rename_i heq
    rw [if_pos heq] at hholds
    exact ⟨read, hholds, le_rfl, h.read_le, h.reg_le, h.read_ahead, h.read_ahead, h.reg_ahead,
      h.done⟩
  · exact ⟨hw, h⟩

theorem Src.Ordered.take (h : r.Ordered keep hw read reg live) (hhw : r.hw_index ≠ r.sw_index) :
    ∃ x live', live = x :: live' ∧
      (r.take x.transfer).Ordered keep (hw - 1) (read - 1) (reg - 1) live' := by
  have hpos : hw ≠ 0 := mt (h.hw_ahead.eq_self_iff h.holds.shadow.index_lt).mpr hhw
  have hread := h.hw_le
  have hreg := h.read_le
  have hlen := h.reg_le
  obtain ⟨x, live, rfl⟩ := exists_cons_of_length_pos (show 0 < live.length by omega)
  rw [length_cons] at hlen
  have hshift : ∀ {k j : Nat}, k ≠ 0 → Ahead (r.nentries_mask + 1) r.sw_index k j →
      Ahead (r.nentries_mask + 1) (CE_RING_IDX_INCR r.nentries_mask r.sw_index) (k - 1) j := by
    intro k j hk hj
    rw [h.holds.mask.incr]
    rw [show k = k - 1 + 1 by omega] at hj; exact hj.shift
  refine ⟨x, live, rfl, h.holds.take, by omega, by omega, by omega,
    hshift hpos h.hw_ahead, hshift (by omega) h.read_ahead, hshift (by omega) h.reg_ahead, ?_⟩
  intro k hk
  simp only [Src.take]
  rw [h.holds.mask.incr, Nat.mod_add_mod, Nat.add_assoc]; exact h.done (1 + k) (by omega)

theorem Src.Ordered.ne_ff (h : r.Ordered keep hw read reg live) : r.hw_index ≠ 0xffffffff :=
  h.holds.mask.ne_ff h.holds.hw_lt

theorem Src.Ordered.completed_done (h : r.Ordered keep hw read reg live)
    (hhw : r.refresh.hw_index ≠ r.refresh.sw_index) :
    ∃ hw' x live', live = x :: live' ∧
      (ce_completed_send_next r).2.Ordered keep hw' (read - 1) (reg - 1) live' := by
  obtain ⟨hw', h'⟩ := h.refresh
  obtain ⟨x, live, rfl, htake⟩ := h'.take hhw
  have hhead := congrArg Posted.transfer (h'.holds.shadow.pop x).1
  rw [entries] at hhead
  dsimp only at hhead
  rw [ce_completed_send_next, ce_completed_send_next_nolock]
  rw [if_pos ⟨hhw, h'.ne_ff⟩, hhead]; exact ⟨hw' - 1, x, live, rfl, htake⟩

theorem Src.Ordered.completed (h : r.Ordered keep hw read reg live) :
    ∃ hw' read' reg' live', (ce_completed_send_next r).2.Ordered keep hw' read' reg' live' := by
  by_cases hhw : r.refresh.hw_index = r.refresh.sw_index
  · obtain ⟨hw', h'⟩ := h.refresh
    rw [ce_completed_send_next, ce_completed_send_next_nolock]
    rw [if_neg fun hdone => hdone.1 hhw]; exact ⟨_, _, _, _, h'⟩
  · obtain ⟨hw', x, live', -, h'⟩ := h.completed_done hhw; exact ⟨_, _, _, _, h'⟩

theorem Src.Ordered.hwRead (h : r.Ordered keep hw read reg live) (hr : r.hwRead hash = some r') :
    r'.Ordered keep hw (read + 1) reg live := by
  have hholds := h.holds.hwRead hr
  rw [Src.hwRead] at hr
  split at hr
  · cases hr
  · rename_i hne
    cases hr
    have hlt : read ≠ reg := by rintro rfl; exact hne (h.read_ahead.2.symm.trans h.reg_ahead.2)
    have hle := h.read_le
    have hbound := h.reg_ahead.1
    refine ⟨hholds, h.hw_le.trans (Nat.le_succ read), by omega, h.reg_le, h.hw_ahead, ?_,
      h.reg_ahead, ?_⟩
    · rw [h.holds.mask.incr]; exact h.read_ahead.next (by omega)
    · intro k hk
      dsimp only
      by_cases hslot : (r.sw_index + k) % (r.nentries_mask + 1) = r.read_index
      · rw [hslot, update_self]
      · rw [update_of_ne hslot]
        have hne : k ≠ read := by rintro rfl; exact hslot h.read_ahead.2
        exact h.done k (by omega)

def SrcOp.Plain : SrcOp → Prop
  | .cancel => False
  | _ => True

instance : (op : SrcOp) → Decidable op.Plain
  | .cancel => isFalse not_false
  | .send .. | .sendlist .. | .completed | .hwRead .. => isTrue trivial

theorem Src.Ordered.step (h : r.Ordered keep hw read reg live) {op : SrcOp} (hop : op.Plain)
    (hr : srcStep r op = some r') :
    ∃ hw' read' reg' live', r'.Ordered keep hw' read' reg' live' := by
  cases op with
  | send ctx a id => cases hr; exact ⟨hw, read, h.send ctx a id⟩
  | sendlist ctx sl id =>
    refine ⟨hw, read, ?_⟩
    refine sendlist_keeps (P := fun r => ∃ reg live, r.Ordered keep hw read reg live)
      (fun r ctx a id hordered => ?_) ⟨reg, live, h⟩ hr
    obtain ⟨reg, live, hlive⟩ := hordered
    exact hlive.send ctx a id
  | completed => cases hr; exact h.completed
  | cancel => exact hop.elim
  | hwRead hash => exact ⟨hw, read + 1, reg, live, h.hwRead hr⟩

end Source

end

open List

/-! The destination ring: what was posted and not returned stands between `sw_index` and
`write_index` (`Dest.Holds`). -/

def recvBufs (descs : Nat → DestDesc) (ctxs : Nat → Nat) (j : Nat) : RecvBuf :=
  (descs j).recvBuf (ctxs j)

/-- `live` is posted and not returned. -/
structure Dest.Holds (r : Dest) (live : List RecvBuf) : Prop where
  mask : PowMask r.nentries_mask
  queue : Queued (recvBufs r.base_addr_owner_space r.per_transfer_context) (r.nentries_mask + 1)
    r.sw_index r.write_index (fun _ => true) r.posted r.returned live

def Dest.Matched (r : Dest) : Prop := ∃ live, r.Holds live

/-- No slot is free but the one that is kept. -/
def Dest.Full (r : Dest) : Prop :=
  CE_RING_DELTA r.nentries_mask r.write_index (r.sw_index - 1) = 0

instance (r : Dest) : Decidable r.Full := inferInstanceAs (Decidable (_ = _))

section Destination

variable {r r' : Dest} {live : List RecvBuf} {b : RecvBuf} {ctx buffer : Nat}

theorem Dest.Holds.delta (h : r.Holds live) :
    CE_RING_DELTA r.nentries_mask r.write_index (r.sw_index - 1) =
      r.nentries_mask - live.length :=
  h.mask.delta h.queue.index_lt h.queue.ahead

theorem Dest.Holds.full_iff (h : r.Holds live) : r.Full ↔ live.length = r.nentries_mask := by
  have hlt := h.queue.ahead.1
  rw [Dest.Full, h.delta]; omega

theorem Dest.Holds.length_eq (h : r.Holds live) :
    r.posted.length = r.returned.length + live.length :=
  h.queue.posted_length

theorem recvBufs_update (descs : Nat → DestDesc) (ctxs : Nat → Nat) (w : Nat) (desc : DestDesc)
    (c : Nat) :
    recvBufs (update descs w desc) (update ctxs w c) =
      update (recvBufs descs ctxs) w (desc.recvBuf c) := by
  funext j
  by_cases hj : j = w
  · subst hj; simp only [recvBufs, update_self]
  · simp only [recvBufs, update_of_ne hj]

/-! ## Posting -/

def Dest.post (r : Dest) (per_recv_context buffer : Nat) : Dest :=
  let desc := destDesc buffer (r.base_addr_owner_space r.write_index)
  let write_index := CE_RING_IDX_INCR r.nentries_mask r.write_index
  { r with
    base_addr_owner_space := update r.base_addr_owner_space r.write_index desc
    per_transfer_context := update r.per_transfer_context r.write_index per_recv_context
    write_reg := write_index
    write_index := write_index
    posted := r.posted ++ [desc.recvBuf per_recv_context] }

theorem Dest.post_base (r : Dest) (ctx buffer : Nat) :
    (r.post ctx buffer).base_addr_owner_space = update r.base_addr_owner_space r.write_index
      (destDesc buffer (r.base_addr_owner_space r.write_index)) := rfl

theorem Dest.take_base (r : Dest) (desc : DestDesc) (b : RecvBuf) :
    (r.take desc b).base_addr_owner_space = update r.base_addr_owner_space r.sw_index desc := rfl

theorem Dest.Holds.post (h : r.Holds live) (hroom : live.length < r.nentries_mask)
    (ctx buffer : Nat) :
    (r.post ctx buffer).Holds
      (live ++ [(destDesc buffer (r.base_addr_owner_space r.write_index)).recvBuf ctx]) := by
  refine ⟨h.mask, ?_⟩
  have hpush := h.queue.push (by omega)
    ((destDesc buffer (r.base_addr_owner_space r.write_index)).recvBuf ctx)
  rw [← h.mask.incr] at hpush
  simp only [Dest.post, recvBufs_update]
  exact hpush

theorem Dest.Holds.enqueue_room (h : r.Holds live) (hroom : ¬ r.Full) :
    ce_recv_buf_enqueue r ctx buffer = (.success, r.post ctx buffer) := by
  have hdelta : CE_RING_DELTA r.nentries_mask r.write_index (r.sw_index - 1) > 0 :=
    Nat.pos_of_ne_zero hroom
  have hnext : CE_RING_IDX_INCR r.nentries_mask r.write_index ≠ r.sw_index := by
    rw [h.mask.incr]
    refine mt (h.queue.ahead.next_eq_iff h.queue.index_lt).mp ?_
    have hlen := mt h.full_iff.mpr hroom
    omega
  rw [ce_recv_buf_enqueue, if_pos (.inl hdelta)]
  dsimp only
  rw [if_pos hnext, if_pos hnext]; rfl

theorem enqueue_full (hfull : r.Full) (hfast : r.fastpath = false) :
    ce_recv_buf_enqueue r ctx buffer = (.e_failure, r) := by
  refine if_neg ?_
  rintro (hpos | htrue)
  · rw [Dest.Full] at hfull; omega
  · rw [hfast] at htrue; cases htrue

/-- The full ring of a fast path engine after one more post: the buffer is in the slot that
is kept free, and no index moves. -/
def Dest.spare (r : Dest) (per_recv_context buffer : Nat) : Dest :=
  let desc := destDesc buffer (r.base_addr_owner_space r.write_index)
  { r with
    base_addr_owner_space := update r.base_addr_owner_space r.write_index desc
    per_transfer_context := update r.per_transfer_context r.write_index per_recv_context
    posted := r.posted ++ [desc.recvBuf per_recv_context] }

theorem Dest.Holds.enqueue_fast (h : r.Holds live) (hfull : r.Full) (hfast : r.fastpath = true) :
    ce_recv_buf_enqueue r ctx buffer = (.success, r.spare ctx buffer) := by
  have hnext : CE_RING_IDX_INCR r.nentries_mask r.write_index = r.sw_index := by
    rw [h.mask.incr, h.queue.ahead.next_eq_iff h.queue.index_lt, h.full_iff.mp hfull]
  rw [ce_recv_buf_enqueue, if_pos (.inr hfast)]
  dsimp only
  rw [if_neg (not_not.mpr hnext), if_neg (not_not.mpr hnext)]; rfl

theorem Dest.Holds.enqueue (h : r.Holds live) :
    (ce_recv_buf_enqueue r ctx buffer).2.Matched ↔ ¬ (r.fastpath = true ∧ r.Full) := by
  by_cases hfull : r.Full
  · cases hfast : r.fastpath with
    | false =>
      rw [enqueue_full hfull hfast]
      exact iff_of_true ⟨live, h⟩ (fun hboth => Bool.false_ne_true hboth.1)
    | true =>
      rw [h.enqueue_fast hfull hfast]
      refine iff_of_false ?_ (not_not.mpr ⟨rfl, hfull⟩)
      rintro ⟨live', hlive'⟩
      have hlen := h.full_iff.mp hfull
      have hbefore := h.length_eq
      have hafter := hlive'.length_eq
      have hroom := hlive'.queue.ahead.1
      simp only [Dest.spare, length_append, length_singleton] at hafter hroom
      omega
  · rw [h.enqueue_room hfull]
    refine iff_of_true ⟨_, h.post ?_ ctx buffer⟩ fun hboth => hfull hboth.2
    have hlt := h.queue.ahead.1
    have hlen := mt h.full_iff.mpr hfull
    omega

/-! ## Taking off -/

theorem Dest.Holds.take (h : r.Holds (b :: live)) (desc : DestDesc) : (r.take desc b).Holds live := by
  refine ⟨h.mask, ?_⟩
  have hpop := (h.queue.pop (desc.recvBuf 0)).2
  rw [← h.mask.incr] at hpop
  simp only [Dest.take, recvBufs_update]
  exact hpop

theorem Dest.Holds.head (h : r.Holds (b :: live)) :
    (r.base_addr_owner_space r.sw_index).recvBuf (r.per_transfer_context r.sw_index) = b :=
  (h.queue.pop b).1

theorem Dest.Holds.completed_cons (h : r.Holds (b :: live)) :
    (ce_completed_recv_next r).2 =
      if (r.base_addr_owner_space r.sw_index).nbytes = 0 then r
      else r.take { r.base_addr_owner_space r.sw_index with nbytes := 0 } b := by
  rw [ce_completed_recv_next, ce_completed_recv_next_nolock]
  rw [h.head]
  split
  · rfl
  · rfl

theorem Dest.Holds.completed_nil (h : r.Holds []) :
    (ce_completed_recv_next r).2.Matched ↔ (r.base_addr_owner_space r.sw_index).nbytes = 0 := by
  rw [ce_completed_recv_next, ce_completed_recv_next_nolock]
  by_cases hnbytes : (r.base_addr_owner_space r.sw_index).nbytes = 0
  · rw [if_pos hnbytes]; exact iff_of_true ⟨[], h⟩ hnbytes
  · rw [if_neg hnbytes]
    refine iff_of_false ?_ hnbytes
    rintro ⟨live', hlive'⟩
    have hafter := hlive'.length_eq
    have hbefore := h.length_eq
    simp only [Dest.take, length_append, length_cons, length_nil] at hafter hbefore
    omega

theorem Dest.Holds.revoke (h : r.Holds live) : (ce_revoke_recv_next r).2.Holds live.tail := by
  rw [ce_revoke_recv_next]
  by_cases hempty : r.write_index = r.sw_index
  · rw [if_neg (not_not.mpr hempty)]
    have hnil := h.queue.eq_nil_iff.mp hempty
    subst hnil; exact h
  · rw [if_pos hempty]
    obtain ⟨b, live, rfl⟩ := exists_cons_of_ne_nil (mt h.queue.eq_nil_iff.mpr hempty)
    dsimp only
    rw [h.head]; exact h.take _

/-! ## The hardware -/

theorem Dest.Holds.hwConsume (h : r.Holds live) (hr : r.hwConsume = some r') : r'.Holds live := by
  rw [Dest.hwConsume] at hr
  split at hr
  · cases hr
  · cases hr; exact ⟨h.mask, h.queue⟩

theorem Dest.Holds.hwWrite {slot nbytes id : Nat} {swap : Bool} (h : r.Holds live)
    (hr : r.hwWrite slot nbytes id swap = some r') : r'.Holds live := by
  rw [Dest.hwWrite] at hr
  split at hr
  · cases hr
    refine ⟨h.mask, ?_⟩
    -- the hardware leaves the address
    have hsame : recvBufs (update r.base_addr_owner_space slot
        { r.base_addr_owner_space slot with nbytes := nbytes, meta_data := id, byte_swap := swap })
        r.per_transfer_context = recvBufs r.base_addr_owner_space r.per_transfer_context := by
      funext j
      by_cases hj : j = slot
      · subst hj
        simp only [recvBufs, update_self]
        rfl
      · simp only [recvBufs, update_of_ne hj]
    rw [hsame]; exact h.queue
  · cases hr

/-! ## Steps -/

/-- A completion on an empty ring finds its slot not marked, and no buffer is posted to the
full ring of a fast path engine. -/
def destOk (r : Dest) : DestOp → Prop
  | .enqueue .. => ¬ (r.fastpath = true ∧ r.Full)
  | .completed => r.write_index = r.sw_index → (r.base_addr_owner_space r.sw_index).nbytes = 0
  | _ => True

instance (r : Dest) (op : DestOp) : Decidable (destOk r op) := by
  unfold destOk
  split <;> infer_instance

theorem Dest.Holds.completed (h : r.Holds live) :
    (ce_completed_recv_next r).2.Matched ↔ destOk r .completed := by
  cases live with
  | nil =>
    have hempty : r.write_index = r.sw_index := h.queue.eq_nil_iff.mpr rfl
    rw [h.completed_nil]; exact ⟨fun heq _ => heq, fun hok => hok hempty⟩
  | cons b live =>
    refine iff_of_true ?_ fun hempty => ?_
    · rw [h.completed_cons]
      split
      · exact ⟨_, h⟩
      · exact ⟨_, h.take _⟩
    · exact absurd (h.queue.eq_nil_iff.mp hempty) (cons_ne_nil b live)

/-- **One step of the destination ring** keeps its buffers in order exactly if it meets
`destOk`. -/
theorem Dest.Holds.step_iff (h : r.Holds live) {op : DestOp} (hr : destStep r op = some r') :
    r'.Matched ↔ destOk r op := by
  cases op with
  | enqueue ctx buffer => cases hr; exact h.enqueue
  | completed => cases hr; exact h.completed
  | revoke => cases hr; exact iff_of_true ⟨_, h.revoke⟩ trivial
  | hwConsume => exact iff_of_true ⟨_, h.hwConsume hr⟩ trivial
  | hwWrite slot nbytes id swap => exact iff_of_true ⟨_, h.hwWrite hr⟩ trivial

/-! ## The marks -/

/-- The slot is one of the `n` from `sw_index` on. -/
def Dest.Behind (r : Dest) (n slot : Nat) : Prop :=
  ∃ k < n, Ahead (r.nentries_mask + 1) r.sw_index k slot

/-- From `sw_index` on come the read index and `write_index`, which the hardware knows; what
it is at work on, or has marked, is behind the read index. -/
structure Dest.Ordered (r : Dest) (read : Nat) (live : List RecvBuf) : Prop where
  holds : r.Holds live
  read_le : read ≤ live.length
  read_ahead : Ahead (r.nentries_mask + 1) r.sw_index read r.read_index
  reg_eq : r.write_reg = r.write_index
  nodup : r.consumed.Nodup
  consumed : ∀ slot ∈ r.consumed,
    r.Behind read slot ∧ (r.base_addr_owner_space slot).nbytes = 0
  marked : ∀ slot, (r.base_addr_owner_space slot).nbytes ≠ 0 → r.Behind read slot

variable {read slot : Nat}

theorem not_behind {n k : Nat} (h : Ahead (r.nentries_mask + 1) r.sw_index k slot) (hk : n ≤ k) :
    ¬ r.Behind n slot := by
  rintro ⟨k', hk', hslot⟩
  have heq := h.unique hslot
  omega

theorem Dest.Ordered.post (h : r.Ordered read live) (hroom : live.length < r.nentries_mask)
    (ctx buffer : Nat) : ∃ live', (r.post ctx buffer).Ordered read live' := by
  have hfree := not_behind h.holds.queue.ahead h.read_le
  refine ⟨_, h.holds.post hroom ctx buffer, ?_, h.read_ahead, rfl, h.nodup, ?_, ?_⟩
  · rw [length_append]; exact Nat.le_add_right_of_le h.read_le
  · intro slot hslot
    obtain ⟨hbehind, hnbytes⟩ := h.consumed slot hslot
    have hne : slot ≠ r.write_index := by rintro rfl; exact hfree hbehind
    refine ⟨hbehind, ?_⟩
    rw [Dest.post_base, update_of_ne hne]; exact hnbytes
  · intro slot hnbytes
    rw [Dest.post_base] at hnbytes
    by_cases hne : slot = r.write_index
    · rw [hne, update_self] at hnbytes; exact absurd rfl hnbytes
    · rw [update_of_ne hne] at hnbytes; exact h.marked slot hnbytes

theorem Dest.Ordered.enqueue (h : r.Ordered read live) (hok : ¬ (r.fastpath = true ∧ r.Full))
    (ctx buffer : Nat) : ∃ live', (ce_recv_buf_enqueue r ctx buffer).2.Ordered read live' := by
  by_cases hfull : r.Full
  · have hfast : r.fastpath = false := by
      rw [← Bool.not_eq_true]; exact fun htrue => hok ⟨htrue, hfull⟩
    rw [enqueue_full hfull hfast]; exact ⟨live, h⟩
  · rw [h.holds.enqueue_room hfull]
    have hlt := h.holds.queue.ahead.1
    have hlen := mt h.holds.full_iff.mpr hfull
    exact h.post (by omega) ctx buffer

theorem Dest.Behind.take {n : Nat} (h : r.Behind n slot) (hmask : PowMask r.nentries_mask)
    (hne : slot ≠ r.sw_index) (hi : r.sw_index < r.nentries_mask + 1) (desc : DestDesc) :
    (r.take desc b).Behind (n - 1) slot := by
  obtain ⟨k, hk, hslot⟩ := h
  have hpos : k ≠ 0 := mt (hslot.eq_self_iff hi).mpr hne
  refine ⟨k - 1, by omega, ?_⟩
  rw [show k = k - 1 + 1 by omega] at hslot
  rw [Dest.take, hmask.incr]; exact hslot.shift

theorem Dest.Ordered.completed (h : r.Ordered read live) :
    ∃ read' live', (ce_completed_recv_next r).2.Ordered read' live' := by
  have hlt := h.holds.queue.index_lt
  by_cases hnbytes : (r.base_addr_owner_space r.sw_index).nbytes = 0
  · rw [ce_completed_recv_next, ce_completed_recv_next_nolock]
    rw [if_pos hnbytes]; exact ⟨read, live, h⟩
  · -- a marked slot is behind the read index, so there is a buffer to return
    obtain ⟨k, hk, -⟩ := h.marked _ hnbytes
    have hle := h.read_le
    obtain ⟨b, live, rfl⟩ := exists_cons_of_length_pos (show 0 < live.length by omega)
    rw [h.holds.completed_cons, if_neg hnbytes]
    rw [length_cons] at hle
    refine ⟨read - 1, live, h.holds.take _, by omega, ?_, h.reg_eq, h.nodup, ?_, ?_⟩
    · have hread := h.read_ahead
      rw [show read = read - 1 + 1 by omega] at hread
      rw [Dest.take, h.holds.mask.incr]; exact hread.shift
    · intro slot hslot
      obtain ⟨hbehind, hzero⟩ := h.consumed slot hslot
      have hne : slot ≠ r.sw_index := by rintro rfl; exact hnbytes hzero
      refine ⟨hbehind.take h.holds.mask hne hlt _, ?_⟩
      rw [Dest.take_base, update_of_ne hne]; exact hzero
    · intro slot hslot
      rw [Dest.take_base] at hslot
      by_cases hne : slot = r.sw_index
      · rw [hne, update_self] at hslot; exact absurd rfl hslot
      · rw [update_of_ne hne] at hslot; exact (h.marked slot hslot).take h.holds.mask hne hlt _

theorem Dest.Behind.mono {n m : Nat} (h : r.Behind n slot) (hnm : n ≤ m) : r.Behind m slot := by
  obtain ⟨k, hk, hslot⟩ := h
  exact ⟨k, by omega, hslot⟩

theorem Dest.Ordered.hwConsume (h : r.Ordered read live) (hr : r.hwConsume = some r') :
    r'.Ordered (read + 1) live := by
  have hholds := h.holds.hwConsume hr
  rw [Dest.hwConsume] at hr
  split at hr
  · cases hr
  · rename_i hne
    cases hr
    have hahead := h.holds.queue.ahead
    have hlt : read ≠ live.length := by
      rintro rfl
      rw [h.reg_eq] at hne; exact hne (h.read_ahead.2.symm.trans hahead.2)
    have hle := h.read_le
    have hbound := hahead.1
    have hfree := not_behind h.read_ahead le_rfl
    have hself : r.Behind (read + 1) r.read_index := ⟨read, Nat.lt_succ_self read, h.read_ahead⟩
    refine ⟨hholds, by omega, ?_, h.reg_eq, ?_, ?_, ?_⟩
    · rw [h.holds.mask.incr]; exact h.read_ahead.next (by omega)
    · refine nodup_cons.mpr ⟨fun hmem => ?_, h.nodup⟩; exact hfree (h.consumed _ hmem).1
    · intro slot hslot
      rcases mem_cons.mp hslot with rfl | hmem
      · exact ⟨hself, not_not.mp (mt (h.marked r.read_index) hfree)⟩
      · obtain ⟨hbehind, hzero⟩ := h.consumed slot hmem
        exact ⟨hbehind.mono (Nat.le_succ read), hzero⟩
    · intro slot hslot; exact (h.marked slot hslot).mono (Nat.le_succ read)

theorem Dest.Ordered.hwWrite {nbytes id : Nat} {swap : Bool} (h : r.Ordered read live)
    (hr : r.hwWrite slot nbytes id swap = some r') : r'.Ordered read live := by
  have hholds := h.holds.hwWrite hr
  rw [Dest.hwWrite] at hr
  split at hr
  · rename_i hslot
    cases hr
    refine ⟨hholds, h.read_le, h.read_ahead, h.reg_eq, h.nodup.erase slot, ?_, ?_⟩
    · intro j hj
      obtain ⟨hne, hmem⟩ := h.nodup.mem_erase_iff.mp hj
      obtain ⟨hbehind, hzero⟩ := h.consumed j hmem
      refine ⟨hbehind, ?_⟩
      dsimp only
      rw [update_of_ne hne]; exact hzero
    · intro j hj
      by_cases hne : j = slot
      · exact hne ▸ (h.consumed slot hslot.1).1
      · dsimp only at hj
        rw [update_of_ne hne] at hj; exact h.marked j hj
  · cases hr

/-- The calls but for the revoke, and the post to a full ring of a fast path engine. -/
def destPlain (r : Dest) : DestOp → Prop
  | .enqueue .. => ¬ (r.fastpath = true ∧ r.Full)
  | .revoke => False
  | _ => True

instance (r : Dest) (op : DestOp) : Decidable (destPlain r op) := by
  unfold destPlain
  split <;> infer_instance

theorem Dest.Ordered.step (h : r.Ordered read live) {op : DestOp} (hop : destPlain r op)
    (hr : destStep r op = some r') : ∃ read' live', r'.Ordered read' live' := by
  cases op with
  | enqueue ctx buffer => cases hr; exact ⟨read, h.enqueue hop ctx buffer⟩
  | completed => cases hr; exact h.completed
  | revoke => exact hop.elim
  | hwConsume => exact ⟨_, _, h.hwConsume hr⟩
  | hwWrite slot nbytes id swap => exact ⟨_, _, h.hwWrite hr⟩

end Destination

/-! ## The engine -/

def CE.Matched (c : CE) : Prop := c.src.Matched ∧ c.dest.Matched

def stepOk (c : CE) : Op → Prop
  | .src op => srcOk c.src op
  | .dest op => destOk c.dest op

instance (c : CE) : (op : Op) → Decidable (stepOk c op)
  | .src op => inferInstanceAs (Decidable (srcOk c.src op))
  | .dest op => inferInstanceAs (Decidable (destOk c.dest op))

def plainOk (c : CE) : Op → Prop
  | .src op => op.Plain
  | .dest op => destPlain c.dest op

instance (c : CE) : (op : Op) → Decidable (plainOk c op)
  | .src op => inferInstanceAs (Decidable op.Plain)
  | .dest op => inferInstanceAs (Decidable (destPlain c.dest op))

section Engine

variable {c c' : CE} {op : Op} {es : List Op}

theorem step_cases (h : step c op = some c') :
    (∃ op' r, op = .src op' ∧ srcStep c.src op' = some r ∧ c' = { c with src := r }) ∨
      (∃ op' r, op = .dest op' ∧ destStep c.dest op' = some r ∧ c' = { c with dest := r }) := by
  cases op with
  | src op' =>
    obtain ⟨r, hr, rfl⟩ := Option.map_eq_some_iff.mp h
    exact .inl ⟨op', r, rfl, hr, rfl⟩
  | dest op' =>
    obtain ⟨r, hr, rfl⟩ := Option.map_eq_some_iff.mp h
    exact .inr ⟨op', r, rfl, hr, rfl⟩

theorem CE.Matched.step_iff (h : c.Matched) (hstep : step c op = some c') :
    c'.Matched ↔ stepOk c op := by
  obtain ⟨⟨slive, hsrc⟩, ⟨dlive, hdest⟩⟩ := h
  rcases step_cases hstep with ⟨op', r, rfl, hr, rfl⟩ | ⟨op', r, rfl, hr, rfl⟩
  · rw [CE.Matched, and_iff_left ⟨dlive, hdest⟩]; exact hsrc.step_iff hr
  · rw [CE.Matched, and_iff_right ⟨slive, hsrc⟩]; exact hdest.step_iff hr

def CE.Ordered (c : CE) : Prop :=
  (∃ hw read reg live, c.src.Ordered (fun _ => true) hw read reg live) ∧ ∃ read live,
    c.dest.Ordered read live

theorem CE.Ordered.matched (h : c.Ordered) : c.Matched := by
  obtain ⟨⟨_, _, _, slive, hsrc⟩, ⟨_, dlive, hdest⟩⟩ := h
  exact ⟨⟨slive, hsrc.holds⟩, ⟨dlive, hdest.holds⟩⟩

theorem CE.Ordered.step (h : c.Ordered) (hok : plainOk c op) (hstep : step c op = some c') :
    c'.Ordered := by
  obtain ⟨hsrc, hdest⟩ := h
  rcases step_cases hstep with ⟨op', r, rfl, hr, rfl⟩ | ⟨op', r, rfl, hr, rfl⟩
  · obtain ⟨_, _, _, _, hordered⟩ := hsrc; exact ⟨hordered.step hok hr, hdest⟩
  · obtain ⟨_, _, hordered⟩ := hdest; exact ⟨hsrc, hordered.step hok hr⟩

theorem ordered_init {sbits sstart dbits dstart : Nat} (attr_flags : Nat) (fastpath : Bool)
    (hsbits : sbits ≤ 31) (hsstart : sstart < 2 ^ sbits) (hdbits : dbits ≤ 31)
    (hdstart : dstart < 2 ^ dbits) :
    CE.Ordered ⟨Src.init attr_flags sbits sstart, Dest.init fastpath dbits dstart⟩ := by
  have hd : dstart < 2 ^ dbits - 1 + 1 := by omega
  refine ⟨⟨0, 0, 0, [], src_ordered_init hsbits hsstart⟩, ?_⟩
  exact ⟨0, [], ⟨powMask_init hdbits, queued_nil hd⟩, le_rfl, ahead_zero hd, rfl, nodup_nil,
    nofun, fun slot hslot => absurd rfl hslot⟩

/-! ### Getting everything back -/

theorem cancel_all {live : List Posted} (h : c.src.Holds (fun _ => true) live) :
    ∃ es c', run (guarded stepOk step) c es = some c' ∧ c'.dest = c.dest ∧
      c'.src.posted = c.src.posted ∧ c'.src.returned = c.src.posted := by
  induction live generalizing c with
  | nil =>
    have hposted := h.shadow.posted_eq
    rw [append_nil] at hposted; exact ⟨[], c, rfl, rfl, rfl, hposted.symm⟩
  | cons x live ih =>
    have hsame : (ce_cancel_send_next c.src).2.posted = c.src.posted := by
      rw [ce_cancel_send_next]
      split
      · rfl
      · rfl
    obtain ⟨es, c', hrun, hdest, hposted, hreturned⟩ :=
      ih (c := { c with src := (ce_cancel_send_next c.src).2 }) h.cancel
    refine ⟨.src .cancel :: es, c', ?_, hdest, hposted.trans hsame, hreturned.trans hsame⟩
    exact run_cons_eq_some.mpr ⟨_, guarded_eq_some.mpr ⟨trivial, rfl⟩, hrun⟩

theorem revoke_all {live : List RecvBuf} (h : c.dest.Holds live) :
    ∃ es c', run (guarded stepOk step) c es = some c' ∧ c'.src = c.src ∧
      c'.dest.posted = c.dest.posted ∧ c'.dest.returned = c.dest.posted := by
  induction live generalizing c with
  | nil =>
    have hposted := h.queue.posted_eq
    rw [append_nil] at hposted; exact ⟨[], c, rfl, rfl, rfl, hposted.symm⟩
  | cons b live ih =>
    have hsame : (ce_revoke_recv_next c.dest).2.posted = c.dest.posted := by
      rw [ce_revoke_recv_next]
      split
      · rfl
      · rfl
    obtain ⟨es, c', hrun, hsrc, hposted, hreturned⟩ :=
      ih (c := { c with dest := (ce_revoke_recv_next c.dest).2 }) h.revoke
    refine ⟨.dest .revoke :: es, c', ?_, hsrc, hposted.trans hsame, hreturned.trans hsame⟩
    exact run_cons_eq_some.mpr ⟨_, guarded_eq_some.mpr ⟨trivial, rfl⟩, hrun⟩

/-- All that was posted can still be had back, each entry once and in order. -/
def CE.Recoverable (c : CE) : Prop :=
  ∃ es c', run (guarded stepOk step) c es = some c' ∧
    c'.src.posted = c.src.posted ∧ c'.src.returned = c.src.posted ∧
    c'.dest.posted = c.dest.posted ∧ c'.dest.returned = c.dest.posted

theorem CE.Matched.recoverable (h : c.Matched) : c.Recoverable := by
  obtain ⟨⟨slive, hsrc⟩, ⟨dlive, hdest⟩⟩ := h
  obtain ⟨es, c₁, hrun, hsame, hsposted, hsreturned⟩ := cancel_all hsrc
  rw [← hsame] at hdest
  obtain ⟨es', c', hrun', hsame', hdposted, hdreturned⟩ := revoke_all hdest
  refine ⟨es ++ es', c', run_append hrun hrun', ?_, ?_, ?_, ?_⟩
  · rw [hsame', hsposted]
  · rw [hsame', hsreturned]
  · rw [hdposted, hsame]
  · rw [hdreturned, hsame]

/-! ### Every run -/

/-- **The rings of a copy engine.** In every run of an engine that is set up with rings of a power
of 2 whose calls meet `stepOk`, what was posted is returned once, in order and with its context,
the rest stands in the ring, which keeps one slot free, and can still be had back; a call that
does not meet `stepOk` breaks this. Without cancels and revokes every call meets it, but for the
post to the full ring of a fast path engine, which goes to the free slot. -/
theorem rings_return_posted (attr_flags sbits sstart dbits dstart : Nat) (fastpath : Bool)
    (hsbits : sbits ≤ 31) (hsstart : sstart < 2 ^ sbits) (hdbits : dbits ≤ 31)
    (hdstart : dstart < 2 ^ dbits) :
    let c₀ : CE := ⟨Src.init attr_flags sbits sstart, Dest.init fastpath dbits dstart⟩
    (∀ es c, run (guarded stepOk step) c₀ es = some c →
      c.Matched ∧ c.Recoverable ∧
        (∀ op c', step c op = some c' → (c'.Matched ↔ stepOk c op)) ∧
        (c.dest.fastpath = true → c.dest.Full → ∀ ctx buffer,
          ce_recv_buf_enqueue c.dest ctx buffer = (.success, c.dest.spare ctx buffer))) ∧
      (∀ es c, run (guarded plainOk step) c₀ es = some c → c.Matched) ∧
      (∀ es c, run step c₀ es = some c → ∀ ctx id sl, sl.items ≠ [] →
        ce_sendlist_send c.src ctx sl id = some (.enomem, c.src) ∨
          ∃ r, ce_sendlist_send c.src ctx sl id = some (.success, r) ∧
            r.posted = c.src.posted ++ itemsPosted ctx id sl.items) := by
  have hinit := ordered_init attr_flags fastpath hsbits hsstart hdbits hdstart
  refine ⟨fun es c hrun => ?_, fun es c hrun => ?_, fun es c hrun => ?_⟩
  · have hmatched : c.Matched := by
      refine guarded_run_invariant (fun s e s' hs hok hstep => ?_) hinit.matched hrun
      exact (hs.step_iff hstep).mpr hok
    refine ⟨hmatched, hmatched.recoverable, fun op c' hstep => hmatched.step_iff hstep, ?_⟩
    intro hfast hfull ctx buffer
    obtain ⟨live, hlive⟩ := hmatched.2
    exact hlive.enqueue_fast hfull hfast
  · have hordered : c.Ordered :=
      guarded_run_invariant (fun s e s' hs hok hstep => hs.step hok hstep) hinit hrun
    exact hordered.matched
  · intro ctx id sl hne
    have hshaped : c.src.Shaped := by
      refine run_invariant (I := fun c => c.src.Shaped) (fun s e s' hs hstep => ?_) ?_ hrun
      · rcases step_cases hstep with ⟨op', r, -, hr, rfl⟩ | ⟨op', r, -, -, rfl⟩
        · exact hs.step hr
        · exact hs
      · obtain ⟨⟨slive, hsrc⟩, -⟩ := hinit.matched
        exact ⟨hsrc.mask, hsrc.shadow.index_lt, hsrc.shadow.ahead.lt⟩
    obtain ⟨k, hk⟩ := hshaped.spaced
    rcases hk.sendlist ctx id sl hne with hnone | ⟨r, hsome, hsent⟩
    · exact .inl hnone
    · exact .inr ⟨r, hsome, hsent.posted⟩

/-- Three sends and two buffers, which go around the ends of the rings. -/
def around : List Op :=
  [.src (.send 7 ⟨0x1000, 64, 0, 0⟩ 3), .src (.send 8 ⟨0x2000, 65, 0, 0⟩ 4), .src (.hwRead 0),
    .src .completed, .src (.send 9 ⟨0x3000, 66, 0, 0⟩ 5), .src (.hwRead 0), .src (.hwRead 0),
    .src .completed, .dest (.enqueue 1 0x4000), .dest (.enqueue 2 0x5000), .dest .hwConsume,
    .dest (.hwWrite 3 64 0 false), .dest .completed]

theorem rings_return_posted_send :
    ∃ c, run (guarded stepOk step) ⟨Src.init 0 2 2, Dest.init false 2 3⟩ around = some c ∧
      c.src.sw_index = 0 ∧
      c.src.returned = [⟨.send, 7, 0x1000, 64, 3⟩, ⟨.send, 8, 0x2000, 65, 4⟩] ∧
      c.dest.sw_index = 0 ∧ c.dest.returned = [⟨1, 0x4000⟩] ∧ c.Matched ∧ c.Recoverable := by
  have hall := rings_return_posted 0 2 2 2 3 false (by decide) (by decide) (by decide) (by decide)
  obtain ⟨c, hc, h⟩ : ∃ c,
      run (guarded stepOk step) ⟨Src.init 0 2 2, Dest.init false 2 3⟩ around = some c ∧
      c.src.sw_index = 0 ∧
      c.src.returned = [⟨.send, 7, 0x1000, 64, 3⟩, ⟨.send, 8, 0x2000, 65, 4⟩] ∧
      c.dest.sw_index = 0 ∧ c.dest.returned = [⟨1, 0x4000⟩] :=
    ⟨_, rfl, by decide, by decide, by decide, by decide⟩
  obtain ⟨hmatched, hrecoverable, -⟩ := hall.1 around c hc
  exact ⟨c, hc, h.1, h.2.1, h.2.2.1, h.2.2.2, hmatched, hrecoverable⟩

/-- More has come back than has gone in, or more is in the ring than fits between the
indices. -/
theorem not_matched_of_length (h : c.src.posted.length < c.src.returned.length ∨
      c.dest.posted.length < c.dest.returned.length ∨
      c.dest.returned.length + c.dest.nentries_mask < c.dest.posted.length) : ¬ c.Matched := by
  rintro ⟨⟨slive, hsrc⟩, ⟨dlive, hdest⟩⟩
  have hs := hsrc.length_eq
  have hd := hdest.length_eq
  have hroom := hdest.queue.ahead.1
  omega

/-- Two buffers in the fast path ring of two slots; a completion after a cancel, of a source
ring that has nothing; and one of a destination ring that has nothing, in a slot that was
marked when its buffer was revoked. -/
theorem cancelled_completed :
    (∃ c, run step ⟨Src.init 0 1 0, Dest.init true 1 0⟩
        [.dest (.enqueue 1 0x1000), .dest (.enqueue 2 0x2000)] = some c ∧
      c.dest.posted = [⟨1, 0x1000⟩, ⟨2, 0x2000⟩] ∧ c.dest.returned = [] ∧ ¬ c.Matched) ∧
    (∃ c, run step ⟨Src.init 0 1 0, Dest.init false 1 0⟩
        [.src (.send 7 ⟨0x1000, 64, 0, 0⟩ 3), .src .cancel, .src .completed] = some c ∧
      c.src.posted = [⟨.send, 7, 0x1000, 64, 3⟩] ∧
      c.src.returned = [⟨.send, 7, 0x1000, 64, 3⟩, ⟨.send, 0, 0, 0, 0⟩] ∧ ¬ c.Matched) ∧
    (∃ c, run step ⟨Src.init 0 1 0, Dest.init false 1 0⟩
        [.dest (.enqueue 1 0x1000), .dest .hwConsume, .dest (.hwWrite 0 64 0 false), .dest .revoke,
          .dest (.enqueue 2 0x2000), .dest .hwConsume, .dest (.hwWrite 1 64 0 false),
          .dest .completed, .dest .completed] = some c ∧
      c.dest.posted = [⟨1, 0x1000⟩, ⟨2, 0x2000⟩] ∧
      c.dest.returned = [⟨1, 0x1000⟩, ⟨2, 0x2000⟩, ⟨0, 0x1000⟩] ∧ ¬ c.Matched) := by
  refine ⟨⟨_, rfl, by decide, by decide, not_matched_of_length ?_⟩,
    ⟨_, rfl, by decide, by decide, not_matched_of_length ?_⟩,
    ⟨_, rfl, by decide, by decide, not_matched_of_length ?_⟩⟩
  · exact .inr (.inr (by decide))
  · exact .inl (by decide)
  · exact .inr (.inl (by decide))

end Engine

end Qcacld.CeRing
