/-
Receiving messages over SDIO: `hif_sdio_recv.c`.

The mailbox is a stream of bytes of which each read that succeeds takes the next (`Bus`). What the
memory of a bundle buffer held before the read is part of the input, since the copy can go past what
was read.
-/
import Qcacld.Lib.DepthQueue
import Mathlib.Algebra.Order.Ring.Int
import Mathlib.Algebra.BigOperators.Group.List.Basic

set_option autoImplicit false

namespace Qcacld.SdioRecv

open Lib

/-! ## The device and its packets -/

def HTC_MAX_MSG_PER_BUNDLE : Nat := 16
def HTC_HDR_LENGTH : UInt32 := 8
def HTC_MAX_PAYLOAD_LENGTH : UInt32 := 4096 - HTC_HDR_LENGTH
def HTC_FLAGS_RECV_BUNDLE_CNT_MASK : UInt32 := 0xF0
def HTC_FLAGS_RECV_BUNDLE_CNT_SHIFT : UInt32 := 4
def ENDPOINT_MAX : UInt32 := 9
def HIF_SDIO_RX_BUFFER_SIZE : UInt32 := 1792
def HIF_SDIO_RX_DATA_OFFSET : UInt32 := 64

inductive A_STATUS where
  | ok
  | error
  | einval
  | eproto
  | no_resource
deriving DecidableEq

/-- The block size of the mailbox is a power of two, as the setup of the device asserts. -/
structure Dev where
  BlockSize : UInt32
  TargetCreditSize : Nat
  pow_two : ∃ k < 32, BlockSize.toNat = 2 ^ k

def Dev.BlockMask (pDev : Dev) : UInt32 := pDev.BlockSize - 1

def DEV_CALC_RECV_PADDED_LEN (pDev : Dev) (length : UInt32) : UInt32 :=
  (length + pDev.BlockMask) &&& ~~~pDev.BlockMask

/-- The bits of HTCRxFlags, those that are ever set. -/
structure RxFlags where
  ignore_lookahead : Bool
  refresh_hdr : Bool
  part_of_bundle : Bool
deriving DecidableEq

structure RxPacket where
  id : Nat
  /-- The bytes of the buffer. -/
  pBuffer : List UInt8
  BufferLength : UInt32
  ActualLength : UInt32
  Endpoint : UInt32
  Status : A_STATUS
  ExpectedHdr : UInt32
  HTCRxFlags : RxFlags
deriving DecidableEq

abbrev Queue := DepthQueue RxPacket

/-- The bytes of its message that a packet fetches, the padding included. -/
def paddedLength (pDev : Dev) (p : RxPacket) : Nat :=
  (DEV_CALC_RECV_PADDED_LEN pDev p.ActualLength).toNat

/-! ## Getting packet buffers -/

def EndpointID (lookAhead : UInt32) : UInt32 := lookAhead &&& 0xFF
def Flags (lookAhead : UInt32) : UInt32 := (lookAhead >>> 8) &&& 0xFF
def PayloadLen (lookAhead : UInt32) : UInt32 := lookAhead >>> 16

def numMessages (lookAhead : UInt32) : Nat :=
  if Flags lookAhead &&& HTC_FLAGS_RECV_BUNDLE_CNT_MASK = 0 then 1
  else
    ((Flags lookAhead &&& HTC_FLAGS_RECV_BUNDLE_CNT_MASK) >>>
      HTC_FLAGS_RECV_BUNDLE_CNT_SHIFT).toNat + 1

/-- A packet with a buffer that holds the bytes. -/
def hif_dev_alloc_rx_buffer (id : Nat) (bytes : List UInt8) : RxPacket :=
  { id := id
    pBuffer := bytes
    BufferLength := HIF_SDIO_RX_BUFFER_SIZE + HIF_SDIO_RX_DATA_OFFSET
    ActualLength := 0
    Endpoint := 0
    Status := .ok
    ExpectedHdr := 0
    HTCRxFlags := ⟨false, false, false⟩ }

def fullLength (pDev : Dev) (lookAhead : UInt32) : UInt32 :=
  DEV_CALC_RECV_PADDED_LEN pDev (PayloadLen lookAhead + HTC_HDR_LENGTH)

def preparePacket (lookAhead : UInt32) (j : Nat) (p : RxPacket) : RxPacket :=
  { p with
    ActualLength := PayloadLen lookAhead + HTC_HDR_LENGTH
    Endpoint := EndpointID lookAhead
    ExpectedHdr := if 0 < j then 0xFFFFFFFF else lookAhead
    HTCRxFlags := { p.HTCRxFlags with refresh_hdr := decide (0 < j) } }

/-- The loop over the messages of one look-ahead, from message `j` on: the status, the buffers
that are left and the packets. -/
def allocMessages (pDev : Dev) (lookAhead : UInt32) :
    Nat → Nat → List (List UInt8) → Queue → A_STATUS × List (List UInt8) × Queue
  | 0, _, buffers, pQueue => (.ok, buffers, pQueue)
  | _ + 1, _, [], pQueue => (.no_resource, [], pQueue)
  | n + 1, j, bytes :: buffers, pQueue =>
    let p := hif_dev_alloc_rx_buffer pQueue.items.length bytes
    if p.BufferLength < fullLength pDev lookAhead then
      (.eproto, buffers, pQueue.enqueue p)
    else allocMessages pDev lookAhead n (j + 1) buffers (pQueue.enqueue (preparePacket lookAhead j p))

def allocLookAheads (pDev : Dev) :
    List UInt32 → List (List UInt8) → Queue → A_STATUS × Queue
  | [], _, pQueue => (.ok, pQueue)
  | lookAhead :: LookAheads, buffers, pQueue =>
    if ENDPOINT_MAX ≤ EndpointID lookAhead then (.eproto, pQueue)
    else if HTC_MAX_PAYLOAD_LENGTH < PayloadLen lookAhead then (.eproto, pQueue)
    else
      match allocMessages pDev lookAhead (numMessages lookAhead) 0 buffers pQueue with
      | (.ok, buffers, pQueue) => allocLookAheads pDev LookAheads buffers pQueue
      | (.no_resource, _, pQueue) => (.ok, pQueue)
      | (status, _, pQueue) => (status, pQueue)

/-- After an error the packets are taken off the queue. -/
def hif_dev_alloc_and_prepare_rx_packets (pDev : Dev) (LookAheads : List UInt32)
    (buffers : List (List UInt8)) : A_STATUS × Queue :=
  let (status, pQueue) := allocLookAheads pDev LookAheads buffers .init
  (status, if status = .ok then pQueue else .init)

/-! ## The bus -/

structure Bus where
  /-- The bytes in the mailbox. -/
  stream : List UInt8
  /-- Whether `hif_read_write` returns A_OK, read by read; true after the last. -/
  reads : List Bool
  /-- Whether `allocate_htc_bundle_packet` returns a packet; true after the last. -/
  bundle_packets : List Bool
  /-- The memory from the start of each bundle buffer on, before the read. -/
  memory : List (List UInt8)
  /-- The lengths of the bundle transfers; no function reads them. -/
  transfers : List Nat

def hif_read_write (length : Nat) (bus : Bus) : Option (List UInt8) × Bus :=
  if bus.reads.headD true then
    (some (bus.stream.take length),
      { bus with stream := bus.stream.drop length, reads := bus.reads.tail })
  else (none, { bus with reads := bus.reads.tail })

def Bus.startBundle (bus : Bus) (totalLength : Nat) : Bus :=
  { bus with
    bundle_packets := bus.bundle_packets.tail
    memory := bus.memory.tail
    transfers := bus.transfers ++ [totalLength] }

def overwrite (bytes memory : List UInt8) : List UInt8 := bytes ++ memory.drop bytes.length

/-! ## Fetching -/

/-- What the loop over the receive queue moves to the completion queue. -/
structure Gathered where
  recvPktQueue : Queue
  syncCompletionQueue : Queue
  pktsFetched : Nat
  totalLength : Nat

/-- The look-ahead of a packet that is not the last one is not the next. -/
def ignoreLookAhead (ignore : Bool) (p : RxPacket) : RxPacket :=
  { p with
    HTCRxFlags :=
      { p.HTCRxFlags with ignore_lookahead := p.HTCRxFlags.ignore_lookahead || ignore } }

def partOfBundle (p : RxPacket) : RxPacket :=
  { p with HTCRxFlags := { p.HTCRxFlags with part_of_bundle := true } }

/-- The loop of `hif_dev_issue_recv_packet_bundle` over the receive queue, of `n` rounds at
most. The difference of the space and the padded length is unsigned, as the latter is. -/
def gatherBundle (pDev : Dev) (PartialBundle : Bool) : Nat → UInt32 → Gathered → Gathered
  | 0, _, g => g
  | n + 1, bundleSpaceRemaining, g =>
    match g.recvPktQueue.dequeue with
    | none => g
    | some (p, recvPktQueue) =>
      let padded := DEV_CALC_RECV_PADDED_LEN pDev p.ActualLength
      if bundleSpaceRemaining - padded < 0 then
        { g with recvPktQueue := recvPktQueue.enqueueToHead p }
      else
        gatherBundle pDev PartialBundle n (bundleSpaceRemaining - padded)
          { recvPktQueue := recvPktQueue
            syncCompletionQueue :=
              g.syncCompletionQueue.enqueue
                (partOfBundle
                  (ignoreLookAhead (PartialBundle || decide (0 < recvPktQueue.Depth)) p))
            pktsFetched := g.pktsFetched + 1
            totalLength := g.totalLength + padded.toNat }

def copyOut (pDev : Dev) : List UInt8 → List RxPacket → List RxPacket
  | _, [] => []
  | pBuffer, p :: ps =>
    { p with pBuffer := overwrite (pBuffer.take (paddedLength pDev p)) p.pBuffer } ::
      copyOut pDev (pBuffer.drop (paddedLength pDev p)) ps

structure Fetch where
  recvPktQueue : Queue
  syncCompletedPktsQueue : Queue
  partialBundle : Bool
  bus : Bus

def bundleSpace (pDev : Dev) : Nat := HTC_MAX_MSG_PER_BUNDLE * pDev.TargetCreditSize

/-- Fetches a bundle: the status, the number of packets and the state. There is no result when
the bundle packet is NULL, which is not checked for. -/
def hif_dev_issue_recv_packet_bundle (pDev : Dev) (f : Fetch) : Option (A_STATUS × Nat × Fetch) :=
  if f.bus.bundle_packets.headD true then
    let PartialBundle :=
      f.partialBundle || decide (0 < f.recvPktQueue.Depth - HTC_MAX_MSG_PER_BUNDLE)
    let g := gatherBundle pDev PartialBundle HTC_MAX_MSG_PER_BUNDLE
      (UInt32.ofNat (bundleSpace pDev)) ⟨f.recvPktQueue, f.syncCompletedPktsQueue, 0, 0⟩
    let (bytes, bus) := hif_read_write g.totalLength (f.bus.startBundle g.totalLength)
    let f' : Fetch :=
      { f with
        recvPktQueue := g.recvPktQueue
        syncCompletedPktsQueue := g.syncCompletionQueue
        bus := bus }
    match bytes with
    | none => some (.error, 0, f')
    | some bytes =>
      -- the walk starts at the head of the completion queue
      let items := copyOut pDev (overwrite bytes (f.bus.memory.headD [])) g.syncCompletionQueue.items
      some (.ok, g.pktsFetched,
        { f' with syncCompletedPktsQueue := ⟨items, g.syncCompletionQueue.Depth⟩ })
  else none

def hif_dev_recv_packet (pDev : Dev) (p : RxPacket) (bus : Bus) : A_STATUS × RxPacket × Bus :=
  if p.BufferLength < DEV_CALC_RECV_PADDED_LEN pDev p.ActualLength then (.einval, p, bus)
  else
    match hif_read_write (paddedLength pDev p) bus with
    | (none, bus) => (.error, { p with Status := .error }, bus)
    | (some bytes, bus) =>
      (.ok, { p with Status := .ok, pBuffer := overwrite bytes p.pBuffer }, bus)

def fetchSingle (pDev : Dev) (f : Fetch) : A_STATUS × Fetch :=
  match f.recvPktQueue.dequeue with
  | none => (.ok, f)
  | some (p, recvPktQueue) =>
    let (status, p, bus) :=
      hif_dev_recv_packet pDev (ignoreLookAhead (decide (0 < recvPktQueue.Depth)) p) f.bus
    (status,
      { f with
        recvPktQueue := recvPktQueue
        syncCompletedPktsQueue :=
          if status = .ok then f.syncCompletedPktsQueue.enqueue p else f.syncCompletedPktsQueue
        bus := bus })

def fetchRound (pDev : Dev) (f : Fetch) : Option (A_STATUS × Fetch) :=
  if 1 < f.recvPktQueue.Depth then
    match hif_dev_issue_recv_packet_bundle pDev f with
    | none => none
    | some (.ok, pktsFetched, f) =>
      let f := { f with partialBundle := f.partialBundle || decide (f.recvPktQueue.Depth ≠ 0) }
      if pktsFetched = 0 then some (fetchSingle pDev f) else some (.ok, f)
    | some (status, _, f) => some (status, f)
  else some (fetchSingle pDev f)

def fetchLoop (pDev : Dev) : Nat → Fetch → Option (A_STATUS × Fetch)
  | 0, f => some (.ok, f)
  | n + 1, f =>
    if f.recvPktQueue.Depth = 0 then some (.ok, f)
    else
      match fetchRound pDev f with
      | some (.ok, f) => fetchLoop pDev n f
      | r => r

/-- The part of `hif_dev_recv_message_pending_handler` that fetches the packets. -/
def fetch (pDev : Dev) (recvPktQueue : Queue) (bus : Bus) : Option (A_STATUS × Fetch) :=
  fetchLoop pDev recvPktQueue.items.length ⟨recvPktQueue, .init, false, bus⟩

open List Option

/-! Which lists are fetched right: the check that a packet fits the rest of the bundle buffer never
fails. -/

variable {pDev : Dev}

/-! ## The packets that are accepted -/

/-- A message that reaches into a block has a whole block at least: of the sum of the length
and the mask, a bit above the mask is set. -/
theorem padded_pos {length : UInt32} (hpos : 0 < length.toNat) (hle : length.toNat ≤ 4096) :
    0 < (DEV_CALC_RECV_PADDED_LEN pDev length).toNat := by
  obtain ⟨k, hk, hpow⟩ := pDev.pow_two
  have hsize : 2 ^ k ≤ 2 ^ 31 := Nat.pow_le_pow_right (by omega) (by omega)
  have hone : 1 ≤ 2 ^ k := Nat.one_le_two_pow
  have hmask : pDev.BlockMask.toNat = 2 ^ k - 1 := by
    rw [Dev.BlockMask, UInt32.toNat_sub, hpow]
    simp only [UInt32.toNat_one]
    omega
  have hsum : (length + pDev.BlockMask).toNat = length.toNat + (2 ^ k - 1) := by
    rw [UInt32.toNat_add, hmask]; omega
  -- of the sum, a bit at or above that of the block size is set
  have hge : 2 ^ k ≤ (length + pDev.BlockMask).toNat := by omega
  obtain ⟨i, hi, hbit⟩ := Nat.exists_ge_and_testBit_of_ge_two_pow hge
  have hi32 : i < 32 := by
    by_contra hcon
    have hlt : (length + pDev.BlockMask).toNat < 2 ^ i :=
      Nat.lt_of_lt_of_le (UInt32.toNat_lt _) (Nat.pow_le_pow_right (by omega) (by omega))
    rw [Nat.testBit_lt_two_pow hlt] at hbit
    cases hbit
  have hnot : (pDev.BlockMask.toNat).testBit i = false := by
    apply Nat.testBit_lt_two_pow
    have : 2 ^ k ≤ 2 ^ i := Nat.pow_le_pow_right (by omega) hi
    omega
  have hset : (DEV_CALC_RECV_PADDED_LEN pDev length).toNat.testBit i = true := by
    have hcompl : (~~~pDev.BlockMask).toNat.testBit i = true := by
      rw [← UInt32.toNat_toBitVec, UInt32.toBitVec_not, BitVec.testBit_toNat, BitVec.getLsbD_not,
        ← BitVec.testBit_toNat, UInt32.toNat_toBitVec, hnot, decide_eq_true hi32]
      rfl
    rw [DEV_CALC_RECV_PADDED_LEN, UInt32.toNat_and, Nat.testBit_and, hbit, hcompl]; rfl
  exact Nat.pos_of_ne_zero fun h0 => by simp [h0] at hset

structure Prepared (pDev : Dev) (p : RxPacket) : Prop where
  pos : 0 < paddedLength pDev p
  fits : ¬p.BufferLength < DEV_CALC_RECV_PADDED_LEN pDev p.ActualLength

structure Accepted (pDev : Dev) (q : Queue) : Prop where
  sound : q.Sound
  ids : q.items.map RxPacket.id = range q.items.length
  prepared : ∀ p ∈ q.items, Prepared pDev p

theorem accepted_init (pDev : Dev) : Accepted pDev .init where
  sound := DepthQueue.sound_init
  ids := rfl
  prepared := nofun

theorem Accepted.enqueue {q : Queue} {p : RxPacket} (hq : Accepted pDev q)
    (hid : p.id = q.items.length) (hp : Prepared pDev p) : Accepted pDev (q.enqueue p) where
  sound := hq.sound.enqueue
  ids := by
    rw [DepthQueue.enqueue_items, map_append, hq.ids, length_append,
      length_singleton, range_succ, map_singleton, hid]
  prepared := by
    intro p' hp'
    rcases mem_append.mp hp' with hmem | hmem
    · exact hq.prepared p' hmem
    · rw [mem_singleton.mp hmem]; exact hp

theorem preparePacket_prepared {lookAhead : UInt32} {j id : Nat} {bytes : List UInt8}
    (hlen : ¬HTC_MAX_PAYLOAD_LENGTH < PayloadLen lookAhead)
    (hfits : ¬(hif_dev_alloc_rx_buffer id bytes).BufferLength < fullLength pDev lookAhead) :
    Prepared pDev (preparePacket lookAhead j (hif_dev_alloc_rx_buffer id bytes)) := by
  have hle : (PayloadLen lookAhead).toNat ≤ 4088 := Nat.not_lt.mp hlen
  have hsum : (PayloadLen lookAhead + HTC_HDR_LENGTH).toNat = (PayloadLen lookAhead).toNat + 8 := by
    show ((PayloadLen lookAhead).toNat + 8) % 2 ^ 32 = _
    omega
  refine ⟨padded_pos ?_ ?_, hfits⟩
  · show 0 < (PayloadLen lookAhead + HTC_HDR_LENGTH).toNat; omega
  · show (PayloadLen lookAhead + HTC_HDR_LENGTH).toNat ≤ 4096; omega

theorem allocMessages_accepted {lookAhead : UInt32}
    (hlen : ¬HTC_MAX_PAYLOAD_LENGTH < PayloadLen lookAhead) (n : Nat) :
    ∀ (j : Nat) (buffers : List (List UInt8)) (q : Queue), Accepted pDev q →
      (allocMessages pDev lookAhead n j buffers q).1 ≠ .eproto →
      Accepted pDev (allocMessages pDev lookAhead n j buffers q).2.2 := by
  induction n with
  | zero => intro j buffers q hq _; exact hq
  | succ n ih =>
    intro j buffers q hq hok
    cases buffers with
    | nil => exact hq
    | cons bytes buffers =>
      unfold allocMessages at hok ⊢
      dsimp only at hok ⊢
      split at hok
      · exact absurd rfl hok
      · rename_i hfits
        rw [if_neg hfits]
        exact ih _ _ _ (hq.enqueue rfl (preparePacket_prepared hlen hfits)) hok

theorem allocMessages_status (lookAhead : UInt32) (n : Nat) :
    ∀ (j : Nat) (buffers : List (List UInt8)) (q : Queue),
      (allocMessages pDev lookAhead n j buffers q).1 = .ok ∨
      (allocMessages pDev lookAhead n j buffers q).1 = .no_resource ∨
      (allocMessages pDev lookAhead n j buffers q).1 = .eproto := by
  induction n with
  | zero => intro j buffers q; exact .inl rfl
  | succ n ih =>
    intro j buffers q
    cases buffers with
    | nil => exact .inr (.inl rfl)
    | cons bytes buffers =>
      unfold allocMessages
      dsimp only
      split
      · exact .inr (.inr rfl)
      · exact ih _ _ _

theorem allocLookAheads_accepted (LookAheads : List UInt32) :
    ∀ (buffers : List (List UInt8)) (q : Queue), Accepted pDev q →
      (allocLookAheads pDev LookAheads buffers q).1 = .ok →
      Accepted pDev (allocLookAheads pDev LookAheads buffers q).2 := by
  induction LookAheads with
  | nil => intro buffers q hq _; exact hq
  | cons lookAhead LookAheads ih =>
    intro buffers q hq hok
    unfold allocLookAheads at hok ⊢
    split at hok
    · cases hok
    · rename_i hep
      split at hok
      · cases hok
      · rename_i hlen
        rw [if_neg hep, if_neg hlen]
        have hacc := @allocMessages_accepted pDev lookAhead hlen (numMessages lookAhead) 0
          buffers q hq
        have hstat := @allocMessages_status pDev lookAhead (numMessages lookAhead) 0 buffers q
        cases hres : allocMessages pDev lookAhead (numMessages lookAhead) 0 buffers q with
        | mk status r =>
          rw [hres] at hok hacc hstat
          rcases hstat with hs | hs | hs <;> dsimp only at hs <;> subst hs
          · exact ih _ _ (hacc (by simp)) hok
          · exact hacc (by simp)
          · cases hok

/-- **The packets to fetch.** Each has a number of its own, a message that is not empty and
room for it. -/
theorem alloc_accepted {LookAheads : List UInt32} {buffers : List (List UInt8)} {q : Queue}
    (h : hif_dev_alloc_and_prepare_rx_packets pDev LookAheads buffers = (.ok, q)) :
    Accepted pDev q := by
  simp only [hif_dev_alloc_and_prepare_rx_packets, Prod.mk.injEq] at h
  obtain ⟨hok, hq⟩ := h
  rw [if_pos hok] at hq
  rw [← hq]; exact allocLookAheads_accepted _ _ _ (accepted_init pDev) hok

/-! ## A bundle -/

/-- What the copying looks at: not the flags and not the status. -/
def RxPacket.strip (p : RxPacket) : RxPacket :=
  { p with Status := .ok, HTCRxFlags := ⟨false, false, false⟩ }

def totalLength (pDev : Dev) (ps : List RxPacket) : Nat := (ps.map (paddedLength pDev)).sum

@[simp] theorem totalLength_nil : totalLength pDev [] = 0 := rfl

@[simp] theorem totalLength_cons (p : RxPacket) (ps : List RxPacket) :
    totalLength pDev (p :: ps) = paddedLength pDev p + totalLength pDev ps := by
  simp [totalLength]

/-- `n` packets, or all there are, go from the receive queue to the completion queue. -/
structure Gathers (pDev : Dev) (n : Nat) (g g' : Gathered) : Prop where
  recv : g'.recvPktQueue.items = g.recvPktQueue.items.drop n
  sound : g'.recvPktQueue.Sound
  sync : g'.syncCompletionQueue.items.map RxPacket.strip =
    (g.syncCompletionQueue.items ++ g.recvPktQueue.items.take n).map RxPacket.strip
  fetched : g'.pktsFetched = g.pktsFetched + (g.recvPktQueue.items.take n).length
  total : g'.totalLength = g.totalLength + totalLength pDev (g.recvPktQueue.items.take n)

theorem gatherBundle_gathers (PartialBundle : Bool) (n : Nat) :
    ∀ (space : UInt32) (g : Gathered), g.recvPktQueue.Sound →
      Gathers pDev n g (gatherBundle pDev PartialBundle n space g) := by
  induction n with
  | zero =>
    intro space g hg
    exact ⟨rfl, hg, by simp [gatherBundle], by simp [gatherBundle], by simp [gatherBundle]⟩
  | succ n ih =>
    intro space g hg
    cases hdeq : g.recvPktQueue.dequeue with
    | none =>
      have hnil := DepthQueue.dequeue_eq_none.mp hdeq
      simp only [gatherBundle, hdeq]
      exact ⟨by simp [hnil], hg, by simp [hnil], by simp [hnil], by simp [hnil]⟩
    | some r =>
      obtain ⟨p, recvPktQueue⟩ := r
      have hitems := DepthQueue.dequeue_eq_some hdeq
      -- the branch that puts the packet back is dead
      have hspace : ¬space - DEV_CALC_RECV_PADDED_LEN pDev p.ActualLength < 0 :=
        Nat.not_lt_zero _
      simp only [gatherBundle, hdeq, if_neg hspace]
      have h := ih (space - DEV_CALC_RECV_PADDED_LEN pDev p.ActualLength)
        ⟨recvPktQueue,
          g.syncCompletionQueue.enqueue
            (partOfBundle
              (ignoreLookAhead (PartialBundle || decide (0 < recvPktQueue.Depth)) p)),
          g.pktsFetched + 1,
          g.totalLength + (DEV_CALC_RECV_PADDED_LEN pDev p.ActualLength).toNat⟩
        (hg.dequeue hdeq)
      refine ⟨?_, h.sound, ?_, ?_, ?_⟩
      · rw [h.recv, hitems, drop_succ_cons]
      · rw [h.sync, hitems, take_succ_cons]
        simp [RxPacket.strip, partOfBundle, ignoreLookAhead]
      · rw [h.fetched, hitems, take_succ_cons, length_cons]
        dsimp only
        omega
      · rw [h.total, hitems, take_succ_cons, totalLength_cons]
        dsimp only [paddedLength]
        omega

theorem copyOut_strip (mem : List UInt8) (ps : List RxPacket) :
    (copyOut pDev mem ps).map RxPacket.strip = copyOut pDev mem (ps.map RxPacket.strip) := by
  induction ps generalizing mem with
  | nil => rfl
  | cons p ps ih => simp only [copyOut, map_cons, ih]; rfl

/-- What the fetch of a bundle does, when there is a bundle packet and the read succeeds. -/
structure Bundled (pDev : Dev) (f f' : Fetch) : Prop where
  recv : f'.recvPktQueue.items = f.recvPktQueue.items.drop HTC_MAX_MSG_PER_BUNDLE
  sound : f'.recvPktQueue.Sound
  sync : f'.syncCompletedPktsQueue.items.map RxPacket.strip =
    copyOut pDev
      (overwrite
        (f.bus.stream.take
          (totalLength pDev (f.recvPktQueue.items.take HTC_MAX_MSG_PER_BUNDLE)))
        (f.bus.memory.headD []))
      ((f.syncCompletedPktsQueue.items ++
        f.recvPktQueue.items.take HTC_MAX_MSG_PER_BUNDLE).map RxPacket.strip)
  stream : f'.bus.stream =
    f.bus.stream.drop (totalLength pDev (f.recvPktQueue.items.take HTC_MAX_MSG_PER_BUNDLE))
  reads : f'.bus.reads = f.bus.reads.tail
  transfers : f'.bus.transfers = f.bus.transfers ++
    [totalLength pDev (f.recvPktQueue.items.take HTC_MAX_MSG_PER_BUNDLE)]

theorem hif_read_write_ok {length : Nat} {bus : Bus} (h : bus.reads.headD true = true) :
    hif_read_write length bus =
      (some (bus.stream.take length),
        { bus with stream := bus.stream.drop length, reads := bus.reads.tail }) :=
  if_pos h

theorem issue_bundle_bundled {f : Fetch} (hpkt : f.bus.bundle_packets.headD true = true)
    (hread : f.bus.reads.headD true = true) (hf : f.recvPktQueue.Sound) :
    ∃ f', hif_dev_issue_recv_packet_bundle pDev f =
        some (.ok, (f.recvPktQueue.items.take HTC_MAX_MSG_PER_BUNDLE).length, f') ∧
      Bundled pDev f f' := by
  unfold hif_dev_issue_recv_packet_bundle
  rw [if_pos hpkt]
  extract_lets PartialBundle g
  have hg : Gathers pDev HTC_MAX_MSG_PER_BUNDLE
      ⟨f.recvPktQueue, f.syncCompletedPktsQueue, 0, 0⟩ g := gatherBundle_gathers _ _ _ _ hf
  have htotal : g.totalLength =
      totalLength pDev (f.recvPktQueue.items.take HTC_MAX_MSG_PER_BUNDLE) := by
    simpa using hg.total
  have hfetched : g.pktsFetched = (f.recvPktQueue.items.take HTC_MAX_MSG_PER_BUNDLE).length := by
    simpa using hg.fetched
  have hres := @hif_read_write_ok g.totalLength (f.bus.startBundle g.totalLength) hread
  rw [hres, htotal, hfetched]
  refine ⟨_, rfl, hg.recv, hg.sound, ?_, rfl, rfl, rfl⟩
  rw [copyOut_strip, hg.sync]; rfl

/-! ## Messages -/

/-- The messages in the mailbox, with their padding, are those that the packets are for. -/
def Messages (pDev : Dev) (ps : List RxPacket) (ms : List (List UInt8)) : Prop :=
  List.Forall₂ (fun p m => m.length = paddedLength pDev p) ps ms

def Filled (p : RxPacket) (m : List UInt8) : Prop := p.pBuffer.take m.length = m

theorem Messages.totalLength {ps : List RxPacket} {ms : List (List UInt8)}
    (h : Messages pDev ps ms) : totalLength pDev ps = ms.flatten.length := by
  induction h with
  | nil => rfl
  | cons hm _ ih => rw [totalLength_cons, ih, flatten_cons, length_append, hm]

theorem take_overwrite (bytes memory : List UInt8) :
    (overwrite bytes memory).take bytes.length = bytes :=
  take_left

theorem copyOut_filled {ps : List RxPacket} {ms : List (List UInt8)} (h : Messages pDev ps ms)
    (tail : List UInt8) : List.Forall₂ Filled (copyOut pDev (ms.flatten ++ tail) ps) ms := by
  induction h with
  | nil => exact .nil
  | @cons p m ps ms hm _ ih =>
    rw [copyOut, flatten_cons, append_assoc, ← hm, take_left, drop_left]
    exact .cons (take_overwrite _ _) ih

theorem copyOut_ids (mem : List UInt8) (ps : List RxPacket) :
    (copyOut pDev mem ps).map RxPacket.id = ps.map RxPacket.id := by
  induction ps generalizing mem with
  | nil => rfl
  | cons p ps ih => simp [copyOut, ih]

theorem map_id_strip (ps : List RxPacket) :
    (ps.map RxPacket.strip).map RxPacket.id = ps.map RxPacket.id := by simp [RxPacket.strip]

theorem headD_of_forall {l : List Bool} (h : ∀ b ∈ l, b = true) : l.headD true = true := by
  cases l with
  | nil => rfl
  | cons b l => exact h b mem_cons_self

/-- The first `k` of the packets have their messages, and the mailbox has the others. -/
structure Progress (pDev : Dev) (ps : List RxPacket) (ms : List (List UInt8)) (rest : List UInt8)
    (k : Nat) (f : Fetch) : Prop where
  recv : f.recvPktQueue.items = ps.drop k
  sound : f.recvPktQueue.Sound
  ids : f.syncCompletedPktsQueue.items.map RxPacket.id = (ps.take k).map RxPacket.id
  filled : List.Forall₂ Filled f.syncCompletedPktsQueue.items (ms.take k)
  stream : f.bus.stream = (ms.drop k).flatten ++ rest
  reads : ∀ b ∈ f.bus.reads, b = true
  transfers : ∀ n ∈ f.bus.transfers, n ≤ bundleSpace pDev

section Progress

variable {ps : List RxPacket} {ms : List (List UInt8)} {rest : List UInt8} {k : Nat}
  {f f' : Fetch}

theorem flatten_split (n : Nat) (ms : List (List UInt8)) (rest : List UInt8) :
    ms.flatten ++ rest = (ms.take n).flatten ++ ((ms.drop n).flatten ++ rest) := by
  rw [← append_assoc, ← flatten_append, take_append_drop]

theorem Bundled.stream_drop (hb : Bundled pDev f f') (hrecv : f.recvPktQueue.items = ps)
    (hms : Messages pDev ps ms) (hstream : f.bus.stream = ms.flatten ++ rest) :
    f'.bus.stream = (ms.drop HTC_MAX_MSG_PER_BUNDLE).flatten ++ rest := by
  have htake : Messages pDev (ps.take HTC_MAX_MSG_PER_BUNDLE) (ms.take HTC_MAX_MSG_PER_BUNDLE) :=
    List.forall₂_take _ hms
  rw [hb.stream, hrecv, hstream, htake.totalLength, flatten_split HTC_MAX_MSG_PER_BUNDLE, drop_left]

theorem Progress.bundled (h : Progress pDev ps ms rest 0 f) (hms : Messages pDev ps ms)
    (hb : Bundled pDev f f')
    (hfits : totalLength pDev (ps.take HTC_MAX_MSG_PER_BUNDLE) ≤ bundleSpace pDev) :
    Progress pDev ps ms rest HTC_MAX_MSG_PER_BUNDLE f' := by
  have hrecv : f.recvPktQueue.items = ps := h.recv
  have hnil : f.syncCompletedPktsQueue.items = [] := map_eq_nil_iff.mp h.ids
  have htake : Messages pDev (ps.take HTC_MAX_MSG_PER_BUNDLE) (ms.take HTC_MAX_MSG_PER_BUNDLE) :=
    List.forall₂_take _ hms
  -- the completion queue was empty, so that the walk meets the packets of the bundle only
  have hbytes : f.bus.stream.take (totalLength pDev (ps.take HTC_MAX_MSG_PER_BUNDLE)) =
      (ms.take HTC_MAX_MSG_PER_BUNDLE).flatten := by
    rw [h.stream, drop_zero, htake.totalLength, flatten_split HTC_MAX_MSG_PER_BUNDLE, take_left]
  have hsync := hb.sync
  rw [hrecv, hnil, nil_append, hbytes, overwrite] at hsync
  refine ⟨?_, hb.sound, ?_, ?_, hb.stream_drop hrecv hms h.stream, ?_, ?_⟩
  · rw [hb.recv, hrecv]
  · rw [← map_id_strip, hsync, copyOut_ids, map_id_strip]
  · have hstrip : Messages pDev ((ps.take HTC_MAX_MSG_PER_BUNDLE).map RxPacket.strip)
        (ms.take HTC_MAX_MSG_PER_BUNDLE) := List.forall₂_map_left_iff.mpr htake
    have hfilled := copyOut_filled hstrip
      ((f.bus.memory.headD []).drop (ms.take HTC_MAX_MSG_PER_BUNDLE).flatten.length)
    rw [← hsync] at hfilled
    exact (List.forall₂_map_left_iff (R := Filled) (f := RxPacket.strip)).mp hfilled
  · rw [hb.reads]; exact fun b hb => h.reads b (mem_of_mem_tail hb)
  · intro n hn
    rw [hb.transfers, hrecv] at hn
    rcases mem_append.mp hn with hn | hn
    · exact h.transfers n hn
    · rw [mem_singleton.mp hn]; exact hfits

theorem hif_dev_recv_packet_ok {p : RxPacket} {bus : Bus} (hp : Prepared pDev p)
    (hread : bus.reads.headD true = true) :
    hif_dev_recv_packet pDev p bus =
      (.ok,
        { p with
          Status := .ok
          pBuffer := overwrite (bus.stream.take (paddedLength pDev p)) p.pBuffer },
        { bus with
          stream := bus.stream.drop (paddedLength pDev p)
          reads := bus.reads.tail }) := by
  rw [hif_dev_recv_packet, if_neg hp.fits, hif_read_write_ok hread]

theorem fetchSingle_ok {p : RxPacket} {tail : List RxPacket} (hp : Prepared pDev p)
    (hitems : f.recvPktQueue.items = p :: tail) (hsound : f.recvPktQueue.Sound)
    (hread : f.bus.reads.headD true = true) :
    ∃ p' f', fetchSingle pDev f = (.ok, f') ∧
      f'.syncCompletedPktsQueue.items = f.syncCompletedPktsQueue.items ++ [p'] ∧
      p'.id = p.id ∧
      p'.pBuffer = overwrite (f.bus.stream.take (paddedLength pDev p)) p.pBuffer ∧
      f'.recvPktQueue.items = tail ∧ f'.recvPktQueue.Sound ∧
      f'.bus = { f.bus with
        stream := f.bus.stream.drop (paddedLength pDev p)
        reads := f.bus.reads.tail } := by
  have hdeq : f.recvPktQueue.dequeue = some (p, ⟨tail, f.recvPktQueue.Depth - 1⟩) := by
    rw [DepthQueue.dequeue, hitems]
  have hsound' := hsound.dequeue hdeq
  simp only [fetchSingle, hdeq]
  rw [hif_dev_recv_packet_ok (p := ignoreLookAhead _ p) ⟨hp.pos, hp.fits⟩ hread]
  exact ⟨_, _, rfl, rfl, rfl, rfl, rfl, hsound', rfl⟩

theorem Progress.single (h : Progress pDev ps ms rest k f) (hms : Messages pDev ps ms)
    (hps : ∀ p ∈ ps, Prepared pDev p) (hk : k < ps.length) :
    ∃ f', fetchSingle pDev f = (.ok, f') ∧ Progress pDev ps ms rest (k + 1) f' := by
  have hkm : k < ms.length := hms.length_eq ▸ hk
  have hm : ms[k].length = paddedLength pDev ps[k] := List.Forall₂.get hms hk hkm
  have hstream : f.bus.stream = ms[k] ++ ((ms.drop (k + 1)).flatten ++ rest) := by
    rw [h.stream, drop_eq_getElem_cons hkm, flatten_cons, append_assoc]
  have hitems : f.recvPktQueue.items = ps[k] :: ps.drop (k + 1) := by
    rw [h.recv, drop_eq_getElem_cons hk]
  obtain ⟨p', f', hres, hsync, hid, hbuf, hrecv, hsound, hbus⟩ :=
    fetchSingle_ok (hps _ (getElem_mem hk)) hitems h.sound (headD_of_forall h.reads)
  rw [hstream, ← hm, take_left] at hbuf
  rw [hstream, ← hm, drop_left] at hbus
  refine ⟨f', hres, hrecv, hsound, ?_, ?_, ?_, ?_, ?_⟩
  · rw [hsync, map_append, h.ids, take_succ_eq_append_getElem hk, map_append,
      map_singleton, map_singleton, hid]
  · have hfilled : Filled p' ms[k] := by rw [Filled, hbuf]; exact take_overwrite _ _
    rw [hsync, take_succ_eq_append_getElem hkm]; exact rel_append h.filled (.cons hfilled .nil)
  · rw [hbus]
  · rw [hbus]; exact fun b hb => h.reads b (mem_of_mem_tail hb)
  · rw [hbus]; exact h.transfers

theorem fetchLoop_done (n : Nat) (hsound : f.recvPktQueue.Sound)
    (hnil : f.recvPktQueue.items = []) : fetchLoop pDev n f = some (.ok, f) := by
  cases n with
  | zero => rfl
  | succ n => exact if_pos (hsound.depth_eq_zero.mpr hnil)

theorem Progress.last (h : Progress pDev ps ms rest k f) (hms : Messages pDev ps ms)
    (hps : ∀ p ∈ ps, Prepared pDev p) (hle : ps.length ≤ k + 1) (n : Nat) (hn : ps.length - k ≤ n) :
    ∃ f' k', fetchLoop pDev n f = some (.ok, f') ∧ ps.length ≤ k' ∧
      Progress pDev ps ms rest k' f' := by
  by_cases hk : ps.length ≤ k
  · have hnil : f.recvPktQueue.items = [] := by rw [h.recv, drop_eq_nil_of_le hk]
    exact ⟨f, k, fetchLoop_done n h.sound hnil, hk, h⟩
  · have hlen : f.recvPktQueue.items.length = 1 := by rw [h.recv, length_drop]; omega
    have hdepth : f.recvPktQueue.Depth = 1 := by rw [h.sound, hlen]; rfl
    obtain ⟨n, rfl⟩ : ∃ n', n = n' + 1 := ⟨n - 1, by omega⟩
    obtain ⟨f', hres, h'⟩ := h.single hms hps (by omega)
    have hround : fetchRound pDev f = some (.ok, f') := by
      rw [fetchRound, if_neg (by omega), hres]
    have hnil : f'.recvPktQueue.items = [] := by rw [h'.recv, drop_eq_nil_of_le hle]
    refine ⟨f', k + 1, ?_, hle, h'⟩
    rw [fetchLoop, if_neg (by omega), hround]; exact fetchLoop_done n h'.sound hnil

end Progress

/-! ## One bundle -/

/-- All packets are fetched, in order, each with its own message, and no bundle transfer is
longer than the bundle buffer. -/
structure Faithful (pDev : Dev) (ps : List RxPacket) (ms : List (List UInt8)) (rest : List UInt8)
    (f : Fetch) : Prop where
  done : f.recvPktQueue.items = []
  ids : f.syncCompletedPktsQueue.items.map RxPacket.id = ps.map RxPacket.id
  filled : List.Forall₂ Filled f.syncCompletedPktsQueue.items ms
  stream : f.bus.stream = rest
  transfers : ∀ n ∈ f.bus.transfers, n ≤ bundleSpace pDev

/-- Whatever the messages are, and whatever the bundle buffers held before. -/
def FetchesFaithfully (pDev : Dev) (q : Queue) (bundle_packets : List Bool) : Prop :=
  ∀ (ms : List (List UInt8)) (rest : List UInt8) (memory : List (List UInt8)) (reads : List Bool),
    Messages pDev q.items ms → (∀ b ∈ reads, b = true) →
    ∃ f, fetch pDev q ⟨ms.flatten ++ rest, reads, bundle_packets, memory, []⟩ = some (.ok, f) ∧
      Faithful pDev q.items ms rest f

/-- There are so few packets that no second bundle is read, and the one bundle fits. -/
def OneBundle (pDev : Dev) (q : Queue) (bundle_packets : List Bool) : Prop :=
  q.items.length ≤ HTC_MAX_MSG_PER_BUNDLE + 1 ∧
    (2 ≤ q.items.length →
      bundle_packets.headD true = true ∧
        totalLength pDev (q.items.take HTC_MAX_MSG_PER_BUNDLE) ≤ bundleSpace pDev)

section Fetch

variable {q : Queue} {f f' : Fetch}

theorem Progress.faithful {ps : List RxPacket} {ms : List (List UInt8)} {rest : List UInt8}
    {k : Nat} (h : Progress pDev ps ms rest k f) (hms : Messages pDev ps ms)
    (hk : ps.length ≤ k) : Faithful pDev ps ms rest f where
  done := by rw [h.recv, drop_eq_nil_of_le hk]
  ids := by rw [h.ids, take_of_length_le hk]
  filled := by
    have hfilled := h.filled
    rw [take_of_length_le (hms.length_eq ▸ hk)] at hfilled; exact hfilled
  stream := by rw [h.stream, drop_eq_nil_of_le (hms.length_eq ▸ hk)]; rfl
  transfers := h.transfers

theorem fetchRound_bundled (hpkt : f.bus.bundle_packets.headD true = true)
    (hread : f.bus.reads.headD true = true) (hsound : f.recvPktQueue.Sound)
    (htwo : 2 ≤ f.recvPktQueue.items.length) :
    ∃ f', fetchRound pDev f = some (.ok, f') ∧ Bundled pDev f f' := by
  have hdepth : f.recvPktQueue.Depth = f.recvPktQueue.items.length := hsound
  obtain ⟨g, hissue, hb⟩ := issue_bundle_bundled hpkt hread hsound
  have hlen : (f.recvPktQueue.items.take HTC_MAX_MSG_PER_BUNDLE).length ≠ 0 := by
    rw [length_take, HTC_MAX_MSG_PER_BUNDLE]; omega
  refine ⟨{ g with partialBundle := g.partialBundle || decide (g.recvPktQueue.Depth ≠ 0) }, ?_,
    hb.recv, hb.sound, hb.sync, hb.stream, hb.reads, hb.transfers⟩
  rw [fetchRound, if_pos (by omega), hissue]; exact if_neg hlen

theorem fetches_of_oneBundle {bundle_packets : List Bool} (hq : Accepted pDev q)
    (hone : OneBundle pDev q bundle_packets) : FetchesFaithfully pDev q bundle_packets := by
  intro ms rest memory reads hms hreads
  have hstart : Progress pDev q.items ms rest 0
      ⟨q, .init, false, ⟨ms.flatten ++ rest, reads, bundle_packets, memory, []⟩⟩ :=
    ⟨rfl, hq.sound, rfl, .nil, rfl, hreads, nofun⟩
  by_cases htwo : 2 ≤ q.items.length
  · obtain ⟨hpkt, hfits⟩ := hone.2 htwo
    obtain ⟨f₁, hround, hb⟩ := @fetchRound_bundled pDev
      ⟨q, .init, false, ⟨ms.flatten ++ rest, reads, bundle_packets, memory, []⟩⟩ hpkt
      (headD_of_forall hreads) hq.sound htwo
    obtain ⟨f, k, hloop, hk, hf⟩ := (hstart.bundled hms hb hfits).last hms hq.prepared hone.1
      (q.items.length - 1) (by simp only [HTC_MAX_MSG_PER_BUNDLE]; omega)
    refine ⟨f, ?_, hf.faithful hms hk⟩
    have hdepth : q.Depth ≠ 0 := by
      intro h0
      rw [hq.sound.depth_eq_zero.mp h0] at htwo; simp at htwo
    obtain ⟨n, hn⟩ : ∃ n, q.items.length = n + 1 := ⟨q.items.length - 1, by omega⟩
    rw [hn, Nat.add_sub_cancel] at hloop
    rw [fetch, hn, fetchLoop, if_neg hdepth, hround]; exact hloop
  · obtain ⟨f, k, hloop, hk, hf⟩ := hstart.last hms hq.prepared (by omega) q.items.length
      (Nat.sub_le _ _)
    exact ⟨f, hloop, hf.faithful hms hk⟩

/-! ## More than one bundle -/

theorem hif_read_write_transfers (length : Nat) (bus : Bus) :
    (hif_read_write length bus).2.transfers = bus.transfers := by
  unfold hif_read_write
  split <;> rfl

theorem fetchSingle_transfers (f : Fetch) :
    (fetchSingle pDev f).2.bus.transfers = f.bus.transfers := by
  unfold fetchSingle
  split
  · rfl
  · rename_i p recvPktQueue hdeq
    dsimp only
    unfold hif_dev_recv_packet
    split
    · rfl
    · have hread := hif_read_write_transfers
        (paddedLength pDev (ignoreLookAhead (decide (0 < recvPktQueue.Depth)) p)) f.bus
      cases hres : hif_read_write
          (paddedLength pDev (ignoreLookAhead (decide (0 < recvPktQueue.Depth)) p)) f.bus with
      | mk bytes bus =>
        rw [hres] at hread
        cases bytes <;> exact hread

variable {status : A_STATUS}

theorem issue_bundle_transfers {fetched : Nat}
    (h : hif_dev_issue_recv_packet_bundle pDev f = some (status, fetched, f')) :
    f.bus.transfers ⊆ f'.bus.transfers := by
  unfold hif_dev_issue_recv_packet_bundle at h
  split at h
  · extract_lets PartialBundle g at h
    have hread := hif_read_write_transfers g.totalLength (f.bus.startBundle g.totalLength)
    cases hres : hif_read_write g.totalLength (f.bus.startBundle g.totalLength) with
    | mk bytes bus =>
      rw [hres] at h hread
      have hsub : f.bus.transfers ⊆ bus.transfers := by rw [hread]; exact subset_append_left _ _
      cases bytes with
      | none =>
        simp only [some.injEq, Prod.mk.injEq] at h
        rw [← h.2.2]; exact hsub
      | some bytes =>
        simp only [some.injEq, Prod.mk.injEq] at h
        rw [← h.2.2]; exact hsub
  · cases h

theorem fetchRound_transfers (h : fetchRound pDev f = some (status, f')) :
    f.bus.transfers ⊆ f'.bus.transfers := by
  unfold fetchRound at h
  split at h
  · cases hissue : hif_dev_issue_recv_packet_bundle pDev f with
    | none => rw [hissue] at h; cases h
    | some r =>
      obtain ⟨st, fetched, g⟩ := r
      have hsub := issue_bundle_transfers hissue
      rw [hissue] at h
      cases st with
      | ok =>
        dsimp only at h
        split at h
        · have hs := @fetchSingle_transfers pDev
            { g with partialBundle := g.partialBundle || decide (g.recvPktQueue.Depth ≠ 0) }
          rw [some.inj h] at hs
          rw [hs]; exact hsub
        · simp only [some.injEq, Prod.mk.injEq] at h
          rw [← h.2]; exact hsub
      | _ =>
        simp only [some.injEq, Prod.mk.injEq] at h
        rw [← h.2]; exact hsub
  · have hs := @fetchSingle_transfers pDev f
    rw [some.inj h] at hs
    rw [hs]; exact fun _ h => h

theorem fetchLoop_transfers (n : Nat) :
    ∀ f : Fetch, fetchLoop pDev n f = some (status, f') → f.bus.transfers ⊆ f'.bus.transfers := by
  induction n with
  | zero =>
    intro f h
    simp only [fetchLoop, some.injEq, Prod.mk.injEq] at h
    rw [h.2]; exact fun _ h => h
  | succ n ih =>
    intro f h
    unfold fetchLoop at h
    split at h
    · simp only [some.injEq, Prod.mk.injEq] at h
      rw [h.2]; exact fun _ h => h
    · cases hround : fetchRound pDev f with
      | none => rw [hround] at h; cases h
      | some r =>
        obtain ⟨st, g⟩ := r
        have hsub := fetchRound_transfers hround
        rw [hround] at h
        cases st with
        | ok => exact List.Subset.trans hsub (ih g h)
        | _ =>
          simp only [some.injEq, Prod.mk.injEq] at h
          rw [← h.2]; exact hsub

/-- Packets are in the completion queue, and the messages that are left are all zeros. -/
structure Continuing (pDev : Dev) (f : Fetch) : Prop where
  sound : f.recvPktQueue.Sound
  prepared : ∀ p ∈ f.recvPktQueue.items, Prepared pDev p
  head : ∃ c cs, f.syncCompletedPktsQueue.items = c :: cs ∧ 0 < paddedLength pDev c
  zeros : ∀ b ∈ f.bus.stream, b = 0
  enough : totalLength pDev f.recvPktQueue.items ≤ f.bus.stream.length
  reads : f.bus.reads = []

/-- The buffer of the first packet starts with a zero. -/
def HeadZeroed (f : Fetch) : Prop :=
  ∃ c cs bs, f.syncCompletedPktsQueue.items = c :: cs ∧ c.pBuffer = 0 :: bs

theorem totalLength_append (ps ps' : List RxPacket) :
    totalLength pDev (ps ++ ps') = totalLength pDev ps + totalLength pDev ps' := by
  simp [totalLength]

theorem copyOut_head {c : RxPacket} {cs : List RxPacket} {b : UInt8} {mem : List UInt8}
    (hpos : 0 < paddedLength pDev c) :
    ∃ c' cs' bs, copyOut pDev (b :: mem) (c :: cs) = c' :: cs' ∧ c'.pBuffer = b :: bs ∧
      paddedLength pDev c' = paddedLength pDev c := by
  obtain ⟨n, hn⟩ : ∃ n, paddedLength pDev c = n + 1 := ⟨paddedLength pDev c - 1, by omega⟩
  have hbuf : overwrite ((b :: mem).take (paddedLength pDev c)) c.pBuffer =
      b :: (mem.take n ++ c.pBuffer.drop (b :: mem.take n).length) := by
    rw [hn, take_succ_cons]; rfl
  exact ⟨_, _, _, rfl, hbuf, rfl⟩

theorem Continuing.bundled (h : Continuing pDev f) (hb : Bundled pDev f f')
    (hne : f.recvPktQueue.items ≠ []) : Continuing pDev f' ∧ HeadZeroed f' := by
  obtain ⟨p, ps, hps⟩ := exists_cons_of_ne_nil hne
  obtain ⟨c, cs, hsync, hpos⟩ := h.head
  have hsplit : totalLength pDev f.recvPktQueue.items =
      totalLength pDev (f.recvPktQueue.items.take HTC_MAX_MSG_PER_BUNDLE) +
        totalLength pDev (f.recvPktQueue.items.drop HTC_MAX_MSG_PER_BUNDLE) := by
    rw [← totalLength_append, take_append_drop]
  have henough := h.enough
  -- the bundle has the bytes of its first packet at least
  have hfirst : 0 < totalLength pDev (f.recvPktQueue.items.take HTC_MAX_MSG_PER_BUNDLE) := by
    have hp := (h.prepared p (by rw [hps]; exact mem_cons_self)).pos
    rw [hps, HTC_MAX_MSG_PER_BUNDLE, take_succ_cons, totalLength_cons]; omega
  obtain ⟨b, bs, hstream⟩ : ∃ b bs, f.bus.stream = b :: bs := by
    apply exists_cons_of_ne_nil
    intro hnil
    rw [hnil, length_nil] at henough; omega
  obtain ⟨n, hn⟩ : ∃ n,
      totalLength pDev (f.recvPktQueue.items.take HTC_MAX_MSG_PER_BUNDLE) = n + 1 :=
    ⟨totalLength pDev (f.recvPktQueue.items.take HTC_MAX_MSG_PER_BUNDLE) - 1, by omega⟩
  have hb0 : b = 0 := h.zeros b (by rw [hstream]; exact mem_cons_self)
  have hcopy := hb.sync
  rw [hsync, hn, hstream, take_succ_cons, overwrite, cons_append, cons_append, map_cons] at hcopy
  obtain ⟨c', cs', bs', hhead, hbuf, hlen⟩ := @copyOut_head pDev c.strip
    ((cs ++ f.recvPktQueue.items.take HTC_MAX_MSG_PER_BUNDLE).map RxPacket.strip) b
    (bs.take n ++ (f.bus.memory.headD []).drop (b :: bs.take n).length) hpos
  rw [hhead] at hcopy
  obtain ⟨d, ds, hitems, hd, -⟩ := map_eq_cons_iff.mp hcopy
  have hdpos : 0 < paddedLength pDev d := by
    have hsame : paddedLength pDev d = paddedLength pDev d.strip := rfl
    rw [hsame, hd, hlen]; exact hpos
  refine ⟨⟨hb.sound, ?_, ⟨d, ds, hitems, hdpos⟩, ?_, ?_, ?_⟩, d, ds, bs', hitems, ?_⟩
  · intro p hp
    rw [hb.recv] at hp; exact h.prepared p (mem_of_mem_drop hp)
  · intro b hb'
    rw [hb.stream] at hb'; exact h.zeros b (mem_of_mem_drop hb')
  · rw [hb.recv, hb.stream, length_drop]; omega
  · rw [hb.reads, h.reads]; rfl
  · have hsame : d.pBuffer = d.strip.pBuffer := rfl; rw [hsame, hd, hbuf, hb0]

theorem Continuing.single (h : Continuing pDev f) (hne : f.recvPktQueue.items ≠ []) :
    ∃ f', fetchSingle pDev f = (.ok, f') ∧ Continuing pDev f' ∧ (HeadZeroed f → HeadZeroed f') := by
  obtain ⟨p, ps, hps⟩ := exists_cons_of_ne_nil hne
  have hp := h.prepared p (by rw [hps]; exact mem_cons_self)
  obtain ⟨p', f', hres, hsync, -, -, hrecv, hsound, hbus⟩ :=
    fetchSingle_ok hp hps h.sound (by rw [h.reads]; rfl)
  obtain ⟨c, cs, hc, hpos⟩ := h.head
  refine ⟨f', hres, ⟨hsound, ?_, ⟨c, cs ++ [p'], ?_, hpos⟩, ?_, ?_, ?_⟩, ?_⟩
  · intro r hr
    rw [hrecv] at hr
    exact h.prepared r (by rw [hps]; exact mem_cons_of_mem _ hr)
  · rw [hsync, hc, cons_append]
  · intro b hb
    rw [hbus] at hb; exact h.zeros b (mem_of_mem_drop hb)
  · have henough := h.enough
    rw [hps, totalLength_cons] at henough
    rw [hrecv, hbus, length_drop]; omega
  · rw [hbus, h.reads]; rfl
  · rintro ⟨d, ds, bs, hd, hbuf⟩
    exact ⟨d, ds ++ [p'], bs, by rw [hsync, hd, cons_append], hbuf⟩

theorem fetchRound_none (htwo : 1 < f.recvPktQueue.Depth)
    (hpkt : f.bus.bundle_packets.headD true ≠ true) : fetchRound pDev f = none := by
  rw [fetchRound, if_pos htwo, hif_dev_issue_recv_packet_bundle, if_neg hpkt]

theorem Continuing.round_bundled (h : Continuing pDev f) (htwo : 2 ≤ f.recvPktQueue.items.length)
    (hround : fetchRound pDev f = some (status, f')) :
    status = .ok ∧ Continuing pDev f' ∧ HeadZeroed f' := by
  have hdepth : f.recvPktQueue.Depth = f.recvPktQueue.items.length := h.sound
  have hpkt : f.bus.bundle_packets.headD true = true := by
    by_contra hpkt
    rw [fetchRound_none (by omega) hpkt] at hround
    cases hround
  obtain ⟨g, hg, hb⟩ := @fetchRound_bundled pDev f hpkt (by rw [h.reads]; rfl) h.sound htwo
  rw [hg, some.injEq, Prod.mk.injEq] at hround
  obtain ⟨rfl, rfl⟩ := hround
  have hne : f.recvPktQueue.items ≠ [] := by
    intro hnil
    rw [hnil] at htwo; simp at htwo
  exact ⟨rfl, h.bundled hb hne⟩

theorem Continuing.loop (n : Nat) :
    ∀ f : Fetch, Continuing pDev f → HeadZeroed f → fetchLoop pDev n f = some (.ok, f') →
      HeadZeroed f' := by
  induction n with
  | zero =>
    intro f _ hz hloop
    simp only [fetchLoop, some.injEq, Prod.mk.injEq] at hloop
    rw [← hloop.2]; exact hz
  | succ n ih =>
    intro f h hz hloop
    have hdepth : f.recvPktQueue.Depth = f.recvPktQueue.items.length := h.sound
    unfold fetchLoop at hloop
    split at hloop
    · simp only [some.injEq, Prod.mk.injEq] at hloop
      rw [← hloop.2]; exact hz
    · rename_i hne
      cases hround : fetchRound pDev f with
      | none => rw [hround] at hloop; cases hloop
      | some r =>
        obtain ⟨status, g⟩ := r
        rw [hround] at hloop
        by_cases htwo : 2 ≤ f.recvPktQueue.items.length
        · obtain ⟨rfl, hg, hgz⟩ := h.round_bundled htwo hround; exact ih g hg hgz hloop
        -- the last packet is read on its own
        · obtain ⟨g', hres, hg, hgz⟩ := h.single (mt h.sound.depth_eq_zero.mpr hne)
          rw [fetchRound, if_neg (by omega), hres, some.injEq, Prod.mk.injEq] at hround
          obtain ⟨rfl, rfl⟩ := hround
          exact ih g' hg (hgz hz) hloop

def zeroMessages (pDev : Dev) (ps : List RxPacket) : List (List UInt8) :=
  ps.map fun p => replicate (paddedLength pDev p) 0

theorem zeroMessages_messages (ps : List RxPacket) : Messages pDev ps (zeroMessages pDev ps) := by
  induction ps with
  | nil => exact .nil
  | cons p ps ih => exact .cons length_replicate ih

theorem zeroMessages_zeros (ps : List RxPacket) : ∀ b ∈ (zeroMessages pDev ps).flatten, b = 0 := by
  intro b hb
  obtain ⟨m, hm, hbm⟩ := mem_flatten.mp hb
  obtain ⟨p, -, rfl⟩ := mem_map.mp hm
  exact eq_of_mem_replicate hbm

theorem fetch_first {bus : Bus} (hsound : q.Sound) (htwo : 2 ≤ q.items.length)
    (hreads : bus.reads = []) (hfetch : fetch pDev q bus = some (.ok, f)) :
    bus.bundle_packets.headD true = true ∧ ∃ f₁, Bundled pDev ⟨q, .init, false, bus⟩ f₁ ∧
      fetchLoop pDev (q.items.length - 1) f₁ = some (.ok, f) := by
  have hdepth : q.Depth = q.items.length := hsound
  obtain ⟨n, hn⟩ : ∃ n, q.items.length = n + 1 := ⟨q.items.length - 1, by omega⟩
  rw [fetch, hn, fetchLoop, if_neg (show ¬q.Depth = 0 by omega)] at hfetch
  have hpkt : bus.bundle_packets.headD true = true := by
    by_contra hpkt
    rw [fetchRound_none (show 1 < q.Depth by omega) hpkt] at hfetch
    cases hfetch
  obtain ⟨f₁, hround, hb⟩ := @fetchRound_bundled pDev ⟨q, .init, false, bus⟩ hpkt
    (by rw [hreads]; rfl) hsound htwo
  rw [hround] at hfetch
  refine ⟨hpkt, f₁, hb, ?_⟩
  rw [hn, Nat.add_sub_cancel]; exact hfetch

theorem Bundled.continuing {p : RxPacket} {ps : List RxPacket} {m : List UInt8}
    (hb : Bundled pDev f f') (hitems : f.recvPktQueue.items = p :: ps)
    (hsync : f.syncCompletedPktsQueue.items = []) (hps : ∀ r ∈ p :: ps, Prepared pDev r)
    (hms : Messages pDev (p :: ps) (m :: zeroMessages pDev ps))
    (hstream : f.bus.stream = (m :: zeroMessages pDev ps).flatten ++ [])
    (hreads : f.bus.reads = []) : Continuing pDev f' := by
  have hrecv := hb.recv
  rw [hitems] at hrecv
  have hleft := hb.stream_drop hitems hms hstream
  rw [append_nil, HTC_MAX_MSG_PER_BUNDLE, drop_succ_cons, zeroMessages, ← map_drop] at hleft
  refine ⟨hb.sound, ?_, ?_, ?_, ?_, ?_⟩
  · intro r hr
    rw [hrecv] at hr; exact hps r (mem_of_mem_drop hr)
  · -- the first packet of the bundle is the head of the completion queue
    have hcopy := hb.sync
    rw [hitems, hsync, nil_append, HTC_MAX_MSG_PER_BUNDLE, take_succ_cons,
      map_cons, copyOut] at hcopy
    obtain ⟨c, cs, hc, hcp, -⟩ := map_eq_cons_iff.mp hcopy
    refine ⟨c, cs, hc, ?_⟩
    have hsame : paddedLength pDev c = paddedLength pDev c.strip := rfl
    rw [hsame, hcp]; exact (hps p mem_cons_self).pos
  · rw [hleft]; exact zeroMessages_zeros (ps.drop 15)
  · rw [hleft, hrecv, HTC_MAX_MSG_PER_BUNDLE, drop_succ_cons,
      (zeroMessages_messages (ps.drop 15)).totalLength]
    exact Nat.le_refl _
  · rw [hb.reads, hreads]; rfl

theorem not_filled_ones {c : RxPacket} {bs : List UInt8} {n : Nat} (hbuf : c.pBuffer = 0 :: bs)
    (hn : 0 < n) : ¬Filled c (replicate n 1) := by
  intro h
  obtain ⟨m, rfl⟩ : ∃ m, n = m + 1 := ⟨n - 1, by omega⟩
  rw [Filled, length_replicate, hbuf, take_succ_cons, replicate_succ, List.cons.injEq] at h
  exact absurd h.1 (by decide)

theorem length_le_of_fetches {bundle_packets : List Bool} (hq : Accepted pDev q)
    (h : FetchesFaithfully pDev q bundle_packets) :
    q.items.length ≤ HTC_MAX_MSG_PER_BUNDLE + 1 := by
  by_contra hlong
  rw [HTC_MAX_MSG_PER_BUNDLE] at hlong
  obtain ⟨p, ps, hps⟩ := exists_cons_of_ne_nil
    (show q.items ≠ [] by intro hnil; simp [hnil] at hlong)
  have hprep := hq.prepared
  have hms : Messages pDev (p :: ps) (replicate (paddedLength pDev p) 1 :: zeroMessages pDev ps) :=
    .cons length_replicate (zeroMessages_messages ps)
  obtain ⟨f, hfetch, hfaith⟩ := h _ [] [] [] (hps ▸ hms) (nofun)
  obtain ⟨-, f₁, hb, hloop⟩ := fetch_first hq.sound (by omega) rfl hfetch
  have hcont := hb.continuing hps rfl (hps ▸ hprep) hms rfl rfl
  have htwo : 2 ≤ f₁.recvPktQueue.items.length := by
    rw [hb.recv, length_drop, HTC_MAX_MSG_PER_BUNDLE]
    show 2 ≤ q.items.length - 16
    omega
  have hdepth : f₁.recvPktQueue.Depth = f₁.recvPktQueue.items.length := hb.sound
  obtain ⟨n, hn⟩ : ∃ n, q.items.length - 1 = n + 1 := ⟨q.items.length - 2, by omega⟩
  rw [hn, fetchLoop, if_neg (by omega)] at hloop
  -- the second bundle
  cases hround : fetchRound pDev f₁ with
  | none => rw [hround] at hloop; cases hloop
  | some r =>
    obtain ⟨status, f₂⟩ := r
    obtain ⟨rfl, hcont₂, hz₂⟩ := hcont.round_bundled htwo hround
    rw [hround] at hloop
    obtain ⟨c, cs, bs, hc, hbuf⟩ := Continuing.loop n f₂ hcont₂ hz₂ hloop
    have hfilled := hfaith.filled
    rw [hc] at hfilled
    exact not_filled_ones hbuf (hprep p (by rw [hps]; exact mem_cons_self)).pos
      (List.forall₂_cons.mp hfilled).1

/-- **Bundled receive.** Of the packets that the look-aheads ask for, all are fetched with
their own messages, in order and with transfers that fit, whatever the messages are, exactly if
there are at most seventeen and, from two on, there is a bundle packet and the padded lengths
of the first sixteen fit the bundle buffer. -/
theorem bundled_receive_faithful {LookAheads : List UInt32} {buffers : List (List UInt8)}
    (halloc : hif_dev_alloc_and_prepare_rx_packets pDev LookAheads buffers = (.ok, q))
    (bundle_packets : List Bool) :
    q.items.map RxPacket.id = range q.items.length ∧
      (FetchesFaithfully pDev q bundle_packets ↔ OneBundle pDev q bundle_packets) := by
  have hq := alloc_accepted halloc
  refine ⟨hq.ids, ?_, fetches_of_oneBundle hq⟩
  intro h
  refine ⟨length_le_of_fetches hq h, ?_⟩
  intro htwo
  obtain ⟨f, hfetch, hfaith⟩ := h (zeroMessages pDev q.items) [] [] []
    (zeroMessages_messages q.items) (nofun)
  obtain ⟨hpkt, f₁, hb, hloop⟩ := fetch_first hq.sound htwo rfl hfetch
  refine ⟨hpkt, hfaith.transfers _ ?_⟩
  apply fetchLoop_transfers _ _ hloop
  rw [hb.transfers]; exact mem_append_right _ mem_cons_self

end Fetch

/-- A mailbox of 128-byte blocks, of a target with credits of 256 bytes. -/
def smallCredits : Dev := ⟨128, 256, 7, by decide, by decide⟩

def lookAhead (payloadLen count : UInt32) : UInt32 := payloadLen <<< 16 ||| count <<< 12 ||| 1

/-- Two messages that are announced as a bundle. -/
theorem bundled_receive_faithful_two :
    ∃ q, hif_dev_alloc_and_prepare_rx_packets smallCredits [lookAhead 100 1] [[], []] = (.ok, q) ∧
      q.items.length = 2 ∧ FetchesFaithfully smallCredits q [] := by
  have halloc : hif_dev_alloc_and_prepare_rx_packets smallCredits [lookAhead 100 1] [[], []] =
      (.ok, (hif_dev_alloc_and_prepare_rx_packets smallCredits [lookAhead 100 1] [[], []]).2) := by
    decide +kernel
  refine ⟨_, halloc, by decide +kernel, ?_⟩
  refine ((bundled_receive_faithful halloc []).2).mpr ⟨by decide +kernel, fun _ => ⟨rfl, ?_⟩⟩
  decide +kernel

def numberedMessages (n : Nat) : List (List UInt8) :=
  (range n).map fun i => replicate 128 (UInt8.ofNat i)

def pendingPackets (LookAheads : List UInt32) (n : Nat) : A_STATUS × Queue :=
  hif_dev_alloc_and_prepare_rx_packets smallCredits LookAheads (replicate n [])

/-- Of eighteen messages, the first packet gets the seventeenth, with which the second bundle
starts. And three messages of 1700 bytes are read at once into the bundle buffer of 4096. -/
theorem second_bundle_overwrites :
    (∃ q f, pendingPackets [lookAhead 100 15, lookAhead 100 1] 18 = (.ok, q) ∧
        fetch smallCredits q
          ⟨(numberedMessages 18).flatten, [], [], replicate 2 (replicate 2304 0), []⟩ =
            some (.ok, f) ∧
        (f.syncCompletedPktsQueue.items.map fun p => (p.id, p.pBuffer.take 128)).head? =
          some (0, replicate 128 16)) ∧
      ∃ q f, pendingPackets [lookAhead 1700 2] 3 = (.ok, q) ∧
        fetch smallCredits q ⟨replicate 5376 0, [], [], [], []⟩ = some (.ok, f) ∧
        f.bus.transfers = [5376] ∧ bundleSpace smallCredits = 4096 := by
  constructor
  · have halloc : (pendingPackets [lookAhead 100 15, lookAhead 100 1] 18).1 = .ok := by
      decide +kernel
    obtain ⟨⟨status, f⟩, hf, hq⟩ := (any_eq_true
      (fun r : A_STATUS × Fetch => decide (r.1 = .ok ∧
        (r.2.syncCompletedPktsQueue.items.map fun p => (p.id, p.pBuffer.take 128)).head? =
          some (0, replicate 128 16)))
      (fetch smallCredits (pendingPackets [lookAhead 100 15, lookAhead 100 1] 18).2
        ⟨(numberedMessages 18).flatten, [], [], replicate 2 (replicate 2304 0),
          []⟩)).mp (by decide +kernel)
    obtain ⟨rfl, hhead⟩ := of_decide_eq_true hq
    exact ⟨_, f, Prod.ext halloc rfl, hf, hhead⟩
  · have halloc : (pendingPackets [lookAhead 1700 2] 3).1 = .ok := by decide +kernel
    obtain ⟨⟨status, f⟩, hf, hq⟩ := (any_eq_true
      (fun r : A_STATUS × Fetch => decide (r.1 = .ok ∧ r.2.bus.transfers = [5376]))
      (fetch smallCredits (pendingPackets [lookAhead 1700 2] 3).2
        ⟨replicate 5376 0, [], [], [], []⟩)).mp (by decide +kernel)
    obtain ⟨rfl, htransfers⟩ := of_decide_eq_true hq
    exact ⟨_, f, Prod.ext halloc rfl, hf, htransfers, rfl⟩

end Qcacld.SdioRecv
