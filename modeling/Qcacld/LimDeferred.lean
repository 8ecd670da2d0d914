/-
The queue of deferred messages of `lim_utils.c`.

A management frame is turned away where the first `size` slots of the array hold more than 40 of
them, whichever slots the queue takes up: the count leaves out frames that are queued further on,
and takes in frames that have long been read.
-/
import Mathlib.Data.Nat.Count
import Qcacld.Lib.Fifo

set_option autoImplicit false

namespace Qcacld.LimDeferred

open Lib Function

def MAX_DEFERRED_QUEUE_LEN : Nat := 80
def LIM_DEFERRED_Q_CHECK_THRESHOLD : Nat := MAX_DEFERRED_QUEUE_LEN / 2
def LIM_MAX_NUM_MGMT_FRAME_DEFERRED : Nat := MAX_DEFERRED_QUEUE_LEN / 2

def SIR_LIM_MODULE_ID : UInt16 := 0x13
def SIR_LIM_MSG_TYPES_BEGIN : UInt16 := SIR_LIM_MODULE_ID <<< 8
def SIR_LIM_ITC_MSG_TYPES_BEGIN : UInt16 := SIR_LIM_MSG_TYPES_BEGIN + 0xB0
def SIR_BB_XPORT_MGMT_MSG : UInt16 := SIR_LIM_ITC_MSG_TYPES_BEGIN + 4

def TX_SUCCESS : UInt8 := 0
def TX_QUEUE_FULL : UInt8 := 1

structure MsgQ where
  type : UInt16
  reserved : UInt16
  bodyptr : UInt64
  bodyval : UInt32
  callback : UInt64

structure DeferredMsgQParams where
  deferredQueue : Nat → MsgQ
  size : Nat
  read : Nat
  write : Nat

/-- What the functions use of `pMac->lim`. -/
structure Lim where
  gLimDeferredMsgQ : DeferredMsgQParams
  deferredMsgCnt : UInt8

def lim_reset_deferred_msg_q (pMac : Lim) : Lim :=
  { pMac with gLimDeferredMsgQ := { pMac.gLimDeferredMsgQ with size := 0, write := 0, read := 0 } }

def scanCount (q : DeferredMsgQParams) : Nat :=
  Nat.count (fun idx => SIR_BB_XPORT_MGMT_MSG = (q.deferredQueue idx).type) q.size

def writeSlot (q : DeferredMsgQParams) : Nat :=
  if q.write ≥ MAX_DEFERRED_QUEUE_LEN then 0 else q.write

def save (q : DeferredMsgQParams) (lim_msg : MsgQ) : DeferredMsgQParams where
  deferredQueue := update q.deferredQueue (writeSlot q) lim_msg
  size := q.size + 1
  read := q.read
  write := writeSlot q + 1

def lim_write_deferred_msg_q (mac_ctx : Lim) (lim_msg : MsgQ) : Lim × UInt8 :=
  let q := mac_ctx.gLimDeferredMsgQ
  if q.size ≥ MAX_DEFERRED_QUEUE_LEN then
    -- the counter goes up whether or not this one is logged
    ({ mac_ctx with deferredMsgCnt := mac_ctx.deferredMsgCnt + 1 }, TX_QUEUE_FULL)
  else if SIR_BB_XPORT_MGMT_MSG = lim_msg.type ∧ LIM_DEFERRED_Q_CHECK_THRESHOLD < q.size ∧
      LIM_MAX_NUM_MGMT_FRAME_DEFERRED < scanCount q then
    (mac_ctx, TX_QUEUE_FULL)
  else
    ({ gLimDeferredMsgQ := save q lim_msg, deferredMsgCnt := 0 }, TX_SUCCESS)

def advance (q : DeferredMsgQParams) : DeferredMsgQParams :=
  { q with
    size := q.size - 1
    read := if q.read + 1 ≥ MAX_DEFERRED_QUEUE_LEN then 0 else q.read + 1 }

/-- `none` is the null pointer. -/
def lim_read_deferred_msg_q (pMac : Lim) : Lim × Option MsgQ :=
  let q := pMac.gLimDeferredMsgQ
  if q.size = 0 then (pMac, none)
  else ({ pMac with gLimDeferredMsgQ := advance q }, some (q.deferredQueue q.read))

/-! ## What is queued -/

def live (q : DeferredMsgQParams) : List MsgQ :=
  (List.range q.size).map fun k => q.deferredQueue ((q.read + k) % MAX_DEFERRED_QUEUE_LEN)

/-- The write index may stand behind the last slot, the read index does not. -/
structure Valid (q : DeferredMsgQParams) : Prop where
  size_le : q.size ≤ MAX_DEFERRED_QUEUE_LEN
  read_lt : q.read < MAX_DEFERRED_QUEUE_LEN
  write_le : q.write ≤ MAX_DEFERRED_QUEUE_LEN
  write_mod : q.write % MAX_DEFERRED_QUEUE_LEN = (q.read + q.size) % MAX_DEFERRED_QUEUE_LEN

variable {q : DeferredMsgQParams}

theorem length_live (q : DeferredMsgQParams) : (live q).length = q.size := by
  unfold live
  rw [List.length_map, List.length_range]

theorem fifo_live (q : DeferredMsgQParams) :
    Fifo q.deferredQueue MAX_DEFERRED_QUEUE_LEN q.read (live q) :=
  fifo_map_range _ _ _ _

theorem Valid.writeSlot_eq (h : Valid q) :
    writeSlot q = (q.read + q.size) % MAX_DEFERRED_QUEUE_LEN := by
  rw [← h.write_mod]
  unfold writeSlot
  split
  · rename_i hend; rw [Nat.le_antisymm h.write_le hend, Nat.mod_self]
  · rename_i hend; exact (Nat.mod_eq_of_lt (Nat.lt_of_not_le hend)).symm

theorem Valid.writeSlot_free (h : Valid q) (hroom : q.size < MAX_DEFERRED_QUEUE_LEN) :
    writeSlot q < MAX_DEFERRED_QUEUE_LEN ∧
      ∀ k < q.size, (q.read + k) % MAX_DEFERRED_QUEUE_LEN ≠ writeSlot q := by
  rw [h.writeSlot_eq]
  refine ⟨Nat.mod_lt _ (by decide), fun k hk heq => ?_⟩
  have hahead : Ahead MAX_DEFERRED_QUEUE_LEN q.read q.size
      ((q.read + q.size) % MAX_DEFERRED_QUEUE_LEN) := ⟨hroom, rfl⟩
  exact absurd (Ahead.unique ⟨Nat.lt_trans hk hroom, heq⟩ hahead) (Nat.ne_of_lt hk)

theorem Valid.live_save (h : Valid q) (hroom : q.size < MAX_DEFERRED_QUEUE_LEN) (m : MsgQ) :
    live (save q m) = live q ++ [m] := by
  have hpush := (fifo_live q).push (by rwa [length_live]) m
  rw [length_live, ← h.writeSlot_eq] at hpush
  apply (fifo_live (save q m)).unique hpush
  rw [length_live, List.length_append, length_live]; rfl

theorem Valid.save (h : Valid q) (hroom : q.size < MAX_DEFERRED_QUEUE_LEN) (m : MsgQ) :
    Valid (save q m) where
  size_le := hroom
  read_lt := h.read_lt
  write_le := (h.writeSlot_free hroom).1
  write_mod := by
    show (writeSlot q + 1) % _ = (q.read + (q.size + 1)) % _
    rw [h.writeSlot_eq, Nat.mod_add_mod, Nat.add_assoc]

theorem Valid.advance_read (h : Valid q) :
    (advance q).read = (q.read + 1) % MAX_DEFERRED_QUEUE_LEN := by
  have hlt := h.read_lt
  unfold advance
  split
  · rename_i hend
    have heq : q.read + 1 = MAX_DEFERRED_QUEUE_LEN := Nat.le_antisymm hlt hend
    rw [heq, Nat.mod_self]
  · rename_i hend; exact (Nat.mod_eq_of_lt (Nat.lt_of_not_le hend)).symm

theorem Valid.advance (h : Valid q) (hsize : q.size ≠ 0) : Valid (advance q) where
  size_le := Nat.le_trans (Nat.sub_le _ _) h.size_le
  read_lt := by rw [h.advance_read]; exact Nat.mod_lt _ (Nat.succ_pos _)
  write_le := h.write_le
  write_mod := by
    rw [h.advance_read, Nat.mod_add_mod]
    show q.write % _ = (q.read + 1 + (q.size - 1)) % _
    rw [h.write_mod]
    congr 1
    omega

theorem Valid.live_eq_cons (h : Valid q) (hsize : q.size ≠ 0) :
    live q = q.deferredQueue q.read :: live (LimDeferred.advance q) := by
  have hfifo := fifo_live q
  have hlen := length_live q
  cases hlive : live q with
  | nil => rw [hlive] at hlen; exact absurd hlen.symm hsize
  | cons a l =>
    rw [hlive] at hfifo hlen
    obtain ⟨hhead, hrest⟩ := hfifo.pop
    rw [Nat.mod_eq_of_lt h.read_lt] at hhead
    rw [hhead]
    apply congrArg (a :: ·)
    rw [← h.advance_read] at hrest
    apply hrest.unique (fifo_live (LimDeferred.advance q))
    rw [length_live]
    show l.length = q.size - 1
    rw [← hlen, List.length_cons, Nat.add_sub_cancel]

/-! ## One operation -/

variable {lim : Lim}

theorem Valid.reset (lim : Lim) :
    Valid (lim_reset_deferred_msg_q lim).gLimDeferredMsgQ ∧
      live (lim_reset_deferred_msg_q lim).gLimDeferredMsgQ = [] :=
  ⟨⟨Nat.zero_le _, Nat.succ_pos _, Nat.zero_le _, rfl⟩, rfl⟩

theorem lim_write_deferred_msg_q_spec (h : Valid lim.gLimDeferredMsgQ) (m : MsgQ) :
    Valid (lim_write_deferred_msg_q lim m).1.gLimDeferredMsgQ ∧
      live (lim_write_deferred_msg_q lim m).1.gLimDeferredMsgQ =
        live lim.gLimDeferredMsgQ ++
          if (lim_write_deferred_msg_q lim m).2 = TX_SUCCESS then [m] else [] := by
  unfold lim_write_deferred_msg_q
  dsimp only
  split
  · exact ⟨h, (List.append_nil _).symm⟩
  · rename_i hfull
    have hroom := Nat.lt_of_not_le hfull
    split
    · exact ⟨h, (List.append_nil _).symm⟩
    · exact ⟨h.save hroom m, h.live_save hroom m⟩

theorem lim_read_deferred_msg_q_spec (h : Valid lim.gLimDeferredMsgQ) :
    Valid (lim_read_deferred_msg_q lim).1.gLimDeferredMsgQ ∧
      live lim.gLimDeferredMsgQ = (lim_read_deferred_msg_q lim).2.toList ++
        live (lim_read_deferred_msg_q lim).1.gLimDeferredMsgQ := by
  unfold lim_read_deferred_msg_q
  dsimp only
  split
  · exact ⟨h, rfl⟩
  · rename_i hsize; exact ⟨h.advance hsize, h.live_eq_cons hsize⟩

/-! ## Runs -/

inductive Op where
  | write (lim_msg : MsgQ)
  | read
  | reset

/-- The state of the module, and the messages accepted and returned since the last reset. -/
structure Trace where
  lim : Lim
  accepted : List MsgQ
  returned : List MsgQ

def step (t : Trace) : Op → Trace
  | .write m =>
    let r := lim_write_deferred_msg_q t.lim m
    { t with lim := r.1, accepted := t.accepted ++ if r.2 = TX_SUCCESS then [m] else [] }
  | .read =>
    let r := lim_read_deferred_msg_q t.lim
    { t with lim := r.1, returned := t.returned ++ r.2.toList }
  | .reset => ⟨lim_reset_deferred_msg_q t.lim, [], []⟩

/-- The queue starts with a reset, whatever is in the array. -/
def run (lim : Lim) (ops : List Op) : Trace :=
  ops.foldl step ⟨lim_reset_deferred_msg_q lim, [], []⟩

/-- What has been accepted has been returned, in order, or is still queued. -/
structure Ordered (t : Trace) : Prop where
  valid : Valid t.lim.gLimDeferredMsgQ
  accepted_eq : t.accepted = t.returned ++ live t.lim.gLimDeferredMsgQ

theorem Ordered.reset (lim : Lim) : Ordered ⟨lim_reset_deferred_msg_q lim, [], []⟩ :=
  ⟨(Valid.reset lim).1, rfl⟩

theorem Ordered.step {t : Trace} (h : Ordered t) (op : Op) : Ordered (step t op) := by
  cases op with
  | write m =>
    obtain ⟨hvalid, hlive⟩ := lim_write_deferred_msg_q_spec h.valid m
    refine ⟨hvalid, ?_⟩
    show t.accepted ++ _ = t.returned ++ live (lim_write_deferred_msg_q t.lim m).1.1
    rw [hlive, h.accepted_eq, List.append_assoc]
  | read =>
    obtain ⟨hvalid, hlive⟩ := lim_read_deferred_msg_q_spec h.valid
    refine ⟨hvalid, ?_⟩
    show t.accepted = t.returned ++ _ ++ live (lim_read_deferred_msg_q t.lim).1.1
    rw [h.accepted_eq, hlive, List.append_assoc]
  | reset => exact Ordered.reset t.lim

theorem ordered_run (lim : Lim) (ops : List Op) : Ordered (run lim ops) := by
  unfold run
  induction ops using List.reverseRecOn with
  | nil => exact Ordered.reset lim
  | append_singleton ops op ih => rw [List.foldl_append]; exact ih.step op

/-! ## The quota of management frames -/

/-- The slots the queue takes up, and those the scan goes over. -/
def queuedSlots (q : DeferredMsgQParams) : Finset Nat :=
  (Finset.range q.size).image fun k => (q.read + k) % MAX_DEFERRED_QUEUE_LEN

def scannedSlots (q : DeferredMsgQParams) : Finset Nat := Finset.range q.size

def mgmtIn (q : DeferredMsgQParams) (slots : Finset Nat) : Finset Nat :=
  slots.filter fun i => SIR_BB_XPORT_MGMT_MSG = (q.deferredQueue i).type

def mgmtQueued (q : DeferredMsgQParams) : Nat :=
  (live q).countP fun m => SIR_BB_XPORT_MGMT_MSG = m.type

/-- How many are queued in slots that the scan does not get to. -/
def missed (q : DeferredMsgQParams) : Nat :=
  (mgmtIn q (queuedSlots q \ scannedSlots q)).card

/-- How many are in slots of the scan that are not queued, or no longer. -/
def stale (q : DeferredMsgQParams) : Nat :=
  (mgmtIn q (scannedSlots q \ queuedSlots q)).card

theorem scanCount_eq (q : DeferredMsgQParams) : scanCount q = (mgmtIn q (scannedSlots q)).card :=
  Nat.count_eq_card_filter_range _ _

theorem mgmtQueued_eq (h : q.size ≤ MAX_DEFERRED_QUEUE_LEN) :
    mgmtQueued q = (mgmtIn q (queuedSlots q)).card := by
  have hinj : Set.InjOn (fun k => (q.read + k) % MAX_DEFERRED_QUEUE_LEN)
      ((Finset.range q.size).filter fun k => SIR_BB_XPORT_MGMT_MSG =
        (q.deferredQueue ((q.read + k) % MAX_DEFERRED_QUEUE_LEN)).type : Finset Nat) := by
    intro k hk k' hk' heq
    rw [Finset.mem_coe, Finset.mem_filter, Finset.mem_range] at hk hk'
    exact Ahead.unique ⟨Nat.lt_of_lt_of_le hk.1 h, heq⟩ ⟨Nat.lt_of_lt_of_le hk'.1 h, rfl⟩
  unfold mgmtIn queuedSlots mgmtQueued live
  rw [Finset.filter_image, Finset.card_image_of_injOn hinj, ← Nat.count_eq_card_filter_range,
    List.countP_map]
  rfl

theorem scanCount_add_missed (h : q.size ≤ MAX_DEFERRED_QUEUE_LEN) :
    scanCount q + missed q = mgmtQueued q + stale q := by
  have hdiff : ∀ s t : Finset Nat,
      (mgmtIn q s).card + (mgmtIn q (t \ s)).card = (mgmtIn q (s ∪ t)).card := by
    intro s t
    unfold mgmtIn
    rw [← Finset.card_union_of_disjoint, ← Finset.filter_union, Finset.union_sdiff_self_eq_union]
    exact Finset.disjoint_filter_filter Finset.disjoint_sdiff
  rw [scanCount_eq, mgmtQueued_eq h]
  unfold missed stale
  rw [hdiff, hdiff, Finset.union_comm]

/-- Fewer management frames than the quota are queued, and those left in the slots of the scan do
not make up for it; or no fewer are, and those out of its reach leave more than the quota. -/
def ScanAgrees (q : DeferredMsgQParams) : Prop :=
  if mgmtQueued q < LIM_MAX_NUM_MGMT_FRAME_DEFERRED then
    mgmtQueued q + stale q ≤ LIM_MAX_NUM_MGMT_FRAME_DEFERRED + missed q
  else LIM_MAX_NUM_MGMT_FRAME_DEFERRED + missed q < mgmtQueued q + stale q

theorem scanAgrees_iff (h : q.size ≤ MAX_DEFERRED_QUEUE_LEN) :
    ScanAgrees q ↔ (LIM_MAX_NUM_MGMT_FRAME_DEFERRED < scanCount q ↔
      LIM_MAX_NUM_MGMT_FRAME_DEFERRED ≤ mgmtQueued q) := by
  have hsum := scanCount_add_missed h
  unfold ScanAgrees
  split <;> omega

theorem threshold_lt_of_scan (h : LIM_MAX_NUM_MGMT_FRAME_DEFERRED < scanCount q) :
    LIM_DEFERRED_Q_CHECK_THRESHOLD < q.size :=
  Nat.lt_of_lt_of_le h (Nat.count_le _)

theorem write_full_iff (lim : Lim) (m : MsgQ) :
    (lim_write_deferred_msg_q lim m).2 = TX_QUEUE_FULL ↔
      MAX_DEFERRED_QUEUE_LEN ≤ lim.gLimDeferredMsgQ.size ∨
        SIR_BB_XPORT_MGMT_MSG = m.type ∧
          LIM_MAX_NUM_MGMT_FRAME_DEFERRED < scanCount lim.gLimDeferredMsgQ := by
  unfold lim_write_deferred_msg_q
  dsimp only
  split
  · rename_i hfull; exact ⟨fun _ => Or.inl hfull, fun _ => rfl⟩
  · rename_i hfull
    rw [or_iff_right hfull]
    split
    · rename_i hquota; exact ⟨fun _ => ⟨hquota.1, hquota.2.2⟩, fun _ => rfl⟩
    · rename_i hquota
      constructor
      · intro heq; exact absurd (congrArg UInt8.toNat heq) Nat.zero_ne_one
      · intro hscan; exact absurd ⟨hscan.1, threshold_lt_of_scan hscan.2, hscan.2⟩ hquota

/-- A message is turned away by a full queue, and a management frame also where the quota of them
is queued already. -/
def RejectedRightly (lim : Lim) (m : MsgQ) : Prop :=
  (lim_write_deferred_msg_q lim m).2 = TX_QUEUE_FULL ↔
    lim.gLimDeferredMsgQ.size = MAX_DEFERRED_QUEUE_LEN ∨
      SIR_BB_XPORT_MGMT_MSG = m.type ∧
        LIM_MAX_NUM_MGMT_FRAME_DEFERRED ≤ mgmtQueued lim.gLimDeferredMsgQ

theorem rejectedRightly_iff (h : lim.gLimDeferredMsgQ.size ≤ MAX_DEFERRED_QUEUE_LEN) (m : MsgQ) :
    RejectedRightly lim m ↔
      (lim.gLimDeferredMsgQ.size < MAX_DEFERRED_QUEUE_LEN → SIR_BB_XPORT_MGMT_MSG = m.type →
        ScanAgrees lim.gLimDeferredMsgQ) := by
  unfold RejectedRightly
  rw [write_full_iff, scanAgrees_iff h]
  by_cases hfull : lim.gLimDeferredMsgQ.size = MAX_DEFERRED_QUEUE_LEN
  · rw [hfull]
    exact ⟨fun _ hlt => absurd hlt (lt_irrefl _),
      fun _ => ⟨fun _ => Or.inl rfl, fun _ => Or.inl (le_refl _)⟩⟩
  · have hroom := Nat.lt_of_le_of_ne h hfull
    rw [or_iff_right (Nat.not_le_of_lt hroom), or_iff_right hfull]
    constructor
    · intro hiff _ hmgmt; rwa [and_iff_right hmgmt, and_iff_right hmgmt] at hiff
    · intro hagree
      apply and_congr_right
      intro hmgmt; exact hagree hroom hmgmt

/-- After any operations since the queue was reset: the accepted messages have been returned in
the order they were written or are in the queue, of which no more than its length are; a write
never stores over one that is still to be read; and messages are turned away as they should be
exactly if the scan, for a management frame and a queue with room, comes to the same as a count of
the queue. -/
theorem deferred_msg_q_run (lim : Lim) (ops : List Op) :
    let t := run lim ops
    let q := t.lim.gLimDeferredMsgQ
    (t.accepted = t.returned ++ live q ∧ (live q).length = q.size ∧
      q.size ≤ MAX_DEFERRED_QUEUE_LEN) ∧
    (∀ m, live (lim_write_deferred_msg_q t.lim m).1.gLimDeferredMsgQ = live q ++
      if (lim_write_deferred_msg_q t.lim m).2 = TX_SUCCESS then [m] else []) ∧
    live q = (lim_read_deferred_msg_q t.lim).2.toList ++
      live (lim_read_deferred_msg_q t.lim).1.gLimDeferredMsgQ ∧
    ∀ m, RejectedRightly t.lim m ↔
      (q.size < MAX_DEFERRED_QUEUE_LEN → SIR_BB_XPORT_MGMT_MSG = m.type → ScanAgrees q) := by
  intro t q
  have hordered := ordered_run lim ops
  refine ⟨⟨hordered.accepted_eq, length_live q, hordered.valid.size_le⟩, ?_, ?_, ?_⟩
  · intro m; exact (lim_write_deferred_msg_q_spec hordered.valid m).2
  · exact (lim_read_deferred_msg_q_spec hordered.valid).2
  · intro m; exact rejectedRightly_iff hordered.valid.size_le m

def mgmtFrame : MsgQ := ⟨SIR_BB_XPORT_MGMT_MSG, 0, 0, 0, 0⟩

def otherMsg : MsgQ := ⟨SIR_LIM_MSG_TYPES_BEGIN, 0, 0, 0, 0⟩

/-- A queue of 41 messages that starts at slot 41: 2 management frames are queued, and 39 that have
been read are in the slots 2 to 40. -/
def wrappedOps : List Op :=
  List.replicate 41 (.write mgmtFrame) ++ List.replicate 41 .read ++
    List.replicate 39 (.write otherMsg) ++ List.replicate 2 (.write mgmtFrame)

theorem wrapped_rejects :
    let t := run ⟨⟨fun _ => otherMsg, 0, 0, 0⟩, 0⟩ wrappedOps
    mgmtQueued t.lim.gLimDeferredMsgQ = 2 ∧ ¬ RejectedRightly t.lim mgmtFrame := by
  have hqueued : mgmtQueued
      (run ⟨⟨fun _ => otherMsg, 0, 0, 0⟩, 0⟩ wrappedOps).lim.gLimDeferredMsgQ = 2 := by
    decide +kernel
  have hfull : (lim_write_deferred_msg_q
      (run ⟨⟨fun _ => otherMsg, 0, 0, 0⟩, 0⟩ wrappedOps).lim mgmtFrame).2 = TX_QUEUE_FULL := by
    decide +kernel
  have hsize : (run ⟨⟨fun _ => otherMsg, 0, 0, 0⟩, 0⟩ wrappedOps).lim.gLimDeferredMsgQ.size ≠
      MAX_DEFERRED_QUEUE_LEN := by decide +kernel
  refine ⟨hqueued, fun hright => ?_⟩
  rcases hright.mp hfull with hmax | ⟨_, hquota⟩
  · exact hsize hmax
  · rw [hqueued] at hquota; exact absurd hquota (by decide)

end Qcacld.LimDeferred
