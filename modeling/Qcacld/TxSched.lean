/-
The tx queues and the tx scheduler of high-latency systems: `ol_tx_queue.c`, and the advanced
weighted round robin scheduler of `ol_tx_sched.c`.

A step is what happens under one hold of `tx_queue_spinlock`: `ol_tx_sched` lets go of it after each
batch, so a pass of the scheduler is `select_init` and any number of `select_batch` steps, with
other steps in between. The group credits and the limits of bad peers are inputs of a batch. A queue
holds descriptors of a pool of a few thousand, so that its frame and byte counts do not wrap;
`paused_count.total`, which is an 8-bit counter that nothing bounds, can. TAILQ_REMOVE of a queue
that is not in the list has no result.
-/
import Qcacld.Lib.Run
import Qcacld.Lib.Bins
import Qcacld.Lib.Count

set_option autoImplicit false

namespace Qcacld.TxSched

open Lib Function

/-! ## Data -/

def OL_TX_NUM_TIDS : Nat := 18
def OL_TX_VDEV_NUM_QUEUES : Nat := 2
def HTT_NON_QOS_TID : Nat := 16
def OL_TX_DISCARD_QUANTUM : Nat := 10

theorem zero_lt_num_tids : 0 < OL_TX_NUM_TIDS := by decide

inductive Cat where
  | BE
  | BK
  | VI
  | VO
  | NON_QOS_DATA
  | UCAST_MGMT
  | MCAST_DATA
  | MCAST_MGMT
deriving DecidableEq

def Cat.all : List Cat :=
  [.BE, .BK, .VI, .VO, .NON_QOS_DATA, .UCAST_MGMT, .MCAST_DATA, .MCAST_MGMT]

/-- A tx queue: `peer->txqs[tid]` or `vdev->txqs[i]`. -/
inductive TxqId where
  | peer (peer : Nat) (tid : Fin OL_TX_NUM_TIDS)
  | vdev (vdev : Nat) (i : Fin OL_TX_VDEV_NUM_QUEUES)
deriving DecidableEq

/-- The tid that the classification gives to the frames of a queue; the vdev
queues are those for multicast data and for management frames. -/
def TxqId.ext_tid : TxqId → Nat
  | .peer _ tid => tid
  | .vdev _ i => HTT_NON_QOS_TID + i

/-- The tid that `ol_tx_queue_free` is called with. -/
def TxqId.free_tid : TxqId → Nat
  | .peer _ tid => tid
  | .vdev _ i => OL_TX_NUM_TIDS + i

/-- `pdev->tid_to_ac`. The two numbers that a vdev queue goes by have to mean the
same category. -/
structure TidToAc where
  ac : Nat → Cat
  ac_vdev : ∀ i : Fin OL_TX_VDEV_NUM_QUEUES, ac (OL_TX_NUM_TIDS + i) = ac (HTT_NON_QOS_TID + i)

/-- The table as it is: no code writes it. -/
def TidToAc.zeroed : TidToAc := ⟨fun _ => .BE, fun _ => rfl⟩

def TidToAc.cat (T : TidToAc) (q : TxqId) : Cat := T.ac q.ext_tid

inductive QueueStatus where
  | empty
  | active
  | paused
deriving DecidableEq

/-- A frame: its descriptor, its length and what it costs to download. -/
structure TxDesc where
  id : Nat
  len : Nat
  credit : Nat
deriving DecidableEq

/-- `struct ol_tx_frms_queue_t`. -/
structure Txq where
  head : List TxDesc
  frms : Nat
  bytes : Nat
  /-- `paused_count.total`. -/
  paused_count : Nat
  flag : QueueStatus

structure Category where
  frms : Int
  bytes : Int
  head : List TxqId
  active : Bool

structure Specs where
  wrr_skip_weight : Nat
  credit_threshold : Nat
  send_limit : Nat
  credit_reserve : Nat
  discard_weight : Nat

structure Pdev where
  txq : TxqId → Txq
  cat : Cat → Category
  specs : Cat → Specs
  wrr_count : Cat → Nat
  order : List Cat
  index : Nat
  last_used_txq : Option TxqId

def Pdev.setTxq (s : Pdev) (q : TxqId) (t : Txq) : Pdev := { s with txq := update s.txq q t }

def Pdev.setCat (s : Pdev) (c : Cat) (k : Category) : Pdev := { s with cat := update s.cat c k }

def Pdev.setFlag (s : Pdev) (q : TxqId) (flag : QueueStatus) : Pdev :=
  s.setTxq q { s.txq q with flag := flag }

def bytesOf (frames : List TxDesc) : Nat := (frames.map TxDesc.len).sum

/-! ## Categories -/

def specsSdio : Cat → Specs
  | .VO => ⟨1, 17, 24, 0, 1⟩
  | .VI => ⟨3, 17, 16, 1, 4⟩
  | .BE => ⟨10, 17, 16, 1, 8⟩
  | .BK => ⟨12, 6, 6, 1, 8⟩
  | .NON_QOS_DATA => ⟨12, 6, 4, 1, 8⟩
  | .UCAST_MGMT => ⟨1, 1, 4, 0, 1⟩
  | .MCAST_DATA => ⟨10, 17, 4, 1, 4⟩
  | .MCAST_MGMT => ⟨1, 1, 4, 0, 1⟩

def ol_tx_sched_txq_enqueue_wrr_adv (T : TidToAc) (s : Pdev) (q : TxqId) (tid frms bytes : Nat) :
    Pdev :=
  let k := s.cat (T.ac tid)
  let k := { k with frms := k.frms + frms, bytes := k.bytes + bytes }
  s.setCat (T.ac tid)
    (if (s.txq q).flag ≠ .active then { k with head := k.head ++ [q], active := true } else k)

def ol_tx_sched_txq_deactivate_wrr_adv (T : TidToAc) (s : Pdev) (q : TxqId) (tid : Nat) :
    Option Pdev :=
  let k := s.cat (T.ac tid)
  let frms := k.frms - (s.txq q).frms
  if q ∈ k.head then
    some (s.setCat (T.ac tid)
      { frms := frms
        bytes := k.bytes - (s.txq q).bytes
        head := k.head.erase q
        active := if frms = 0 then false else k.active })
  else none

def ol_tx_sched_txq_discard_wrr_adv (s : Pdev) (q : TxqId) (c : Cat) (frames bytes : Nat) :
    Option Pdev :=
  let k := s.cat c
  let frms := k.frms - frames
  let linked := fun head =>
    some (s.setCat c
      { frms := frms
        bytes := k.bytes - bytes
        head := head
        active := if frms = 0 then false else k.active })
  if (s.txq q).frms = 0 then (if q ∈ k.head then linked (k.head.erase q) else none)
  else linked k.head

/-- `struct ol_tx_sched_notify_ctx_t`, less the queue. -/
inductive Event where
  | enqueue_frame (tid bytes : Nat)
  | delete_queue (tid : Nat)
  | pause_queue (tid : Nat)
  | unpause_queue (tid : Nat)
  | discard_frames (cat : Cat) (frames bytes : Nat)

def ol_tx_sched_notify (T : TidToAc) (s : Pdev) (q : TxqId) : Event → Option Pdev
  | .enqueue_frame tid bytes => some (ol_tx_sched_txq_enqueue_wrr_adv T s q tid 1 bytes)
  | .delete_queue tid =>
    if (s.txq q).flag = .active then ol_tx_sched_txq_deactivate_wrr_adv T s q tid else some s
  | .pause_queue tid =>
    if (s.txq q).flag = .active then ol_tx_sched_txq_deactivate_wrr_adv T s q tid else some s
  | .unpause_queue tid =>
    if (s.txq q).frms ≠ 0 then
      some (ol_tx_sched_txq_enqueue_wrr_adv T s q tid (s.txq q).frms (s.txq q).bytes)
    else some s
  | .discard_frames c frames bytes => ol_tx_sched_txq_discard_wrr_adv s q c frames bytes

/-! ## Taking frames out of a queue -/

/-- The loop of `ol_tx_dequeue`: the frames that are taken, and those that stay. -/
def dequeueLoop (credit : Nat) : Nat → Nat → List TxDesc → Option (List TxDesc × List TxDesc)
  | 0, _, head => some ([], head)
  | _ + 1, _, [] => none
  | n + 1, credit_sum, d :: head =>
    if credit_sum + d.credit > credit then some ([], d :: head)
    else (dequeueLoop credit n (credit_sum + d.credit) head).map fun r => (d :: r.1, r.2)

/-- What `ol_tx_dequeue` leaves, and the frames it appends to `head`; the credit
and the bytes that it returns are those of the frames. -/
def ol_tx_dequeue (t : Txq) (max_frames credit : Nat) : Option (Txq × List TxDesc) :=
  (dequeueLoop credit (if t.frms < max_frames then t.frms else max_frames) 0 t.head).map fun r =>
    let frms := t.frms - r.1.length
    ({ t with
        head := r.2
        frms := frms
        bytes := t.bytes - bytesOf r.1
        -- a paused queue remains paused, regardless of whether it has frames
        flag := if frms = 0 ∧ t.flag = .active then .empty else t.flag },
      r.1)

/-! ## Discarding frames -/

def ol_tx_sched_discard_select_category_wrr_adv (s : Pdev) : Cat :=
  (Cat.all.foldl (fun (best : Int × Cat) c =>
    let score := (s.cat c).frms * (s.specs c).discard_weight
    if best.1 = 0 ∨ score > best.1 then (score, c) else best) (0, .BE)).2

def ol_tx_sched_discard_select_txq (s : Pdev) (tx_queues : List TxqId) : Option TxqId :=
  (tx_queues.foldl (fun (best : Nat × Option TxqId) q =>
    if (s.txq q).frms > best.1 then ((s.txq q).frms, some q) else best) (0, none)).2

def discardQuota (queued frms : Nat) (force : Bool) : Nat :=
  if force then frms
  else
    let frms := if OL_TX_DISCARD_QUANTUM < frms then OL_TX_DISCARD_QUANTUM else frms
    if queued > 1 ∧ frms ≥ queued / 2 then queued / 2 else frms

def ol_tx_sched_discard_select (T : TidToAc) (s : Pdev) (frms : Nat) (force : Bool) :
    Option (Pdev × List TxDesc) :=
  let c := ol_tx_sched_discard_select_category_wrr_adv s
  match ol_tx_sched_discard_select_txq s (s.cat c).head with
  | none => some (s, [])
  | some q =>
    (ol_tx_dequeue (s.txq q) (discardQuota (s.txq q).frms frms force) 10000).bind fun r =>
      (ol_tx_sched_notify T (s.setTxq q r.1) q
        (.discard_frames c r.2.length (bytesOf r.2))).map fun s => (s, r.2)

def discardLoop (T : TidToAc) (force : Bool) : Nat → Pdev → Nat → Option (Pdev × List TxDesc)
  | 0, s, num => if num = 0 then some (s, []) else none
  | fuel + 1, s, num =>
    if num = 0 then some (s, [])
    else (ol_tx_sched_discard_select T s num force).bind fun r =>
      if r.2 = [] then some (r.1, [])
      else (discardLoop T force fuel r.1 (num - r.2.length)).map fun r' => (r'.1, r.2 ++ r'.2)

/-- `ol_tx_queue_discard`, for a given number of frames. -/
def ol_tx_queue_discard (T : TidToAc) (s : Pdev) (force : Bool) (num : Nat) :
    Option (Pdev × List TxDesc) :=
  discardLoop T force num s num

/-! ## Queueing, flushing and pausing -/

/-- The part of `ol_tx_enqueue` under the lock. -/
def enqueueFrame (T : TidToAc) (s : Pdev) (q : TxqId) (d : TxDesc) : Option Pdev :=
  let t := s.txq q
  let s := s.setTxq q
    { t with head := t.head ++ [d], frms := t.frms + 1, bytes := t.bytes + d.len }
  if t.flag ≠ .paused then
    (ol_tx_sched_notify T s q (.enqueue_frame q.ext_tid d.len)).map fun s => s.setFlag q .active
  else some s

/-- `ol_tx_enqueue`; `low` is the number of frames to discard first if there are
too few descriptors left. The frames that are discarded are returned. -/
def ol_tx_enqueue (T : TidToAc) (s : Pdev) (q : TxqId) (d : TxDesc) (low : Option Nat) :
    Option (Pdev × List TxDesc) :=
  match low with
  | none => (enqueueFrame T s q d).map fun s => (s, [])
  | some num => (ol_tx_queue_discard T s false num).bind fun r =>
    (enqueueFrame T r.1 q d).map fun s => (s, r.2)

/-- `ol_tx_queue_free`, with the frames that it frees. -/
def ol_tx_queue_free (T : TidToAc) (s : Pdev) (q : TxqId) : Option (Pdev × List TxDesc) :=
  (ol_tx_sched_notify T s q (.delete_queue q.free_tid)).bind fun s =>
    let t := s.txq q
    let frames := t.head.take t.frms
    if t.frms ≤ t.head.length then
      some (s.setTxq q
        { t with head := [], frms := 0, bytes := t.bytes - bytesOf frames, flag := .empty }, frames)
    else none

def ol_txrx_peer_tid_pause_base (T : TidToAc) (s : Pdev) (peer : Nat) (tid : Fin OL_TX_NUM_TIDS) :
    Option Pdev :=
  let q := TxqId.peer peer tid
  let t := s.txq q
  let s := s.setTxq q { t with paused_count := (t.paused_count + 1) % 2 ^ 8 }
  if t.paused_count = 0 then
    (ol_tx_sched_notify T s q (.pause_queue tid)).map fun s => s.setFlag q .paused
  else some s

/-- `ol_txrx_peer_tid_unpause_base`, up to the call of the scheduler. -/
def ol_txrx_peer_tid_unpause_base (T : TidToAc) (s : Pdev) (peer : Nat)
    (tid : Fin OL_TX_NUM_TIDS) : Option Pdev :=
  let q := TxqId.peer peer tid
  let t := s.txq q
  if t.paused_count = 0 then some s
  else
    let s := s.setTxq q { t with paused_count := t.paused_count - 1 }
    if t.paused_count - 1 = 0 then
      (ol_tx_sched_notify T s q (.unpause_queue tid)).map fun s =>
        s.setFlag q (if (s.txq q).frms = 0 then .empty else .active)
    else some s

/-! ## Selecting frames for download -/

def ol_tx_sched_select_init_wrr_adv (s : Pdev) : Pdev :=
  { s with index := 0, last_used_txq := none }

/-- `ol_tx_sched_wrr_adv_rotate_order_list_tail`: the element goes to the end. -/
def rotateToTail (order : List Cat) (idx : Nat) (value : Cat) : List Cat :=
  order.eraseIdx idx ++ [value]

def selectLoop : Nat → Pdev → Nat → Option (Pdev × Nat × Option Cat)
  | 0, _, _ => none
  | fuel + 1, s, index =>
    if index < Cat.all.length then
      s.order[index]?.bind fun c =>
        if (s.cat c).active = false then selectLoop fuel s (index + 1)
        else if s.wrr_count c + 1 < (s.specs c).wrr_skip_weight then
          -- skip this category (move it to the back)
          selectLoop fuel { s with
            wrr_count := update s.wrr_count c (s.wrr_count c + 1)
            order := rotateToTail s.order index c } index
        else
          some ({ s with wrr_count := update s.wrr_count c (s.wrr_count c + 1) }, index, some c)
    else some (s, index, none)

def Pdev.selectFuel (s : Pdev) : Nat :=
  Cat.all.length + (Cat.all.map fun c => (s.specs c).wrr_skip_weight).sum + 1

/-- What a batch depends on: the target's credit, what the groups of a queue leave of it
(`ol_tx_txq_group_credit_limit`), and the limit of a bad peer. -/
structure BatchEnv where
  credit : Nat
  group_flow_control : Bool
  group_credit_limit : TxqId → Nat → Nat
  tx_limit : TxqId → Option Nat

inductive Batch where
  | inactive
  | lowCredit (c : Cat)
  | noTxq (c : Cat)
  | blocked (q : TxqId)
  | served (q : TxqId) (frames : List TxDesc)
deriving DecidableEq

def ol_tx_bad_peer_dequeue_check (env : BatchEnv) (q : TxqId) (max_frames : Nat) : Nat :=
  match env.tx_limit q with
  | some tx_limit => if tx_limit < max_frames then tx_limit else max_frames
  | none => max_frames

/-- The end of the batch: the queue at the head of the category has its turn. -/
def serveCategory (s : Pdev) (env : BatchEnv) (c : Cat) : Option (Pdev × Batch) :=
  let k := s.cat c
  match k.head with
  | [] => some (s, .noTxq c)
  | q :: rest =>
    let credit := env.group_credit_limit q env.credit
    if credit > (s.specs c).credit_reserve then
      let s := { s with last_used_txq := some q }
      (ol_tx_dequeue (s.txq q) (ol_tx_bad_peer_dequeue_check env q (s.specs c).send_limit)
        (credit - (s.specs c).credit_reserve)).map fun r =>
          let frms := k.frms - r.2.length
          let bytes := k.bytes - bytesOf r.2
          ((s.setTxq q r.1).setCat c
            (if r.1.frms > 0 then
              { frms := frms, bytes := bytes, head := rest ++ [q], active := k.active }
            else
              { frms := frms
                bytes := bytes
                head := rest
                active := if frms = 0 then false else k.active }),
            .served q r.2)
    -- `ol_tx_is_txq_last_serviced_queue`: the queue goes back to the head
    else if env.group_flow_control = true ∧ s.last_used_txq = some q then some (s, .blocked q)
    else
      some ({ s with
          last_used_txq := if s.last_used_txq.isNone then some q else s.last_used_txq }.setCat c
          { k with head := rest ++ [q] },
        .blocked q)

def ol_tx_sched_select_batch_wrr_adv (s : Pdev) (env : BatchEnv) : Option (Pdev × Batch) :=
  (selectLoop s.selectFuel s s.index).bind fun r =>
    let s := r.1
    match r.2.2 with
    | none => some (s, .inactive)
    | some c =>
      if env.credit < (s.specs c).credit_threshold then
        some ({ s with wrr_count := update s.wrr_count c (s.wrr_count c - 1) }, .lowCredit c)
      else
        serveCategory { s with
          wrr_count := update s.wrr_count c 0
          order := rotateToTail s.order r.2.1 c
          index := r.2.1 } env c

/-! ## Runs -/

/-- `ol_txrx_set_wmm_param`; `weight` is AIFS + CWMin. -/
def ol_txrx_set_wmm_param (cfg : Cat → Specs) (s : Pdev) (weight : Cat → Nat) : Pdev :=
  let selected := fun c =>
    if 2 + 3 ≥ weight c then Cat.VO
    else if 2 + 7 ≥ weight c then Cat.VI
    else if 3 + 15 ≥ weight c then Cat.BE
    else Cat.BK
  { s with
    specs := fun c =>
      if c ∈ [Cat.BE, Cat.BK, Cat.VI, Cat.VO] then cfg (selected c) else s.specs c }

/-- `ol_tx_sched_init_wrr_adv`, and queues as they are attached. -/
def Pdev.init (cfg : Cat → Specs) : Pdev where
  txq := fun _ => ⟨[], 0, 0, 0, .empty⟩
  cat := fun _ => ⟨0, 0, [], false⟩
  specs := cfg
  wrr_count := fun c => (cfg c).wrr_skip_weight - 1
  order := Cat.all
  index := 0
  last_used_txq := none

inductive Op where
  | enqueue (q : TxqId) (d : TxDesc) (low : Option Nat)
  | select_init
  | select_batch (env : BatchEnv)
  | discard (force : Bool) (num : Nat)
  | free (q : TxqId)
  | pause (peer : Nat) (tid : Fin OL_TX_NUM_TIDS)
  | unpause (peer : Nat) (tid : Fin OL_TX_NUM_TIDS)
  | set_wmm_param (weight : Cat → Nat)

def step (T : TidToAc) (cfg : Cat → Specs) (s : Pdev) : Op → Option Pdev
  | .enqueue q d low => (ol_tx_enqueue T s q d low).map Prod.fst
  | .select_init => some (ol_tx_sched_select_init_wrr_adv s)
  | .select_batch env => (ol_tx_sched_select_batch_wrr_adv s env).map Prod.fst
  | .discard force num => (ol_tx_queue_discard T s force num).map Prod.fst
  | .free q => (ol_tx_queue_free T s q).map Prod.fst
  | .pause peer tid => ol_txrx_peer_tid_pause_base T s peer tid
  | .unpause peer tid => ol_txrx_peer_tid_unpause_base T s peer tid
  | .set_wmm_param weight => some (ol_txrx_set_wmm_param cfg s weight)

/-! Every operation changes one queue, and with it the category of that queue (`Inv.settle`). -/

/-! ## The invariant -/

structure QueueOk (t : Txq) : Prop where
  frms : t.frms = t.head.length
  bytes : t.bytes = bytesOf t.head
  empty : t.flag = .empty → t.frms = 0 ∧ t.paused_count = 0
  active : t.flag = .active → 0 < t.frms ∧ t.paused_count = 0
  paused : t.flag = .paused → 0 < t.paused_count
  small : t.paused_count < 2 ^ 8

theorem QueueOk.bytes_eq_zero {t : Txq} (h : QueueOk t) (hz : t.frms = 0) : t.bytes = 0 := by
  have hnil : t.head = [] := List.eq_nil_of_length_eq_zero (h.frms.symm.trans hz)
  rw [h.bytes, hnil]; rfl

/-- A category lists its active queues and has the sums of their frames and bytes. -/
structure Inv (T : TidToAc) (s : Pdev) : Prop where
  queue : ∀ q, QueueOk (s.txq q)
  nodup : ∀ c, (s.cat c).head.Nodup
  mem : ∀ c q, q ∈ (s.cat c).head ↔ T.cat q = c ∧ (s.txq q).flag = .active
  frms : ∀ c, (s.cat c).frms = tally Txq.frms s.txq (s.cat c).head
  bytes : ∀ c, (s.cat c).bytes = tally Txq.bytes s.txq (s.cat c).head
  active : ∀ c, (s.cat c).active = true ↔ 0 < (s.cat c).frms
  order : s.order.length = Cat.all.length

def Txq.linked (t : Txq) (f : Txq → Nat) : Int := if t.flag = .active then f t else 0

section Settle

variable {T : TidToAc} {s s' : Pdev} {q : TxqId} {t : Txq} {k : Category}

theorem Inv.tally_relink (h : Inv T s) (f : Txq → Nat) (hnd : k.head.Nodup)
    (hmem : ∀ x, x ∈ k.head ↔ if x = q then t.flag = .active else x ∈ (s.cat (T.cat q)).head) :
    (tally f (update s.txq q t) k.head : Int)
      = tally f s.txq (s.cat (T.cat q)).head - (s.txq q).linked f + t.linked f := by
  have hsum := Lib.tally_relink f s.txq t (h.nodup (T.cat q)) hnd fun j hj => by
    rw [hmem, if_neg hj]
  have hold : q ∈ (s.cat (T.cat q)).head ↔ (s.txq q).flag = .active := by
    rw [h.mem]; exact and_iff_right rfl
  have hnew : q ∈ k.head ↔ t.flag = .active := by rw [hmem, if_pos rfl]
  unfold Txq.linked
  simp only [hold, hnew] at hsum
  split_ifs at hsum ⊢ <;> omega

theorem Inv.settle (h : Inv T s) (ht : QueueOk t) (htxq : s'.txq = update s.txq q t)
    (hcat : s'.cat = update s.cat (T.cat q) k) (horder : s'.order.length = s.order.length)
    (hnd : k.head.Nodup)
    (hmem : ∀ x, x ∈ k.head ↔ if x = q then t.flag = .active else x ∈ (s.cat (T.cat q)).head)
    (hfrms : k.frms = (s.cat (T.cat q)).frms - (s.txq q).linked Txq.frms + t.linked Txq.frms)
    (hbytes : k.bytes = (s.cat (T.cat q)).bytes - (s.txq q).linked Txq.bytes + t.linked Txq.bytes)
    (hactive : k.active = true ↔ 0 < k.frms) : Inv T s' := by
  have hother : ∀ c, c ≠ T.cat q → ∀ x ∈ (s.cat c).head, x ≠ q := by
    rintro c hc x hx rfl; exact hc ((h.mem c x).mp hx).1.symm
  have hkeep : ∀ (f : Txq → Nat) c, c ≠ T.cat q →
      tally f (update s.txq q t) (s.cat c).head = tally f s.txq (s.cat c).head :=
    fun f c hc => tally_update_of_notMem f s.txq t fun hq => hother c hc q hq rfl
  refine ⟨fun x => ?_, fun c => ?_, fun c x => ?_, fun c => ?_, fun c => ?_, fun c => ?_,
    horder.trans h.order⟩
  · rw [htxq]
    by_cases hx : x = q
    · rw [hx, update_self]; exact ht
    · rw [update_of_ne hx]; exact h.queue x
  · rw [hcat]
    by_cases hc : c = T.cat q
    · rw [hc, update_self]; exact hnd
    · rw [update_of_ne hc]; exact h.nodup c
  · rw [hcat, htxq]
    by_cases hc : c = T.cat q
    · rw [hc, update_self, hmem]
      by_cases hx : x = q
      · rw [if_pos hx, hx, update_self]; exact (and_iff_right rfl).symm
      · rw [if_neg hx, update_of_ne hx]; exact h.mem (T.cat q) x
    · rw [update_of_ne hc]
      by_cases hx : x = q
      · rw [hx, update_self]
        constructor
        · intro hq; exact absurd rfl (hother c hc q hq)
        · intro hq; exact absurd hq.1.symm hc
      · rw [update_of_ne hx]; exact h.mem c x
  · rw [hcat, htxq]
    by_cases hc : c = T.cat q
    · rw [hc, update_self, h.tally_relink Txq.frms hnd hmem, hfrms, h.frms]
    · rw [update_of_ne hc, hkeep Txq.frms c hc]; exact h.frms c
  · rw [hcat, htxq]
    by_cases hc : c = T.cat q
    · rw [hc, update_self, h.tally_relink Txq.bytes hnd hmem, hbytes, h.bytes]
    · rw [update_of_ne hc, hkeep Txq.bytes c hc]; exact h.bytes c
  · rw [hcat]
    by_cases hc : c = T.cat q
    · rw [hc, update_self]; exact hactive
    · rw [update_of_ne hc]; exact h.active c

theorem Inv.setTxq (h : Inv T s) (ht : QueueOk t) (hold : (s.txq q).flag ≠ .active)
    (hnew : t.flag ≠ .active) : Inv T (s.setTxq q t) := by
  refine h.settle (q := q) (k := s.cat (T.cat q)) ht rfl (update_eq_self ..).symm rfl (h.nodup _)
    (fun x => ?_) ?_ ?_ (h.active _)
  · by_cases hx : x = q
    · rw [if_pos hx, hx, h.mem]; exact iff_of_false (fun hq => hold hq.2) hnew
    · rw [if_neg hx]
  · simp [Txq.linked, hold, hnew]
  · simp [Txq.linked, hold, hnew]

theorem Inv.of_eq (h : Inv T s) (htxq : s'.txq = s.txq) (hcat : s'.cat = s.cat)
    (horder : s'.order.length = s.order.length) : Inv T s' := by
  refine ⟨?_, ?_, ?_, ?_, ?_, ?_, horder.trans h.order⟩
  · rw [htxq]; exact h.queue
  · rw [hcat]; exact h.nodup
  · rw [hcat, htxq]; exact h.mem
  · rw [hcat, htxq]; exact h.frms
  · rw [hcat, htxq]; exact h.bytes
  · rw [hcat]; exact h.active

theorem Inv.mem_head (h : Inv T s) : q ∈ (s.cat (T.cat q)).head ↔ (s.txq q).flag = .active := by
  rw [h.mem]; exact and_iff_right rfl

theorem Inv.linked_le (h : Inv T s) (hq : (s.txq q).flag = .active) :
    ((s.txq q).frms : Int) ≤ (s.cat (T.cat q)).frms ∧ (s.cat (T.cat q)).active = true := by
  have hle : (s.txq q).frms ≤ tally Txq.frms s.txq (s.cat (T.cat q)).head :=
    le_tally Txq.frms s.txq (h.mem_head.mpr hq)
  have hpos := ((h.queue q).active hq).1
  have hfrms := h.frms (T.cat q)
  refine ⟨by omega, (h.active _).mpr (by omega)⟩

theorem Inv.frms_nonneg (h : Inv T s) (c : Cat) : 0 ≤ (s.cat c).frms := by
  rw [h.frms]; exact Int.natCast_nonneg _

end Settle

/-! ## Taking frames out of a queue -/

theorem bytesOf_append (l l' : List TxDesc) : bytesOf (l ++ l') = bytesOf l + bytesOf l' := by
  unfold bytesOf
  rw [List.map_append, List.sum_append]

theorem dequeueLoop_spec (credit : Nat) {n : Nat} (credit_sum : Nat) {head : List TxDesc}
    (hn : n ≤ head.length) :
    ∃ frames rest, dequeueLoop credit n credit_sum head = some (frames, rest) ∧
      frames ++ rest = head ∧ frames.length ≤ n := by
  induction n generalizing credit_sum head with
  | zero => exact ⟨[], head, rfl, rfl, Nat.le_refl 0⟩
  | succ n ih =>
    cases head with
    | nil => exact absurd hn (by simp)
    | cons d head =>
      rw [dequeueLoop]
      by_cases hc : credit_sum + d.credit > credit
      · rw [if_pos hc]; exact ⟨[], d :: head, rfl, rfl, Nat.zero_le _⟩
      · rw [if_neg hc]
        obtain ⟨frames, rest, hl, happ, hlen⟩ :=
          ih (credit_sum + d.credit) (Nat.le_of_succ_le_succ hn)
        rw [hl, Option.map_some]
        exact ⟨d :: frames, rest, rfl, by rw [List.cons_append, happ], Nat.succ_le_succ hlen⟩

/-- What `ol_tx_dequeue` does to a queue that is linked. -/
structure Dequeued (t t' : Txq) (frames : List TxDesc) : Prop where
  ok : QueueOk t'
  head : frames ++ t'.head = t.head
  frms : t'.frms + frames.length = t.frms
  bytes : t'.bytes + bytesOf frames = t.bytes
  flag : t'.flag = if t'.frms = 0 then .empty else .active

theorem dequeue_spec {t : Txq} (ht : QueueOk t) (hact : t.flag = .active) (max_frames credit : Nat) :
    ∃ t' frames, ol_tx_dequeue t max_frames credit = some (t', frames) ∧
      frames.length ≤ max_frames ∧ Dequeued t t' frames := by
  have hn : (if t.frms < max_frames then t.frms else max_frames) ≤ t.head.length := by
    rw [← ht.frms]
    split <;> omega
  obtain ⟨frames, rest, hloop, happ, hlen⟩ := dequeueLoop_spec credit 0 hn
  have hle : frames.length ≤ t.frms ∧ frames.length ≤ max_frames := by
    split at hlen <;> omega
  have hlenEq : frames.length + rest.length = t.frms := by
    rw [ht.frms, ← happ, List.length_append]
  have hbytesEq : bytesOf frames + bytesOf rest = t.bytes := by
    rw [ht.bytes, ← happ, bytesOf_append]
  have hpc : t.paused_count = 0 := (ht.active hact).2
  unfold ol_tx_dequeue
  rw [hloop, Option.map_some]
  refine ⟨_, frames, rfl, hle.2, ⟨?_, ?_, fun hf => ?_, fun hf => ?_, fun hf => ?_, ht.small⟩,
    happ, ?_, ?_, ?_⟩
  · show t.frms - frames.length = rest.length; omega
  · show t.bytes - bytesOf frames = bytesOf rest; omega
  · rw [hact] at hf
    split at hf
    · next h0 => exact ⟨h0.1, hpc⟩
    · exact absurd hf (by simp)
  · rw [hact] at hf
    split at hf
    · exact absurd hf (by simp)
    · next h0 => exact ⟨Nat.pos_of_ne_zero fun hz => h0 ⟨hz, rfl⟩, hpc⟩
  · rw [hact] at hf
    split at hf <;> exact absurd hf (by simp)
  · show t.frms - frames.length + frames.length = t.frms; omega
  · show t.bytes - bytesOf frames + bytesOf frames = t.bytes; omega
  · rw [hact]; simp

/-! ## Linking and unlinking a queue -/

section Link

variable {T : TidToAc} {s s' : Pdev} {q : TxqId} {t : Txq}

theorem Inv.link (h : Inv T s) (hold : (s.txq q).flag ≠ .active) (ht : QueueOk t)
    (hnew : t.flag = .active) (htxq : s'.txq = update s.txq q t)
    (hcat : s'.cat = update s.cat (T.cat q)
      { frms := (s.cat (T.cat q)).frms + t.frms
        bytes := (s.cat (T.cat q)).bytes + t.bytes
        head := (s.cat (T.cat q)).head ++ [q]
        active := true })
    (horder : s'.order.length = s.order.length) : Inv T s' := by
  have hq : q ∉ (s.cat (T.cat q)).head := fun hm => hold (h.mem_head.mp hm)
  refine h.settle ht htxq hcat horder ?_ (fun x => ?_) ?_ ?_ ?_
  · exact nodup_append_singleton (h.nodup _) hq
  · rw [List.mem_append, List.mem_singleton]
    by_cases hx : x = q
    · rw [if_pos hx]; exact iff_of_true (.inr hx) hnew
    · rw [if_neg hx]; exact or_iff_left hx
  · simp [Txq.linked, hold, hnew]
  · simp [Txq.linked, hold, hnew]
  · have hpos := (ht.active hnew).1
    have hnn := h.frms_nonneg (T.cat q)
    exact iff_of_true rfl (by dsimp only; omega)

theorem Inv.unlink (h : Inv T s) (hold : (s.txq q).flag = .active) (ht : QueueOk t)
    (hnew : t.flag ≠ .active) (htxq : s'.txq = update s.txq q t)
    (hcat : s'.cat = update s.cat (T.cat q)
      { frms := (s.cat (T.cat q)).frms - (s.txq q).frms
        bytes := (s.cat (T.cat q)).bytes - (s.txq q).bytes
        head := (s.cat (T.cat q)).head.erase q
        active := if (s.cat (T.cat q)).frms - (s.txq q).frms = 0 then false
          else (s.cat (T.cat q)).active })
    (horder : s'.order.length = s.order.length) : Inv T s' := by
  obtain ⟨hle, hact⟩ := h.linked_le hold
  refine h.settle ht htxq hcat horder ((h.nodup _).erase q) (fun x => ?_) ?_ ?_ ?_
  · rw [(h.nodup _).mem_erase_iff]
    by_cases hx : x = q
    · rw [if_pos hx]; exact iff_of_false (fun hm => hm.1 hx) hnew
    · rw [if_neg hx]; exact and_iff_right hx
  · simp [Txq.linked, hold, hnew]
  · simp [Txq.linked, hold, hnew]
  · dsimp only
    rw [hact]
    split
    · next hz => rw [hz]; simp
    · next hz => exact iff_of_true rfl (by omega)

end Link

/-! ## Queueing, flushing and pausing -/

section Queue

variable {T : TidToAc} {s : Pdev}

@[simp] theorem setTxq_cat (s : Pdev) (q : TxqId) (t : Txq) : (s.setTxq q t).cat = s.cat := rfl

@[simp] theorem setTxq_self (s : Pdev) (q : TxqId) (t : Txq) : (s.setTxq q t).txq q = t :=
  update_self ..

theorem setFlag_txq {s₁ : Pdev} {q : TxqId} {t t' : Txq} {flag : QueueStatus}
    (h : s₁.txq = update s.txq q t) (ht : { t with flag := flag } = t') :
    (s₁.setFlag q flag).txq = update s.txq q t' := by
  unfold Pdev.setFlag Pdev.setTxq
  rw [h, update_self, update_idem, ht]

theorem txq_enqueue_linked {q : TxqId} (hq : (s.txq q).flag = .active) (tid frms bytes : Nat) :
    ol_tx_sched_txq_enqueue_wrr_adv T s q tid frms bytes = s.setCat (T.ac tid)
      { s.cat (T.ac tid) with
        frms := (s.cat (T.ac tid)).frms + frms
        bytes := (s.cat (T.ac tid)).bytes + bytes } := by
  unfold ol_tx_sched_txq_enqueue_wrr_adv
  dsimp only
  rw [if_neg (not_not.mpr hq)]

theorem txq_enqueue_unlinked {q : TxqId} (hq : (s.txq q).flag ≠ .active) (tid frms bytes : Nat) :
    ol_tx_sched_txq_enqueue_wrr_adv T s q tid frms bytes = s.setCat (T.ac tid)
      { frms := (s.cat (T.ac tid)).frms + frms
        bytes := (s.cat (T.ac tid)).bytes + bytes
        head := (s.cat (T.ac tid)).head ++ [q]
        active := true } := by
  unfold ol_tx_sched_txq_enqueue_wrr_adv
  dsimp only
  rw [if_pos hq]

theorem free_tid_cat (T : TidToAc) (q : TxqId) : T.ac q.free_tid = T.cat q := by
  cases q with
  | peer p tid => rfl
  | vdev v i => exact T.ac_vdev i

theorem enqueueFrame_spec (h : Inv T s) (q : TxqId) (d : TxDesc) :
    ∃ s', enqueueFrame T s q d = some s' ∧ Inv T s' := by
  have hq := h.queue q
  have hlen : (s.txq q).frms + 1 = ((s.txq q).head ++ [d]).length := by
    rw [List.length_append, ← hq.frms]; rfl
  have hbytes : (s.txq q).bytes + d.len = bytesOf ((s.txq q).head ++ [d]) := by
    rw [bytesOf_append, ← hq.bytes]; rfl
  unfold enqueueFrame
  by_cases hp : (s.txq q).flag = .paused
  · rw [if_neg (not_not.mpr hp)]
    refine ⟨_, rfl, h.setTxq ⟨hlen, hbytes, fun hf => ?_, fun hf => ?_, fun _ => hq.paused hp,
      hq.small⟩ (by rw [hp]; simp) (by dsimp only; rw [hp]; simp)⟩
    · rw [hp] at hf; exact absurd hf (by simp)
    · rw [hp] at hf; exact absurd hf (by simp)
  rw [if_pos hp]
  refine ⟨_, rfl, ?_⟩
  have hcount : (s.txq q).paused_count = 0 := by
    cases hf : (s.txq q).flag with
    | empty => exact (hq.empty hf).2
    | active => exact (hq.active hf).2
    | paused => exact absurd hf hp
  let t : Txq := { s.txq q with
    head := (s.txq q).head ++ [d]
    frms := (s.txq q).frms + 1
    bytes := (s.txq q).bytes + d.len
    flag := .active }
  have ht : QueueOk t :=
    ⟨hlen, hbytes, fun hf => absurd hf (by simp [t]), fun _ => ⟨Nat.succ_pos _, hcount⟩,
      fun hf => absurd hf (by simp [t]), hq.small⟩
  by_cases hact : (s.txq q).flag = .active
  · -- the queue is in the list already
    obtain ⟨-, hcat⟩ := h.linked_le hact
    have hnn := h.frms_nonneg (T.cat q)
    rw [txq_enqueue_linked (by rw [setTxq_self]; exact hact)]
    refine h.settle (q := q) ht (setFlag_txq rfl rfl) rfl rfl (h.nodup _) (fun x => ?_) ?_ ?_ ?_
    · by_cases hx : x = q
      · rw [if_pos hx, hx]; exact iff_of_true (h.mem_head.mpr hact) rfl
      · rw [if_neg hx]; exact Iff.rfl
    · rw [Txq.linked, if_pos hact, Txq.linked, if_pos rfl]
      change (s.cat (T.cat q)).frms + (1 : Nat) = _ - _ + (((s.txq q).frms + 1 : Nat) : Int)
      omega
    · rw [Txq.linked, if_pos hact, Txq.linked, if_pos rfl]
      change (s.cat (T.cat q)).bytes + d.len = _ - _ + (((s.txq q).bytes + d.len : Nat) : Int)
      omega
    · refine iff_of_true hcat ?_
      change 0 < (s.cat (T.cat q)).frms + (1 : Nat)
      omega
  · have hempty : (s.txq q).flag = .empty := by
      cases hf : (s.txq q).flag with
      | empty => rfl
      | active => exact absurd hf hact
      | paused => exact absurd hf hp
    have hz := (hq.empty hempty).1
    have hb : (s.txq q).bytes = 0 := hq.bytes_eq_zero hz
    rw [txq_enqueue_unlinked (by rw [setTxq_self]; exact hact)]
    refine h.link hact ht rfl (setFlag_txq rfl rfl) ?_ rfl
    simp only [t, hz, hb, Nat.zero_add]
    rfl

theorem queue_free_spec (h : Inv T s) {q : TxqId} (hcount : (s.txq q).paused_count = 0) :
    ∃ s', ol_tx_queue_free T s q = some (s', (s.txq q).head) ∧ Inv T s' := by
  have hq := h.queue q
  have htake : (s.txq q).head.take (s.txq q).frms = (s.txq q).head := by
    rw [hq.frms, List.take_length]
  have hbytes : (s.txq q).bytes - bytesOf (s.txq q).head = 0 := by rw [hq.bytes, Nat.sub_self]
  let t : Txq := { s.txq q with head := [], frms := 0, bytes := 0, flag := .empty }
  have ht : QueueOk t := ⟨rfl, rfl, fun _ => ⟨rfl, hcount⟩, fun hf => absurd hf (by simp [t]),
    fun hf => absurd hf (by simp [t]), hq.small⟩
  have hend : ∀ s₁ : Pdev, s₁.txq q = s.txq q →
      (if (s₁.txq q).frms ≤ (s₁.txq q).head.length then
        some (s₁.setTxq q { s₁.txq q with
          head := []
          frms := 0
          bytes := (s₁.txq q).bytes - bytesOf ((s₁.txq q).head.take (s₁.txq q).frms)
          flag := .empty }, (s₁.txq q).head.take (s₁.txq q).frms)
      else none) = some (s₁.setTxq q t, (s.txq q).head) := by
    intro s₁ hs₁
    rw [hs₁, if_pos (Nat.le_of_eq hq.frms), htake, hbytes]
  unfold ol_tx_queue_free
  by_cases hact : (s.txq q).flag = .active
  · rw [ol_tx_sched_notify, if_pos hact, ol_tx_sched_txq_deactivate_wrr_adv, free_tid_cat,
      if_pos (h.mem_head.mpr hact), Option.bind_some]
    refine ⟨_, hend _ rfl, h.unlink hact ht (by simp [t]) rfl rfl rfl⟩
  · rw [ol_tx_sched_notify, if_neg hact, Option.bind_some]
    exact ⟨_, hend s rfl, h.setTxq ht hact (by simp [t])⟩

theorem pause_spec (h : Inv T s) {peer : Nat} {tid : Fin OL_TX_NUM_TIDS}
    (hcount : (s.txq (.peer peer tid)).paused_count < 2 ^ 8 - 1) :
    ∃ s', ol_txrx_peer_tid_pause_base T s peer tid = some s' ∧ Inv T s' := by
  generalize hqid : TxqId.peer peer tid = q at hcount
  have hcat : T.ac tid = T.cat q := by rw [← hqid]; rfl
  have hq := h.queue q
  have hmod : ((s.txq q).paused_count + 1) % 2 ^ 8 = (s.txq q).paused_count + 1 :=
    Nat.mod_eq_of_lt (by omega)
  unfold ol_txrx_peer_tid_pause_base
  dsimp only
  rw [hqid, hmod]
  let t : Txq := { s.txq q with paused_count := (s.txq q).paused_count + 1, flag := .paused }
  have ht : QueueOk t := ⟨hq.frms, hq.bytes, fun hf => absurd hf (by simp [t]),
    fun hf => absurd hf (by simp [t]), fun _ => Nat.succ_pos _, by dsimp only [t]; omega⟩
  by_cases hz : (s.txq q).paused_count = 0
  · rw [if_pos hz]
    by_cases hact : (s.txq q).flag = .active
    · rw [ol_tx_sched_notify, if_pos (by rw [setTxq_self]; exact hact),
        ol_tx_sched_txq_deactivate_wrr_adv, hcat, setTxq_cat, if_pos (h.mem_head.mpr hact),
        Option.map_some]
      refine ⟨_, rfl, h.unlink hact ht (by simp [t]) (setFlag_txq rfl rfl) ?_ rfl⟩
      rw [setTxq_self]; rfl
    · rw [ol_tx_sched_notify, if_neg (by rw [setTxq_self]; exact hact), Option.map_some]
      have hinv := h.setTxq ht hact (by simp [t])
      exact ⟨_, rfl, hinv.of_eq (setFlag_txq rfl rfl) rfl rfl⟩
  · have hp : (s.txq q).flag = .paused := by
      cases hf : (s.txq q).flag with
      | empty => exact absurd (hq.empty hf).2 hz
      | active => exact absurd (hq.active hf).2 hz
      | paused => rfl
    rw [if_neg hz]
    have hinv := h.setTxq ht (by rw [hp]; simp) (by simp [t])
    refine ⟨_, rfl, hinv.of_eq ?_ rfl rfl⟩
    rw [hp]

theorem unpause_spec (h : Inv T s) (peer : Nat) (tid : Fin OL_TX_NUM_TIDS) :
    ∃ s', ol_txrx_peer_tid_unpause_base T s peer tid = some s' ∧ Inv T s' := by
  generalize hqid : TxqId.peer peer tid = q
  have hcat : T.ac tid = T.cat q := by rw [← hqid]; rfl
  have hq := h.queue q
  unfold ol_txrx_peer_tid_unpause_base
  rw [hqid]
  by_cases hz : (s.txq q).paused_count = 0
  · rw [if_pos hz]; exact ⟨s, rfl, h⟩
  rw [if_neg hz]
  have hp : (s.txq q).flag = .paused := by
    cases hf : (s.txq q).flag with
    | empty => exact absurd (hq.empty hf).2 hz
    | active => exact absurd (hq.active hf).2 hz
    | paused => rfl
  have hna : (s.txq q).flag ≠ .active := by rw [hp]; simp
  have hsmall : (s.txq q).paused_count - 1 < 2 ^ 8 := Nat.lt_of_le_of_lt (Nat.sub_le _ _) hq.small
  by_cases hone : (s.txq q).paused_count - 1 = 0
  · rw [if_pos hone, ol_tx_sched_notify, setTxq_self]
    by_cases hfr : (s.txq q).frms = 0
    · -- nothing to schedule
      rw [if_neg (not_not.mpr hfr), Option.map_some]
      let t : Txq := { s.txq q with paused_count := (s.txq q).paused_count - 1, flag := .empty }
      have ht : QueueOk t := ⟨hq.frms, hq.bytes, fun _ => ⟨hfr, hone⟩,
        fun hf => absurd hf (by simp [t]), fun hf => absurd hf (by simp [t]), hsmall⟩
      have hinv := h.setTxq ht hna (by simp [t])
      rw [if_pos (by rw [setTxq_self]; exact hfr)]
      exact ⟨_, rfl, hinv.of_eq (setFlag_txq rfl rfl) rfl rfl⟩
    · rw [if_pos hfr, Option.map_some, txq_enqueue_unlinked (by rw [setTxq_self]; exact hna), hcat]
      let t : Txq := { s.txq q with paused_count := (s.txq q).paused_count - 1, flag := .active }
      have ht : QueueOk t := ⟨hq.frms, hq.bytes, fun hf => absurd hf (by simp [t]),
        fun _ => ⟨Nat.pos_of_ne_zero hfr, hone⟩, fun hf => absurd hf (by simp [t]), hsmall⟩
      rw [if_neg (by change ((s.setTxq q _).txq q).frms ≠ 0; rw [setTxq_self]; exact hfr)]
      exact ⟨_, rfl, h.link hna ht rfl (setFlag_txq rfl rfl) rfl rfl⟩
  · rw [if_neg hone]
    let t : Txq := { s.txq q with paused_count := (s.txq q).paused_count - 1 }
    have ht : QueueOk t := by
      refine ⟨hq.frms, hq.bytes, fun hf => ?_, fun hf => ?_, fun _ => Nat.pos_of_ne_zero hone,
        hsmall⟩
      · exact absurd (hp.symm.trans hf) (by simp)
      · exact absurd hf hna
    exact ⟨_, rfl, h.setTxq ht hna hna⟩

end Queue

end Qcacld.TxSched
