/-
Tx descriptors of high-latency systems: who takes one from the pool, who puts it back, and what that
does to `tx_queue.rsrc_cnt`, the count of the descriptors that are left (`ol_tx_desc.c`, `ol_tx.c`,
`ol_tx_queue.c`, `ol_tx_sched.c` and `ol_tx_send.c`).

What HTT and the target still owe is part of the state: HTT reports once for every frame that it
accepted, and the target answers once for every frame that asked for an answer. The scheduler works
on frames of its own (`sctx`) between its batches and the dispatch, and everything else can happen
in the meantime. The builds are those without ATH_11AC_TXCOMPACT, QCA_TX_SINGLE_COMPLETIONS and
QCA_SUPPORT_TXDESC_SANITY_CHECKS, and with FEATURE_WLAN_TDLS.
-/
import Qcacld.TxSched
import Qcacld.Lib.Places

set_option autoImplicit false

namespace Qcacld.TxDescHl

open Lib TxSched Function

/-! ## Data -/

def TXRX_HL_TX_FLOW_CTRL_MGMT_RESERVED : Nat := 100
def TXRX_HL_TX_DESC_HI_PRIO_RESERVED : Nat := 20

/-- `pkt_type` of a descriptor; `mgmt` is what lies from OL_TXRX_MGMT_TYPE_BASE on. -/
inductive PktType where
  | std
  | tso
  | no_free
  | mgmt (type : Nat)
deriving DecidableEq

/-- The bits of `enum ol_tx_spec`; `others` says whether any of the rest is set. -/
structure TxSpec where
  no_free : Bool
  tso : Bool
  others : Bool
deriving DecidableEq

def ol_tx_spec_std : TxSpec := ⟨false, false, false⟩
def ol_tx_spec_no_free : TxSpec := ⟨true, false, false⟩

/-- The last two are CONFIG_TX_DESC_HI_PRIO_RESERVE and
CONFIG_PER_VDEV_TX_DESC_POOL. -/
structure Cfg where
  pool_size : Nat
  tx_free_at_download : Bool
  hi_prio_reserve : Bool
  per_vdev_tx_desc_pool : Bool

def Cfg.default_tx_comp_req (cfg : Cfg) : Bool := !cfg.tx_free_at_download

def ol_txrx_rsrc_threshold_lo (cfg : Cfg) : Nat :=
  if cfg.per_vdev_tx_desc_pool then TXRX_HL_TX_FLOW_CTRL_MGMT_RESERVED
  else 5 * cfg.pool_size / 100

def ol_txrx_rsrc_threshold_hi (cfg : Cfg) : Nat :=
  if cfg.per_vdev_tx_desc_pool then 15 * cfg.pool_size / 100 / 2
  else 15 * cfg.pool_size / 100

structure Pdev where
  sched : TxSched.Pdev
  /-- `tx_desc.freelist`. -/
  freelist : List Nat
  rsrc_cnt : Int
  ref_cnt : Nat → Int
  pkt_type : Nat → PktType
  vdev : Nat → Nat
  tx_desc_count : Nat → Int
  /-- `tx_comp_req` of the HTT descriptor. -/
  tx_comp_req : Nat → Bool
  /-- The frames of `ol_tx_sched`, while it is running. -/
  sctx : Option (List TxDesc)
  /-- HTT is to report the end of the download. -/
  download : Nat → Bool
  /-- The target is to answer. -/
  target : Nat → Bool

def Pdev.addRsrc (s : Pdev) (n : Nat) : Pdev := { s with rsrc_cnt := s.rsrc_cnt + n }

def Pdev.inHand (s : Pdev) : List Nat := (s.sctx.getD []).map TxDesc.id

def Pdev.allocated (cfg : Cfg) (s : Pdev) : List Nat :=
  (List.range cfg.pool_size).filter (· ∉ s.freelist)

/-! ## The pool -/

/-- `ol_tx_desc_alloc_hl` over `ol_tx_desc_alloc`; `none` is the null pointer. -/
def ol_tx_desc_alloc_hl (s : Pdev) (vdev : Nat) : Option (Nat × Pdev) :=
  match s.freelist with
  | [] => none
  | id :: freelist =>
    some (id, { s with
      freelist := freelist
      rsrc_cnt := s.rsrc_cnt - 1
      vdev := update s.vdev id vdev
      tx_desc_count := update s.tx_desc_count vdev (s.tx_desc_count vdev + 1) })

/-- `ol_tx_hl_desc_alloc`; `hi_prio` tells an IPv4 frame of DHCP or EAPOL. -/
def ol_tx_hl_desc_alloc (cfg : Cfg) (s : Pdev) (vdev : Nat) (hi_prio : Bool) :
    Option (Nat × Pdev) :=
  if cfg.hi_prio_reserve = true ∧ ¬ s.rsrc_cnt > TXRX_HL_TX_DESC_HI_PRIO_RESERVED ∧ hi_prio = false
  then none
  else ol_tx_desc_alloc_hl s vdev

def ol_tx_desc_free (s : Pdev) (id : Nat) : Pdev :=
  { s with
    freelist := id :: s.freelist
    tx_desc_count := update s.tx_desc_count (s.vdev id) (s.tx_desc_count (s.vdev id) - 1) }

/-- `ol_tx_desc_frame_free_nonstd`, less what becomes of the netbuf. -/
def ol_tx_desc_frame_free_nonstd (s : Pdev) (id : Nat) : Pdev :=
  ol_tx_desc_free { s with ref_cnt := update s.ref_cnt id 0 } id

/-- `ol_tx_desc_frame_list_free`: its netbufs are freed in one go. -/
def ol_tx_desc_frame_list_free (s : Pdev) (tx_descs : List Nat) : Pdev :=
  tx_descs.foldl ol_tx_desc_frame_free_nonstd s

/-! ## Queueing -/

def is_ol_tx_discard_frames_success (cfg : Cfg) (s : Pdev) (id : Nat) : Bool :=
  if cfg.per_vdev_tx_desc_pool then
    s.tx_desc_count (s.vdev id)
      > ((cfg.pool_size / 2 : Nat) : Int) - TXRX_HL_TX_FLOW_CTRL_MGMT_RESERVED
  else s.rsrc_cnt ≤ ol_txrx_rsrc_threshold_lo cfg

/-- `num` of `ol_tx_queue_discard`, a 16-bit number. -/
def discardNum (cfg : Cfg) (s : Pdev) (flush_all : Bool) : Nat :=
  ((if flush_all then (cfg.pool_size : Int) - s.rsrc_cnt
    else (ol_txrx_rsrc_threshold_hi cfg : Int) - ol_txrx_rsrc_threshold_lo cfg) % 2 ^ 16).toNat

def Pdev.freeFrames (s : Pdev) (frames : List TxDesc) : Pdev :=
  ol_tx_desc_frame_list_free (s.addRsrc frames.length) (frames.map TxDesc.id)

def ol_tx_enqueue (cfg : Cfg) (T : TidToAc) (s : Pdev) (q : TxqId) (d : TxDesc) : Option Pdev :=
  (TxSched.ol_tx_enqueue T s.sched q d
    (if is_ol_tx_discard_frames_success cfg s d.id then some (discardNum cfg s false)
      else none)).map fun r => { s with sched := r.1 }.freeFrames r.2

/-- The first part of `ol_txrx_discard_tx_pending`; the queues that the scheduler does
not list are flushed by `ol_tx_queue_free`. -/
def discardPending (cfg : Cfg) (T : TidToAc) (s : Pdev) : Option Pdev :=
  (TxSched.ol_tx_queue_discard T s.sched true (discardNum cfg s true)).map fun r =>
    { s with sched := r.1 }.freeFrames r.2

def ol_tx_queue_free (T : TidToAc) (s : Pdev) (q : TxqId) : Option Pdev :=
  (TxSched.ol_tx_queue_free T s.sched q).map fun r => { s with sched := r.1 }.freeFrames r.2

/-- What `ol_tx_hl_base` makes of a frame that has a descriptor: the OCB header may not
parse; there may be no queue for it, its peer may not be associated or authorized, or
the encapsulation fails; else it is queued. -/
inductive Fate where
  | ocb_header_error
  | dropped
  | queued (q : TxqId)

structure Msdu where
  vdev : Nat
  len : Nat
  credit : Nat
  hi_prio : Bool
  fate : Fate

def TxSpec.pkt_type (tx_spec : TxSpec) : PktType :=
  if tx_spec.no_free then .no_free else if tx_spec.tso then .tso else .std

def Pdev.initDesc (s : Pdev) (id : Nat) (pkt_type : PktType) (tx_comp_req : Bool) : Pdev :=
  { s with
    pkt_type := update s.pkt_type id pkt_type
    tx_comp_req := update s.tx_comp_req id tx_comp_req }

/-- `ol_tx_hl_base`, for one MSDU of its list. -/
def ol_tx_hl_base (cfg : Cfg) (T : TidToAc) (s : Pdev) (tx_spec : TxSpec) (msdu : Msdu)
    (tx_comp_req : Bool) : Option Pdev :=
  match ol_tx_hl_desc_alloc cfg s msdu.vdev msdu.hi_prio with
  | none => some s
  | some (id, s) =>
    let s := s.initDesc id tx_spec.pkt_type tx_comp_req
    match msdu.fate with
    -- the descriptor is neither freed nor queued
    | .ocb_header_error => some s
    | .dropped => some (ol_tx_desc_frame_free_nonstd (s.addRsrc 1) id)
    | .queued q => ol_tx_enqueue cfg T s q ⟨id, msdu.len, msdu.credit⟩

def ol_tx_hl (cfg : Cfg) (T : TidToAc) (s : Pdev) (msdu : Msdu) : Option Pdev :=
  ol_tx_hl_base cfg T s ol_tx_spec_std msdu cfg.default_tx_comp_req

/-- `ol_tx_non_std_hl`; the last argument says whether `tx_data_callback` is set. -/
def ol_tx_non_std_hl (cfg : Cfg) (T : TidToAc) (s : Pdev) (tx_spec : TxSpec) (msdu : Msdu)
    (tx_data_callback : Bool) : Option Pdev :=
  ol_tx_hl_base cfg T s tx_spec msdu
    (cfg.default_tx_comp_req || (decide (tx_spec = ol_tx_spec_no_free) && tx_data_callback))

/-- `ol_txrx_mgmt_send`; without a queue the frame is dropped. -/
def ol_txrx_mgmt_send (cfg : Cfg) (T : TidToAc) (s : Pdev) (vdev type len credit : Nat)
    (txq : Option TxqId) : Option Pdev :=
  match ol_tx_desc_alloc_hl s vdev with
  | none => some s
  | some (id, s) =>
    let s := s.initDesc id (.mgmt type) true
    match txq with
    | none => some (ol_tx_desc_frame_free_nonstd (s.addRsrc 1) id)
    | some q => ol_tx_enqueue cfg T s q ⟨id, len, credit⟩

/-! ## Sending -/

/-- Whether a frame has room for its id, and whether `htt_tx_send_base` fails on it. -/
structure SendEnv where
  msdu_id_storage : Nat → Bool
  failed : Nat → Bool

def Pdev.accept (s : Pdev) (id : Nat) : Pdev :=
  { s with
    download := update s.download id true
    target := update s.target id (s.tx_comp_req id) }

/-- `htt_tx_send_batch`, with the list of the rejected frames. -/
def htt_tx_send_batch (env : SendEnv) : Pdev → List Nat → List Nat → Pdev × List Nat
  | s, rejected, [] => (s, rejected)
  | s, rejected, id :: ids =>
    if env.failed id then htt_tx_send_batch env s (id :: rejected) ids
    else htt_tx_send_batch env (s.accept id) rejected ids

def ol_tx_send_batch (env : SendEnv) (s : Pdev) (ids : List Nat) : Pdev :=
  ol_tx_desc_frame_list_free (htt_tx_send_batch env s [] ids).1 (htt_tx_send_batch env s [] ids).2

/-- `htt_tx_send_std`, and the end of the frame if that fails. -/
def sendSingle (env : SendEnv) (s : Pdev) (id : Nat) : Pdev :=
  if env.failed id then ol_tx_desc_frame_free_nonstd s id else s.accept id

/-- The loop of `ol_tx_sched_dispatch`; the second list is the batch so far. -/
def dispatchLoop (env : SendEnv) : Pdev → List Nat → List Nat → Pdev
  | s, batch, [] => ol_tx_send_batch env s batch
  | s, batch, id :: ids =>
    let s := { s with ref_cnt := update s.ref_cnt id 2 }
    if env.msdu_id_storage id then dispatchLoop env s (batch ++ [id]) ids
    -- the prior frames go as a batch, then this one as a single
    else dispatchLoop env (sendSingle env (ol_tx_send_batch env s batch) id) [] ids

def ol_tx_sched_dispatch (env : SendEnv) (s : Pdev) : Pdev :=
  { dispatchLoop env s [] s.inHand with sctx := none }

/-! ## References -/

def Pdev.downloadDone (s : Pdev) (id : Nat) : Pdev :=
  { s with
    download := update s.download id false
    ref_cnt := update s.ref_cnt id (s.ref_cnt id - 1) }

def Pdev.targetDone (s : Pdev) (id : Nat) : Pdev :=
  { s with
    target := update s.target id false
    ref_cnt := update s.ref_cnt id (s.ref_cnt id - 1) }

/-- `ol_tx_download_done_base`; the target never saw a frame whose download failed. -/
def ol_tx_download_done_base (s : Pdev) (ok : Bool) (id : Nat) : Pdev :=
  if ok then
    if s.ref_cnt id - 1 = 0 then ol_tx_desc_frame_free_nonstd (s.downloadDone id) id
    else s.downloadDone id
  else
    ol_tx_desc_frame_free_nonstd { s with
      download := update s.download id false
      target := update s.target id false } id

def ol_tx_download_done_hl_retain (s : Pdev) (ok : Bool) (id : Nat) : Pdev :=
  ol_tx_download_done_base s ok id

def PktType.freedAtDownload : PktType → Bool
  | .std => true
  | .tso => true
  | .no_free => false
  | .mgmt _ => false

def ol_tx_download_done_hl_free (s : Pdev) (ok : Bool) (id : Nat) : Pdev :=
  if (s.pkt_type id).freedAtDownload then
    ol_tx_desc_frame_free_nonstd ((ol_tx_download_done_base s ok id).addRsrc 1) id
  else ol_tx_download_done_base s ok id

/-- The loop of `ol_tx_completion_handler` and of `ol_tx_inspect_handler`, with the
frames that are left to be freed as a list. -/
def completeLoop : Pdev → List Nat → Pdev × List Nat
  | s, [] => (s, [])
  | s, id :: ids =>
    if s.ref_cnt id - 1 = 0 then
      if s.pkt_type id = .std then
        ((completeLoop (s.targetDone id) ids).1, id :: (completeLoop (s.targetDone id) ids).2)
      else completeLoop (ol_tx_desc_frame_free_nonstd (s.targetDone id) id) ids
    else completeLoop (s.targetDone id) ids

/-- `ol_tx_completion_handler`, up to the call of the scheduler. -/
def ol_tx_completion_handler (s : Pdev) (desc_ids : List Nat) : Pdev :=
  (ol_tx_desc_frame_list_free (completeLoop s desc_ids).1 (completeLoop s desc_ids).2).addRsrc
    desc_ids.length

/-- `ol_tx_inspect_handler`, up to the call of the scheduler. -/
def ol_tx_inspect_handler (s : Pdev) (desc_ids : List Nat) : Pdev :=
  ol_tx_desc_frame_list_free (completeLoop s desc_ids).1 (completeLoop s desc_ids).2

/-- `ol_tx_single_completion_handler`, up to the call of the scheduler. -/
def ol_tx_single_completion_handler (s : Pdev) (id : Nat) : Pdev :=
  (if s.ref_cnt id - 1 = 0 then ol_tx_desc_frame_free_nonstd (s.targetDone id) id
    else s.targetDone id).addRsrc 1

/-! ## Runs -/

def Pdev.init (cfg : Cfg) (specs : Cat → Specs) : Pdev where
  sched := .init specs
  freelist := List.range cfg.pool_size
  rsrc_cnt := cfg.pool_size
  ref_cnt := fun _ => 0
  pkt_type := fun _ => .std
  vdev := fun _ => 0
  tx_desc_count := fun _ => 0
  tx_comp_req := fun _ => false
  sctx := none
  download := fun _ => false
  target := fun _ => false

inductive Op where
  | hl (msdu : Msdu)
  | non_std_hl (tx_spec : TxSpec) (msdu : Msdu) (tx_data_callback : Bool)
  | mgmt_send (vdev type len credit : Nat) (txq : Option TxqId)
  | sched_start
  | select_batch (env : BatchEnv)
  | dispatch (env : SendEnv)
  | discard_pending
  | queue_free (q : TxqId)
  | download_done (id : Nat) (ok : Bool)
  | completion (desc_ids : List Nat)
  | single_completion (id : Nat)
  | inspect (desc_ids : List Nat)
  | pause (peer : Nat) (tid : Fin OL_TX_NUM_TIDS)
  | unpause (peer : Nat) (tid : Fin OL_TX_NUM_TIDS)
  | set_wmm_param (weight : Cat → Nat)

def schedStart (s : Pdev) : Pdev :=
  if s.sctx.isSome then s
  else { s with sched := ol_tx_sched_select_init_wrr_adv s.sched, sctx := some [] }

def servedFrames : Batch → List TxDesc
  | .served _ frames => frames
  | _ => []

def selectBatch (s : Pdev) (env : BatchEnv) : Option Pdev :=
  s.sctx.bind fun frames =>
    (ol_tx_sched_select_batch_wrr_adv s.sched env).map fun r =>
      { s with sched := r.1, sctx := some (frames ++ servedFrames r.2) }

/-- A step. HTT reports what it accepted, and the target answers what it was asked
about, once. -/
def step (cfg : Cfg) (T : TidToAc) (specs : Cat → Specs) (s : Pdev) : Op → Option Pdev
  | .hl msdu => ol_tx_hl cfg T s msdu
  | .non_std_hl tx_spec msdu tx_data_callback =>
    ol_tx_non_std_hl cfg T s tx_spec msdu tx_data_callback
  | .mgmt_send vdev type len credit txq => ol_txrx_mgmt_send cfg T s vdev type len credit txq
  | .sched_start => some (schedStart s)
  | .select_batch env => selectBatch s env
  | .dispatch env => if s.sctx.isSome then some (ol_tx_sched_dispatch env s) else none
  | .discard_pending => discardPending cfg T s
  | .queue_free q => ol_tx_queue_free T s q
  | .download_done id ok =>
    if s.download id = true then
      some (if cfg.tx_free_at_download then ol_tx_download_done_hl_free s ok id
        else ol_tx_download_done_hl_retain s ok id)
    else none
  | .completion desc_ids =>
    if desc_ids.Nodup ∧ ∀ id ∈ desc_ids, s.target id = true then
      some (ol_tx_completion_handler s desc_ids)
    else none
  | .single_completion id =>
    if s.target id = true then some (ol_tx_single_completion_handler s id) else none
  | .inspect desc_ids =>
    if desc_ids.Nodup ∧ ∀ id ∈ desc_ids, s.target id = true then
      some (ol_tx_inspect_handler s desc_ids)
    else none
  | .pause peer tid =>
    (ol_txrx_peer_tid_pause_base T s.sched peer tid).map fun r => { s with sched := r }
  | .unpause peer tid =>
    (ol_txrx_peer_tid_unpause_base T s.sched peer tid).map fun r => { s with sched := r }
  | .set_wmm_param weight => some { s with sched := ol_txrx_set_wmm_param specs s.sched weight }

open List Option

/-! Every descriptor is in one place: on the free list, in a tx queue, in the hands of the code that
is working on it, or with HTT and the target (`Owned`). An operation is a few moves between these.
-/

/-! ## Places -/

inductive Place where
  | free
  | queue (q : TxqId)
  | hand
deriving DecidableEq

def Pdev.places (s : Pdev) (hand : List Nat) : Place → List Nat
  | .free => s.freelist
  | .queue q => (s.sched.txq q).head.map TxDesc.id
  | .hand => hand

/-- The references of a descriptor that is with HTT or the target. -/
def Pdev.refs (s : Pdev) (id : Nat) : Int :=
  (if s.download id = true then 1 else 0)
    + if s.target id = true ∨ s.tx_comp_req id = false then 1 else 0

/-- A descriptor is in one place, with a reference for each side that has yet to answer. -/
structure Owned (cfg : Cfg) (s : Pdev) (hand : List Nat) : Prop where
  exclusive : Exclusive (s.places hand)
  in_pool : ∀ p, ∀ id ∈ s.places hand p, id < cfg.pool_size
  settled : ∀ p, ∀ id ∈ s.places hand p, s.download id = false ∧ s.target id = false
  sent_in_pool : ∀ id, s.download id = true ∨ s.target id = true → id < cfg.pool_size
  ref_cnt : ∀ id, s.download id = true ∨ s.target id = true → s.ref_cnt id = s.refs id
  requested : ∀ id, s.target id = true → s.tx_comp_req id = true
  unanswered : cfg.tx_free_at_download = true → ∀ id, (s.pkt_type id).freedAtDownload = true →
    s.tx_comp_req id = false

variable {cfg : Cfg} {s : Pdev} {hand : List Nat} {id : Nat}

theorem Owned.hand_settled (h : Owned cfg s (id :: hand)) :
    s.download id = false ∧ s.target id = false :=
  h.settled .hand id mem_cons_self

theorem Owned.not_mem (h : Owned cfg s hand) (hs : s.download id = true ∨ s.target id = true)
    (p : Place) : id ∉ s.places hand p := by
  intro hp
  have := h.settled p id hp
  simp_all

theorem Owned.move {s' : Pdev} {hand' : List Nat} (h : Owned cfg s hand)
    (hex : Exclusive (s'.places hand'))
    (hmem : ∀ p, ∀ id ∈ s'.places hand' p, ∃ p', id ∈ s.places hand p')
    (hdownload : s'.download = s.download) (htarget : s'.target = s.target)
    (href : ∀ id, s.download id = true ∨ s.target id = true → s'.ref_cnt id = s.ref_cnt id)
    (hreq : s'.tx_comp_req = s.tx_comp_req) (htype : s'.pkt_type = s.pkt_type) :
    Owned cfg s' hand' where
  exclusive := hex
  in_pool := fun p id hid => by obtain ⟨p', hp'⟩ := hmem p id hid; exact h.in_pool p' id hp'
  settled := fun p id hid => by
    obtain ⟨p', hp'⟩ := hmem p id hid
    rw [hdownload, htarget]; exact h.settled p' id hp'
  sent_in_pool := fun id hid => by rw [hdownload, htarget] at hid; exact h.sent_in_pool id hid
  ref_cnt := fun id hid => by
    rw [hdownload, htarget] at hid
    rw [href id hid, h.ref_cnt id hid]; simp only [Pdev.refs, hdownload, htarget, hreq]
  requested := fun id hid => by
    rw [htarget] at hid
    rw [hreq]; exact h.requested id hid
  unanswered := fun hcfg id hid => by
    rw [htype] at hid
    rw [hreq]; exact h.unanswered hcfg id hid

theorem Owned.perm {hand' : List Nat} (h : Owned cfg s hand) (hp : hand' ~ hand) :
    Owned cfg s hand' := by
  have hsame : ∀ p, s.places hand' p ~ s.places hand p := by
    rintro (_ | q | _)
    · exact Perm.refl _
    · exact Perm.refl _
    · exact hp
  exact h.move (h.exclusive.leave fun p => (hsame p).subperm)
    (fun p id hid => ⟨p, (hsame p).mem_iff.mp hid⟩) rfl rfl (fun _ _ => rfl) rfl rfl

theorem Owned.drop (h : Owned cfg s (id :: hand)) : Owned cfg s hand := by
  have hsub : ∀ p, s.places hand p <+~ s.places (id :: hand) p := by
    rintro (_ | q | _)
    · exact Subperm.refl _
    · exact Subperm.refl _
    · exact (sublist_cons_self id hand).subperm
  exact h.move (h.exclusive.leave hsub) (fun p id hid => ⟨p, (hsub p).subset hid⟩) rfl rfl
    (fun _ _ => rfl) rfl rfl

theorem Owned.transfer {s' : Pdev} {hand' l : List Nat} {p q : Place} (h : Owned cfg s hand)
    (hne : p ≠ q) (hp : l ++ s'.places hand' p <+~ s.places hand p)
    (hp' : s'.places hand' q ~ l ++ s.places hand q)
    (hother : ∀ k, k ≠ p → k ≠ q → s'.places hand' k = s.places hand k)
    (hdownload : s'.download = s.download) (htarget : s'.target = s.target)
    (href : ∀ id, s.download id = true ∨ s.target id = true → s'.ref_cnt id = s.ref_cnt id)
    (hreq : s'.tx_comp_req = s.tx_comp_req) (htype : s'.pkt_type = s.pkt_type) :
    Owned cfg s' hand' := by
  refine h.move (h.exclusive.transfer hne hp hp' hother) (fun k id hid => ?_) hdownload htarget
    href hreq htype
  by_cases hkp : k = p
  · subst hkp; exact ⟨k, hp.subset (mem_append_right _ hid)⟩
  · by_cases hkp' : k = q
    · subst hkp'
      rcases mem_append.mp (hp'.mem_iff.mp hid) with hl | hk
      · exact ⟨p, hp.subset (mem_append_left _ hl)⟩
      · exact ⟨k, hk⟩
    · rw [hother k hkp hkp'] at hid; exact ⟨k, hid⟩

theorem Owned.addRsrc (h : Owned cfg s hand) (n : Nat) : Owned cfg (s.addRsrc n) hand :=
  h.move h.exclusive (fun p _ hid => ⟨p, hid⟩) rfl rfl (fun _ _ => rfl) rfl rfl

theorem Owned.free (h : Owned cfg s (id :: hand)) :
    Owned cfg (ol_tx_desc_frame_free_nonstd s id) hand := by
  refine h.transfer (p := .hand) (q := .free) (l := [id]) (by simp) (Subperm.refl _)
    (Perm.refl _) ?_ rfl rfl (fun k hk => ?_) rfl rfl
  · rintro (_ | q | _) hne hne'
    · exact absurd rfl hne'
    · rfl
    · exact absurd rfl hne
  · have hki : k ≠ id := by
      rintro rfl
      have := h.hand_settled
      simp_all
    exact update_of_ne hki _ _

theorem Owned.list_free {ids : List Nat} (h : Owned cfg s (ids ++ hand)) :
    Owned cfg (ol_tx_desc_frame_list_free s ids) hand := by
  induction ids generalizing s with
  | nil => exact h
  | cons id ids ih => exact ih (Owned.free h)

theorem Owned.alloc {s' : Pdev} {vdev : Nat} (h : Owned cfg s hand)
    (ha : ol_tx_desc_alloc_hl s vdev = some (id, s')) : Owned cfg s' (id :: hand) := by
  unfold ol_tx_desc_alloc_hl at ha
  split at ha
  · exact absurd ha (by simp)
  · next id' rest hlist =>
    simp only [some.injEq, Prod.mk.injEq] at ha
    obtain ⟨rfl, rfl⟩ := ha
    refine h.transfer (p := .free) (q := .hand) (l := [id']) (by simp) ?_ (Perm.refl _) ?_ rfl rfl
      (fun _ _ => rfl) rfl rfl
    · change [id'] ++ rest <+~ s.freelist
      rw [hlist]; exact Subperm.refl _
    · rintro (_ | q | _) hne hne'
      · exact absurd rfl hne
      · rfl
      · exact absurd rfl hne'

theorem Owned.initDesc (h : Owned cfg s (id :: hand)) {pkt_type : PktType} {tx_comp_req : Bool}
    (hreq : cfg.tx_free_at_download = true → pkt_type.freedAtDownload = true →
      tx_comp_req = false) : Owned cfg (s.initDesc id pkt_type tx_comp_req) (id :: hand) := by
  have hother : ∀ k, s.download k = true ∨ s.target k = true → k ≠ id := by
    rintro k hk rfl
    have := h.hand_settled
    simp_all
  refine
    { h with
      ref_cnt := fun k hk => ?_
      requested := fun k hk => ?_
      unanswered := fun hcfg k hk => ?_ }
  · have hki := hother k hk
    simp only [Pdev.refs, Pdev.initDesc, update_of_ne hki]
    exact h.ref_cnt k hk
  · have hki := hother k (Or.inr hk)
    simp only [Pdev.initDesc, update_of_ne hki]
    exact h.requested k hk
  · by_cases hki : k = id
    · subst hki
      simp only [Pdev.initDesc, update_self] at hk ⊢
      exact hreq hcfg hk
    · simp only [Pdev.initDesc, update_of_ne hki] at hk ⊢
      exact h.unanswered hcfg k hk

/-! ## HTT and the target -/

def Pdev.setSent (s : Pdev) (id : Nat) (download target : Bool) (ref_cnt : Int) : Pdev :=
  { s with
    download := update s.download id download
    target := update s.target id target
    ref_cnt := update s.ref_cnt id ref_cnt }

theorem accept_eq (s : Pdev) (id : Nat) :
    s.accept id = s.setSent id true (s.tx_comp_req id) (s.ref_cnt id) := by
  simp only [Pdev.accept, Pdev.setSent, update_eq_self]

theorem downloadDone_eq (s : Pdev) (id : Nat) :
    s.downloadDone id = s.setSent id false (s.target id) (s.ref_cnt id - 1) := by
  simp only [Pdev.downloadDone, Pdev.setSent, update_eq_self]

theorem targetDone_eq (s : Pdev) (id : Nat) :
    s.targetDone id = s.setSent id (s.download id) false (s.ref_cnt id - 1) := by
  simp only [Pdev.targetDone, Pdev.setSent, update_eq_self]

theorem Owned.setSent {hand' : List Nat} {d t : Bool} {r : Int} (h : Owned cfg s hand)
    (hex : Exclusive (s.places hand')) (hid : id < cfg.pool_size)
    (hmem : ∀ p, ∀ k ∈ s.places hand' p, k ≠ id → ∃ p', k ∈ s.places hand p')
    (hin : ∀ p, id ∈ s.places hand' p → d = false ∧ t = false)
    (hreq : t = true → s.tx_comp_req id = true)
    (hr : d = true ∨ t = true → r = (if d = true then 1 else 0)
      + if t = true ∨ s.tx_comp_req id = false then 1 else 0) :
    Owned cfg (s.setSent id d t r) hand' where
  exclusive := hex
  in_pool := fun p k hk => by
    by_cases hki : k = id
    · rw [hki]; exact hid
    · obtain ⟨p', hp'⟩ := hmem p k hk hki; exact h.in_pool p' k hp'
  settled := fun p k hk => by
    by_cases hki : k = id
    · subst hki
      simp only [Pdev.setSent, update_self]
      exact hin p hk
    · obtain ⟨p', hp'⟩ := hmem p k hk hki
      simp only [Pdev.setSent, update_of_ne hki]
      exact h.settled p' k hp'
  sent_in_pool := fun k hk => by
    by_cases hki : k = id
    · rw [hki]; exact hid
    · simp only [Pdev.setSent, update_of_ne hki] at hk; exact h.sent_in_pool k hk
  ref_cnt := fun k hk => by
    by_cases hki : k = id
    · subst hki
      simp only [Pdev.setSent, Pdev.refs, update_self] at hk ⊢
      exact hr hk
    · simp only [Pdev.setSent, Pdev.refs, update_of_ne hki] at hk ⊢
      exact h.ref_cnt k hk
  requested := fun k hk => by
    by_cases hki : k = id
    · subst hki
      simp only [Pdev.setSent, update_self] at hk ⊢
      exact hreq hk
    · simp only [Pdev.setSent, update_of_ne hki] at hk ⊢
      exact h.requested k hk
  unanswered := h.unanswered

theorem Owned.accept (h : Owned cfg s (id :: hand)) (hr : s.ref_cnt id = 2) :
    Owned cfg (s.accept id) hand := by
  have hgone : ∀ p, id ∉ s.places hand p := by
    rintro (_ | q | _) hp
    · exact absurd (h.exclusive.unique (i := .free) (j := .hand) hp mem_cons_self) (by simp)
    · exact absurd (h.exclusive.unique (i := .queue q) (j := .hand) hp mem_cons_self) (by simp)
    · exact (nodup_cons.mp (h.exclusive.nodup .hand)).1 hp
  rw [accept_eq]
  refine h.drop.setSent h.drop.exclusive (h.in_pool .hand id mem_cons_self)
    (fun p k hk _ => ⟨p, hk⟩) (fun p hp => absurd hp (hgone p)) (fun ht => ht) (fun _ => ?_)
  rw [hr]
  cases s.tx_comp_req id <;> simp

theorem Owned.retain {d t : Bool} (h : Owned cfg s hand)
    (hs : s.download id = true ∨ s.target id = true) (ht : t = true → s.target id = true)
    (hr : s.ref_cnt id - 1 = (if d = true then 1 else 0)
      + if t = true ∨ s.tx_comp_req id = false then 1 else 0) :
    Owned cfg (s.setSent id d t (s.ref_cnt id - 1)) hand :=
  h.setSent h.exclusive (h.sent_in_pool id hs) (fun p _ hk _ => ⟨p, hk⟩)
    (fun p hp => absurd hp (h.not_mem hs p)) (fun htrue => h.requested id (ht htrue)) fun _ => hr

theorem Owned.recall (h : Owned cfg s hand) (hs : s.download id = true ∨ s.target id = true)
    (r : Int) : Owned cfg (s.setSent id false false r) (id :: hand) := by
  refine h.setSent ?_ (h.sent_in_pool id hs) ?_ (fun _ _ => ⟨rfl, rfl⟩) (by simp) (by simp)
  · refine h.exclusive.enter (j := .hand) (l := [id]) (by simp) ?_ (Perm.refl _) ?_
    · intro a ha p
      rw [mem_singleton.mp ha]; exact h.not_mem hs p
    · rintro (_ | q | _) hne
      · rfl
      · rfl
      · exact absurd rfl hne
  · rintro (_ | q | _) k hk hki
    · exact ⟨.free, hk⟩
    · exact ⟨.queue q, hk⟩
    · exact ⟨.hand, (mem_cons.mp hk).resolve_left hki⟩

theorem Owned.targetDone (h : Owned cfg s hand) (ht : s.target id = true) :
    (s.ref_cnt id - 1 = 0 → Owned cfg (s.targetDone id) (id :: hand)) ∧
      (s.ref_cnt id - 1 ≠ 0 → Owned cfg (s.targetDone id) hand) := by
  have href := h.ref_cnt id (Or.inr ht)
  have hreq := h.requested id ht
  simp only [Pdev.refs, ht, true_or, if_true] at href
  rw [targetDone_eq]
  cases hd : s.download id
  · rw [hd] at href
    refine ⟨fun _ => h.recall (Or.inr ht) _, fun hne => absurd ?_ hne⟩
    rw [href]; decide
  · rw [hd] at href
    refine ⟨fun hz => absurd hz ?_, fun _ => ?_⟩
    · rw [href]; decide
    · refine h.retain (Or.inr ht) (by simp) ?_
      rw [href, hreq]; decide

/-- HTT reports the end of a download: the target still has the frame, or it has
answered, or it was not asked. -/
theorem Owned.downloadDone (h : Owned cfg s hand) (hd : s.download id = true) :
    (s.target id = true → s.ref_cnt id - 1 ≠ 0 ∧ Owned cfg (s.downloadDone id) hand) ∧
      (s.target id = false → Owned cfg (s.downloadDone id) (id :: hand)) := by
  have href := h.ref_cnt id (Or.inl hd)
  rw [downloadDone_eq]
  refine ⟨fun ht => ?_, fun ht => ?_⟩
  · simp only [Pdev.refs, hd, ht, true_or, if_true] at href
    rw [ht]
    refine ⟨by rw [href]; decide, h.retain (Or.inl hd) (fun _ => ht) ?_⟩
    rw [href]; simp
  · rw [ht]; exact h.recall (Or.inl hd) _

/-! ## Queues -/

structure Takes (t t' : TxSched.Pdev) (q : TxqId) (frames : List TxDesc) : Prop where
  taken : frames ++ (t'.txq q).head <+ (t.txq q).head
  other : ∀ k, k ≠ q → (t'.txq k).head = (t.txq k).head

theorem dequeueLoop_append {credit n credit_sum : Nat} {head : List TxDesc}
    {r : List TxDesc × List TxDesc} (h : dequeueLoop credit n credit_sum head = some r) :
    r.1 ++ r.2 = head := by
  induction n generalizing credit_sum head r with
  | zero => cases h; rfl
  | succ n ih =>
    cases head with
    | nil => exact absurd h (by simp [dequeueLoop])
    | cons d head =>
      rw [dequeueLoop] at h
      split at h
      · cases h; rfl
      · obtain ⟨r', hr', rfl⟩ := map_eq_some_iff.mp h; rw [cons_append, ih hr']

theorem dequeue_head {t t' : Txq} {max_frames credit : Nat} {frames : List TxDesc}
    (h : ol_tx_dequeue t max_frames credit = some (t', frames)) : frames ++ t'.head = t.head := by
  obtain ⟨r, hr, heq⟩ := map_eq_some_iff.mp h
  obtain ⟨rfl, rfl⟩ := heq
  exact dequeueLoop_append hr

variable {T : TidToAc} {t t' : TxSched.Pdev} {q : TxqId} {frames : List TxDesc}

theorem notify_txq {e : Event} (h : ol_tx_sched_notify T t q e = some t') : t'.txq = t.txq := by
  have hdeactivate : ∀ {tid}, ol_tx_sched_txq_deactivate_wrr_adv T t q tid = some t' →
      t'.txq = t.txq := by
    intro tid h
    rw [ol_tx_sched_txq_deactivate_wrr_adv] at h
    split at h
    · cases h; rfl
    · exact absurd h (by simp)
  unfold ol_tx_sched_notify at h
  split at h
  · cases h; rfl
  · split at h
    · exact hdeactivate h
    · exact congrArg _ (some.inj h).symm
  · split at h
    · exact hdeactivate h
    · exact congrArg _ (some.inj h).symm
  · split at h
    · cases h; rfl
    · exact congrArg _ (some.inj h).symm
  · rw [ol_tx_sched_txq_discard_wrr_adv] at h
    split at h
    · split at h
      · cases h; rfl
      · exact absurd h (by simp)
    · cases h; rfl

theorem Takes.of_dequeue {u : Txq} {max_frames credit : Nat}
    (h : ol_tx_dequeue (t.txq q) max_frames credit = some (u, frames))
    (htxq : t'.txq = update t.txq q u) : Takes t t' q frames where
  taken := by rw [htxq, update_self, dequeue_head h]
  other := fun k hk => by rw [htxq, update_of_ne hk]

theorem takes_nil (h : t'.txq = t.txq) (q : TxqId) : Takes t t' q [] where
  taken := by rw [h]; exact Sublist.refl _
  other := fun k _ => by rw [h]

theorem discard_select_takes {frms : Nat} {force : Bool}
    (h : ol_tx_sched_discard_select T t frms force = some (t', frames)) :
    ∃ q, Takes t t' q frames := by
  unfold ol_tx_sched_discard_select at h
  dsimp only at h
  split at h
  · obtain ⟨rfl, rfl⟩ := h; exact ⟨.vdev 0 ⟨0, by decide⟩, takes_nil rfl _⟩
  · next q _ =>
    obtain ⟨⟨u, frames'⟩, hu, hrest⟩ := bind_eq_some_iff.mp h
    obtain ⟨t₂, hn, heq⟩ := map_eq_some_iff.mp hrest
    obtain ⟨rfl, rfl⟩ := heq
    exact ⟨q, Takes.of_dequeue hu (notify_txq hn)⟩

theorem serveCategory_takes {env : BatchEnv} {c : Cat} {b : Batch}
    (h : serveCategory t env c = some (t', b)) : ∃ q, Takes t t' q (servedFrames b) := by
  unfold serveCategory at h
  dsimp only at h
  split at h
  · obtain ⟨rfl, rfl⟩ := h; exact ⟨.vdev 0 ⟨0, by decide⟩, takes_nil rfl _⟩
  · next q _ _ =>
    split at h
    · obtain ⟨⟨u, frames⟩, hu, heq⟩ := map_eq_some_iff.mp h
      obtain ⟨rfl, rfl⟩ := heq
      exact ⟨q, Takes.of_dequeue hu rfl⟩
    · split at h
      · obtain ⟨rfl, rfl⟩ := h; exact ⟨q, takes_nil rfl q⟩
      · obtain ⟨rfl, rfl⟩ := h
        refine ⟨q, takes_nil ?_ q⟩
        rfl

theorem selectLoop_txq {fuel index : Nat} {r : TxSched.Pdev × Nat × Option Cat}
    (h : selectLoop fuel t index = some r) : r.1.txq = t.txq := by
  induction fuel generalizing t index with
  | zero => exact absurd h (by simp [selectLoop])
  | succ fuel ih =>
    rw [selectLoop] at h
    split at h
    · obtain ⟨c, -, hc⟩ := bind_eq_some_iff.mp h
      split at hc
      · exact ih hc
      · split at hc
        · have htxq := ih hc; exact htxq
        · cases hc; rfl
    · cases h; rfl

theorem select_batch_takes {env : BatchEnv} {b : Batch}
    (h : ol_tx_sched_select_batch_wrr_adv t env = some (t', b)) :
    ∃ q, Takes t t' q (servedFrames b) := by
  obtain ⟨⟨t₁, index, c⟩, hloop, hrest⟩ := bind_eq_some_iff.mp h
  have htxq : t₁.txq = t.txq := selectLoop_txq hloop
  dsimp only at hrest
  split at hrest
  · obtain ⟨rfl, rfl⟩ := hrest; exact ⟨.vdev 0 ⟨0, by decide⟩, takes_nil htxq _⟩
  · split at hrest
    · obtain ⟨rfl, rfl⟩ := hrest
      refine ⟨.vdev 0 ⟨0, by decide⟩, takes_nil ?_ _⟩
      exact htxq
    · obtain ⟨q, hq⟩ := serveCategory_takes hrest
      refine ⟨q, ⟨?_, fun k hk => ?_⟩⟩
      · rw [← htxq]; exact hq.taken
      · rw [← htxq]; exact hq.other k hk

theorem queue_free_takes (h : TxSched.ol_tx_queue_free T t q = some (t', frames)) :
    Takes t t' q frames := by
  obtain ⟨t₁, hn, hrest⟩ := bind_eq_some_iff.mp h
  have htxq := notify_txq hn
  dsimp only at hrest
  split at hrest
  · obtain ⟨rfl, rfl⟩ := hrest
    refine ⟨?_, fun k hk => ?_⟩
    · simp only [TxSched.Pdev.setTxq, update_self, append_nil]
      rw [htxq]; exact take_sublist _ _
    · simp only [TxSched.Pdev.setTxq, update_of_ne hk]; rw [htxq]
  · exact absurd hrest (by simp)

theorem Owned.take (h : Owned cfg s hand) (ht : Takes s.sched t q frames) :
    Owned cfg { s with sched := t } (frames.map TxDesc.id ++ hand) := by
  refine h.transfer (p := .queue q) (q := .hand) (l := frames.map TxDesc.id) (by simp) ?_
    (Perm.refl _) ?_ rfl rfl (fun _ _ => rfl) rfl rfl
  · change frames.map TxDesc.id ++ (t.txq q).head.map TxDesc.id
      <+~ (s.sched.txq q).head.map TxDesc.id
    rw [← map_append]; exact (ht.taken.map _).subperm
  · rintro (_ | k | _) hne hne'
    · rfl
    · simp only [Pdev.places]; rw [ht.other k fun hk => hne (congrArg _ hk)]
    · exact absurd rfl hne'

theorem Owned.sched (h : Owned cfg s hand) (ht : ∀ q, (t.txq q).head = (s.sched.txq q).head) :
    Owned cfg { s with sched := t } hand := by
  have htake : Takes s.sched t (.vdev 0 ⟨0, by decide⟩) [] := by
    refine ⟨?_, fun k _ => ht k⟩
    rw [ht]; exact Sublist.refl _
  exact h.take htake

theorem Owned.freeFrames (h : Owned cfg s (frames.map TxDesc.id ++ hand)) :
    Owned cfg (s.freeFrames frames) hand :=
  Owned.list_free (h.addRsrc _)

theorem Owned.discardLoop {force : Bool} {fuel num : Nat} (h : Owned cfg s hand)
    (hd : TxSched.discardLoop T force fuel s.sched num = some (t, frames)) :
    Owned cfg { s with sched := t } (frames.map TxDesc.id ++ hand) := by
  induction fuel generalizing s hand num t frames with
  | zero =>
    rw [TxSched.discardLoop] at hd
    split at hd
    · obtain ⟨rfl, rfl⟩ := hd; exact h
    · exact absurd hd (by simp)
  | succ fuel ih =>
    rw [TxSched.discardLoop] at hd
    split at hd
    · obtain ⟨rfl, rfl⟩ := hd; exact h
    · obtain ⟨⟨t₁, frames₁⟩, hsel, hrest⟩ := bind_eq_some_iff.mp hd
      obtain ⟨q, hq⟩ := discard_select_takes hsel
      have h₁ := h.take hq
      dsimp only at hrest
      split at hrest
      · next hnil =>
        obtain ⟨rfl, rfl⟩ := hrest
        rw [hnil] at h₁; exact h₁
      · obtain ⟨⟨t₂, frames₂⟩, hloop, heq⟩ := map_eq_some_iff.mp hrest
        obtain ⟨rfl, rfl⟩ := heq
        have h₂ := ih h₁ hloop
        -- the later frames were taken on top of the earlier ones
        refine h₂.perm ?_
        rw [map_append, append_assoc]; exact perm_append_comm_assoc _ _ _

theorem setTxq_head (t : TxSched.Pdev) (q : TxqId) (u : Txq) (k : TxqId) :
    ((t.setTxq q u).txq k).head = if k = q then u.head else (t.txq k).head := by
  by_cases hk : k = q
  · subst hk; simp only [TxSched.Pdev.setTxq, update_self, if_true]
  · simp only [TxSched.Pdev.setTxq, update_of_ne hk, if_neg hk]

theorem setTxq_head_same {u : Txq} (hu : u.head = (t.txq q).head) (k : TxqId) :
    ((t.setTxq q u).txq k).head = (t.txq k).head := by
  rw [setTxq_head]
  split
  · next hk => rw [hk, hu]
  · rfl

theorem setFlag_head (t : TxSched.Pdev) (q : TxqId) (flag : QueueStatus) (k : TxqId) :
    ((t.setFlag q flag).txq k).head = (t.txq k).head := by apply setTxq_head_same; rfl

theorem enqueueFrame_head {d : TxDesc} (h : enqueueFrame T t q d = some t') (k : TxqId) :
    (t'.txq k).head = if k = q then (t.txq k).head ++ [d] else (t.txq k).head := by
  unfold enqueueFrame at h
  dsimp only at h
  split at h
  · obtain ⟨t₁, hn, rfl⟩ := map_eq_some_iff.mp h
    rw [setFlag_head, notify_txq hn, setTxq_head]
    by_cases hk : k = q
    · subst hk; simp only [if_true]
    · simp only [if_neg hk]
  · cases h
    rw [setTxq_head]
    by_cases hk : k = q
    · subst hk; simp only [if_true]
    · simp only [if_neg hk]

theorem pause_head {peer : Nat} {tid : Fin OL_TX_NUM_TIDS}
    (h : ol_txrx_peer_tid_pause_base T t peer tid = some t') (k : TxqId) :
    (t'.txq k).head = (t.txq k).head := by
  unfold ol_txrx_peer_tid_pause_base at h
  dsimp only at h
  split at h
  · obtain ⟨t₁, hn, rfl⟩ := map_eq_some_iff.mp h
    rw [setFlag_head, notify_txq hn]
    apply setTxq_head_same
    rfl
  · cases h
    apply setTxq_head_same
    rfl

theorem unpause_head {peer : Nat} {tid : Fin OL_TX_NUM_TIDS}
    (h : ol_txrx_peer_tid_unpause_base T t peer tid = some t') (k : TxqId) :
    (t'.txq k).head = (t.txq k).head := by
  unfold ol_txrx_peer_tid_unpause_base at h
  dsimp only at h
  split at h
  · cases h; rfl
  · split at h
    · obtain ⟨t₁, hn, rfl⟩ := map_eq_some_iff.mp h
      rw [setFlag_head, notify_txq hn]
      apply setTxq_head_same
      rfl
    · cases h
      apply setTxq_head_same
      rfl

theorem Owned.enqueueFrame {d : TxDesc} (h : Owned cfg s (d.id :: hand))
    (he : TxSched.enqueueFrame T s.sched q d = some t) : Owned cfg { s with sched := t } hand := by
  have hheads := enqueueFrame_head he
  refine h.transfer (p := .hand) (q := .queue q) (l := [d.id]) (by simp) (Subperm.refl _) ?_ ?_
    rfl rfl (fun _ _ => rfl) rfl rfl
  · change (t.txq q).head.map TxDesc.id ~ [d.id] ++ (s.sched.txq q).head.map TxDesc.id
    rw [hheads q, if_pos rfl, map_append]; exact perm_append_comm
  · rintro (_ | k | _) hne hne'
    · rfl
    · simp only [Pdev.places]; rw [hheads k, if_neg fun hk => hne' (congrArg _ hk)]
    · exact absurd rfl hne

theorem Owned.enqueue {d : TxDesc} {low : Option Nat} (h : Owned cfg s (d.id :: hand))
    (he : TxSched.ol_tx_enqueue T s.sched q d low = some (t, frames)) :
    Owned cfg { s with sched := t } (frames.map TxDesc.id ++ hand) := by
  cases low with
  | none =>
    obtain ⟨t₁, ht, heq⟩ := map_eq_some_iff.mp he
    obtain ⟨rfl, rfl⟩ := heq
    exact h.enqueueFrame ht
  | some num =>
    obtain ⟨⟨t₁, frames₁⟩, hd, hrest⟩ := bind_eq_some_iff.mp he
    obtain ⟨t₂, ht, heq⟩ := map_eq_some_iff.mp hrest
    obtain ⟨rfl, rfl⟩ := heq
    have h₁ := (Owned.discardLoop h hd).perm (perm_middle (a := d.id)).symm
    have h₂ := h₁.enqueueFrame ht
    exact h₂

end Qcacld.TxDescHl
