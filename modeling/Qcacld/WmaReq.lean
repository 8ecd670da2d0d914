/-
The requests of WMA to the firmware: `wma_dev_if.c`.

Memory is never used again here: requests are numbered, and the parameters of a request, which the
response hands back, are known by their address. An expired timer posts a message, and the callback
is run when that comes up. Messages can always be posted, and insertion into a list never fails
(`cdf_list_insert_back`). What else can fail is up to the environment, for each step. Left out are
the statuses of the responses, the peers, the beacons, the pausing of the queues, the requests that
are answered at once, and the wrapper of the parameters of a P2P device. `wma_vdev_detach` is only
ever called for a response. Where the code comes to `CDF_BUG`, which halts the kernel in this
build, the runs here go on, as in a build without `PANIC_ON_BUG`.
-/
import Mathlib.Data.List.Count
import Qcacld.Lib.Run
import Qcacld.Lib.Places

set_option autoImplicit false

namespace Qcacld.WmaReq

open Lib Function

section

inductive MsgType
  | WMA_ADD_BSS_REQ
  | WMA_CHNL_SWITCH_REQ
  | WMA_OCB_SET_CONFIG_CMD
  | WMA_DELETE_BSS_REQ
  | WMA_DEL_STA_SELF_REQ
  | WMA_ADD_STA_REQ
  | WMA_DELETE_STA_REQ
  deriving DecidableEq

def WMA_TARGET_REQ_TYPE_VDEV_START : Nat := 1
def WMA_TARGET_REQ_TYPE_VDEV_STOP : Nat := 2
def WMA_TARGET_REQ_TYPE_VDEV_DEL : Nat := 3

def WMA_PEER_ASSOC_CNF_START : Nat := 1
def WMA_DELETE_STA_RSP_START : Nat := 2
def WMA_DEL_P2P_SELF_STA_RSP_START : Nat := 3

inductive Queue
  | vdev_resp_queue
  | wma_hold_req_queue
  deriving DecidableEq

/-- `wma_target_req`. For a `WMA_DEL_STA_SELF_REQ` the `user_data` is the number of the interface,
otherwise the address of the parameters. -/
structure TargetReq where
  vdev_id : Nat
  msg_type : MsgType
  type : Nat
  user_data : Nat
  /-- The queue for which the callback of the timer is made. -/
  callback : Queue

inductive TimerState
  | STOPPED
  | RUNNING
  /-- It has expired, and the message is on its way. -/
  | POSTED
  deriving DecidableEq

/-- What is read of the parameters: the session, the peer, whether a response is required, and
whether the status is `CDF_STATUS_FW_MSG_TIMEDOUT`. -/
structure Params where
  session_id : Nat
  peer : Nat
  respReqd : Bool
  fwMsgTimedout : Bool

/-- `wma_txrx_node`: whether there is a handle, whether the vdev is a P2P device, whether the BSS is
started. -/
structure TxrxNode where
  handle : Bool
  p2pDevice : Bool
  bssStarted : Bool
  del_staself_req : Option Nat

def TxrxNode.zero : TxrxNode := ⟨false, false, false, none⟩

structure State where
  req : Nat → TargetReq
  /-- How many requests were ever allocated. -/
  used : Nat
  queue : Queue → List Nat
  timer : Nat → TimerState
  freed : List Nat
  interfaces : Nat → TxrxNode
  param : Nat → Params
  /-- The parameters of the responses sent. -/
  rsp : List Nat
  /-- The addresses of all parameters so far. -/
  allocated : List Nat
  /-- Those of the UMAC to which it wants a response. -/
  requests : List Nat

structure Env where
  /-- There is a data path device. -/
  pdev : Bool
  malloc : Bool
  /-- The parameters of a request of WMA itself can be allocated. -/
  paramsMalloc : Bool
  /-- The command is sent. -/
  send : Bool
  selfPeer : Bool
  /-- The response says that a BSS of an AP or an IBSS is started, and there is memory for it. -/
  bssStarted : Bool

def init : State where
  req _ := ⟨0, .WMA_ADD_BSS_REQ, 0, 0, .vdev_resp_queue⟩
  used := 0
  queue _ := []
  timer _ := .STOPPED
  freed := []
  interfaces _ := TxrxNode.zero
  param _ := ⟨0, 0, false, false⟩
  rsp := []
  allocated := []
  requests := []

/-! ## Requests -/

def setIface (s : State) (v : Nat) (i : TxrxNode) : State :=
  { s with interfaces := update s.interfaces v i }

def wma_send_msg (s : State) (p : Nat) : State := { s with rsp := s.rsp ++ [p] }

def alloc (s : State) (p : Nat) (m : Params) : State :=
  { s with param := update s.param p m, allocated := p :: s.allocated }

def cdf_mc_timer_stop (s : State) (b : Nat) : State :=
  if s.timer b = .RUNNING then { s with timer := update s.timer b .STOPPED } else s

def free (s : State) (b : Nat) : State :=
  let s := cdf_mc_timer_stop s b
  { s with freed := s.freed ++ [b] }

def fill (s : State) (q : Queue) (r : TargetReq) : State :=
  { s with
    req := update s.req s.used r
    used := s.used + 1
    queue := update s.queue q (s.queue q ++ [s.used])
    timer := update s.timer s.used .RUNNING }

def first (s : State) (q : Queue) (ok : TargetReq → Bool) : Option Nat :=
  (s.queue q).find? fun b => ok (s.req b)

def take (s : State) (q : Queue) (b : Nat) : State :=
  { s with queue := update s.queue q ((s.queue q).erase b) }

def find (s : State) (q : Queue) (ok : TargetReq → Bool) : State × Option Nat :=
  match first s q ok with
  | none => (s, none)
  | some b => (take s q b, some b)

def isType (v type : Nat) (r : TargetReq) : Bool := r.vdev_id = v ∧ r.type = type

def isMsgType (v : Nat) (msg_type : MsgType) (r : TargetReq) : Bool :=
  r.vdev_id = v ∧ r.msg_type = msg_type

def wma_find_req (s : State) (v type : Nat) : State × Option Nat :=
  find s .wma_hold_req_queue (isType v type)

def wma_find_remove_req_msgtype (s : State) (v : Nat) (msg_type : MsgType) : State × Option Nat :=
  find s .wma_hold_req_queue (isMsgType v msg_type)

def wma_find_vdev_req (s : State) (v type : Nat) : State × Option Nat :=
  find s .vdev_resp_queue (isType v type)

/-- For a request that is allocated. -/
def wma_fill_hold_req (s : State) (v : Nat) (msg_type : MsgType) (type p : Nat) : State :=
  fill s .wma_hold_req_queue ⟨v, msg_type, type, p, .wma_hold_req_queue⟩

def wma_fill_vdev_req (s : State) (v : Nat) (msg_type : MsgType) (type p : Nat) : State :=
  fill s .vdev_resp_queue ⟨v, msg_type, type, p, .vdev_resp_queue⟩

def freeFound : State × Option Nat → State
  | (s, none) => s
  | (s, some b) => free s b

def wma_remove_req (s : State) (v type : Nat) : State := freeFound (wma_find_req s v type)

def wma_remove_vdev_req (s : State) (v type : Nat) : State := freeFound (wma_find_vdev_req s v type)

/-! ## Deleting a vdev -/

-- whether `WMI_SERVICE_SYNC_DELETE_CMDS` is enabled
variable (sync : Bool)

def wma_vdev_detach_callback (s : State) (v : Nat) : State :=
  match (s.interfaces v).del_staself_req with
  | none => s
  | some p =>
    let s :=
      if sync then s
      else wma_remove_vdev_req s (s.param p).session_id WMA_TARGET_REQ_TYPE_VDEV_DEL
    wma_send_msg (setIface s v TxrxNode.zero) p

def wma_handle_vdev_detach (s : State) (p : Nat) (e : Env) : State :=
  let v := (s.param p).session_id
  if e.send then
    let s := setIface s v { s.interfaces v with del_staself_req := some p }
    if e.malloc then
      let s := wma_fill_vdev_req s v .WMA_DEL_STA_SELF_REQ WMA_TARGET_REQ_TYPE_VDEV_DEL v
      if sync then s else wma_vdev_detach_callback sync s v
    else wma_send_msg (setIface s v TxrxNode.zero) p
  else wma_send_msg (setIface s v TxrxNode.zero) p

def wma_self_peer_remove (s : State) (p : Nat) (e : Env) : State :=
  let v := (s.param p).session_id
  if e.pdev = false ∨ e.selfPeer = false then s
  else if sync then
    if e.paramsMalloc = false then s
    else if e.malloc then
      wma_fill_hold_req s v .WMA_DELETE_STA_REQ WMA_DEL_P2P_SELF_STA_RSP_START p
    else wma_remove_req s v WMA_DEL_P2P_SELF_STA_RSP_START
  else s

def wma_vdev_detach (s : State) (p : Nat) (e : Env) : State :=
  let v := (s.param p).session_id
  let iface := s.interfaces v
  if iface.bssStarted then setIface s v { iface with del_staself_req := some p }
  -- without a handle the parameters are freed
  else if iface.handle = false then s
  else if iface.p2pDevice then
    let s := wma_self_peer_remove sync s p e
    if sync then s else wma_handle_vdev_detach sync s p e
  else wma_handle_vdev_detach sync s p e

/-! ## Events -/

-- the largest number of an interface
variable (max_bssid : Nat)

def wma_vdev_start_resp_handler (s : State) (v : Nat) (e : Env) : State :=
  match wma_find_vdev_req s v WMA_TARGET_REQ_TYPE_VDEV_START with
  | (s, none) => s
  | (s, some b) =>
    match (s.req b).msg_type with
    | .WMA_CHNL_SWITCH_REQ => free (wma_send_msg s (s.req b).user_data) b
    | .WMA_ADD_BSS_REQ =>
      let s' :=
        if e.bssStarted then setIface s v { s.interfaces v with bssStarted := true } else s
      free (wma_send_msg s' (s.req b).user_data) b
    | .WMA_OCB_SET_CONFIG_CMD => if e.send then free s b else cdf_mc_timer_stop s b
    | _ => free s b

def bssStopped (s : State) (v : Nat) : State :=
  setIface s v { s.interfaces v with bssStarted := false }

def deferredDetach (s : State) (v : Nat) (e : Env) : State :=
  match (s.interfaces v).del_staself_req with
  | none => s
  | some p => wma_vdev_detach sync s p e

def wma_vdev_stop_resp_handler (s : State) (v : Nat) (e : Env) : State :=
  match wma_find_vdev_req s v WMA_TARGET_REQ_TYPE_VDEV_STOP with
  | (s, none) => s
  | (s, some b) =>
    let p := (s.req b).user_data
    if e.pdev = false then free s b
    else if (s.req b).msg_type = .WMA_DELETE_BSS_REQ then
      if v > max_bssid then free s b
      else if (s.interfaces v).handle = false then free s b
      else
        let s := bssStopped s v
        -- WMA's own request after a timeout
        let s := if (s.param p).fwMsgTimedout then s else wma_send_msg s p
        free (deferredDetach sync s v e) b
    else free s b

def wma_vdev_delete_handler (s : State) (v : Nat) : State :=
  match wma_find_vdev_req s v WMA_TARGET_REQ_TYPE_VDEV_DEL with
  | (s, none) => s
  | (s, some b) => free (wma_vdev_detach_callback sync s (s.req b).user_data) b

/-- The peer of the event is only logged. -/
def wma_peer_assoc_conf_handler (s : State) (v : Nat) : State :=
  match wma_find_req s v WMA_PEER_ASSOC_CNF_START with
  | (s, none) => s
  | (s, some b) =>
    match (s.req b).msg_type with
    | .WMA_ADD_STA_REQ => free (wma_send_msg s (s.req b).user_data) b
    | .WMA_ADD_BSS_REQ => free (wma_send_msg s (s.req b).user_data) b
    | _ => free s b

/-- The peer of the event is only logged. -/
def wma_peer_delete_handler (s : State) (v : Nat) (e : Env) : State :=
  match wma_find_remove_req_msgtype s v .WMA_DELETE_STA_REQ with
  | (s, none) => s
  | (s, some b) =>
    let p := (s.req b).user_data
    if (s.req b).type = WMA_DELETE_STA_RSP_START then
      free (if (s.param p).respReqd then wma_send_msg s p else s) b
    else if (s.req b).type = WMA_DEL_P2P_SELF_STA_RSP_START then
      free (wma_handle_vdev_detach sync s p e) b
    else free s b

/-! ## Timeouts -/

def wma_hold_req_timer (s : State) (b : Nat) : State :=
  let r := s.req b
  match wma_find_req s r.vdev_id r.type with
  | (s, none) => free s b
  | (s, some _) =>
    match r.msg_type with
    | .WMA_ADD_STA_REQ => free (wma_send_msg s r.user_data) b
    | .WMA_ADD_BSS_REQ => free (wma_send_msg s r.user_data) b
    | .WMA_DELETE_STA_REQ =>
      if r.type = WMA_DELETE_STA_RSP_START then free (wma_send_msg s r.user_data) b
      else free s b
    | _ => free s b

/-- `del_bss_params` is the address of the parameters of a stop of WMA's own. -/
def wma_vdev_resp_timer (s : State) (b del_bss_params : Nat) (e : Env) : State :=
  let r := s.req b
  let v := r.vdev_id
  if e.pdev = false then free s b
  else
    match wma_find_vdev_req s v r.type with
    | (s, none) => free s b
    | (s, some _) =>
      match r.msg_type with
      | .WMA_CHNL_SWITCH_REQ => free (wma_send_msg s r.user_data) b
      | .WMA_DELETE_BSS_REQ =>
        if v > max_bssid then free s b
        else if (s.interfaces v).handle = false then free s b
        else
          let s := wma_send_msg (bssStopped s v) r.user_data
          free (deferredDetach sync s v e) b
      | .WMA_DEL_STA_SELF_REQ =>
        match (s.interfaces r.user_data).del_staself_req with
        -- a null pointer is dereferenced
        | none => s
        | some p => free (setIface (wma_send_msg s p) r.user_data TxrxNode.zero) b
      | .WMA_ADD_BSS_REQ =>
        if e.paramsMalloc = false then free (wma_send_msg s r.user_data) b
        else
          let s := alloc s del_bss_params ⟨(s.param r.user_data).session_id, 0, false, true⟩
          if e.malloc then
            let s := wma_fill_vdev_req s v .WMA_DELETE_BSS_REQ WMA_TARGET_REQ_TYPE_VDEV_STOP
              del_bss_params
            if e.send then free (wma_send_msg s r.user_data) b
            else
              let s := wma_remove_vdev_req s v WMA_TARGET_REQ_TYPE_VDEV_STOP
              free (wma_send_msg s r.user_data) b
          else free (wma_send_msg s r.user_data) b
      | _ => free s b

/-! ## Requests of the UMAC -/

def ask (s : State) (p v peer : Nat) : State :=
  { alloc s p ⟨v, peer, true, false⟩ with requests := p :: s.requests }

def vdevRequest (s : State) (v : Nat) (msg_type : MsgType) (type p : Nat) (e : Env) : State :=
  if e.malloc then
    let s := wma_fill_vdev_req s v msg_type type p
    if e.send then s else wma_send_msg (wma_remove_vdev_req s v type) p
  else wma_send_msg s p

/-- `quit` if the IBSS cannot be set to save power, or the vdev of a STA is not found after its
start: the request is answered, and stays. -/
def wma_add_bss (s : State) (v p : Nat) (quit : Bool) (e : Env) : State :=
  if quit ∧ e.malloc then
    wma_send_msg
      (wma_fill_vdev_req s v .WMA_ADD_BSS_REQ WMA_TARGET_REQ_TYPE_VDEV_START p) p
  else vdevRequest s v .WMA_ADD_BSS_REQ WMA_TARGET_REQ_TYPE_VDEV_START p e

def wma_set_channel (s : State) (v p : Nat) (e : Env) : State :=
  vdevRequest s v .WMA_CHNL_SWITCH_REQ WMA_TARGET_REQ_TYPE_VDEV_START p e

def wma_delete_bss (s : State) (v p : Nat) (e : Env) : State :=
  vdevRequest s v .WMA_DELETE_BSS_REQ WMA_TARGET_REQ_TYPE_VDEV_STOP p e

/-- To this there is no response. -/
def wma_ocb_set_config_req (s : State) (v p : Nat) (e : Env) : State :=
  if e.malloc then
    let s := wma_fill_vdev_req s v .WMA_OCB_SET_CONFIG_CMD WMA_TARGET_REQ_TYPE_VDEV_START p
    if e.send then s else wma_remove_vdev_req s v WMA_TARGET_REQ_TYPE_VDEV_START
  else s

/-- A peer is told to the firmware, which confirms that. If the command is not sent, the request
waits for its timer. -/
def assocRequest (s : State) (v : Nat) (msg_type : MsgType) (p : Nat) (e : Env) : State :=
  if e.malloc then wma_fill_hold_req s v msg_type WMA_PEER_ASSOC_CNF_START p
  else wma_send_msg (wma_remove_req s v WMA_PEER_ASSOC_CNF_START) p

def wma_add_bss_sta_mode (s : State) (v p : Nat) (e : Env) : State :=
  assocRequest s v .WMA_ADD_BSS_REQ p e

def wma_add_sta (s : State) (v p : Nat) (e : Env) : State :=
  assocRequest s v .WMA_ADD_STA_REQ p e

def wma_delete_sta_req_ap_mode (s : State) (v p : Nat) (e : Env) : State :=
  if e.malloc then wma_fill_hold_req s v .WMA_DELETE_STA_REQ WMA_DELETE_STA_RSP_START p
  else
    let s := wma_remove_req s v WMA_DELETE_STA_RSP_START
    if (s.param p).respReqd then wma_send_msg s p else s

/-! ## Runs -/

inductive Op
  | vdevAttach (v : Nat) (p2pDevice : Bool)
  | addBss (v p : Nat) (quit : Bool)
  | addBssStaMode (v p peer : Nat)
  | setChannel (v p : Nat)
  | ocbSetConfigReq (v p : Nat)
  | deleteBss (v p : Nat)
  | addSta (v p peer : Nat)
  | deleteSta (v p peer : Nat) (respReqd : Bool)
  | delStaSelf (v p self_mac_addr : Nat)
  /-- A STA is up. -/
  | bssStarted (v : Nat)
  | vdevStartResp (v : Nat)
  | vdevStopResp (v : Nat)
  | vdevDeleteResp (v : Nat)
  | peerAssocConf (v peer : Nat)
  | peerDeleteResp (v peer : Nat)
  | expiry (b : Nat)
  | timeout (b del_bss_params : Nat)

structure Step where
  op : Op
  env : Env

/-- An interface is opened if it is not in use, and parameters are always new. -/
def step (s : State) (e : Step) : Option State :=
  match e.op with
  | .vdevAttach v p2pDevice =>
    if (s.interfaces v).handle = false ∧ (s.interfaces v).del_staself_req = none then
      some (setIface s v ⟨true, p2pDevice, false, none⟩)
    else none
  | .addBss v p quit =>
    if p ∉ s.allocated then some (wma_add_bss (ask s p v 0) v p quit e.env) else none
  | .addBssStaMode v p peer =>
    if p ∉ s.allocated then some (wma_add_bss_sta_mode (ask s p v peer) v p e.env) else none
  | .setChannel v p =>
    if p ∉ s.allocated then some (wma_set_channel (ask s p v 0) v p e.env) else none
  | .ocbSetConfigReq v p => some (wma_ocb_set_config_req s v p e.env)
  | .deleteBss v p =>
    if p ∉ s.allocated then some (wma_delete_bss (ask s p v 0) v p e.env) else none
  | .addSta v p peer =>
    if p ∉ s.allocated then some (wma_add_sta (ask s p v peer) v p e.env) else none
  | .deleteSta v p peer respReqd =>
    if p ∉ s.allocated then
      some (wma_delete_sta_req_ap_mode
        (if respReqd then ask s p v peer else alloc s p ⟨v, peer, false, false⟩) v p e.env)
    else none
  | .delStaSelf v p self_mac_addr =>
    if p ∉ s.allocated then
      some (wma_vdev_detach sync (ask s p v self_mac_addr) p e.env)
    else none
  | .bssStarted v => some (setIface s v { s.interfaces v with bssStarted := true })
  | .vdevStartResp v => some (wma_vdev_start_resp_handler s v e.env)
  | .vdevStopResp v => some (wma_vdev_stop_resp_handler sync max_bssid s v e.env)
  | .vdevDeleteResp v => some (wma_vdev_delete_handler sync s v)
  | .peerAssocConf v _ => some (wma_peer_assoc_conf_handler s v)
  | .peerDeleteResp v _ => some (wma_peer_delete_handler sync s v e.env)
  | .expiry b =>
    if s.timer b = .RUNNING then some { s with timer := update s.timer b .POSTED } else none
  | .timeout b del_bss_params =>
    if s.timer b = .POSTED ∧ del_bss_params ∉ s.allocated then
      let s := { s with timer := update s.timer b .STOPPED }
      match (s.req b).callback with
      | .wma_hold_req_queue => some (wma_hold_req_timer s b)
      | .vdev_resp_queue => some (wma_vdev_resp_timer sync max_bssid s b del_bss_params e.env)
    else none

end

open List

/-! A request is in a queue or freed, or, in the middle of a handler, in hand; and the parameters to
which a response is wanted are those of a request in a queue, held back at an interface, in a
response, or in hand. -/

variable {s s' : State} {hb ht : List Nat} {b c p v : Nat} {q : Queue} {r : TargetReq}
variable {i : TxrxNode} {m : Params} {ok : TargetReq → Bool}

/-! ## Places -/

inductive BlockPlace
  | queue (q : Queue)
  | freed
  | hand
  deriving DecidableEq

def blocksIn (s : State) (hb : List Nat) : BlockPlace → List Nat
  | .queue q => s.queue q
  | .freed => s.freed
  | .hand => hb

inductive TokenPlace
  | req (b : Nat)
  | iface (v : Nat)
  | rsp
  | hand
  deriving DecidableEq

def carried (r : TargetReq) : List Nat :=
  if r.msg_type = .WMA_DEL_STA_SELF_REQ ∨ r.msg_type = .WMA_OCB_SET_CONFIG_CMD then []
  else [r.user_data]

def Queued (s : State) (b : Nat) : Prop :=
  b ∈ s.queue .vdev_resp_queue ∨ b ∈ s.queue .wma_hold_req_queue
deriving Decidable

theorem queued_of_mem (h : b ∈ s.queue q) : Queued s b := by
  cases q with
  | vdev_resp_queue => exact Or.inl h
  | wma_hold_req_queue => exact Or.inr h

def tokensIn (s : State) (ht : List Nat) : TokenPlace → List Nat
  | .req b => if Queued s b then carried (s.req b) else []
  | .iface v => (s.interfaces v).del_staself_req.toList
  | .rsp => s.rsp
  | .hand => ht

/-- What is filled in for the requests of a queue. -/
def Kind : Queue → TargetReq → Prop
  | .vdev_resp_queue, r =>
    r.type = WMA_TARGET_REQ_TYPE_VDEV_START ∧
      (r.msg_type = .WMA_ADD_BSS_REQ ∨ r.msg_type = .WMA_CHNL_SWITCH_REQ ∨
        r.msg_type = .WMA_OCB_SET_CONFIG_CMD) ∨
    r.type = WMA_TARGET_REQ_TYPE_VDEV_STOP ∧ r.msg_type = .WMA_DELETE_BSS_REQ ∨
    r.type = WMA_TARGET_REQ_TYPE_VDEV_DEL ∧ r.msg_type = .WMA_DEL_STA_SELF_REQ ∧
      r.user_data = r.vdev_id
  | .wma_hold_req_queue, r =>
    r.type = WMA_PEER_ASSOC_CNF_START ∧
      (r.msg_type = .WMA_ADD_STA_REQ ∨ r.msg_type = .WMA_ADD_BSS_REQ) ∨
    r.msg_type = .WMA_DELETE_STA_REQ ∧
      (r.type = WMA_DELETE_STA_RSP_START ∨ r.type = WMA_DEL_P2P_SELF_STA_RSP_START)

def Deletes (s : State) (v b : Nat) : Prop :=
  (s.req b).msg_type = .WMA_DEL_STA_SELF_REQ ∧ (s.req b).vdev_id = v

/-- The requests in hand are `hb` and the parameters in hand `ht`; the rest is in one place. -/
structure Inv (s : State) (hb ht : List Nat) : Prop where
  blocks : Exclusive (blocksIn s hb)
  all : ∀ b, b < s.used ↔ ∃ k, b ∈ blocksIn s hb k
  kinds : ∀ q b, b ∈ s.queue q → Kind q (s.req b)
  /-- A queued request has a timer. -/
  queued : ∀ q b, b ∈ s.queue q → s.timer b ≠ .STOPPED
  inHand : ∀ b ∈ hb, s.timer b ≠ .POSTED
  freed : ∀ b ∈ s.freed, s.timer b = .STOPPED
  tokens : Exclusive (tokensIn s ht)
  requests : ∀ p ∈ s.requests, ∃ k, p ∈ tokensIn s ht k
  allocated : ∀ k, ∀ p ∈ tokensIn s ht k, p ∈ s.allocated
  known : ∀ p ∈ s.requests, p ∈ s.allocated
  wanted : ∀ p ∈ s.requests, (s.param p).respReqd = true ∧ (s.param p).fwMsgTimedout = false
  sessions : ∀ v p, (s.interfaces v).del_staself_req = some p → (s.param p).session_id = v
  /-- A deletion is held back until the BSS is stopped, or a request for it is queued. -/
  waits : ∀ v p, (s.interfaces v).del_staself_req = some p →
    (s.interfaces v).bssStarted = true ∨
      ∃ b, (b ∈ s.queue .vdev_resp_queue ∨ b ∈ hb) ∧ Deletes s v b

theorem init_inv : Inv init [] [] where
  blocks := ⟨fun k => by cases k <;> exact nodup_nil,
    fun {k _ _} hk _ => by cases k <;> exact absurd hk not_mem_nil⟩
  all b := by
    constructor
    · intro h; exact absurd h (Nat.not_lt_zero b)
    · rintro ⟨k, hk⟩
      cases k <;> cases hk
  kinds _ _ h := absurd h not_mem_nil
  queued _ _ h := absurd h not_mem_nil
  inHand _ h := absurd h not_mem_nil
  freed _ h := absurd h not_mem_nil
  tokens := ⟨fun k => by cases k <;> exact nodup_nil,
    fun {k _ _} hk _ => by cases k <;> exact absurd hk not_mem_nil⟩
  requests _ h := absurd h not_mem_nil
  allocated k _ hk := by cases k <;> cases hk
  known _ h := absurd h not_mem_nil
  wanted _ h := absurd h not_mem_nil
  sessions _ _ h := absurd h (by simp [init, TxrxNode.zero])
  waits _ _ h := absurd h (by simp [init, TxrxNode.zero])

/-! ## What is in hand -/

theorem Inv.not_queued (h : Inv s hb ht) (hc : c ∈ hb) : ¬ Queued s c := by
  rintro (hq | hq)
  · exact absurd (h.blocks.unique (i := .hand) (j := .queue .vdev_resp_queue) hc hq) (by simp)
  · exact absurd (h.blocks.unique (i := .hand) (j := .queue .wma_hold_req_queue) hc hq) (by simp)

theorem Inv.used_of_mem (h : Inv s hb ht) (hq : b ∈ s.queue q) : b < s.used :=
  (h.all b).mpr ⟨.queue q, hq⟩

theorem tokens_congr (hq : s'.queue = s.queue) (hr : s'.req = s.req)
    (hi : s'.interfaces = s.interfaces) (hs : s'.rsp = s.rsp) (ht : List Nat) :
    tokensIn s' ht = tokensIn s ht := by
  funext k
  cases k with
  | req b =>
    have hb : Queued s' b ↔ Queued s b := by rw [Queued, Queued, hq]
    simp only [tokensIn, hb, hr]
  | iface v => simp only [tokensIn, hi]
  | rsp => exact hs
  | hand => rfl

theorem moves_take (hq : b ∈ s.queue q) :
    Moves [b] (.queue q) .hand (blocksIn s hb) (blocksIn (take s q b) (b :: hb)) where
  ne := by simp
  source := by
    show [b] ++ update s.queue q ((s.queue q).erase b) q ~ s.queue q
    rw [update_self]; exact (perm_cons_erase hq).symm
  target := .refl _
  other k hk hh := by
    cases k with
    | queue q' =>
      show update s.queue q ((s.queue q).erase b) q' = s.queue q'
      rw [update_of_ne (fun he : q' = q => hk (congrArg BlockPlace.queue he))]
    | freed => rfl
    | hand => exact absurd rfl hh

theorem mem_take_of_ne (hc : c ≠ b) (q' : Queue) : c ∈ (take s q b).queue q' ↔ c ∈ s.queue q' := by
  show c ∈ update s.queue q ((s.queue q).erase b) q' ↔ c ∈ s.queue q'
  by_cases hq : q' = q
  · rw [hq, update_self, mem_erase_of_ne hc]
  · rw [update_of_ne hq]

theorem mem_of_mem_take {q' : Queue} (h : c ∈ (take s q b).queue q') : c ∈ s.queue q' := by
  by_cases hq : q' = q
  · subst hq
    simp only [take, update_self] at h
    exact mem_of_mem_erase h
  · simpa only [take, update_of_ne hq] using h

section

variable {l ht' : List Nat} {k k' : TokenPlace}

theorem Inv.moved_requests (h : Inv s hb ht) (hm : Moves l k k' (tokensIn s ht) (tokensIn s' ht')) :
    ∀ p ∈ s.requests, ∃ j, p ∈ tokensIn s' ht' j :=
  fun p hp => (hm.held p).mpr (h.requests p hp)

theorem Inv.moved_allocated (h : Inv s hb ht)
    (hm : Moves l k k' (tokensIn s ht) (tokensIn s' ht')) :
    ∀ j, ∀ p ∈ tokensIn s' ht' j, p ∈ s.allocated := by
  intro j p hj
  obtain ⟨i, hi⟩ := (hm.held p).mp ⟨j, hj⟩
  exact h.allocated i p hi

end

theorem Inv.takenWith {x : TimerState} (h : Inv s hb ht) (hq : b ∈ s.queue q) (hx : x ≠ .POSTED) :
    Inv { take s q b with timer := update s.timer b x } (b :: hb) (carried (s.req b) ++ ht) := by
  have hblocks : Moves [b] (.queue q) .hand (blocksIn s hb) (blocksIn (take s q b) (b :: hb)) :=
    moves_take hq
  have hex := hblocks.exclusive h.blocks
  have hnot : ¬ Queued (take s q b) b := by
    rintro (hq | hq)
    · exact absurd (hex.unique (i := .hand) (j := .queue .vdev_resp_queue)
        mem_cons_self hq) (by simp)
    · exact absurd (hex.unique (i := .hand) (j := .queue .wma_hold_req_queue)
        mem_cons_self hq) (by simp)
  have htimer : ∀ c, c ≠ b → update s.timer b x c = s.timer c := fun c hc => update_of_ne hc _ _
  have hqb : ∀ q' c, c ∈ (take s q b).queue q' → c ≠ b :=
    fun q' c hc he => hnot (queued_of_mem (he ▸ hc))
  have htokens : Moves (carried (s.req b)) (.req b) .hand (tokensIn s ht)
      (tokensIn (take s q b) (carried (s.req b) ++ ht)) := by
    constructor
    · simp
    · simp only [tokensIn, if_neg hnot, if_pos (queued_of_mem hq), append_nil]; exact .refl _
    · exact .refl _
    · intro k hk hh
      cases k with
      | req c =>
        have hc : c ≠ b := fun he => hk (he ▸ rfl)
        simp only [tokensIn, Queued, mem_take_of_ne hc]
        rfl
      | iface v => rfl
      | rsp => rfl
      | hand => exact absurd rfl hh
  exact {
    blocks := hex
    all := fun c => (h.all c).trans (hblocks.held c).symm
    kinds := fun q' c hc => h.kinds q' c (mem_of_mem_take hc)
    queued := fun q' c hc => by
      show update s.timer b x c ≠ .STOPPED
      rw [htimer c (hqb q' c hc)]; exact h.queued q' c (mem_of_mem_take hc)
    inHand := fun c hc => by
      show update s.timer b x c ≠ .POSTED
      by_cases hcb : c = b
      · rw [hcb, update_self]; exact hx
      · rw [htimer c hcb]; exact h.inHand c ((mem_cons.mp hc).resolve_left hcb)
    freed := fun c hc => by
      show update s.timer b x c = .STOPPED
      have hcb : c ≠ b := by
        rintro rfl; exact absurd (h.blocks.unique (i := .freed) (j := .queue q) hc hq) (by simp)
      rw [htimer c hcb]; exact h.freed c hc
    tokens := htokens.exclusive h.tokens
    requests := h.moved_requests htokens
    allocated := h.moved_allocated htokens
    known := h.known
    wanted := h.wanted
    sessions := h.sessions
    waits := fun v p hv => by
      rcases h.waits v p hv with hw | ⟨c, hc, hd⟩
      · exact Or.inl hw
      · refine Or.inr ⟨c, ?_, hd⟩
        by_cases hcb : c = b
        · exact Or.inr (hcb ▸ mem_cons_self)
        · rcases hc with hc | hc
          · exact Or.inl ((mem_take_of_ne hcb _).mpr hc)
          · exact Or.inr (mem_cons_of_mem b hc) }

theorem Inv.taken (h : Inv s hb ht) (hq : b ∈ s.queue q) (hp : s.timer b ≠ .POSTED) :
    Inv (take s q b) (b :: hb) (carried (s.req b) ++ ht) := by
  have htaken := h.takenWith hq hp
  rwa [update_eq_self] at htaken

/-! ## Freeing -/

theorem stop_timer (s : State) (b c : Nat) :
    (cdf_mc_timer_stop s b).timer c = s.timer c ∨
      c = b ∧ s.timer b = .RUNNING ∧ (cdf_mc_timer_stop s b).timer c = .STOPPED := by
  unfold cdf_mc_timer_stop
  by_cases hr : s.timer b = .RUNNING
  · rw [if_pos hr]
    by_cases hc : c = b
    · refine Or.inr ⟨hc, hr, ?_⟩
      rw [hc]; exact update_self _ _ _
    · exact Or.inl (update_of_ne hc _ _)
  · rw [if_neg hr]; exact Or.inl rfl

theorem stop_self (h : s.timer b ≠ .POSTED) : (cdf_mc_timer_stop s b).timer b = .STOPPED := by
  unfold cdf_mc_timer_stop
  by_cases hr : s.timer b = .RUNNING
  · rw [if_pos hr]; exact update_self _ _ _
  · rw [if_neg hr]
    cases ht : s.timer b with
    | STOPPED => rfl
    | RUNNING => exact absurd ht hr
    | POSTED => exact absurd ht h

theorem stop_eq (s : State) (b : Nat) :
    cdf_mc_timer_stop s b = { s with timer := (cdf_mc_timer_stop s b).timer } := by
  unfold cdf_mc_timer_stop
  split <;> rfl

theorem free_eq (s : State) (b : Nat) :
    free s b = { s with
      timer := (cdf_mc_timer_stop s b).timer, freed := s.freed ++ [b] } := by
  unfold free
  rw [stop_eq]

theorem Inv.release (h : Inv s (b :: hb) ht)
    (hd : ∀ v, Deletes s v b → (s.interfaces v).del_staself_req = none) : Inv (free s b) hb ht := by
  have hp : s.timer b ≠ .POSTED := h.inHand b mem_cons_self
  have htimer := stop_timer s b
  have hmoves : Moves [b] .hand .freed (blocksIn s (b :: hb)) (blocksIn (free s b) hb) := by
    rw [free_eq]
    constructor
    · simp
    · exact .refl _
    · exact perm_append_comm
    · intro k hk hf
      cases k with
      | queue q => rfl
      | freed => exact absurd rfl hf
      | hand => exact absurd rfl hk
  have hex := hmoves.exclusive h.blocks
  have htokens : tokensIn (free s b) ht = tokensIn s ht := by
    rw [free_eq]; exact tokens_congr rfl rfl rfl rfl ht
  refine ⟨hex, ?_, ?_, ?_, ?_, ?_, ?_, ?_, ?_, ?_, ?_, ?_, ?_⟩
  · intro c
    have hu : (free s b).used = s.used := by rw [free_eq]
    rw [hu, hmoves.held c]; exact h.all c
  · rw [free_eq]; exact h.kinds
  · intro q c hc
    rw [free_eq] at hc ⊢
    rcases htimer c with he | ⟨rfl, -, -⟩
    · rw [he]; exact h.queued q c hc
    · exact absurd (queued_of_mem hc) (h.not_queued mem_cons_self)
  · intro c hc
    rw [free_eq]
    rcases htimer c with he | ⟨-, -, he⟩
    · rw [he]; exact h.inHand c (mem_cons_of_mem b hc)
    · rw [he]; simp
  · intro c hc
    rw [free_eq] at hc ⊢
    rcases mem_append.mp hc with hc | hc
    · rcases htimer c with he | ⟨-, -, he⟩
      · rw [he]; exact h.freed c hc
      · exact he
    · rw [mem_singleton.mp hc]; exact stop_self hp
  · rw [htokens]; exact h.tokens
  · rw [htokens, free_eq]; exact h.requests
  · rw [htokens, free_eq]; exact h.allocated
  · rw [free_eq]; exact h.known
  · rw [free_eq]; exact h.wanted
  · rw [free_eq]; exact h.sessions
  · rw [free_eq]
    intro v p hv
    rcases h.waits v p hv with hw | ⟨c, hc, hdel⟩
    · exact Or.inl hw
    · refine Or.inr ⟨c, ?_, hdel⟩
      rcases hc with hc | hc
      · exact Or.inl hc
      · rcases mem_cons.mp hc with rfl | hc
        · rw [hd v hdel] at hv; exact absurd hv (by simp)
        · exact Or.inr hc

/-! ## Tokens -/

theorem Inv.send (h : Inv s hb (p :: ht)) : Inv (wma_send_msg s p) hb ht := by
  have hm : Moves [p] .hand .rsp (tokensIn s (p :: ht)) (tokensIn (wma_send_msg s p) ht) := by
    constructor
    · simp
    · exact .refl _
    · exact perm_append_comm
    · intro k hk hr
      cases k with
      | req b => rfl
      | iface v => rfl
      | rsp => exact absurd rfl hr
      | hand => exact absurd rfl hk
  exact { h with
    tokens := hm.exclusive h.tokens
    requests := h.moved_requests hm
    allocated := h.moved_allocated hm }

theorem Inv.drop (h : Inv s hb (p :: ht)) (hp : p ∉ s.requests) : Inv s hb ht := by
  have hsub : ∀ k, tokensIn s ht k <+~ tokensIn s (p :: ht) k := by
    intro k
    cases k with
    | req b => exact List.Subperm.refl _
    | iface v => exact List.Subperm.refl _
    | rsp => exact List.Subperm.refl _
    | hand => exact (sublist_cons_self p ht).subperm
  exact { h with
    tokens := h.tokens.leave hsub
    requests := fun x hx => by
      obtain ⟨k, hk⟩ := h.requests x hx
      refine ⟨k, ?_⟩
      cases k with
      | req b => exact hk
      | iface v => exact hk
      | rsp => exact hk
      | hand =>
        rcases mem_cons.mp hk with rfl | hk
        · exact absurd hx hp
        · exact hk
    allocated := fun k x hx => h.allocated k x ((hsub k).subset hx) }

theorem Inv.allocate (h : Inv s hb ht) (hp : p ∉ s.allocated) (m : Params) :
    Inv (alloc s p m) hb (p :: ht) := by
  have hne : ∀ x, x ∈ s.allocated → x ≠ p := fun x hx he => hp (he ▸ hx)
  have hother : ∀ k, k ≠ .hand → tokensIn (alloc s p m) (p :: ht) k = tokensIn s ht k := by
    intro k hk
    cases k with
    | req b => rfl
    | iface v => rfl
    | rsp => rfl
    | hand => exact absurd rfl hk
  have hsession : ∀ v x, (s.interfaces v).del_staself_req = some x → x ∈ s.allocated := by
    intro v x hv
    apply h.allocated (.iface v) x
    simp [tokensIn, hv]
  exact { h with
    tokens := by
      refine h.tokens.enter (l := [p]) (j := .hand) (nodup_singleton p) ?_ (.refl _) hother
      intro x hx k hk
      rw [mem_singleton.mp hx] at hk; exact hp (h.allocated k p hk)
    requests := fun x hx => by
      obtain ⟨k, hk⟩ := h.requests x hx
      refine ⟨k, ?_⟩
      by_cases hh : k = .hand
      · subst hh; exact mem_cons_of_mem p hk
      · rw [hother k hh]; exact hk
    allocated := fun k x hk => by
      by_cases hh : k = .hand
      · subst hh
        rcases mem_cons.mp hk with rfl | hk
        · exact mem_cons_self
        · exact mem_cons_of_mem p (h.allocated .hand x hk)
      · rw [hother k hh] at hk; exact mem_cons_of_mem p (h.allocated k x hk)
    known := fun x hx => mem_cons_of_mem p (h.known x hx)
    wanted := fun x hx => by
      show (update s.param p m x).respReqd = true ∧ (update s.param p m x).fwMsgTimedout = false
      rw [update_of_ne (hne x (h.known x hx))]; exact h.wanted x hx
    sessions := fun v x hv => by
      show (update s.param p m x).session_id = v
      rw [update_of_ne (hne x (hsession v x hv))]; exact h.sessions v x hv
    waits := h.waits }

theorem Inv.asked (h : Inv s hb ht) (hp : p ∉ s.allocated) (v peer : Nat) :
    Inv (ask s p v peer) hb (p :: ht) := by
  have ha := h.allocate hp ⟨v, peer, true, false⟩
  exact { ha with
    requests := fun x hx => by
      rcases mem_cons.mp hx with rfl | hx
      · exact ⟨.hand, mem_cons_self⟩
      · exact ha.requests x hx
    known := fun x hx => by
      rcases mem_cons.mp hx with rfl | hx
      · exact mem_cons_self
      · exact ha.known x hx
    wanted := fun x hx => by
      rcases mem_cons.mp hx with rfl | hx
      · show (update s.param x ⟨v, peer, true, false⟩ x).respReqd = true ∧ _
        rw [update_self]
        exact ⟨rfl, by show (update s.param x ⟨v, peer, true, false⟩ x).fwMsgTimedout = false
                       rw [update_self]⟩
      · exact ha.wanted x hx }

/-! ## New requests -/

theorem mem_fill {q' : Queue} :
    c ∈ (fill s q r).queue q' ↔ c ∈ s.queue q' ∨ q' = q ∧ c = s.used := by
  show c ∈ update s.queue q (s.queue q ++ [s.used]) q' ↔ _
  by_cases hq : q' = q
  · rw [hq, update_self, mem_append, mem_singleton]; simp
  · simp [hq]

theorem fill_req_of_ne (h : c ≠ s.used) : (fill s q r).req c = s.req c := update_of_ne h _ _

theorem fill_req_self : (fill s q r).req s.used = r := update_self _ _ _

theorem Inv.filled (h : Inv s hb (carried r ++ ht)) (hk : Kind q r) : Inv (fill s q r) hb ht := by
  have hnew : ∀ k, s.used ∉ blocksIn s hb k :=
    fun k hk => absurd ((h.all s.used).mpr ⟨k, hk⟩) (Nat.lt_irrefl _)
  have hold : ∀ k c, c ∈ blocksIn s hb k → c ≠ s.used := fun k c hc he => hnew k (he ▸ hc)
  have hnot : ¬ Queued s s.used := fun hq => hq.elim (hnew (.queue _)) (hnew (.queue _))
  have hqueue : blocksIn (fill s q r) hb (.queue q) ~ [s.used] ++ s.queue q := by
    show update s.queue q (s.queue q ++ [s.used]) q ~ _
    rw [update_self]; exact perm_append_comm
  have hother : ∀ k, k ≠ .queue q → blocksIn (fill s q r) hb k = blocksIn s hb k := by
    intro k hk
    cases k with
    | queue q' => exact update_of_ne (fun he : q' = q => hk (congrArg BlockPlace.queue he)) _ _
    | freed => rfl
    | hand => rfl
  have hin : Queued (fill s q r) s.used := queued_of_mem (mem_fill.mpr (Or.inr ⟨rfl, rfl⟩))
  have htokens : Moves (carried r) .hand (.req s.used) (tokensIn s (carried r ++ ht))
      (tokensIn (fill s q r) ht) := by
    constructor
    · simp
    · exact .refl _
    · simp only [tokensIn, if_pos hin, if_neg hnot, fill_req_self, append_nil]; exact .refl _
    · intro k hk hu
      cases k with
      | req c =>
        have hc : c ≠ s.used := fun he => hu (congrArg TokenPlace.req he)
        have hQ : Queued (fill s q r) c ↔ Queued s c := by simp [Queued, mem_fill, hc]
        simp only [tokensIn, hQ, fill_req_of_ne hc]
      | iface v => rfl
      | rsp => rfl
      | hand => exact absurd rfl hk
  have htimer : ∀ c, c ≠ s.used → (fill s q r).timer c = s.timer c :=
    fun c hc => update_of_ne hc _ _
  refine ⟨?_, ?_, ?_, ?_, ?_, ?_, htokens.exclusive h.tokens, ?_, ?_, h.known, h.wanted,
    h.sessions, ?_⟩
  · refine h.blocks.enter (nodup_singleton s.used) ?_ hqueue hother
    intro c hc k
    rw [mem_singleton.mp hc]; exact hnew k
  · intro c
    show c < s.used + 1 ↔ _
    rw [Nat.lt_succ_iff_lt_or_eq, h.all c]
    constructor
    · rintro (⟨k, hk⟩ | rfl)
      · refine ⟨k, ?_⟩
        by_cases hkq : k = .queue q
        · subst hkq; exact hqueue.symm.subset (mem_append_right _ hk)
        · rw [hother k hkq]; exact hk
      · exact ⟨.queue q, hqueue.symm.subset (by simp)⟩
    · rintro ⟨k, hk⟩
      by_cases hkq : k = .queue q
      · subst hkq
        rcases mem_append.mp (hqueue.subset hk) with hc | hc
        · exact Or.inr (mem_singleton.mp hc)
        · exact Or.inl ⟨.queue q, hc⟩
      · rw [hother k hkq] at hk; exact Or.inl ⟨k, hk⟩
  · intro q' c hc
    rcases mem_fill.mp hc with hc | ⟨rfl, rfl⟩
    · rw [fill_req_of_ne (hold (.queue q') c hc)]; exact h.kinds q' c hc
    · rw [fill_req_self]; exact hk
  · intro q' c hc
    rcases mem_fill.mp hc with hc | ⟨rfl, rfl⟩
    · rw [htimer c (hold (.queue q') c hc)]; exact h.queued q' c hc
    · show update s.timer s.used .RUNNING s.used ≠ .STOPPED; simp
  · intro c hc
    rw [htimer c (hold .hand c hc)]; exact h.inHand c hc
  · intro c hc
    rw [htimer c (hold .freed c hc)]; exact h.freed c hc
  · exact fun p hp => (htokens.held p).mpr (h.requests p hp)
  · intro k p hk
    obtain ⟨k', hk'⟩ := (htokens.held p).mp ⟨k, hk⟩
    exact h.allocated k' p hk'
  · intro v p hv
    rcases h.waits v p hv with hw | ⟨c, hc, hd⟩
    · exact Or.inl hw
    · have hcu : c ≠ s.used := by
        rcases hc with hc | hc
        · exact hold (.queue _) c hc
        · exact hold .hand c hc
      refine Or.inr ⟨c, ?_, ?_⟩
      · rcases hc with hc | hc
        · exact Or.inl (mem_fill.mpr (Or.inl hc))
        · exact Or.inr hc
      · unfold Deletes
        rw [fill_req_of_ne hcu]; exact hd

/-! ## Interfaces -/

theorem setIface_self : (setIface s v i).interfaces v = i := update_self _ _ _

theorem setIface_of_ne {v' : Nat} (h : v' ≠ v) :
    (setIface s v i).interfaces v' = s.interfaces v' := update_of_ne h _ _

theorem Inv.iface_same (h : Inv s hb ht) (hdel : i.del_staself_req = (s.interfaces v).del_staself_req)
    (hbss : i.del_staself_req ≠ none → (s.interfaces v).bssStarted = true → i.bssStarted = true) :
    Inv (setIface s v i) hb ht := by
  have hsame : ∀ v', ((setIface s v i).interfaces v').del_staself_req
      = (s.interfaces v').del_staself_req := by
    intro v'
    by_cases hv : v' = v
    · rw [hv, setIface_self, hdel]
    · rw [setIface_of_ne hv]
  have htokens : tokensIn (setIface s v i) ht = tokensIn s ht := by
    funext k
    cases k with
    | req b => rfl
    | iface v' => simp only [tokensIn, hsame]
    | rsp => rfl
    | hand => rfl
  exact { h with
    tokens := by rw [htokens]; exact h.tokens
    requests := by rw [htokens]; exact h.requests
    allocated := by rw [htokens]; exact h.allocated
    sessions := fun v' p hv => by rw [hsame] at hv; exact h.sessions v' p hv
    waits := fun v' p hv => by
      rw [hsame] at hv
      rcases h.waits v' p hv with hw | hw
      · left
        by_cases hvv : v' = v
        · rw [hvv, setIface_self]
          rw [hvv] at hw hv
          exact hbss (by rw [hdel, hv]; simp) hw
        · rw [setIface_of_ne hvv]; exact hw
      · exact Or.inr hw }

theorem moves_iface {i : TxrxNode} {ht ht' l : List Nat}
    (h : l ++ i.del_staself_req.toList ~ (s.interfaces v).del_staself_req.toList)
    (h' : ht' = l ++ ht) :
    Moves l (.iface v) .hand (tokensIn s ht) (tokensIn (setIface s v i) ht') where
  ne := by simp
  source := by simp only [tokensIn, setIface_self]; exact h
  target := by rw [h']; exact .refl _
  other k hk hh := by
    cases k with
    | req b => rfl
    | iface v' =>
      have hv : v' ≠ v := fun he => hk (congrArg TokenPlace.iface he)
      simp only [tokensIn, setIface_of_ne hv]
    | rsp => rfl
    | hand => exact absurd rfl hh

theorem Inv.takeUp (h : Inv s hb ht) (hv : (s.interfaces v).del_staself_req = some p)
    (hi : i.del_staself_req = none) : Inv (setIface s v i) hb (p :: ht) := by
  have hm : Moves [p] (.iface v) .hand (tokensIn s ht) (tokensIn (setIface s v i) (p :: ht)) :=
    moves_iface (by rw [hv, hi]; exact .refl _) rfl
  have hsub : ∀ v' x, ((setIface s v i).interfaces v').del_staself_req = some x →
      v' ≠ v ∧ (s.interfaces v').del_staself_req = some x := by
    intro v' x hx
    by_cases hvv : v' = v
    · rw [hvv, setIface_self, hi] at hx; exact absurd hx (by simp)
    · rw [setIface_of_ne hvv] at hx; exact ⟨hvv, hx⟩
  exact { h with
    tokens := hm.exclusive h.tokens
    requests := h.moved_requests hm
    allocated := h.moved_allocated hm
    sessions := fun v' x hx => h.sessions v' x (hsub v' x hx).2
    waits := fun v' x hx => by
      obtain ⟨hvv, hx⟩ := hsub v' x hx
      rw [setIface_of_ne hvv]; exact h.waits v' x hx }

theorem Inv.holdBack (h : Inv s hb (p :: ht)) (hv : (s.interfaces v).del_staself_req = none)
    (hi : i.del_staself_req = some p) (hs : (s.param p).session_id = v) (hw : i.bssStarted = true ∨
      ∃ b, (b ∈ s.queue .vdev_resp_queue ∨ b ∈ hb) ∧ Deletes s v b) :
    Inv (setIface s v i) hb ht := by
  have hm : Moves [p] .hand (.iface v) (tokensIn s (p :: ht)) (tokensIn (setIface s v i) ht) := by
    constructor
    · simp
    · exact .refl _
    · simp only [tokensIn, setIface_self, hi, hv]; exact .refl _
    · intro k hk hh
      cases k with
      | req b => rfl
      | iface v' =>
        have hvv : v' ≠ v := fun he => hh (congrArg TokenPlace.iface he)
        simp only [tokensIn, setIface_of_ne hvv]
      | rsp => rfl
      | hand => exact absurd rfl hk
  exact { h with
    tokens := hm.exclusive h.tokens
    requests := h.moved_requests hm
    allocated := h.moved_allocated hm
    sessions := fun v' x hx => by
      by_cases hvv : v' = v
      · rw [hvv, setIface_self, hi] at hx
        rw [hvv, ← Option.some.inj hx]; exact hs
      · rw [setIface_of_ne hvv] at hx; exact h.sessions v' x hx
    waits := fun v' x hx => by
      by_cases hvv : v' = v
      · rw [hvv, setIface_self]; exact hw
      · rw [setIface_of_ne hvv] at hx ⊢
        exact h.waits v' x hx }

theorem Inv.iface_none (h : Inv s hb ht) (hv : (s.interfaces v).del_staself_req = none)
    (hi : i.del_staself_req = none) : Inv (setIface s v i) hb ht :=
  h.iface_same (by rw [hv, hi]) (fun hne => absurd hi hne)

/-! ## Looking for a request -/

theorem mem_of_first (h : first s q ok = some b) : b ∈ s.queue q ∧ ok (s.req b) = true :=
  ⟨mem_of_find?_eq_some h, find?_some (p := fun b => ok (s.req b)) h⟩

theorem find_of_first (h : first s q ok = some b) : find s q ok = (take s q b, some b) := by
  unfold find
  rw [h]

theorem find_of_none (h : first s q ok = none) : find s q ok = (s, none) := by
  unfold find
  rw [h]

theorem remove_none (h : first s q ok = none) : freeFound (find s q ok) = s := by
  rw [find_of_none h]; rfl

theorem Inv.first_fill (h : Inv s hb ht) (hn : first s q ok = none) (hr : ok r = true) :
    first (fill s q r) q ok = some s.used := by
  have hold : ∀ c ∈ s.queue q, ¬ (ok ((fill s q r).req c) = true) := by
    intro c hc
    rw [fill_req_of_ne (Nat.ne_of_lt (h.used_of_mem hc))]; exact find?_eq_none.mp hn c hc
  have hq : (fill s q r).queue q = s.queue q ++ [s.used] := update_self _ _ _
  unfold first
  rw [hq, find?_append, find?_eq_none.mpr hold, Option.none_or,
    find?_cons_of_pos (by rw [fill_req_self]; exact hr)]

def Keeps (s s' : State) : Prop := ∀ q c, c ∈ s.queue q → c ∈ s'.queue q

theorem Keeps.refl (s : State) : Keeps s s := fun _ _ h => h

theorem Keeps.trans {t : State} (h : Keeps s t) (h' : Keeps t s') : Keeps s s' :=
  fun q c hc => h' q c (h q c hc)

theorem keeps_fill (s : State) (q : Queue) (r : TargetReq) : Keeps s (fill s q r) :=
  fun _ _ hc => mem_fill.mpr (Or.inl hc)

theorem keeps_free (s : State) (b : Nat) : Keeps s (free s b) := by
  rw [free_eq]; exact fun _ _ h => h

/-- A state after what a handler did, with what is in hand then. -/
structure Next (s s' : State) (hb ht : List Nat) : Prop where
  inv : Inv s' hb ht
  keeps : Keeps s s'
  reqs : ∀ c < s.used, s'.req c = s.req c

theorem Next.send {t : State} (h : Next s t hb (p :: ht)) : Next s (wma_send_msg t p) hb ht :=
  ⟨h.inv.send, h.keeps, h.reqs⟩

theorem Next.start (h : Inv s hb ht) : Next s s hb ht := ⟨h, Keeps.refl s, fun _ _ => rfl⟩

theorem fill_reqs (s : State) (q : Queue) (r : TargetReq) :
    ∀ c < s.used, (fill s q r).req c = s.req c :=
  fun _ hc => fill_req_of_ne (Nat.ne_of_lt hc)

theorem free_req (s : State) (b : Nat) : (free s b).req = s.req := by rw [free_eq]

theorem Next.release {t : State} (h : Next s t (b :: hb) ht)
    (hd : ∀ v, Deletes t v b → (t.interfaces v).del_staself_req = none) :
    Next s (free t b) hb ht :=
  ⟨h.inv.release hd, h.keeps.trans (keeps_free t b), by rw [free_req]; exact h.reqs⟩

theorem Inv.undone (h : Inv s hb (carried r ++ ht)) (hk : Kind q r) (hn : first s q ok = none)
    (hr : ok r = true) (hm : r.msg_type ≠ .WMA_DEL_STA_SELF_REQ) :
    Next s (freeFound (find (fill s q r) q ok)) hb (carried r ++ ht) := by
  have hfirst : first (fill s q r) q ok = some s.used := h.first_fill hn hr
  have hmem : s.used ∈ (fill s q r).queue q := mem_fill.mpr (Or.inr ⟨rfl, rfl⟩)
  have htimer : (fill s q r).timer s.used = .RUNNING := update_self _ _ _
  have htaken := (h.filled hk).taken hmem (by rw [htimer]; simp)
  rw [fill_req_self] at htaken
  rw [find_of_first hfirst]
  constructor
  · apply htaken.release
    rintro v ⟨hd, -⟩
    have hreq : (take (fill s q r) q s.used).req s.used = r := fill_req_self (q := q)
    rw [hreq] at hd; exact absurd hd hm
  · apply Keeps.trans _ (keeps_free _ _)
    intro q' c hc
    have hcu : c ≠ s.used := Nat.ne_of_lt (h.used_of_mem hc)
    exact (mem_take_of_ne hcu q').mpr (mem_fill.mpr (Or.inl hc))
  · intro c hc
    show (free (take (fill s q r) q s.used) s.used).req c = s.req c
    rw [free_req]; exact fill_reqs s q r c hc

/-! ## Deleting a vdev -/

section

variable {sync : Bool} {e : Env}

/-- Without an event for it no deletion is outstanding. -/
def DelOk (sync : Bool) (s : State) (v : Nat) : Prop :=
  sync = true ∨ first s .vdev_resp_queue (isType v WMA_TARGET_REQ_TYPE_VDEV_DEL) = none

def delReq (v : Nat) : TargetReq :=
  ⟨v, .WMA_DEL_STA_SELF_REQ, WMA_TARGET_REQ_TYPE_VDEV_DEL, v, .vdev_resp_queue⟩

theorem kind_delReq (v : Nat) : Kind .vdev_resp_queue (delReq v) := Or.inr (Or.inr ⟨rfl, rfl, rfl⟩)

theorem setIface_setIface (s : State) (v : Nat) (i j : TxrxNode) :
    setIface (setIface s v i) v j = setIface s v j := by unfold setIface; rw [update_idem]

theorem setIface_free (s : State) (v b : Nat) (i : TxrxNode) :
    setIface (free s b) v i = free (setIface s v i) b := by
  rw [free_eq, free_eq]
  unfold setIface cdf_mc_timer_stop
  split <;> rfl

theorem Inv.delQueued (h : Inv s hb (p :: ht)) (hs : (s.param p).session_id = v)
    (hdel : (s.interfaces v).del_staself_req = none) (hi : i.del_staself_req = some p) :
    Inv (setIface (fill s .vdev_resp_queue (delReq v)) v i) hb ht := by
  have hfill : Inv (fill s .vdev_resp_queue (delReq v)) hb (p :: ht) := h.filled (kind_delReq v)
  apply hfill.holdBack hdel hi hs
  refine Or.inr ⟨s.used, Or.inl (mem_fill.mpr (Or.inr ⟨rfl, rfl⟩)), ?_⟩
  unfold Deletes
  rw [fill_req_self]; exact ⟨rfl, rfl⟩

theorem Inv.handle (h : Inv s hb (p :: ht)) (hs : (s.param p).session_id = v)
    (hdel : (s.interfaces v).del_staself_req = none) (hok : DelOk sync s v) :
    Next s (wma_handle_vdev_detach sync s p e) hb ht := by
  have hzero : Next s (wma_send_msg (setIface s v TxrxNode.zero) p) hb ht :=
    ⟨(h.iface_none hdel rfl).send, Keeps.refl s, fun _ _ => rfl⟩
  unfold wma_handle_vdev_detach
  rw [hs]
  by_cases hsend : e.send = true
  · rw [if_pos hsend]
    by_cases hmem : e.malloc = true
    · rw [if_pos hmem]
      -- the request is queued first, which makes no difference
      have hcomm : wma_fill_vdev_req
          (setIface s v { s.interfaces v with del_staself_req := some p }) v
          .WMA_DEL_STA_SELF_REQ WMA_TARGET_REQ_TYPE_VDEV_DEL v
          = setIface (fill s .vdev_resp_queue (delReq v)) v
            { s.interfaces v with del_staself_req := some p } := rfl
      rw [hcomm]
      have hq := h.delQueued hs hdel (i := { s.interfaces v with del_staself_req := some p }) rfl
      by_cases hsync : sync = true
      · rw [if_pos hsync]
        exact ⟨hq, keeps_fill s .vdev_resp_queue (delReq v), fill_reqs s .vdev_resp_queue (delReq v)⟩
      · rw [if_neg hsync]
        have hn := hok.resolve_left hsync
        have hreq : ((setIface (fill s .vdev_resp_queue (delReq v)) v
            { s.interfaces v with del_staself_req := some p }).req s.used) = delReq v :=
          fill_req_self (q := .vdev_resp_queue)
        have hfirst : first (setIface (fill s .vdev_resp_queue (delReq v)) v
            { s.interfaces v with del_staself_req := some p }) .vdev_resp_queue
            (isType v WMA_TARGET_REQ_TYPE_VDEV_DEL) = some s.used :=
          h.first_fill hn (by simp [isType, delReq])
        have htimer : (fill s .vdev_resp_queue (delReq v)).timer s.used = .RUNNING :=
          update_self _ _ _
        have htaken := (hq.taken (mem_of_first hfirst).1
          (by show (fill s .vdev_resp_queue (delReq v)).timer s.used ≠ _; rw [htimer]; simp)).takeUp
          (i := TxrxNode.zero) (v := v) (p := p) (by
            show ((setIface _ v _).interfaces v).del_staself_req = some p
            rw [setIface_self]) rfl
        rw [hreq] at htaken
        unfold wma_vdev_detach_callback
        rw [setIface_self]
        dsimp only
        rw [if_neg hsync]
        have hsession : ((setIface (fill s .vdev_resp_queue (delReq v)) v
            { s.interfaces v with del_staself_req := some p }).param p).session_id = v := hs
        rw [hsession]
        unfold wma_remove_vdev_req wma_find_vdev_req
        rw [find_of_first hfirst]
        dsimp only [freeFound]
        rw [setIface_free]
        have hnext : Next s (setIface (take (setIface (fill s .vdev_resp_queue (delReq v)) v
            { s.interfaces v with del_staself_req := some p }) .vdev_resp_queue s.used) v
            TxrxNode.zero) (s.used :: hb) (p :: ht) := by
          refine ⟨htaken, ?_, fill_reqs s .vdev_resp_queue (delReq v)⟩
          intro q' c hc
          have hcu : c ≠ s.used := Nat.ne_of_lt (h.used_of_mem hc)
          exact (mem_take_of_ne hcu q').mpr (keeps_fill s .vdev_resp_queue (delReq v) q' c hc)
        apply Next.send
        apply hnext.release
        rintro v' ⟨-, hv⟩
        have hvv : v = v' := by
          rw [← hv]
          show v = ((fill s .vdev_resp_queue (delReq v)).req s.used).vdev_id
          rw [fill_req_self]; rfl
        rw [← hvv, setIface_self]; rfl
    · rw [if_neg hmem, setIface_setIface]; exact hzero
  · rw [if_neg hsend]; exact hzero

def DetachOk (sync : Bool) (s : State) (v : Nat) (e : Env) : Prop :=
  (s.interfaces v).del_staself_req = none ∧
  ((s.interfaces v).bssStarted = true → (s.interfaces v).p2pDevice = false) ∧
  ((s.interfaces v).bssStarted = false → (s.interfaces v).handle = true ∧ DelOk sync s v ∧
    ((s.interfaces v).p2pDevice = true → sync = true →
      e.pdev = true ∧ e.selfPeer = true ∧ e.paramsMalloc = true ∧ e.malloc = true))

theorem Inv.detach (h : Inv s hb (p :: ht)) (hs : (s.param p).session_id = v)
    (hok : DetachOk sync s v e) : Next s (wma_vdev_detach sync s p e) hb ht := by
  obtain ⟨hdel, -, hfree⟩ := hok
  have hhandle : (s.interfaces v).bssStarted = false →
      Next s (wma_handle_vdev_detach sync s p e) hb ht :=
    fun hbss => h.handle hs hdel (hfree hbss).2.1
  unfold wma_vdev_detach
  rw [hs]
  by_cases hbss : (s.interfaces v).bssStarted = true
  · rw [if_pos hbss]; exact ⟨h.holdBack hdel rfl hs (Or.inl hbss), Keeps.refl s, fun _ _ => rfl⟩
  · have hbss' : (s.interfaces v).bssStarted = false := eq_false_of_ne_true hbss
    obtain ⟨hh, -, hp2p⟩ := hfree hbss'
    rw [if_neg hbss, if_neg (by simp [hh])]
    by_cases hd : (s.interfaces v).p2pDevice = true
    · rw [if_pos hd]
      unfold wma_self_peer_remove
      by_cases hsync : sync = true
      · -- the request to the peer takes over
        obtain ⟨hpdev, hpeer, hparams, hmem⟩ := hp2p hd hsync
        rw [if_pos hsync, if_neg (by simp [hpdev, hpeer]), if_pos hsync, if_neg (by simp [hparams]),
          if_pos hmem, hs]
        constructor
        · apply Inv.filled
          · exact h
          · exact Or.inr ⟨rfl, Or.inr rfl⟩
        · exact keeps_fill s _ _
        · exact fill_reqs s _ _
      · have hsame : (if e.pdev = false ∨ e.selfPeer = false then s
            else if sync = true then
              if e.paramsMalloc = false then s
              else if e.malloc = true then
                wma_fill_hold_req s (s.param p).session_id .WMA_DELETE_STA_REQ
                  WMA_DEL_P2P_SELF_STA_RSP_START p
              else wma_remove_req s (s.param p).session_id WMA_DEL_P2P_SELF_STA_RSP_START
            else s) = s := by
          split <;> rfl
        rw [if_neg hsync, hsame]; exact hhandle hbss'
    · rw [if_neg hd]; exact hhandle hbss'

theorem handle_clear (hs : (s.param p).session_id = v) (i : TxrxNode) :
    wma_handle_vdev_detach sync (setIface s v i) p e
      = wma_handle_vdev_detach sync (setIface s v { i with del_staself_req := none }) p e := by
  have hp : ∀ j, ((setIface s v j).param p).session_id = v := fun _ => hs
  unfold wma_handle_vdev_detach
  rw [hp, hp]; simp only [setIface_self, setIface_setIface]

theorem Inv.stopDetach (h : Inv s hb ht) (hok : (s.interfaces v).del_staself_req ≠ none →
      (s.interfaces v).handle = true ∧ (s.interfaces v).p2pDevice = false ∧ DelOk sync s v) :
    Next s (deferredDetach sync (bssStopped s v) v e) hb ht := by
  unfold deferredDetach bssStopped
  rw [setIface_self]
  dsimp only
  cases hdel : (s.interfaces v).del_staself_req with
  | none => exact ⟨h.iface_none hdel rfl, Keeps.refl s, fun _ _ => rfl⟩
  | some p =>
    dsimp only
    obtain ⟨hh, hd, hdelok⟩ := hok (by rw [hdel]; simp)
    have hs : (s.param p).session_id = v := h.sessions v p hdel
    have hgo : wma_vdev_detach sync
        (setIface s v { s.interfaces v with bssStarted := false, del_staself_req := some p }) p e
        = wma_handle_vdev_detach sync
          (setIface s v { s.interfaces v with bssStarted := false, del_staself_req := none }) p
          e := by
      unfold wma_vdev_detach
      dsimp only
      have hs' : ((setIface s v { s.interfaces v with
          bssStarted := false, del_staself_req := some p }).param p).session_id = v := hs
      rw [hs', setIface_self]
      rw [if_neg (by simp), if_neg (by simp [hh]), if_neg (by simp [hd])]
      exact handle_clear hs _
    have htake : Inv (setIface s v { s.interfaces v with
        bssStarted := false, del_staself_req := none }) hb (p :: ht) := h.takeUp hdel rfl
    rw [hgo]
    have hnext := @Inv.handle _ hb ht p v sync e htake hs (by rw [setIface_self]) hdelok
    exact ⟨hnext.inv, hnext.keeps, hnext.reqs⟩

end

end Qcacld.WmaReq
