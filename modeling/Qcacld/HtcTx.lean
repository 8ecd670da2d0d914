/-
The transmit side of an HTC endpoint: `htc_send.c`.

Any number of threads run these functions, and a step here is what one thread does in one section
under the HTC tx lock, or between two of them: it is about to take the lock (`entering`), it is past
the increment of TxProcessCount (`drainers`), it has returned from `htc_try_send` and completes the
packets that did not get in (`leaving`), or it is between the two lock sections of
`htc_lookup_tx_packet`, with TxLookupQueue in a queue of its own (`lookups`). The model has no more
than that of a thread, so that the threads in one place are a list. What HIF, the allocator and the
runtime power management answer comes with the step (`Env`). The lists `accepted`, `entered`,
`handed`, `completed`, `indicated` and `found` and the number `reported` record what happened; no
function reads them.
-/
import Qcacld.Lib.DepthQueue
import Qcacld.Lib.Run
import Mathlib.Algebra.Order.Ring.Int

set_option autoImplicit false

namespace Qcacld.HtcTx

open Lib

/-! ## Packets, queues and the endpoint -/

def HTC_HDR_LENGTH : Nat := 8
def HTC_MIN_MSG_PER_BUNDLE : Int := 2
/-- The value of a HIF_USB build, the only one that reads it here. -/
def HTC_MAX_MSG_PER_BUNDLE_TX : Int := 8
def HTC_MAX_TX_BUNDLE_SEND_LIMIT : Int := 255

inductive BusType where
  | sdio
  | usb
  | other
deriving DecidableEq

/-- `HTC_TX_PACKET_TAG_AUTO_PM` is a power-management command. -/
inductive Tag where
  | user
  | auto_pm
deriving DecidableEq

structure Cfg where
  /-- `Id == ENDPOINT_0`. -/
  endpoint_0 : Bool
  /-- `service_id == WMI_CONTROL_SVC`. -/
  wmi_control_svc : Bool
  /-- `service_id == HTT_DATA_MSG_SVC`. -/
  htt_data_msg_svc : Bool
  TxCreditFlowEnabled : Bool
  TxCreditSize : Nat
  TxCreditsPerMaxMsg : Int
  MaxTxQueueDepth : Int
  /-- `EpCallBacks.EpSendFull != NULL`. -/
  EpSendFull : Bool
  bus_type : BusType
  MaxMsgsPerHTCBundle : Nat
  enable_bundle_tx : Bool
  feature_runtime_pm : Bool
  txcompact : Bool

def HTC_TX_BUNDLE_ENABLED (cfg : Cfg) : Bool :=
  cfg.enable_bundle_tx && decide (1 < cfg.MaxMsgsPerHTCBundle)

structure Packet where
  id : Nat
  ActualLength : Nat
  Tag : Tag
  /-- The fragments of the netbuf, 1 when HTC added the header. -/
  num_frags : Nat
  CreditsUsed : Nat
  /-- `SendFlags` has `HTC_FLAGS_NEED_CREDIT_UPDATE`. -/
  need_credit_update : Bool
deriving DecidableEq

abbrev Key := Nat × Tag

def Packet.key (p : Packet) : Key := (p.id, p.Tag)

abbrev Queue := DepthQueue Packet

def Queue.keys (q : Queue) : List Key := q.items.map Packet.key

inductive Netbuf where
  | packet (id : Nat)
  | bundle (n : Nat)
deriving DecidableEq

/-- An element of TxLookupQueue: a packet, or a bundle packet with its saved queue. -/
inductive Entry where
  | single (p : Packet)
  | bundle (n : Nat) (pQueueSave : Queue)
deriving DecidableEq

def Entry.netbuf : Entry → Netbuf
  | .single p => .packet p.id
  | .bundle n _ => .bundle n

def Entry.keys : Entry → List Key
  | .single p => [p.key]
  | .bundle _ pQueueSave => Queue.keys pQueueSave

/-- A thread in `htc_lookup_tx_packet`, past its first lock section: it searches for the netbuf in
the queue that it has taken. -/
structure Lookup where
  netbuf : Netbuf
  lookupQueue : DepthQueue Entry
deriving DecidableEq

/-- The endpoint, with the queues that completions have taken from it: `HTC_PACKET_REMOVE` reaches
into those. -/
structure Ep where
  TxQueue : Queue
  TxLookupQueue : DepthQueue Entry
  lookups : List Lookup
  TxCredits : Int
  TxProcessCount : Int
  /-- The packets that callers passed to HTC. -/
  accepted : List Key
  /-- The packets that went to TxQueue, in order. -/
  entered : List Key
  /-- The packets of the sends that HIF took, in order. -/
  handed : List Packet
  /-- The packets that were given back to their owners. -/
  completed : List Key
  /-- The netbufs that HIF has completed. -/
  indicated : List Netbuf
  /-- Those of them whose packet was found. -/
  found : List Netbuf
  /-- The credits that the target has reported. -/
  reported : Int

def Ep.init (TxCredits : Int) : Ep :=
  { TxQueue := .init
    TxLookupQueue := .init
    lookups := []
    TxCredits := TxCredits
    TxProcessCount := 0
    accepted := []
    entered := []
    handed := []
    completed := []
    indicated := []
    found := []
    reported := 0 }

/-- What HIF, the allocator and the runtime power management answer to a step. -/
structure Env where
  /-- `hif_get_free_queue_number`. -/
  tx_resources : Int
  /-- The answers of `hif_pm_runtime_get`, false when the bus is suspended; true after the
  last. -/
  pm_get : List Bool
  /-- `allocate_htc_bundle_packet` returns a packet with this netbuf. -/
  bundle_packet : Option Nat
  /-- `hif_send_head` returns A_OK. -/
  hif_ok : Bool

/-! ## Taking packets off TxQueue -/

/-- The credits that a packet needs. -/
def creditsRequired (cfg : Cfg) (p : Packet) : Nat :=
  let transferLength := p.ActualLength + HTC_HDR_LENGTH
  if transferLength ≤ cfg.TxCreditSize then 1
  else transferLength / cfg.TxCreditSize + if transferLength % cfg.TxCreditSize ≠ 0 then 1 else 0

def extract_htc_pm_packets (cfg : Cfg) (TxQueue : Queue) : Queue × Queue :=
  if cfg.feature_runtime_pm && cfg.wmi_control_svc then
    let pm := TxQueue.items.filter (·.Tag = .auto_pm)
    (⟨TxQueue.items.filter (·.Tag ≠ .auto_pm), TxQueue.Depth - pm.length⟩, ⟨pm, pm.length⟩)
  else (TxQueue, .init)

/-- The loop of `get_htc_send_packets_credit_based` over `tx_queue`, given as its items and
its depth: pQueue, what is left of `tx_queue`, and TxCredits. -/
def takeCreditBased (cfg : Cfg) (do_pm_get : Bool) :
    List Packet → Int → List Bool → Int → Queue → Queue × Queue × Int
  | [], depth, _, credits, pQueue => (pQueue, ⟨[], depth⟩, credits)
  | p :: ps, depth, gets, credits, pQueue =>
    if do_pm_get && !gets.headD true then (pQueue, ⟨p :: ps, depth⟩, credits)
    else if depth = 0 then (pQueue, ⟨p :: ps, depth⟩, credits)
    else if cfg.endpoint_0 then
      takeCreditBased cfg do_pm_get ps (depth - 1) gets.tail credits
        (pQueue.enqueue { p with CreditsUsed := 0, need_credit_update := false })
    else if credits < creditsRequired cfg p then (pQueue, ⟨p :: ps, depth⟩, credits)
    else
      takeCreditBased cfg do_pm_get ps (depth - 1) gets.tail (credits - creditsRequired cfg p)
        (pQueue.enqueue
          { p with
            CreditsUsed := creditsRequired cfg p
            need_credit_update :=
              decide (credits - creditsRequired cfg p ≤ cfg.TxCreditsPerMaxMsg) })

def takeResources (do_pm_get : Bool) :
    List Packet → Int → List Bool → Int → Queue → Queue × Queue
  | [], depth, _, _, pQueue => (pQueue, ⟨[], depth⟩)
  | p :: ps, depth, gets, resources, pQueue =>
    if resources ≤ 0 then (pQueue, ⟨p :: ps, depth⟩)
    else if do_pm_get && !gets.headD true then (pQueue, ⟨p :: ps, depth⟩)
    else
      takeResources do_pm_get ps (depth - 1) gets.tail (resources - p.num_frags)
        (pQueue.enqueue { p with CreditsUsed := 0, need_credit_update := false })

/-- What the two functions below share: the packets that power management has in TxQueue go
first and alone, and what the loop leaves of them goes back to the head of TxQueue. The
loop `take` is told whether to wake the bus, and returns pQueue, the rest of the queue and
TxCredits. -/
def takeFromTxQueue (cfg : Cfg) (take : Bool → Queue → Queue × Queue × Int) (ep : Ep) :
    Queue × Ep :=
  let (TxQueue, pm_queue) := extract_htc_pm_packets cfg ep.TxQueue
  if pm_queue.Depth = 0 then
    let (pQueue, rest, credits) := take true TxQueue
    (pQueue, { ep with TxQueue := rest, TxCredits := credits })
  else
    let (pQueue, rest, credits) := take false pm_queue
    (pQueue,
      { ep with
        TxQueue := if rest.Depth = 0 then TxQueue else TxQueue.transferToHead rest
        TxCredits := credits })

def get_htc_send_packets_credit_based (cfg : Cfg) (env : Env) (ep : Ep) : Queue × Ep :=
  takeFromTxQueue cfg (fun do_pm_get q =>
    takeCreditBased cfg do_pm_get q.items q.Depth env.pm_get ep.TxCredits .init) ep

def get_htc_send_packets (cfg : Cfg) (env : Env) (resources : Int) (ep : Ep) : Queue × Ep :=
  takeFromTxQueue cfg (fun do_pm_get q =>
    let (pQueue, rest) := takeResources do_pm_get q.items q.Depth env.pm_get resources .init
    (pQueue, rest, ep.TxCredits)) ep

/-! ## Sending -/

inductive Fn where
  | htc_try_send
  | htc_send_data_pkt
deriving DecidableEq

inductive Phase where
  /-- At the top of the loop that sends. -/
  | issue (sendQueue : Queue)
  /-- In `htc_issue_packets_bundle`, with the bundle packet and its saved queue. -/
  | bundle (bundlesSpaceRemaining : Int) (netbuf : Nat) (pQueueSave sendQueue : Queue)
  /-- Past the bundles, about to dequeue a packet. -/
  | single (sendQueue : Queue)
  /-- In `hif_send_head` for a packet that is in TxLookupQueue. -/
  | sending (pPacket : Packet) (sendQueue : Queue)
  /-- Back in `htc_try_send` after a send that failed. -/
  | failed (sendQueue : Queue)
  /-- About to look at TxQueue again. -/
  | relock
  /-- About to clear TxProcessCount. -/
  | reset
deriving DecidableEq

def bundles (cfg : Cfg) (fn : Fn) (sendQueue : Queue) : Bool :=
  HTC_TX_BUNDLE_ENABLED cfg && decide (HTC_MIN_MSG_PER_BUNDLE ≤ sendQueue.Depth) &&
    match cfg.bus_type, fn with
    | .sdio, .htc_try_send => cfg.TxCreditFlowEnabled
    | .sdio, .htc_send_data_pkt => true
    | .usb, _ => true
    | .other, _ => false

def transferLength (cfg : Cfg) (p : Packet) : Int :=
  let length := p.ActualLength + HTC_HDR_LENGTH
  let creditRemainder := length % cfg.TxCreditSize
  if creditRemainder ≠ 0 then
    if length < cfg.TxCreditSize then length + (cfg.TxCreditSize - length)
    else length + creditRemainder
  else length

def bundleSpace (cfg : Cfg) : Int := cfg.MaxMsgsPerHTCBundle * cfg.TxCreditSize

/-- The status of the send is not looked at. -/
def htc_send_bundled_netbuf (env : Env) (netbuf : Nat) (pQueueSave : Queue) (ep : Ep) : Ep :=
  { ep with
    TxLookupQueue := ep.TxLookupQueue.enqueue (.bundle netbuf pQueueSave)
    handed := if env.hif_ok then ep.handed ++ pQueueSave.items else ep.handed }

/-- One round of the loop of `htc_issue_packets_bundle`. The packet that does not fit any
more has been dequeued when the function returns without it. -/
def bundleRound (cfg : Cfg) (env : Env) (space : Int) (netbuf : Nat) (pQueueSave sendQueue : Queue)
    (ep : Ep) : Ep × Phase :=
  match sendQueue.dequeue with
  | none =>
    if pQueueSave.items = [] then (ep, .single sendQueue)
    else (htc_send_bundled_netbuf env netbuf pQueueSave ep, .single sendQueue)
  | some (p, sendQueue) =>
    if space < transferLength cfg p then
      let ep := htc_send_bundled_netbuf env netbuf pQueueSave ep
      if sendQueue.Depth < HTC_MIN_MSG_PER_BUNDLE then (ep, .single sendQueue)
      else
        match env.bundle_packet with
        | none => (ep, .single sendQueue)
        | some n =>
          (ep, .bundle (bundleSpace cfg - transferLength cfg p) n (DepthQueue.init.enqueue p)
            sendQueue)
    else
      (ep, .bundle (space - transferLength cfg p) netbuf (pQueueSave.enqueue p) sendQueue)

/-- The packets that `htc_try_send` takes in one pass. -/
def tryPackets (cfg : Cfg) (env : Env) (ep : Ep) : Queue × Ep :=
  if cfg.TxCreditFlowEnabled then get_htc_send_packets_credit_based cfg env ep
  else
    get_htc_send_packets cfg env
      (if HTC_TX_BUNDLE_ENABLED cfg && env.tx_resources ≠ 0 && cfg.bus_type = .usb then
        HTC_MAX_MSG_PER_BUNDLE_TX * 2
      else env.tx_resources) ep

/-- The top of the loop of `htc_try_send`: the packets to send, if there are any. -/
def drainTop (cfg : Cfg) (env : Env) (ep : Ep) : Ep × Option Queue :=
  if ep.TxQueue.Depth = 0 then (ep, none)
  else
    let (sendQueue, ep) := tryPackets cfg env ep
    if sendQueue.Depth = 0 then (ep, none) else (ep, some sendQueue)

def Ep.clearProcessCount (ep : Ep) : Ep := { ep with TxProcessCount := 0 }

def drain (cfg : Cfg) (env : Env) (ep : Ep) : Ep × Option Phase :=
  match drainTop cfg env ep with
  | (ep, some sendQueue) => (ep, some (.issue sendQueue))
  | (ep, none) => (ep.clearProcessCount, none)

/-- The entry is unlinked from the first of the queues that has it, whose depth stays. -/
def unlink (e : Entry) : List Lookup → List Lookup
  | [] => []
  | l :: ls =>
    if e ∈ l.lookupQueue.items then
      { l with lookupQueue := ⟨l.lookupQueue.items.erase e, l.lookupQueue.Depth⟩ } :: ls
    else l :: unlink e ls

/-- `HTC_PACKET_REMOVE` from TxLookupQueue: the packet is unlinked from the list that it is in, and
the depth of TxLookupQueue is lowered, though a completion may have taken the packet. -/
def Ep.removeLookup (ep : Ep) (e : Entry) : Ep :=
  { ep with
    TxLookupQueue := ep.TxLookupQueue.remove e
    lookups := if e ∈ ep.TxLookupQueue.items then ep.lookups else unlink e ep.lookups }

def advance (cfg : Cfg) (env : Env) (fn : Fn) (ep : Ep) : Phase → Ep × Option Phase
  | .issue sendQueue =>
    if bundles cfg fn sendQueue then
      match env.bundle_packet with
      | none => (ep, some (.single sendQueue))
      | some n => (ep, some (.bundle (bundleSpace cfg) n .init sendQueue))
    else (ep, some (.single sendQueue))
  | .bundle space netbuf pQueueSave sendQueue =>
    let (ep, phase) := bundleRound cfg env space netbuf pQueueSave sendQueue ep
    (ep, some phase)
  | .single sendQueue =>
    match sendQueue.dequeue with
    | none =>
      -- the data path does not look at TxQueue again
      (ep, some (match fn with
        | .htc_try_send => .relock
        | .htc_send_data_pkt => .reset))
    | some (p, sendQueue) =>
      ({ ep with TxLookupQueue := ep.TxLookupQueue.enqueue (.single p) },
        some (.sending p sendQueue))
  | .sending p sendQueue =>
    if env.hif_ok then ({ ep with handed := ep.handed ++ [p] }, some (.issue sendQueue))
    else
      match fn with
      | .htc_try_send =>
        ({ ep.removeLookup (.single p) with TxCredits := ep.TxCredits + p.CreditsUsed },
          some (.failed (sendQueue.enqueueToHead p)))
      | .htc_send_data_pkt =>
        ({ ep.removeLookup (.single p) with
            TxQueue := ep.TxQueue.transferToHead (sendQueue.enqueueToHead p) },
          some .reset)
  | .failed sendQueue =>
    ({ ep with TxQueue := ep.TxQueue.transferToHead sendQueue }, some .reset)
  | .relock => drain cfg env ep
  | .reset => (ep.clearProcessCount, none)

/-! ## Threads -/

inductive Entering where
  /-- In `htc_try_send`, with what is left of the caller's queue. -/
  | htc_try_send (sendQueue pCallersSendQueue : Queue)
  | htc_send_data_pkt (pPacket : Option Packet) (more_data : Bool)

structure Drainer where
  fn : Fn
  pCallersSendQueue : Queue
  phase : Phase

structure St where
  ep : Ep
  entering : List Entering
  drainers : List Drainer
  /-- The callers' queues of threads that are done in `htc_try_send`. -/
  leaving : List Queue

def St.init (TxCredits : Int) : St := ⟨.init TxCredits, [], [], []⟩

/-- The packets that fit go to the send queue. -/
def checkOverflow (cfg : Cfg) (full : Packet → Bool) (TxQueue : Queue) (pkts : List Packet) :
    Queue × Queue :=
  let depth : Int := pkts.length
  let overflow :=
    if cfg.MaxTxQueueDepth ≤ TxQueue.Depth then depth
    else TxQueue.Depth + depth - cfg.MaxTxQueueDepth
  if overflow ≤ 0 || !cfg.EpSendFull then (⟨pkts, depth⟩, ⟨[], 0⟩)
  else
    let goodPkts := (depth - overflow).toNat
    let good := pkts.take goodPkts
    let kept := (pkts.drop goodPkts).filter (!full ·)
    (⟨good ++ kept, goodPkts + kept.length⟩,
      ⟨(pkts.drop goodPkts).filter full, depth - goodPkts - kept.length⟩)

def incProcessCount (ep : Ep) (enter : Ep → Ep × Option Phase) : Ep × Option Phase :=
  if 1 < ep.TxProcessCount + 1 then (ep, none)
  else enter { ep with TxProcessCount := ep.TxProcessCount + 1 }

/-- The lock section in which a thread enters `htc_try_send`. -/
def enterTrySend (cfg : Cfg) (env : Env) (sendQueue : Queue) (ep : Ep) : Ep × Option Phase :=
  let ep :=
    if sendQueue.Depth = 0 then ep
    else
      { ep with
        TxQueue := ep.TxQueue.transferToTail sendQueue
        entered := ep.entered ++ Queue.keys sendQueue }
  incProcessCount ep (drain cfg env)

def dataPackets (cfg : Cfg) (env : Env) (ep : Ep) : Queue × Ep :=
  if cfg.TxCreditFlowEnabled then get_htc_send_packets_credit_based cfg env ep
  else if HTC_TX_BUNDLE_ENABLED cfg then
    if cfg.bus_type = .usb ∧ env.tx_resources ≠ 0 then
      get_htc_send_packets cfg env (HTC_MAX_MSG_PER_BUNDLE_TX * 2) ep
    else get_htc_send_packets cfg env HTC_MAX_TX_BUNDLE_SEND_LIMIT ep
  else get_htc_send_packets cfg env env.tx_resources ep

def Ep.enqueueData (ep : Ep) (p : Packet) : Ep :=
  { ep with TxQueue := ep.TxQueue.enqueue p, entered := ep.entered ++ [p.key] }

/-- The first lock section of `htc_send_data_pkt`. -/
def enterDataPkt (cfg : Cfg) (env : Env) (pPacket : Option Packet) (more_data : Bool) (ep : Ep) :
    Ep × Option Phase :=
  let take := fun ep : Ep =>
    let (sendQueue, ep) := dataPackets cfg env ep
    (ep, some (Phase.issue sendQueue))
  match pPacket with
  | none => incProcessCount ep take
  | some p =>
    if HTC_TX_BUNDLE_ENABLED cfg && more_data then (ep.enqueueData p, none)
    else incProcessCount (ep.enqueueData p) take

def enter (cfg : Cfg) (env : Env) (ep : Ep) : Entering → Ep × Option Drainer × Queue
  | .htc_try_send sendQueue pCallersSendQueue =>
    let (ep, phase) := enterTrySend cfg env sendQueue ep
    (ep, phase.map (⟨.htc_try_send, pCallersSendQueue, ·⟩), pCallersSendQueue)
  | .htc_send_data_pkt pPacket more_data =>
    let (ep, phase) := enterDataPkt cfg env pPacket more_data ep
    (ep, phase.map (⟨.htc_send_data_pkt, .init, ·⟩), .init)

/-! ## Completions and credit reports -/

/-- The first lock section of `htc_lookup_tx_packet`. The first packet is looked at under the lock;
if it is another, the thread takes the whole queue, and there is no result yet. -/
def htc_lookup_tx_packet (netbuf : Netbuf) (ep : Ep) : Ep × Option (Option Entry) :=
  match ep.TxLookupQueue.dequeue with
  | none => (ep, some none)
  | some (e, rest) =>
    if e.netbuf = netbuf then ({ ep with TxLookupQueue := rest }, some (some e))
    else
      ({ ep with
          TxLookupQueue := .init
          lookups := ep.lookups ++ [⟨netbuf, (DepthQueue.init.enqueue e).transferToTail rest⟩] },
        none)

/-- The packet that the search of the queue comes to. -/
def Lookup.found (l : Lookup) : Option Entry := l.lookupQueue.items.find? (·.netbuf = l.netbuf)

/-- The queue without the packet that was found. -/
def Lookup.rest (l : Lookup) : DepthQueue Entry :=
  match l.found with
  | none => l.lookupQueue
  | some e => l.lookupQueue.remove e

/-- Whether the completion of the entry is followed by `htc_try_send`. -/
def retries (cfg : Cfg) : Option Entry → Bool
  | some (.bundle _ _) => cfg.bus_type = .usb && !cfg.TxCreditFlowEnabled
  | _ => !cfg.TxCreditFlowEnabled

/-- What `htc_tx_completion_handler` does with the packet that was found for the netbuf. -/
def complete (cfg : Cfg) (netbuf : Netbuf) (entry : Option Entry) (s : St) : St :=
  { s with
    ep :=
      { s.ep with
        completed := s.ep.completed ++ (entry.map Entry.keys).getD []
        found := s.ep.found ++ (entry.map fun _ => netbuf).toList }
    entering :=
      if retries cfg entry then s.entering ++ [.htc_try_send .init .init] else s.entering }

def Ep.indicate (ep : Ep) (netbuf : Netbuf) : Ep :=
  { ep with indicated := ep.indicated ++ [netbuf] }

/-- `htc_tx_completion_handler`, up to the end or to the search of the queue. -/
def htc_tx_completion_handler (cfg : Cfg) (netbuf : Netbuf) (s : St) : St :=
  match htc_lookup_tx_packet netbuf (s.ep.indicate netbuf) with
  | (ep, some entry) => complete cfg netbuf entry { s with ep := ep }
  | (ep, none) => { s with ep := ep }

/-- The search and the second lock section of `htc_lookup_tx_packet`, where what is left of the
queue goes to the head of TxLookupQueue, and the rest of `htc_tx_completion_handler`. -/
def endLookup (cfg : Cfg) (i : Nat) (l : Lookup) (s : St) : St :=
  complete cfg l.netbuf l.found
    { s with
      ep :=
        { s.ep with
          TxLookupQueue := s.ep.TxLookupQueue.transferToHead l.rest
          lookups := s.ep.lookups.eraseIdx i } }

/-- One entry of a credit report, for this endpoint. The data path drains the first
endpoint, which is the one of HTT. -/
def htc_process_credit_rpt (cfg : Cfg) (credits : Nat) (s : St) : St :=
  let ep :=
    { s.ep with TxCredits := s.ep.TxCredits + credits, reported := s.ep.reported + credits }
  if ep.TxCredits ≠ 0 ∧ ep.TxQueue.Depth ≠ 0 then
    if !cfg.txcompact && cfg.htt_data_msg_svc then
      { s with ep := ep, entering := s.entering ++ [.htc_send_data_pkt none false] }
    else { s with ep := ep, entering := s.entering ++ [.htc_try_send .init .init] }
  else { s with ep := ep }

/-! ## Steps -/

inductive Op where
  | htc_send_pkts_multiple (pkts : List Packet) (full : Packet → Bool)
  /-- `htc_try_send` without a queue, from one of the handlers that kick the endpoint. -/
  | htc_try_send
  | htc_send_data_pkt (pPacket : Packet) (more_data : Bool)
  | enter (i : Nat) (env : Env)
  | advance (i : Nat) (env : Env)
  | leave (i : Nat)
  | htc_tx_completion_handler (netbuf : Netbuf)
  /-- A thread that has taken TxLookupQueue goes on. -/
  | endLookup (i : Nat)
  | htc_process_credit_rpt (credits : Nat)

def Drainer.isSending (netbuf : Netbuf) (d : Drainer) : Bool :=
  match d.phase with
  | .sending p _ => Netbuf.packet p.id = netbuf
  | _ => false

/-- A thread that is not there, the data path in a build without it, and a completion of a
send that HIF has not taken have no next state. -/
def step (cfg : Cfg) (s : St) : Op → Option St
  | .htc_send_pkts_multiple pkts full =>
    if pkts = [] then some s
    else
      let (sendQueue, pCallersSendQueue) := checkOverflow cfg full s.ep.TxQueue pkts
      let ep := { s.ep with accepted := s.ep.accepted ++ pkts.map Packet.key }
      if sendQueue.Depth = 0 then
        some { s with ep := ep, leaving := s.leaving ++ [pCallersSendQueue] }
      else
        some
          { s with
            ep := ep
            entering := s.entering ++ [.htc_try_send sendQueue pCallersSendQueue] }
  | .htc_try_send => some { s with entering := s.entering ++ [.htc_try_send .init .init] }
  | .htc_send_data_pkt pPacket more_data =>
    if cfg.txcompact then none
    else
      some
        { s with
          ep := { s.ep with accepted := s.ep.accepted ++ [pPacket.key] }
          entering := s.entering ++ [.htc_send_data_pkt (some pPacket) more_data] }
  | .enter i env =>
    s.entering[i]?.map fun e =>
      match enter cfg env s.ep e with
      | (ep, some d, _) =>
        { s with ep := ep, entering := s.entering.eraseIdx i, drainers := s.drainers ++ [d] }
      | (ep, none, pCallersSendQueue) =>
        { s with
          ep := ep
          entering := s.entering.eraseIdx i
          leaving := s.leaving ++ [pCallersSendQueue] }
  | .advance i env =>
    s.drainers[i]?.map fun d =>
      match advance cfg env d.fn s.ep d.phase with
      | (ep, some phase) =>
        { s with ep := ep, drainers := s.drainers.set i { d with phase := phase } }
      | (ep, none) =>
        { s with
          ep := ep
          drainers := s.drainers.eraseIdx i
          leaving := s.leaving ++ [d.pCallersSendQueue] }
  | .leave i =>
    s.leaving[i]?.map fun q =>
      { s with
        ep := { s.ep with completed := s.ep.completed ++ Queue.keys q }
        leaving := s.leaving.eraseIdx i }
  | .htc_tx_completion_handler netbuf =>
    if s.drainers.any (·.isSending netbuf) then none
    else some (htc_tx_completion_handler cfg netbuf s)
  | .endLookup i => s.ep.lookups[i]?.map fun l => endLookup cfg i l s
  | .htc_process_credit_rpt credits => some (htc_process_credit_rpt cfg credits s)

end Qcacld.HtcTx
