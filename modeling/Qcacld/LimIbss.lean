/-
The peers of an IBSS: `lim_ibss_peer_mgmt.c`.

A node is a place in memory that is used once, and so is a beacon buffer: `nodesUsed` and
`beaconsUsed` are the next ones that are given out, and `freed` records the buffers that were freed,
the newest first. A walk along the list ends with `none` where it does not end in the code, and so
does one that writes through NULL. What is asked of the rest of PE is an argument: the limit of
stations, whether there is memory, whether the BSS is started. Left out are the fields of a node
that only describe the peer's rates and capabilities, the protection that follows from them, and the
code for `ANI_SIR_IBSS_PEER_CACHING`, which is not defined. The request to stop the BSS is not a
step: it deletes the entries before the list, and the session ends with the response.
-/
import Qcacld.LimPeerIdxInv

set_option autoImplicit false

namespace Qcacld.LimIbss

open Function
open DphTable LimPeerIdx

section

structure IbssPeerNode where
  next : Option Nat
  peerMacAddr : MacAddr
  beacon : Option Nat
  beaconHBCount : UInt8
  heartbeatFailure : UInt8

structure Lim where
  gLimIbssPeerList : Option Nat
  gLimNumIbssPeers : UInt32
  gLimIbssCoalescingHappened : Bool
  /-- The BSSID of the beacon that is saved. -/
  ibssInfo : Option MacAddr
  bssId : MacAddr
  session : Session
  nodes : Nat → IbssPeerNode
  nodesUsed : Nat
  beaconsUsed : Nat
  freed : List Nat

inductive RetStatus where
  | eSIR_SUCCESS
  | eSIR_FAILURE
  | eSIR_LIM_IGNORE_BEACON
  | eSIR_LIM_MAX_STA_REACHED_ERROR
  | eSIR_MEM_ALLOC_FAILED
  deriving DecidableEq

namespace Lim

variable (c : Lim)

def setNode (i : Nat) (n : IbssPeerNode) : Lim := { c with nodes := update c.nodes i n }

def setNext (i : Nat) (p : Option Nat) : Lim := c.setNode i { c.nodes i with next := p }

def free (beacon : Option Nat) : Lim := { c with freed := beacon.toList ++ c.freed }

def staIndex (p : Nat) : UInt16 := (c.session.dphHashTable.pDphNodeArray p).staIndex

end Lim

/-! ## The list -/

def findLoop (c : Lim) (macAddr : MacAddr) : Nat → Option Nat → Option (Option Nat)
  | _, none => some none
  | 0, some _ => none
  | fuel + 1, some i =>
    if macAddr = (c.nodes i).peerMacAddr then some (some i)
    else findLoop c macAddr fuel (c.nodes i).next

def ibss_peer_find (c : Lim) (macAddr : MacAddr) : Option (Option Nat) :=
  findLoop c macAddr c.nodesUsed c.gLimIbssPeerList

def ibss_peer_add (c : Lim) (i : Nat) : Lim :=
  { c.setNext i c.gLimIbssPeerList with
    gLimNumIbssPeers := c.gLimNumIbssPeers + 1
    gLimIbssPeerList := some i }

/-- The indication takes the beacon of the peer and frees it. -/
def ibss_status_chg_notify (c : Lim) (peerAddr : MacAddr) : Option Lim := do
  match ← ibss_peer_find c peerAddr with
  | none => some c
  | some i =>
    let beacon := (c.nodes i).beacon
    some ((c.setNode i { c.nodes i with beacon := none }).free beacon)

/-- The node `temp` is taken out of the list and freed. -/
def removeNode (c : Lim) (prev : Option Nat) (temp : Nat) : Option (Lim × Option Nat) :=
  let next := (c.nodes temp).next
  let dec (c : Lim) : Lim := { c with gLimNumIbssPeers := c.gLimNumIbssPeers - 1 }
  if c.gLimIbssPeerList = some temp then
    some (dec { c with gLimIbssPeerList := next }, next)
  else prev.map fun p => (dec (c.setNext p next), prev)

/-! ## Leaving -/

def deleteEntry (c : Lim) (mac_addr : MacAddr) (p : Nat) (peer_idx : UInt16) (told : Bool)
    (del : Sent) : Option Lim := do
  let s := if told then (lim_del_sta c.session p false del).2 else c.session
  let s ← lim_delete_dph_hash_entry s (s.staAddr p) peer_idx
  let c := { c with session := lim_release_peer_idx s peer_idx }
  if told then ibss_status_chg_notify c mac_addr else some c

def searchLoop (mac_addr : MacAddr) (del : Sent) :
    Nat → (prev temp : Option Nat) → Lim → Option Lim
  | _, _, none, c => some c
  | 0, _, some _, _ => none
  | fuel + 1, prev, some temp, c =>
    let temp_next := (c.nodes temp).next
    if mac_addr = (c.nodes temp).peerMacAddr then do
      match ← dph_lookup_hash_entry c.session.dphHashTable mac_addr with
      | some (p, peer_idx) =>
        -- they are told only if the addition was a success
        let told := decide (c.staIndex p ≠ STA_INVALID_IDX)
        let c ← deleteEntry c mac_addr p peer_idx told del
        (removeNode c prev temp).map Prod.fst
      | none => searchLoop mac_addr del fuel (some temp) temp_next c
    else searchLoop mac_addr del fuel (some temp) temp_next c

def lim_ibss_search_and_delete_peer (c : Lim) (mac_addr : MacAddr) (del : Sent) : Option Lim :=
  searchLoop mac_addr del c.nodesUsed c.gLimIbssPeerList c.gLimIbssPeerList c

def heartBeatLoop (threshold : Nat) (del : Nat → Sent) :
    Nat → (prev temp : Option Nat) → Lim → Option Lim
  | _, _, none, c => some c
  | 0, _, some _, _ => none
  | fuel + 1, prev, some temp, c =>
    let n := c.nodes temp
    let temp_next := n.next
    if n.beaconHBCount ≠ 0 then
      heartBeatLoop threshold del fuel (some temp) temp_next
        (c.setNode temp { n with beaconHBCount := 0, heartbeatFailure := 0 })
    else
      let n := { n with heartbeatFailure := n.heartbeatFailure + 1 }
      let c := c.setNode temp n
      if threshold ≤ n.heartbeatFailure.toNat then do
        let c ←
          match ← dph_lookup_hash_entry c.session.dphHashTable n.peerMacAddr with
          | some (p, peer_idx) => deleteEntry c n.peerMacAddr p peer_idx true (del temp)
          | none => some c
        let (c, prev) ← removeNode c prev temp
        heartBeatLoop threshold del fuel prev temp_next c
      else heartBeatLoop threshold del fuel (some temp) temp_next c

/-- `enabled` is whether the BSS is started and links are monitored. -/
def lim_ibss_heart_beat_handle (c : Lim) (enabled : Bool) (del : Nat → Sent) : Option Lim :=
  if enabled = false then some c
  else
    let threshold := c.gLimNumIbssPeers.toNat / 4 + 1
    heartBeatLoop threshold del c.nodesUsed c.gLimIbssPeerList c.gLimIbssPeerList c

def lim_process_ibss_peer_inactivity (c : Lim) (enabled : Bool) (peer_addr : MacAddr)
    (del : Sent) : Option Lim :=
  if enabled = false then some c else lim_ibss_search_and_delete_peer c peer_addr del

/-- The entry of one peer, in `lim_ibss_delete_all_peers`. -/
def deleteAllEntry (c : Lim) (mac : MacAddr) : Option Lim := do
  match ← dph_lookup_hash_entry c.session.dphHashTable mac with
  | none => some c
  | some (p, peerIdx) =>
    let c ← ibss_status_chg_notify c mac
    let s := lim_release_peer_idx c.session peerIdx
    let s ← s.dphDelete (s.staAddr p) peerIdx
    some { c with session := s }

/-- The node of one peer, in `lim_ibss_delete_all_peers`. -/
def deleteAllNode (c : Lim) (curr : Nat) : Lim :=
  let c := { c with gLimIbssPeerList := (c.nodes curr).next }.free (c.nodes curr).beacon
  if c.gLimNumIbssPeers ≠ 0 then { c with gLimNumIbssPeers := c.gLimNumIbssPeers - 1 } else c

/-- The loop of `lim_ibss_delete_all_peers`, and whether it comes to the end of the list. -/
def deleteAllLoop : Nat → Option Nat → Lim → Option (Bool × Lim)
  | _, none, c => some (true, c)
  | 0, some _, _ => none
  | fuel + 1, some curr, c =>
    if c.gLimNumIbssPeers = 0 then some (false, c)
    else do
      let c ← deleteAllEntry c (c.nodes curr).peerMacAddr
      deleteAllLoop fuel (c.nodes curr).next (deleteAllNode c curr)

def lim_ibss_delete_all_peers (c : Lim) : Option Lim := do
  match ← deleteAllLoop c.nodesUsed c.gLimIbssPeerList c with
  | (false, c) => some c
  | (true, c) => some { c with gLimNumIbssPeers := 0, gLimIbssPeerList := none }

def lim_ibss_delete (c : Lim) : Option Lim := do
  let c ← lim_ibss_delete_all_peers c
  some { c with ibssInfo := none }

/-! ## Joining -/

/-- What the code asks others for while it processes a beacon: whether coalescing is allowed,
the peer's time is later, and whether there is memory to save the beacon, for the node and for
the beacon of the node. -/
structure BeaconEnv where
  isCoalesingInIBSSAllowed : Bool
  fTsfLater : Bool
  saved : Bool
  gLimIbssStaLimit : UInt8
  nodeMem : Bool
  beaconMem : Bool
  sta : IbssEnv

/-- The beacon that makes the update is counted for the next heart beat. -/
def ibss_sta_caps_update (c : Lim) (i : Nat) : Lim :=
  c.setNode i { c.nodes i with beaconHBCount := (c.nodes i).beaconHBCount + 1 }

/-- Whether it returns `eSIR_SUCCESS`. The peer's beacon is counted when it has got its entry, by
`ibss_sta_info_update`, whatever becomes of the request to the firmware. -/
def lim_ibss_sta_add (c : Lim) (peerAddr : MacAddr) (env : IbssEnv) : Option (Bool × Lim) := do
  match ← ibss_peer_find c peerAddr with
  | none => some (false, c)
  | some i =>
    match ← ibss_dph_entry_add c.session peerAddr env with
    | (none, s) => some (false, { c with session := s })
    | (some p, s) =>
      let c := ibss_sta_caps_update c i
      let prevState := (s.mlmStaContext p).mlmState
      match lim_add_sta s p env.add with
      | (true, s) => some (true, { c with session := s })
      | (false, s) =>
        let s := s.setState p prevState
        (s.dphDelete (s.staAddr p) (s.assocId p)).map fun s => (false, { c with session := s })

/-- The node for a new peer, as `ibss_peer_collect` and the code around it fill it in. -/
def ibss_peer_new (c : Lim) (sa : MacAddr) (beaconMem : Bool) : Nat × Lim :=
  let node : IbssPeerNode :=
    { next := none
      peerMacAddr := sa
      beacon := if beaconMem then some c.beaconsUsed else none
      beaconHBCount := 0
      heartbeatFailure := 0 }
  (c.nodesUsed,
    { c.setNode c.nodesUsed node with
      nodesUsed := c.nodesUsed + 1
      beaconsUsed := if beaconMem then c.beaconsUsed + 1 else c.beaconsUsed })

def coalesceOther (c : Lim) (bssId sa : MacAddr) (env : BeaconEnv) : Option (RetStatus × Lim) := do
  if env.isCoalesingInIBSSAllowed = false then some (.eSIR_LIM_IGNORE_BEACON, c)
  else
    match ← ibss_peer_find c sa with
    | some _ => do
        let c ← lim_ibss_search_and_delete_peer c sa env.sta.del
        some (.eSIR_LIM_IGNORE_BEACON, c)
    | none =>
      if env.fTsfLater = false then some (.eSIR_LIM_IGNORE_BEACON, c)
      else
        some (.eSIR_SUCCESS, { c with
          gLimIbssCoalescingHappened := true
          ibssInfo := if env.saved then some bssId else none })

def lim_ibss_coalesce (c : Lim) (bssId sa : MacAddr) (env : BeaconEnv) :
    Option (RetStatus × Lim) := do
  if c.bssId ≠ bssId then coalesceOther c bssId sa env
  else
    match ← ibss_peer_find c sa with
    | some i => some (.eSIR_SUCCESS, ibss_sta_caps_update c i)
    | none =>
      if env.gLimIbssStaLimit.toNat ≤ (c.gLimNumIbssPeers + 1).toNat then
        some (.eSIR_LIM_MAX_STA_REACHED_ERROR, c)
      else if env.nodeMem = false then some (.eSIR_MEM_ALLOC_FAILED, c)
      else
        let (i, c) := ibss_peer_new c sa env.beaconMem
        let c := ibss_peer_add c i
        match ← dph_lookup_hash_entry c.session.dphHashTable sa with
        | some _ => some (.eSIR_SUCCESS, ibss_sta_caps_update c i)
        | none => do
            let (ok, c) ← lim_ibss_sta_add c sa env.sta
            some (if ok then .eSIR_SUCCESS else .eSIR_FAILURE, c)

/-! ## Responses -/

def lim_ibss_add_sta_rsp (c : Lim) (staMac : MacAddr) (ok : Bool) (staIdx : UInt16)
    (del : Sent) : Option Lim := do
  match ← dph_lookup_hash_entry c.session.dphHashTable staMac with
  | none => some c
  | some (p, _) =>
    if ok = false then lim_ibss_search_and_delete_peer c staMac del
    else
      let node := c.session.dphHashTable.pDphNodeArray p
      let t := c.session.dphHashTable.setNode p { node with staIndex := staIdx, valid := true }
      let s := { c.session with dphHashTable := t }
      ibss_status_chg_notify { c with session := s.setState p .LINK_ESTABLISHED } staMac

/-- Of `ibss_bss_add` the new BSSID is kept. -/
def lim_ibss_del_bss_rsp_when_coalescing (c : Lim) (ok : Bool) : Option Lim := do
  if ok = false then some c
  else
    let c ← lim_ibss_delete_all_peers c
    some { c with bssId := c.ibssInfo.getD c.bssId }

def lim_ibss_add_bss_rsp_when_coalescing (c : Lim) : Lim := { c with ibssInfo := none }

/-! ## Steps -/

inductive Op where
  | coalesce (bssId sa : MacAddr) (env : BeaconEnv)
  | add_sta_rsp (staMac : MacAddr) (ok : Bool) (staIdx : UInt16) (del : Sent)
  | heart_beat (enabled : Bool) (del : Nat → Sent)
  | peer_inactivity (enabled : Bool) (peer_addr : MacAddr) (del : Sent)
  | del_bss_rsp (ok : Bool)
  | add_bss_rsp
  | ibss_delete

/-- There is no next state where a call does not return, or is not made. -/
def step (c : Lim) : Op → Option Lim
  | .coalesce bssId sa env => (lim_ibss_coalesce c bssId sa env).map Prod.snd
  | .add_sta_rsp staMac ok staIdx del => lim_ibss_add_sta_rsp c staMac ok staIdx del
  | .heart_beat enabled del => lim_ibss_heart_beat_handle c enabled del
  | .peer_inactivity enabled peer_addr del =>
    lim_process_ibss_peer_inactivity c enabled peer_addr del
  | .del_bss_rsp ok =>
    if c.gLimIbssCoalescingHappened then lim_ibss_del_bss_rsp_when_coalescing c ok else none
  | .add_bss_rsp =>
    if c.gLimIbssCoalescingHappened then some (lim_ibss_add_bss_rsp_when_coalescing c) else none
  | .ibss_delete => lim_ibss_delete c

/-- `lim_ibss_init` on a session whose IBSS was started. -/
def lim_ibss_init (bssId : MacAddr) (session : Session) : Lim where
  gLimIbssPeerList := none
  gLimNumIbssPeers := 0
  gLimIbssCoalescingHappened := false
  ibssInfo := none
  bssId := bssId
  session := session
  nodes := fun _ => ⟨none, zeroMacAddr, none, 0, 0⟩
  nodesUsed := 0
  beaconsUsed := 0
  freed := []

end

open List Option
open Lib

/-! `Peers c l` says that the list goes through the nodes `l`, that these are of different peers,
that the counter is their number, and where the beacons are. -/

abbrev Lim.next (c : Lim) (i : Nat) : Option Nat := (c.nodes i).next

abbrev Lim.mac (c : Lim) (i : Nat) : MacAddr := (c.nodes i).peerMacAddr

abbrev Lim.beacon (c : Lim) (i : Nat) : Option Nat := (c.nodes i).beacon

variable {c c' : Lim} {l l₁ l₂ : List Nat} {i j : Nat} {mac : MacAddr}

/-! ## What is to hold -/

structure Peers (c : Lim) (l : List Nat) : Prop where
  linked : Linked c.next c.gLimIbssPeerList l none
  used : ∀ i ∈ l, i < c.nodesUsed
  count : c.gLimNumIbssPeers.toNat = l.length
  short : l.length < 256
  distinct : (l.map c.mac).Nodup
  /-- A buffer is freed or the beacon of a peer, once. -/
  beacons : (c.freed ++ l.filterMap c.beacon).Perm (range c.beaconsUsed)

def Lim.HasEntry (c : Lim) (mac : MacAddr) : Prop :=
  ∃ p, c.session.Added p ∧ c.session.staAddr p = mac

def Agree (c : Lim) (l : List Nat) : Prop := ∀ mac, mac ∈ l.map c.mac ↔ c.HasEntry mac

/-! ## Where a run does not go -/

/-- The peer has a beacon, and the firmware has not given it a station index: deleting it leaves the
beacon. -/
def leaks (c : Lim) (mac : MacAddr) : Bool :=
  match ibss_peer_find c mac, dph_lookup_hash_entry c.session.dphHashTable mac with
  | some (some i), some (some (p, _)) =>
    (c.beacon i).isSome && decide (c.staIndex p = STA_INVALID_IDX)
  | _, _ => false

/-- The beacon makes a new peer for which `lim_ibss_sta_add` is called. -/
def Joins (c : Lim) (sa : MacAddr) (env : BeaconEnv) : Prop :=
  ibss_peer_find c sa = some none ∧
    (c.gLimNumIbssPeers + 1).toNat < env.gLimIbssStaLimit.toNat ∧ env.nodeMem = true ∧
    dph_lookup_hash_entry c.session.dphHashTable sa = some none
deriving Decidable

/-- A peer that joins gets its index and is added, and no beacon is lost with one that goes. -/
def Ok (c : Lim) : Op → Prop
  | .coalesce bssId sa env =>
    if c.bssId = bssId then
      Joins c sa env → HasIdx c.session env.sta.others env.sta.limit ∧ env.sta.add = .ok
    else env.isCoalesingInIBSSAllowed = true → leaks c sa = false
  | .add_sta_rsp staMac ok _ _ => ok = false → leaks c staMac = false
  | .peer_inactivity enabled peer_addr _ => enabled = true → leaks c peer_addr = false
  | _ => True

instance (c : Lim) (op : Op) : Decidable (Ok c op) := by
  unfold Ok
  split <;> infer_instance

/-! ## Writing nodes -/

section Nodes

variable {n : IbssPeerNode}

@[simp] theorem setNode_self : (c.setNode i n).nodes i = n := update_self _ _ _

theorem setNode_ne (h : j ≠ i) : (c.setNode i n).nodes j = c.nodes j := update_of_ne h _ _

theorem setNode_field {β : Type} (f : IbssPeerNode → β) :
    (fun j => f ((c.setNode i n).nodes j)) = update (fun j => f (c.nodes j)) i (f n) := by
  funext j
  by_cases h : j = i
  · subst h; rw [setNode_self, update_self]
  · rw [setNode_ne h, update_of_ne h]

theorem setNode_field_eq {β : Type} (f : IbssPeerNode → β) (h : f n = f (c.nodes i)) :
    (fun j => f ((c.setNode i n).nodes j)) = fun j => f (c.nodes j) := by
  rw [setNode_field, h, update_eq_self]

theorem Peers.setNode (h : Peers c l) (hnext : n.next = c.next i) (hmac : n.peerMacAddr = c.mac i)
    (hbeacon : n.beacon = c.beacon i) : Peers (c.setNode i n) l where
  linked := by
    have heq : (c.setNode i n).next = c.next := setNode_field_eq IbssPeerNode.next hnext
    rw [heq]; exact h.linked
  used := h.used
  count := h.count
  short := h.short
  distinct := by
    have heq : (c.setNode i n).mac = c.mac := setNode_field_eq IbssPeerNode.peerMacAddr hmac
    rw [heq]; exact h.distinct
  beacons := by
    have heq : (c.setNode i n).beacon = c.beacon := setNode_field_eq IbssPeerNode.beacon hbeacon
    rw [heq]; exact h.beacons

theorem Peers.setSession (h : Peers c l) (s : Session) : Peers { c with session := s } l :=
  ⟨h.linked, h.used, h.count, h.short, h.distinct, h.beacons⟩

end Nodes

/-! ## Looking up -/

theorem Peers.nodup (h : Peers c l) : l.Nodup := List.Nodup.of_map c.mac h.distinct

theorem Peers.length_le (h : Peers c l) : l.length ≤ c.nodesUsed := by
  have hsub : l ⊆ range c.nodesUsed := fun i hi => mem_range.mpr (h.used i hi)
  have hle := (subperm_of_subset h.nodup hsub).length_le
  rwa [length_range] at hle

theorem findLoop_eq {ptr : Option Nat} {fuel : Nat} (h : Linked c.next ptr l none)
    (hfuel : l.length ≤ fuel) :
    findLoop c mac fuel ptr = some (l.find? fun i => decide (mac = c.mac i)) := by
  induction l generalizing fuel ptr with
  | nil =>
    obtain rfl : ptr = none := h
    rw [findLoop]; rfl
  | cons a l ih =>
    obtain ⟨rfl, hrest⟩ := h
    obtain ⟨n, rfl⟩ := Nat.exists_eq_succ_of_ne_zero (Nat.ne_zero_of_lt hfuel)
    rw [findLoop, find?_cons]
    by_cases ha : mac = (c.nodes a).peerMacAddr
    · rw [if_pos ha, decide_eq_true ha]
    · rw [if_neg ha, decide_eq_false ha]; exact ih hrest (Nat.le_of_succ_le_succ hfuel)

theorem Peers.find (h : Peers c l) (mac : MacAddr) :
    ibss_peer_find c mac = some (l.find? fun i => decide (mac = c.mac i)) :=
  findLoop_eq h.linked h.length_le

theorem Peers.inj (h : Peers c l) (hi : i ∈ l) (hj : j ∈ l) (hmac : c.mac i = c.mac j) : i = j :=
  inj_on_of_nodup_map h.distinct hi hj hmac

theorem Peers.find_mem (h : Peers c l) (hi : i ∈ l) :
    ibss_peer_find c (c.mac i) = some (some i) := by
  rw [h.find]
  have hsome : (l.find? fun j => decide (c.mac i = c.mac j)).isSome := by
    rw [find?_isSome]; exact ⟨i, hi, decide_eq_true rfl⟩
  obtain ⟨j, hfind⟩ := isSome_iff_exists.mp hsome
  have hmac := of_decide_eq_true (find?_some (p := fun j => decide (c.mac i = c.mac j)) hfind)
  rw [hfind, h.inj hi (mem_of_find?_eq_some hfind) hmac]

theorem Peers.find_none (h : Peers c l) (hmac : mac ∉ l.map c.mac) :
    ibss_peer_find c mac = some none := by
  rw [h.find, some.injEq, find?_eq_none]
  intro i hi heq; exact hmac (mem_map.mpr ⟨i, hi, (of_decide_eq_true heq).symm⟩)

/-! ## Beacons -/

def Lim.takeBeacon (c : Lim) (i : Nat) : Lim :=
  (c.setNode i { c.nodes i with beacon := none }).free (c.beacon i)

theorem takeBeacon_next (c : Lim) (i : Nat) : (c.takeBeacon i).next = c.next :=
  setNode_field_eq IbssPeerNode.next rfl

theorem takeBeacon_mac (c : Lim) (i : Nat) : (c.takeBeacon i).mac = c.mac :=
  setNode_field_eq IbssPeerNode.peerMacAddr rfl

theorem takeBeacon_beacon (c : Lim) (i : Nat) :
    (c.takeBeacon i).beacon = update c.beacon i none :=
  setNode_field IbssPeerNode.beacon

theorem filterMap_update {f : Nat → Option Nat} (h : (l₁ ++ i :: l₂).Nodup) :
    (l₁ ++ i :: l₂).filterMap (update f i none) = l₁.filterMap f ++ l₂.filterMap f := by
  have hsplit := nodup_middle.mp h
  obtain ⟨hnot, -⟩ := nodup_cons.mp hsplit
  rw [mem_append, not_or] at hnot
  have hsame : ∀ m : List Nat, i ∉ m → m.filterMap (update f i none) = m.filterMap f := by
    intro m hm
    apply filterMap_congr
    intro a ha
    have hne : a ≠ i := fun heq => hm (heq ▸ ha)
    exact update_of_ne hne _ _
  rw [filterMap_append, filterMap_cons, update_self, hsame l₁ hnot.1, hsame l₂ hnot.2]

theorem filterMap_middle (f : Nat → Option Nat) :
    (l₁ ++ i :: l₂).filterMap f = l₁.filterMap f ++ ((f i).toList ++ l₂.filterMap f) := by
  rw [filterMap_append, filterMap_cons]
  cases f i <;> rfl

theorem Peers.takeBeacon (h : Peers c l) (hi : i ∈ l) : Peers (c.takeBeacon i) l where
  linked := by rw [takeBeacon_next]; exact h.linked
  used := h.used
  count := h.count
  short := h.short
  distinct := by rw [takeBeacon_mac]; exact h.distinct
  beacons := by
    obtain ⟨l₁, l₂, rfl⟩ := append_of_mem hi
    have hold := h.beacons
    rw [filterMap_middle] at hold
    rw [takeBeacon_beacon, filterMap_update h.nodup]
    change ((c.beacon i).toList ++ c.freed ++ _).Perm _
    refine Perm.trans ?_ hold
    -- the freed buffer moves from the list to the record
    rw [append_assoc]
    calc (c.beacon i).toList ++ (c.freed ++ (l₁.filterMap c.beacon ++ l₂.filterMap c.beacon))
        = (c.beacon i).toList ++ ((c.freed ++ l₁.filterMap c.beacon) ++ l₂.filterMap c.beacon) := by
          rw [append_assoc]
      _ |>.Perm ((c.freed ++ l₁.filterMap c.beacon) ++
          ((c.beacon i).toList ++ l₂.filterMap c.beacon)) := perm_append_comm_assoc _ _ _
      _ = _ := by rw [append_assoc]

theorem Peers.notify (h : Peers c l) (hi : i ∈ l) :
    ibss_status_chg_notify c (c.mac i) = some (c.takeBeacon i) := by
  rw [ibss_status_chg_notify, h.find_mem hi]; rfl

/-! ## Taking a node out -/

def IsPrev (prev : Option Nat) (l₁ : List Nat) : Prop := l₁ ≠ [] → prev = l₁.getLast?

theorem isPrev_concat : IsPrev (some i) (l₁ ++ [i]) := fun _ => by rw [getLast?_append]; rfl

/-- The nodes after `l₁` and everything but the list are as before. -/
structure Removed (l₁ : List Nat) (c c' : Lim) : Prop where
  session : c'.session = c.session
  nodesUsed : c'.nodesUsed = c.nodesUsed
  mac : c'.mac = c.mac
  nodes : ∀ j ∉ l₁, c'.nodes j = c.nodes j

theorem Peers.pos (h : Peers c l) (hi : i ∈ l) : 1 ≤ c.gLimNumIbssPeers := by
  rw [UInt32.le_iff_toNat_le, h.count]; exact length_pos_of_mem hi

theorem Peers.dec (h : Peers c (l₁ ++ i :: l₂)) :
    (c.gLimNumIbssPeers - 1).toNat = (l₁ ++ l₂).length := by
  have hpos := h.pos (i := i) (mem_append_right l₁ mem_cons_self)
  have hcount := h.count
  rw [UInt32.toNat_sub_of_le _ _ hpos, hcount, length_append, length_append, length_cons]
  rfl

theorem Peers.relink (h : Peers c (l₁ ++ i :: l₂)) (hb : c.beacon i = none)
    (hlinked : Linked c'.next c'.gLimIbssPeerList (l₁ ++ l₂) none)
    (hnum : c'.gLimNumIbssPeers = c.gLimNumIbssPeers - 1) (hmac : c'.mac = c.mac)
    (hbeacon : c'.beacon = c.beacon) (hnodes : c'.nodesUsed = c.nodesUsed)
    (hfreed : c'.freed = c.freed) (hbeacons : c'.beaconsUsed = c.beaconsUsed) :
    Peers c' (l₁ ++ l₂) where
  linked := hlinked
  used := by
    intro j hj
    rw [mem_append] at hj
    rw [hnodes]
    apply h.used j
    rw [mem_append, mem_cons]; exact hj.imp_right .inr
  count := by rw [hnum]; exact h.dec
  short := by
    have hshort := h.short
    rw [length_append, length_cons] at hshort
    rw [length_append]; omega
  distinct := by
    have hold := h.distinct
    rw [map_append, map_cons] at hold
    rw [hmac, map_append]; exact (nodup_cons.mp (nodup_middle.mp hold)).2
  beacons := by
    have hold := h.beacons
    rw [filterMap_middle, hb] at hold
    rw [hfreed, hbeacon, hbeacons, filterMap_append]; exact hold

theorem Peers.remove {prev : Option Nat} (h : Peers c (l₁ ++ i :: l₂)) (hb : c.beacon i = none)
    (hprev : IsPrev prev l₁) :
    ∃ c' prev', removeNode c prev i = some (c', prev') ∧ Peers c' (l₁ ++ l₂) ∧
      IsPrev prev' l₁ ∧ Removed l₁ c c' := by
  rcases eq_nil_or_concat l₁ with rfl | ⟨l₀, b, rfl⟩
  · -- the first node
    obtain ⟨hhead, hrest⟩ := h.linked
    refine ⟨_, _, if_pos hhead, ?_, fun hne => absurd rfl hne, ?_⟩
    · exact h.relink hb hrest rfl rfl rfl rfl rfl rfl
    · exact ⟨rfl, rfl, rfl, fun _ _ => rfl⟩
  · obtain rfl : prev = some b := by
      rw [hprev (by simp), concat_eq_append, getLast?_append]; rfl
    rw [concat_eq_append] at *
    have hne : c.gLimIbssPeerList ≠ some i := linked_ne_head h.linked h.nodup
    have hnext : (c.setNext b (c.next i)).next = update c.next b (c.next i) :=
      setNode_field IbssPeerNode.next
    have hmac : (c.setNext b (c.next i)).mac = c.mac :=
      setNode_field_eq IbssPeerNode.peerMacAddr rfl
    have hbeacon : (c.setNext b (c.next i)).beacon = c.beacon :=
      setNode_field_eq IbssPeerNode.beacon rfl
    refine ⟨_, _, if_neg hne, h.relink hb ?_ rfl hmac hbeacon rfl rfl rfl, hprev,
      rfl, rfl, hmac, ?_⟩
    · rw [hnext]; exact linked_unlink h.linked h.nodup
    · intro j hj
      have hjb : j ≠ b := fun heq => hj (heq ▸ mem_append_right l₀ (mem_singleton_self j))
      exact setNode_ne hjb

theorem deleteAllNode_eq (hb : c.beacon i = none) (hnum : c.gLimNumIbssPeers ≠ 0) :
    deleteAllNode c i =
      { c with gLimIbssPeerList := c.next i, gLimNumIbssPeers := c.gLimNumIbssPeers - 1 } := by
  have hnone : (c.nodes i).beacon = none := hb
  rw [deleteAllNode, hnone]; exact if_pos hnum

/-! ## A new node -/

section Join

variable {sa : MacAddr} {beaconMem : Bool}

/-- The list with a node for a new peer. -/
def Lim.join (c : Lim) (sa : MacAddr) (beaconMem : Bool) : Lim :=
  ibss_peer_add (ibss_peer_new c sa beaconMem).2 (ibss_peer_new c sa beaconMem).1

theorem join_self : (c.join sa beaconMem).nodes c.nodesUsed =
    ⟨c.gLimIbssPeerList, sa, if beaconMem then some c.beaconsUsed else none, 0, 0⟩ := by
  simp [Lim.join, ibss_peer_add, ibss_peer_new, Lim.setNext, Lim.setNode]

theorem join_ne (h : i ≠ c.nodesUsed) : (c.join sa beaconMem).nodes i = c.nodes i := by
  simp [Lim.join, ibss_peer_add, ibss_peer_new, Lim.setNext, Lim.setNode, h]

theorem Peers.join_macs (h : Peers c l) :
    (c.nodesUsed :: l).map (c.join sa beaconMem).mac = sa :: l.map c.mac := by
  have hmap : l.map (c.join sa beaconMem).mac = l.map c.mac := by
    apply map_congr_left
    intro i hi
    rw [Lim.mac, join_ne (Nat.ne_of_lt (h.used i hi))]
  rw [map_cons, Lim.mac, join_self, hmap]

theorem Peers.join (h : Peers c l) (hnew : sa ∉ l.map c.mac) (hshort : l.length + 1 < 256) :
    Peers (c.join sa beaconMem) (c.nodesUsed :: l) where
  linked := by
    refine ⟨rfl, ?_⟩
    rw [Lim.next, join_self]
    refine (linked_congr fun i hi => ?_).mpr h.linked
    rw [Lim.next, join_ne (Nat.ne_of_lt (h.used i hi))]
  used := by
    intro i hi
    change i < c.nodesUsed + 1
    rcases mem_cons.mp hi with rfl | hi
    · omega
    · exact Nat.lt_succ_of_lt (h.used i hi)
  count := by
    change (c.gLimNumIbssPeers + 1).toNat = _
    rw [UInt32.toNat_add, h.count, length_cons]
    exact Nat.mod_eq_of_lt (show l.length + 1 < 2 ^ 32 by omega)
  short := hshort
  distinct := by rw [h.join_macs]; exact nodup_cons.mpr ⟨hnew, h.distinct⟩
  beacons := by
    have hold := h.beacons
    have hmap : l.filterMap (c.join sa beaconMem).beacon = l.filterMap c.beacon := by
      apply filterMap_congr
      intro i hi
      rw [Lim.beacon, join_ne (Nat.ne_of_lt (h.used i hi))]
    rw [filterMap_cons, Lim.beacon, join_self, hmap]
    cases beaconMem with
    | false => exact hold
    | true =>
      change (c.freed ++ c.beaconsUsed :: l.filterMap c.beacon).Perm (range (c.beaconsUsed + 1))
      rw [range_succ]
      exact perm_middle.trans ((hold.cons _).trans (perm_append_singleton _ _).symm)

end Join

/-! ## The invariant -/

variable {max size : Nat} {free : List UInt8}

/-- The list has the nodes `l`, one for each entry of the session. -/
structure Inv (max size : Nat) (free : List UInt8) (l : List Nat) (c : Lim) : Prop where
  sess : LimPeerIdx.Inv max size free c.session
  peers : Peers c l
  agree : Agree c l

theorem Inv.setNode {n : IbssPeerNode} (h : Inv max size free l c) (hnext : n.next = c.next i)
    (hmac : n.peerMacAddr = c.mac i) (hbeacon : n.beacon = c.beacon i) :
    Inv max size free l (c.setNode i n) := by
  refine ⟨h.sess, h.peers.setNode hnext hmac hbeacon, fun mac => ?_⟩
  have heq : (c.setNode i n).mac = c.mac := setNode_field_eq IbssPeerNode.peerMacAddr hmac
  rw [heq]; exact h.agree mac

theorem Inv.setInfo (h : Inv max size free l c) (happened : Bool) (info : Option MacAddr)
    (bssId : MacAddr) :
    Inv max size free l { c with
      gLimIbssCoalescingHappened := happened
      ibssInfo := info
      bssId := bssId } := by
  have hp := h.peers
  exact ⟨h.sess, ⟨hp.linked, hp.used, hp.count, hp.short, hp.distinct, hp.beacons⟩, h.agree⟩

theorem Inv.entry (h : Inv max size free l c) (hsize : 0 < size) (hi : i ∈ l) :
    ∃ p, c.session.Added p ∧ c.session.staAddr p = c.mac i ∧
      dph_lookup_hash_entry c.session.dphHashTable (c.mac i) =
        some (some (p, c.session.assocId p)) := by
  rcases h.sess.lookup hsize (c.mac i) with ⟨-, hnone⟩ | hsome
  · obtain ⟨p, hp, haddr⟩ := (h.agree (c.mac i)).mp (mem_map.mpr ⟨i, hi, rfl⟩)
    exact absurd haddr (hnone p hp)
  · exact hsome

/-- The entry `p` and the beacon of the node `i` of a peer are gone. -/
structure Left (i p : Nat) (c c' : Lim) : Prop where
  next : c'.next = c.next
  mac : c'.mac = c.mac
  nodesUsed : c'.nodesUsed = c.nodesUsed
  beacon : c'.beacon i = none
  added : ∀ q, c'.session.Added q ↔ q ≠ p ∧ c.session.Added q
  addr : ∀ q, q ≠ p → c'.session.staAddr q = c.session.staAddr q

theorem Left.hasEntry {p : Nat} (h : Left i p c c') (hsess : LimPeerIdx.Inv max size free c.session)
    (hp : c.session.Added p) (mac : MacAddr) :
    c'.HasEntry mac ↔ mac ≠ c.session.staAddr p ∧ c.HasEntry mac := by
  constructor
  · rintro ⟨q, hq, rfl⟩
    obtain ⟨hne, hold⟩ := (h.added q).mp hq
    rw [h.addr q hne]; exact ⟨fun heq => hne (hsess.good.distinct hold hp heq), q, hold, rfl⟩
  · rintro ⟨hne, q, hq, rfl⟩
    have hqp : q ≠ p := fun heq => hne (heq ▸ rfl)
    exact ⟨q, (h.added q).mpr ⟨hqp, hq⟩, h.addr q hqp⟩

theorem Inv.agree_left {p : Nat} {c₁ : Lim} (h : Inv max size free (l₁ ++ i :: l₂) c)
    (hp : c.session.Added p) (haddr : c.session.staAddr p = c.mac i) (hleft : Left i p c c₁)
    (hsession : c'.session = c₁.session) (hmac : c'.mac = c.mac) : Agree c' (l₁ ++ l₂) := by
  intro mac
  have hdistinct := h.peers.distinct
  rw [map_append, map_cons] at hdistinct
  obtain ⟨hnot, -⟩ := nodup_cons.mp (nodup_middle.mp hdistinct)
  have hentry : c'.HasEntry mac ↔ c₁.HasEntry mac := by rw [Lim.HasEntry, hsession, Lim.HasEntry]
  rw [hentry, hleft.hasEntry h.sess hp, haddr, ← h.agree mac, hmac, map_append, map_append,
    map_cons]
  simp only [mem_append, mem_cons] at hnot ⊢
  constructor
  · intro hmem; exact ⟨fun heq => hnot (heq ▸ hmem), hmem.imp_right .inr⟩
  · rintro ⟨hne, hmem | heq | hmem⟩
    · exact .inl hmem
    · exact absurd heq hne
    · exact .inr hmem

structure Searched (addr : MacAddr) (c c' : Lim) : Prop where
  mac : c'.mac = c.mac
  added : ∀ q, c'.session.Added q ↔ c.session.Added q ∧ c.session.staAddr q ≠ addr
  staAddr : ∀ q, c'.session.Added q → c'.session.staAddr q = c.session.staAddr q

/-- The nodes of the other peers. -/
def others (c : Lim) (mac : MacAddr) (l : List Nat) : List Nat := l.filter fun i => c.mac i ≠ mac

theorem others_cons_eq (h : c.mac i = mac) : others c mac (i :: l) = others c mac l :=
  filter_cons_of_neg (by simpa using h)

theorem others_cons_ne (h : c.mac i ≠ mac) : others c mac (i :: l) = i :: others c mac l :=
  filter_cons_of_pos (decide_eq_true h)

theorem others_eq_self (h : mac ∉ l.map c.mac) : others c mac l = l := by
  rw [others, filter_eq_self]
  intro i hi; exact decide_eq_true fun heq => h (mem_map.mpr ⟨i, hi, heq⟩)

theorem Peers.not_leaks (h : Peers c l) (hi : i ∈ l) (hleaks : leaks c (c.mac i) = false) {p : Nat}
    {id : UInt16}
    (hlook : dph_lookup_hash_entry c.session.dphHashTable (c.mac i) = some (some (p, id)))
    (htold : decide (c.staIndex p ≠ STA_INVALID_IDX) = false) : c.beacon i = none := by
  rw [leaks, h.find_mem hi, hlook] at hleaks
  have hidx : c.staIndex p = STA_INVALID_IDX := not_not.mp (of_decide_eq_false htold)
  dsimp only at hleaks
  rw [decide_eq_true hidx, Bool.and_true] at hleaks
  exact isNone_iff_eq_none.mp (isSome_eq_false_iff.mp hleaks)

section Ops

variable (hmax : max < size) (hsize : size ≤ 255)

include hmax hsize

theorem Inv.deleteEntry (h : Inv max size free l c) (hi : i ∈ l) {p : Nat}
    (hp : c.session.Added p) (told : Bool) (hb : told = false → c.beacon i = none) (del : Sent) :
    ∃ c' free', deleteEntry c (c.mac i) p (c.session.assocId p) told del = some c' ∧
      LimPeerIdx.Inv max size free' c'.session ∧ Peers c' l ∧ Left i p c c' := by
  -- the request to the firmware is none of the table's business
  obtain ⟨s₁, hs₁, hsame⟩ : ∃ s₁, (if told then (lim_del_sta c.session p false del).2
      else c.session) = s₁ ∧ SamePool c.session s₁ := by
    refine ⟨_, rfl, ?_⟩
    split
    · exact samePool_del_sta p false del
    · exact SamePool.refl _
  have hid : s₁.assocId p = c.session.assocId p := by
    rw [Session.assocId, hsame.dph, Session.assocId]
  obtain ⟨s₂, free', hdel, -, hinv, hdrop, hbut⟩ :=
    (h.sess.same hsame).delete_release hmax hsize ((hsame.added p).mpr hp)
  rw [hid] at hdel hinv hdrop hbut
  rw [hsame.dph] at hbut
  have hpeers := h.peers.setSession (lim_release_peer_idx s₂ (c.session.assocId p))
  have hadded : ∀ q, (lim_release_peer_idx s₂ (c.session.assocId p)).Added q ↔
      q ≠ p ∧ c.session.Added q := by intro q; rw [hdrop.added q, hsame.added q]
  rw [LimIbss.deleteEntry]
  dsimp only [bind_eq_bind]
  rw [hs₁, hdel, bind_some]
  cases told with
  | true =>
    refine ⟨_, free', hpeers.notify hi, hinv, hpeers.takeBeacon hi, takeBeacon_next _ i,
      takeBeacon_mac _ i, rfl, ?_, hadded, hbut.addr⟩
    rw [takeBeacon_beacon, update_self]
  | false => exact ⟨_, free', rfl, hinv, hpeers, rfl, rfl, rfl, hb rfl, hadded, hbut.addr⟩

/-- The entry `p` is gone, and the nodes after `l₁` point where they did. -/
structure Gone (l₁ : List Nat) (p : Nat) (c c' : Lim) : Prop where
  mac : c'.mac = c.mac
  nodesUsed : c'.nodesUsed = c.nodesUsed
  next : ∀ j ∉ l₁, c'.next j = c.next j
  added : ∀ q, c'.session.Added q ↔ q ≠ p ∧ c.session.Added q
  addr : ∀ q, q ≠ p → c'.session.staAddr q = c.session.staAddr q

theorem Inv.leave {prev : Option Nat} (h : Inv max size free (l₁ ++ i :: l₂) c)
    (hprev : IsPrev prev l₁) {p : Nat} (hp : c.session.Added p)
    (haddr : c.session.staAddr p = c.mac i) (told : Bool)
    (hb : told = false → c.beacon i = none) (del : Sent) :
    ∃ c₁ c' prev' free',
      LimIbss.deleteEntry c (c.mac i) p (c.session.assocId p) told del = some c₁ ∧
      removeNode c₁ prev i = some (c', prev') ∧ Inv max size free' (l₁ ++ l₂) c' ∧
      IsPrev prev' l₁ ∧ Gone l₁ p c c' := by
  have hi : i ∈ l₁ ++ i :: l₂ := mem_append_right l₁ mem_cons_self
  obtain ⟨c₁, free', hdel, hsess, hpeers, hleft⟩ := h.deleteEntry hmax hsize hi hp told hb del
  obtain ⟨c', prev', hrem, hpeers', hprev', hremoved⟩ := hpeers.remove hleft.beacon hprev
  have hmac := hremoved.mac.trans hleft.mac
  refine ⟨c₁, c', prev', free', hdel, hrem, ⟨hremoved.session ▸ hsess, hpeers', ?_⟩, hprev', hmac,
    hremoved.nodesUsed.trans hleft.nodesUsed, fun j hj => ?_, fun q => ?_, fun q hq => ?_⟩
  · exact h.agree_left hp haddr hleft hremoved.session hmac
  · rw [Lim.next, hremoved.nodes j hj]; exact congrFun hleft.next j
  · rw [hremoved.session]; exact hleft.added q
  · rw [hremoved.session]; exact hleft.addr q hq

/-! ## Deleting a peer -/

theorem Inv.searchLoop {prev ptr : Option Nat} {fuel : Nat} (h : Inv max size free (l₁ ++ l₂) c)
    (hprev : IsPrev prev l₁) (hptr : Linked c.next ptr l₂ none) (hfuel : l₂.length ≤ fuel)
    (hnot : mac ∉ l₁.map c.mac) (hleaks : leaks c mac = false) (del : Sent) :
    ∃ c' free', LimIbss.searchLoop mac del fuel prev ptr c = some c' ∧
      Inv max size free' (l₁ ++ others c mac l₂) c' ∧ Searched mac c c' := by
  induction l₂ generalizing l₁ prev ptr fuel with
  | nil =>
    obtain rfl : ptr = none := hptr
    rw [LimIbss.searchLoop]
    refine ⟨c, free, rfl, h, rfl, fun q => ?_, fun _ _ => rfl⟩
    rw [iff_self_and]
    intro hq haddr
    apply hnot
    rw [← append_nil l₁]; exact (h.agree mac).mpr ⟨q, hq, haddr⟩
  | cons a l₂ ih =>
    obtain ⟨rfl, hrest⟩ := hptr
    obtain ⟨n, rfl⟩ := Nat.exists_eq_succ_of_ne_zero (Nat.ne_zero_of_lt hfuel)
    rw [LimIbss.searchLoop]
    by_cases hmac : mac = (c.nodes a).peerMacAddr
    · subst hmac
      have ha : a ∈ l₁ ++ a :: l₂ := mem_append_right l₁ mem_cons_self
      obtain ⟨p, hp, haddr, hlook⟩ := h.entry (by omega) ha
      obtain ⟨c₁, c', prev', free', hdel, hrem, hinv, -, hgone⟩ := h.leave hmax hsize hprev hp haddr
        (decide (c.staIndex p ≠ STA_INVALID_IDX)) (h.peers.not_leaks ha hleaks hlook) del
      refine ⟨c', free', ?_, ?_, hgone.mac, fun q => ?_, fun q hq => ?_⟩
      · rw [if_pos rfl, hlook]
        dsimp only [bind_eq_bind, bind_some]
        rw [hdel, bind_some, hrem]; rfl
      · have hdistinct := h.peers.distinct
        rw [map_append] at hdistinct
        have hrest := (nodup_cons.mp hdistinct.of_append_right).1
        rw [others_cons_eq rfl, others_eq_self hrest]; exact hinv
      · rw [hgone.added q]
        constructor
        · rintro ⟨hne, hq⟩
          exact ⟨hq, fun heq => hne (h.sess.good.distinct hq hp (heq.trans haddr.symm))⟩
        · rintro ⟨hq, hne⟩; exact ⟨fun heq => hne (heq ▸ haddr), hq⟩
      · exact hgone.addr q ((hgone.added q).mp hq).1
    · rw [if_neg hmac]
      have hkeep : l₁ ++ others c mac (a :: l₂) = l₁ ++ [a] ++ others c mac l₂ := by
        rw [others_cons_ne (Ne.symm hmac), append_assoc]; rfl
      rw [hkeep]
      apply ih (by rwa [append_assoc]) isPrev_concat hrest (Nat.le_of_succ_le_succ hfuel)
      rw [map_append, mem_append, not_or]
      exact ⟨hnot, fun hmem => hmac (mem_singleton.mp hmem)⟩

theorem Inv.search (h : Inv max size free l c) (hleaks : leaks c mac = false) (del : Sent) :
    ∃ c' free', lim_ibss_search_and_delete_peer c mac del = some c' ∧
      Inv max size free' (others c mac l) c' ∧ Searched mac c c' :=
  have hall : Inv max size free ([] ++ l) c := h
  Inv.searchLoop hmax hsize hall (fun hne => absurd rfl hne) h.peers.linked
    h.peers.length_le not_mem_nil hleaks del

/-! ## Heart beats -/

theorem Inv.heartBeatLoop (threshold : Nat) (del : Nat → Sent) {prev ptr : Option Nat} {fuel : Nat}
    (h : Inv max size free (l₁ ++ l₂) c) (hprev : IsPrev prev l₁)
    (hptr : Linked c.next ptr l₂ none) (hfuel : l₂.length ≤ fuel) :
    ∃ c' free' l', LimIbss.heartBeatLoop threshold del fuel prev ptr c = some c' ∧
      Inv max size free' l' c' := by
  induction l₂ generalizing l₁ prev ptr fuel c free with
  | nil =>
    obtain rfl : ptr = none := hptr
    rw [LimIbss.heartBeatLoop]; exact ⟨c, free, _, rfl, h⟩
  | cons a l₂ ih =>
    obtain ⟨rfl, hrest⟩ := hptr
    obtain ⟨n, rfl⟩ := Nat.exists_eq_succ_of_ne_zero (Nat.ne_zero_of_lt hfuel)
    have hle := Nat.le_of_succ_le_succ hfuel
    -- the counters of a node can be written, and the walk goes on after it
    have hgo : ∀ m : IbssPeerNode, m.next = c.next a → m.peerMacAddr = c.mac a →
        m.beacon = c.beacon a → ∃ c' free' l',
          LimIbss.heartBeatLoop threshold del n (some a) (c.next a) (c.setNode a m) = some c' ∧
          Inv max size free' l' c' := by
      intro m hnext hmac hbeacon
      have hm := h.setNode hnext hmac hbeacon
      rw [← singleton_append, ← append_assoc] at hm
      apply ih hm isPrev_concat ?_ hle
      have heq : (c.setNode a m).next = c.next := setNode_field_eq IbssPeerNode.next hnext
      rw [heq]; exact hrest
    rw [LimIbss.heartBeatLoop]
    dsimp only
    split
    · exact hgo _ rfl rfl rfl
    split
    · let m : IbssPeerNode :=
        { c.nodes a with heartbeatFailure := (c.nodes a).heartbeatFailure + 1 }
      have hm : Inv max size free (l₁ ++ a :: l₂) (c.setNode a m) := h.setNode rfl rfl rfl
      have hmac : (c.setNode a m).mac a = c.mac a := by rw [Lim.mac, setNode_self]
      have ha : a ∈ l₁ ++ a :: l₂ := mem_append_right l₁ mem_cons_self
      obtain ⟨p, hp, haddr, hlook⟩ := hm.entry (by omega) ha
      obtain ⟨c₁, c₂, prev', free₂, hdel, hrem, hinv, hprev', hgone⟩ := hm.leave hmax hsize hprev hp
        haddr true (nofun) (del a)
      have hlinked : Linked c₂.next (c.next a) l₂ none := by
        refine (linked_congr fun j hj => ?_).mpr hrest
        have hj₁ : j ∉ l₁ := fun hmem =>
          disjoint_of_nodup_append h.peers.nodup hmem (mem_cons_of_mem a hj)
        have heq : (c.setNode a m).next = c.next := setNode_field_eq IbssPeerNode.next rfl
        rw [hgone.next j hj₁, heq]
      obtain ⟨c', free', l', hloop, hend⟩ := ih hinv hprev' hlinked hle
      rw [hmac] at hlook hdel
      refine ⟨c', free', l', ?_, hend⟩
      change (dph_lookup_hash_entry (c.setNode a m).session.dphHashTable (c.mac a)).bind _ = _
      rw [hlook, bind_some]
      change (LimIbss.deleteEntry (c.setNode a m) (c.mac a) p _ true (del a)).bind _ = _
      rw [hdel, bind_some]
      rw [hrem]; exact hloop
    · exact hgo _ rfl rfl rfl

theorem Inv.heart_beat (h : Inv max size free l c) (enabled : Bool) (del : Nat → Sent) :
    ∃ c' free' l', lim_ibss_heart_beat_handle c enabled del = some c' ∧
      Inv max size free' l' c' := by
  rw [lim_ibss_heart_beat_handle]
  split
  · exact ⟨c, free, l, rfl, h⟩
  · have hall : Inv max size free ([] ++ l) c := h
    exact Inv.heartBeatLoop hmax hsize _ del hall (fun hne => absurd rfl hne)
      h.peers.linked h.peers.length_le

/-! ## Deleting all peers -/

theorem Inv.deleteAllLoop {fuel : Nat} (h : Inv max size free l c) (hfuel : l.length ≤ fuel) :
    ∃ c' free', LimIbss.deleteAllLoop fuel c.gLimIbssPeerList c = some (true, c') ∧
      Inv max size free' [] c' := by
  induction l generalizing fuel c free with
  | nil =>
    obtain hnone : c.gLimIbssPeerList = none := h.peers.linked
    rw [hnone, LimIbss.deleteAllLoop]; exact ⟨c, free, rfl, h⟩
  | cons a l ih =>
    obtain ⟨hhead, hrest⟩ := h.peers.linked
    obtain ⟨n, rfl⟩ := Nat.exists_eq_succ_of_ne_zero (Nat.ne_zero_of_lt hfuel)
    have ha : a ∈ a :: l := mem_cons_self
    have hnum : c.gLimNumIbssPeers ≠ 0 := by
      intro hz
      have hpos := h.peers.pos ha
      rw [hz] at hpos; exact absurd hpos (by decide)
    obtain ⟨p, hp, haddr, hlook⟩ := h.entry (by omega) ha
    obtain ⟨s', free₁, hdel, hsess, hdrop, hbut⟩ := h.sess.release_delete hmax hsize hp
    let c₁ : Lim := { c.takeBeacon a with session := s' }
    have hpeers : Peers c₁ (a :: l) := (h.peers.takeBeacon ha).setSession s'
    have hbeacon : c₁.beacon a = none := by rw [takeBeacon_beacon, update_self]
    have hleft : Left a p c c₁ :=
      ⟨takeBeacon_next c a, takeBeacon_mac c a, rfl, hbeacon, hdrop.added, hbut.addr⟩
    obtain ⟨-, hlinked⟩ := hpeers.linked
    have hnode := deleteAllNode_eq hbeacon hnum
    have hinv : Inv max size free₁ l (deleteAllNode c₁ a) := by
      rw [hnode]
      have hall : Inv max size free ([] ++ a :: l) c := h
      have hfirst : Peers c₁ ([] ++ a :: l) := hpeers
      exact ⟨hsess, hfirst.relink hbeacon hlinked rfl rfl rfl rfl rfl rfl,
        hall.agree_left hp haddr hleft rfl (takeBeacon_mac c a)⟩
    obtain ⟨c', free', hloop, hend⟩ := ih hinv (Nat.le_of_succ_le_succ hfuel)
    refine ⟨c', free', ?_, hend⟩
    have hentry : deleteAllEntry c (c.mac a) = some c₁ := by
      rw [deleteAllEntry, hlook]
      dsimp only [bind_eq_bind, bind_some]
      rw [h.peers.notify ha, bind_some]
      rw [release_staAddr]; exact congrArg (Option.bind · _) hdel
    rw [hhead, LimIbss.deleteAllLoop, if_neg hnum, hentry]
    change LimIbss.deleteAllLoop n (c₁.next a) (deleteAllNode c₁ a) = _
    rw [hnode] at hloop ⊢
    exact hloop

theorem Inv.delete_all (h : Inv max size free l c) :
    ∃ c' free', lim_ibss_delete_all_peers c = some c' ∧ Inv max size free' [] c' := by
  obtain ⟨c', free', hloop, hinv⟩ := h.deleteAllLoop hmax hsize h.peers.length_le
  have hpeers := hinv.peers
  refine ⟨{ c' with gLimNumIbssPeers := 0, gLimIbssPeerList := none }, free', ?_, hinv.sess,
    ⟨rfl, (fun _ hi => nomatch hi), rfl, hpeers.short, nodup_nil, hpeers.beacons⟩, hinv.agree⟩
  rw [lim_ibss_delete_all_peers, hloop]; rfl

/-! ## Beacons of the IBSS -/

omit hmax hsize in
theorem Inv.not_mem (h : Inv max size free l c) (hsize : 0 < size) {sa : MacAddr}
    (hnew : sa ∉ l.map c.mac) :
    dph_lookup_hash_entry c.session.dphHashTable sa = some none ∧
      ∀ q, c.session.Added q → c.session.staAddr q ≠ sa := by
  rcases h.sess.lookup hsize sa with hnone | ⟨p, hp, haddr, -⟩
  · exact hnone
  · exact absurd ((h.agree sa).mpr ⟨p, hp, haddr⟩) hnew

omit hmax hsize in
/-- For a peer of the list, what `lim_ibss_sta_add` does to the session is done, and the beacon of
the peer is counted. -/
theorem sta_add_eq {sa : MacAddr} {env : IbssEnv} {s' : Session}
    (hfind : ibss_peer_find c sa = some (some i))
    (hsta : LimPeerIdx.lim_ibss_sta_add c.session sa env = some (true, s')) :
    LimIbss.lim_ibss_sta_add c sa env =
      some (true, { ibss_sta_caps_update c i with session := s' }) := by
  rw [LimIbss.lim_ibss_sta_add, hfind]
  obtain ⟨⟨entry, s⟩, hentry, hrest⟩ := bind_eq_some_iff.mp hsta
  dsimp only [bind_eq_bind, bind_some]
  rw [hentry, bind_some]
  cases entry with
  | none => cases hrest
  | some p =>
    dsimp only at hrest ⊢
    cases hadd : lim_add_sta s p env.add with
    | mk ok s₁ =>
      rw [hadd] at hrest
      cases ok with
      | true => cases hrest; rfl
      | false => obtain ⟨s₂, -, heq⟩ := map_eq_some_iff.mp hrest; cases (Prod.mk.inj heq).1

theorem Inv.join (h : Inv max size free l c) {sa : MacAddr} {env : BeaconEnv}
    (hnew : sa ∉ l.map c.mac) (hshort : l.length + 1 < 256)
    (hidx : HasIdx c.session env.sta.others env.sta.limit) (hadd : env.sta.add = .ok) :
    ∃ c' free', LimIbss.lim_ibss_sta_add (c.join sa env.beaconMem) sa env.sta = some (true, c') ∧
      Inv max size free' (c.nodesUsed :: l) c' := by
  obtain ⟨hlook, hnone⟩ := h.not_mem (by omega) hnew
  obtain ⟨p, s', free', hsta, hsess, -, hfree, hadded, haddr, hbut⟩ :=
    h.sess.ibss_sta_add_new hmax hsize hlook hnone hidx hadd
  have hpeers : Peers (c.join sa env.beaconMem) (c.nodesUsed :: l) := h.peers.join hnew hshort
  have hmac : (c.join sa env.beaconMem).mac c.nodesUsed = sa := by rw [Lim.mac, join_self]
  have hcounted := hpeers.setNode (i := c.nodesUsed) (n := { (c.join sa env.beaconMem).nodes
    c.nodesUsed with beaconHBCount := ((c.join sa env.beaconMem).nodes
      c.nodesUsed).beaconHBCount + 1 }) rfl rfl rfl
  have hmacs : (ibss_sta_caps_update (c.join sa env.beaconMem) c.nodesUsed).mac =
      (c.join sa env.beaconMem).mac := setNode_field_eq IbssPeerNode.peerMacAddr rfl
  refine ⟨{ ibss_sta_caps_update (c.join sa env.beaconMem) c.nodesUsed with session := s' }, free',
    ?_, hsess, hcounted.setSession s', fun mac => ?_⟩
  · have hfind := hpeers.find_mem (i := c.nodesUsed) mem_cons_self
    rw [hmac] at hfind; exact sta_add_eq hfind hsta
  · rw [hmacs]
    rw [h.peers.join_macs, mem_cons, h.agree mac]
    constructor
    · rintro (rfl | ⟨q, hq, rfl⟩)
      · exact ⟨p, (hadded p).mpr (.inl rfl), haddr⟩
      · have hqp : q ≠ p := fun heq => hfree (heq ▸ hq)
        exact ⟨q, (hadded q).mpr (.inr hq), hbut.addr q hqp⟩
    · rintro ⟨q, hq, rfl⟩
      by_cases hqp : q = p
      · exact .inl (hqp ▸ haddr)
      · have hold := ((hadded q).mp hq).resolve_left hqp
        exact .inr ⟨q, hold, (hbut.addr q hqp).symm⟩

theorem Inv.coalesce_same (h : Inv max size free l c) {sa : MacAddr} {env : BeaconEnv}
    (hok : Joins c sa env →
      HasIdx c.session env.sta.others env.sta.limit ∧ env.sta.add = .ok) :
    ∃ r c' free' l', lim_ibss_coalesce c c.bssId sa env = some (r, c') ∧ Inv max size free' l' c' ∧
      (ibss_peer_find c sa = some none → r ≠ .eSIR_SUCCESS → c' = c) := by
  rw [lim_ibss_coalesce, if_neg (not_not.mpr rfl)]
  by_cases hnew : sa ∈ l.map c.mac
  · obtain ⟨i, hi, rfl⟩ := mem_map.mp hnew
    rw [h.peers.find_mem hi]
    refine ⟨_, _, free, l, rfl, h.setNode rfl rfl rfl, fun hnone => ?_⟩
    cases hnone
  have hfind := h.peers.find_none hnew
  rw [hfind]
  split
  · exact ⟨_, c, free, l, rfl, h, fun _ _ => rfl⟩
  next hlimit =>
  split
  · exact ⟨_, c, free, l, rfl, h, fun _ _ => rfl⟩
  next hmem =>
  have hlt : (c.gLimNumIbssPeers + 1).toNat < env.gLimIbssStaLimit.toNat := Nat.not_le.mp hlimit
  obtain ⟨hlook, -⟩ := h.not_mem (by omega) hnew
  obtain ⟨hidx, hadd⟩ := hok ⟨hfind, hlt, (Bool.not_eq_false _).mp hmem, hlook⟩
  have hshort : l.length + 1 < 256 := by
    have hnum : (c.gLimNumIbssPeers + 1).toNat = l.length + 1 := by
      have hlen := h.peers.short
      rw [UInt32.toNat_add, h.peers.count]
      exact Nat.mod_eq_of_lt (show l.length + 1 < 2 ^ 32 by omega)
    have hle := env.gLimIbssStaLimit.toNat_lt
    omega
  obtain ⟨c', free', hsta, hinv⟩ := h.join hmax hsize hnew hshort hidx hadd
  refine ⟨.eSIR_SUCCESS, c', free', _, ?_, hinv, fun _ hr => absurd rfl hr⟩
  change (dph_lookup_hash_entry c.session.dphHashTable sa).bind _ = _
  rw [hlook, bind_some]
  change (LimIbss.lim_ibss_sta_add (c.join sa env.beaconMem) sa env.sta).bind _ = _
  rw [hsta]; rfl

theorem Inv.coalesce_other (h : Inv max size free l c) {bssId sa : MacAddr} {env : BeaconEnv}
    (hok : env.isCoalesingInIBSSAllowed = true → leaks c sa = false) :
    ∃ r c' free' l', coalesceOther c bssId sa env = some (r, c') ∧ Inv max size free' l' c' := by
  rw [coalesceOther]
  split
  · exact ⟨_, c, free, l, rfl, h⟩
  next hallowed =>
  by_cases hin : sa ∈ l.map c.mac
  · obtain ⟨i, hi, rfl⟩ := mem_map.mp hin
    obtain ⟨c', free', hsearch, hinv, -⟩ :=
      h.search hmax hsize (hok ((Bool.not_eq_false _).mp hallowed)) env.sta.del
    rw [h.peers.find_mem hi]
    rw [hsearch]; exact ⟨_, c', free', _, rfl, hinv⟩
  · rw [h.peers.find_none hin]
    split
    · exact ⟨_, c, free, l, rfl, h⟩
    · exact ⟨_, _, free, l, rfl, h.setInfo true _ c.bssId⟩

/-! ## Responses -/

omit hmax hsize in
theorem sess_setEntry {s : Session} (h : LimPeerIdx.Inv max size free s) {p : Nat} (hp : s.Added p)
    {n : HashNode} (hadded : n.added = true)
    (hid : n.assocId = (s.dphHashTable.pDphNodeArray p).assocId)
    (hnext : n.next = (s.dphHashTable.pDphNodeArray p).next) (haddr : n.staAddr = s.staAddr p) :
    LimPeerIdx.Inv max size free { s with dphHashTable := s.dphHashTable.setNode p n } ∧
      (∀ q, (s.dphHashTable.setNode p n).Added q ↔ s.Added q) ∧
      ∀ q, (s.dphHashTable.setNode p n).addr q = s.staAddr q := by
  have hnid : n.assocId.toNat = p := by rw [hid, h.good.assocId p hp.1]
  have hsame := sameBut_setNode h.good hnid
  have hgood := h.good.reinit hp hadded hnid hnext (congrArg (hash_function · _) haddr)
    fun q hq hadd heq => hq (h.good.distinct hadd hp (heq.trans haddr))
  have hall : ∀ q, (s.dphHashTable.setNode p n).Added q ↔ s.Added q := by
    intro q
    by_cases hq : q = p
    · subst hq
      refine ⟨fun _ => hp, fun _ => ⟨hp.1, ?_⟩⟩
      rw [DphTable.HashTable.setNode_self, hadded]
    · exact hsame.added q hq
  refine ⟨⟨hgood, h.size_eq, h.queue, fun i => ?_, fun q hq => ?_, h.count, h.once, fun i => ?_⟩,
    hall, fun q => ?_⟩
  · rw [h.mem i]
    exact and_congr_right fun _ => and_congr_right fun _ => not_congr (hall i.toNat).symm
  · exact h.valid q ((hall q).mp hq)
  · rw [h.held i]; exact (hall i.toNat).symm
  · by_cases hq : q = p
    · subst hq; rw [HashTable.addr, DphTable.HashTable.setNode_self, haddr]
    · exact hsame.addr q hq

theorem Inv.add_sta_rsp (h : Inv max size free l c) {ok : Bool}
    (hok : ok = false → leaks c mac = false) (staIdx : UInt16) (del : Sent) :
    ∃ c' free' l', lim_ibss_add_sta_rsp c mac ok staIdx del = some c' ∧ Inv max size free' l' c' ∧
      (ok = false → l' = others c mac l ∧ Searched mac c c') := by
  rw [lim_ibss_add_sta_rsp]
  by_cases hin : mac ∈ l.map c.mac
  · obtain ⟨i, hi, rfl⟩ := mem_map.mp hin
    obtain ⟨p, hp, haddr, hlook⟩ := h.entry (by omega) hi
    rw [hlook]
    cases ok with
    | false =>
      obtain ⟨c', free', hsearch, hinv, hgone⟩ := h.search hmax hsize (hok rfl) del
      exact ⟨c', free', _, hsearch, hinv, fun _ => ⟨rfl, hgone⟩⟩
    | true =>
      let node := c.session.dphHashTable.pDphNodeArray p
      obtain ⟨hsess, hadded, hstaAddr⟩ := sess_setEntry
        (n := { node with staIndex := staIdx, valid := true }) h.sess hp hp.2 rfl rfl rfl
      let t := c.session.dphHashTable.setNode p { node with staIndex := staIdx, valid := true }
      let s := { c.session with dphHashTable := t }
      have hpeers := h.peers.setSession (s.setState p .LINK_ESTABLISHED)
      refine ⟨_, free, l, hpeers.notify hi,
        ⟨hsess.same (samePool_setState p _), hpeers.takeBeacon hi, fun mac => ?_⟩,
        fun hb => (nomatch hb)⟩
      rw [takeBeacon_mac]
      refine (h.agree mac).trans (exists_congr fun q => ?_)
      exact and_congr (hadded q).symm (by rw [← hstaAddr q]; rfl)
  · obtain ⟨hlook, hnone⟩ := h.not_mem (by omega) hin
    rw [hlook]
    refine ⟨c, free, l, rfl, h, fun _ => ⟨(others_eq_self hin).symm, rfl, fun q => ?_, fun _ _ => rfl⟩⟩
    rw [iff_self_and]; exact hnone q

/-! ## Runs -/

/-- The response belongs to the coalescing, or the operation is another one. -/
def Due (c : Lim) : Op → Prop
  | .del_bss_rsp _ | .add_bss_rsp => c.gLimIbssCoalescingHappened = true
  | _ => True

theorem Inv.fine (h : Inv max size free l c) (op : Op) (hok : Ok c op) (hdue : Due c op) :
    ∃ c' free' l', step c op = some c' ∧ Inv max size free' l' c' := by
  cases op with
  | coalesce bssId sa env =>
    rw [step]
    by_cases hbss : c.bssId = bssId
    · subst hbss
      rw [Ok, if_pos rfl] at hok
      obtain ⟨r, c', free', l', heq, hinv, -⟩ := h.coalesce_same hmax hsize hok
      exact ⟨c', free', l', congrArg (Option.map Prod.snd) heq, hinv⟩
    · rw [Ok, if_neg hbss] at hok
      obtain ⟨r, c', free', l', heq, hinv⟩ :=
        @Inv.coalesce_other c l max size free hmax hsize h bssId sa env hok
      rw [lim_ibss_coalesce, if_pos hbss, heq]; exact ⟨c', free', l', rfl, hinv⟩
  | add_sta_rsp staMac ok staIdx del =>
    obtain ⟨c', free', l', heq, hinv, -⟩ := h.add_sta_rsp hmax hsize hok staIdx del
    exact ⟨c', free', l', heq, hinv⟩
  | heart_beat enabled del => exact h.heart_beat hmax hsize enabled del
  | peer_inactivity enabled peer_addr del =>
    rw [step, lim_process_ibss_peer_inactivity]
    split
    · exact ⟨c, free, l, rfl, h⟩
    next henabled =>
      obtain ⟨c', free', heq, hinv, -⟩ :=
        h.search hmax hsize (hok ((Bool.not_eq_false _).mp henabled)) del
      exact ⟨c', free', _, heq, hinv⟩
  | del_bss_rsp ok =>
    have hwaits : c.gLimIbssCoalescingHappened = true := hdue
    rw [step, if_pos hwaits, lim_ibss_del_bss_rsp_when_coalescing]
    split
    · exact ⟨c, free, l, rfl, h⟩
    · obtain ⟨c', free', heq, hinv⟩ := h.delete_all hmax hsize
      rw [heq]; exact ⟨_, free', [], rfl, hinv.setInfo _ c'.ibssInfo _⟩
  | add_bss_rsp =>
    have hwaits : c.gLimIbssCoalescingHappened = true := hdue
    rw [step, if_pos hwaits]; exact ⟨_, free, l, rfl, h.setInfo _ none c.bssId⟩
  | ibss_delete =>
    obtain ⟨c', free', heq, hinv⟩ := h.delete_all hmax hsize
    rw [step, lim_ibss_delete, heq]; exact ⟨_, free', [], rfl, hinv.setInfo _ none c'.bssId⟩

theorem Inv.step (h : Inv max size free l c) {op : Op} (hok : Ok c op)
    (hstep : step c op = some c') : ∃ free' l', Inv max size free' l' c' := by
  have hdue : Due c op := by
    cases op with
    | del_bss_rsp ok => by_contra hno; cases (if_neg hno).symm.trans hstep
    | add_bss_rsp => by_contra hno; cases (if_neg hno).symm.trans hstep
    | _ => trivial
  obtain ⟨c₁, free', l', heq, hinv⟩ := h.fine hmax hsize op hok hdue
  obtain rfl := some.inj (hstep.symm.trans heq)
  exact ⟨free', l', hinv⟩

end Ops

def Returns (c : Lim) : Prop := ∀ op, Ok c op → Due c op → ∃ c', step c op = some c'

def FailedUnchanged (c : Lim) : Prop :=
  ∀ sa env r c', Ok c (.coalesce c.bssId sa env) → ibss_peer_find c sa = some none →
    lim_ibss_coalesce c c.bssId sa env = some (r, c') → r ≠ .eSIR_SUCCESS → c' = c

def RefusedUndone (c : Lim) : Prop :=
  ∀ sa staIdx del c' l, Ok c (.add_sta_rsp sa false staIdx del) → Peers c l →
    lim_ibss_add_sta_rsp c sa false staIdx del = some c' →
      Peers c' (others c sa l) ∧ Searched sa c c'

theorem Peers.eq {l' : List Nat} (h : Peers c l) (h' : Peers c l') : l = l' := by
  have hwalk := walk_eq _ h.linked h.length_le
  rw [walk_eq _ h'.linked h'.length_le] at hwalk; exact (some.inj hwalk).symm

theorem inv_init (bssId : MacAddr) {maxAssocSta : UInt8} (hpos : 0 < maxAssocSta.toNat)
    (hsize : size ≤ 255) :
    Inv maxAssocSta.toNat size (idxs 1 maxAssocSta.toNat) []
      (lim_ibss_init bssId (init .eLIM_STA_IN_IBSS_ROLE maxAssocSta size)) := by
  have hsess := LimPeerIdx.inv_init .eLIM_STA_IN_IBSS_ROLE hpos hsize
  refine ⟨hsess, ⟨rfl, (fun _ hi => nomatch hi), rfl, (show 0 < 256 by omega), nodup_nil,
    Perm.refl _⟩, fun mac => ⟨fun hin => (nomatch hin), ?_⟩⟩
  rintro ⟨p, hp, -⟩; exact absurd hp.2 Bool.false_ne_true

/-- **Peers of an IBSS.** In every run that stays out of the two places above, the list, the counter
and the station table are of the same peers, each beacon is freed once, and an addition that fails
leaves nothing behind. -/
theorem ibss_peer_set (bssId : MacAddr) {maxAssocSta : UInt8} (hpos : 0 < maxAssocSta.toNat)
    (hmax : maxAssocSta.toNat < size) (hsize : size ≤ 255) (ops : List Op)
    (h : run (guarded Ok step)
      (lim_ibss_init bssId (init .eLIM_STA_IN_IBSS_ROLE maxAssocSta size)) ops = some c) :
    (∃ l, Peers c l ∧ Agree c l) ∧ Returns c ∧ FailedUnchanged c ∧ RefusedUndone c := by
  obtain ⟨free, l, hinv⟩ : ∃ free l, Inv maxAssocSta.toNat size free l c := by
    apply guarded_run_invariant (I := fun u => ∃ free l, Inv maxAssocSta.toNat size free l u) ?_
      ⟨_, [], inv_init bssId hpos hsize⟩ h
    rintro u op u' ⟨free, l, hu⟩ hok hstep; exact hu.step hmax hsize hok hstep
  refine ⟨⟨l, hinv.peers, hinv.agree⟩, ?_, ?_, ?_⟩
  · intro op hok hdue
    obtain ⟨c', -, -, heq, -⟩ := hinv.fine hmax hsize op hok hdue
    exact ⟨c', heq⟩
  · intro sa env r c' hok hfind heq hr
    rw [Ok, if_pos rfl] at hok
    obtain ⟨r₁, c₁, -, -, heq₁, -, hsame⟩ := hinv.coalesce_same hmax hsize hok
    obtain ⟨rfl, rfl⟩ := Prod.mk.inj (some.inj (heq.symm.trans heq₁))
    exact hsame hfind hr
  · intro sa staIdx del c' l' hok hpeers heq
    obtain ⟨c₁, free₁, l₁, heq₁, hinv₁, hgone⟩ := hinv.add_sta_rsp hmax hsize hok staIdx del
    obtain rfl := some.inj (heq.symm.trans heq₁)
    obtain ⟨rfl, hsearched⟩ := hgone rfl
    obtain rfl := hpeers.eq hinv.peers
    exact ⟨hinv₁.peers, hsearched⟩

def started : Lim := lim_ibss_init zeroMacAddr (init .eLIM_STA_IN_IBSS_ROLE 4 8)

def allWell : BeaconEnv where
  isCoalesingInIBSSAllowed := true
  fTsfLater := false
  saved := true
  gLimIbssStaLimit := 5
  nodeMem := true
  beaconMem := true
  sta := { others := 0, limit := 5, frag := none, add := .ok, del := .ok }

/-- Two peers join and stay after the first heart beat, for which the beacons that they joined with
count. At the second one only that stays which was heard in between. -/
theorem ibss_peer_set_two :
    ∃ c, run (guarded Ok step) started
      [.coalesce zeroMacAddr macA allWell, .add_sta_rsp macA true 5 .ok,
        .coalesce zeroMacAddr macB allWell, .add_sta_rsp macB true 6 .ok,
        .heart_beat true fun _ => .ok, .coalesce zeroMacAddr macA allWell,
        .heart_beat true fun _ => .ok] = some c ∧
      c.gLimIbssPeerList = some 0 ∧ c.gLimNumIbssPeers = 1 ∧ c.freed = [1, 0] ∧
      (∃ l, Peers c l ∧ Agree c l) ∧ Returns c ∧ FailedUnchanged c ∧ RefusedUndone c := by
  exact exists_of_tested (fun c => _ ∧ _ ∧ _) (by decide +kernel) fun c hc ⟨hlist, hnum, hfreed⟩ =>
    ⟨hlist, hnum, hfreed, ibss_peer_set zeroMacAddr (by decide) (by decide) (by decide) _ hc⟩

/-- A peer whose addition is not posted is in the list and has no entry, and the beacon of one that
the firmware refuses is lost. -/
theorem ibss_peer_set_fails :
    (∃ r c, lim_ibss_coalesce started zeroMacAddr macA
        { allWell with sta := { allWell.sta with add := .notPosted } } = some (r, c) ∧
      r ≠ .eSIR_SUCCESS ∧ c.gLimNumIbssPeers = 1 ∧ ¬∃ l, Peers c l ∧ Agree c l) ∧
    ∃ c, run step started
        [.coalesce zeroMacAddr macA allWell, .add_sta_rsp macA false 0 .ok] = some c ∧
      c.gLimIbssPeerList = none ∧ c.beaconsUsed = 1 ∧ c.freed = [] ∧ ¬∃ l, Peers c l := by
  constructor
  · refine exists_pair_of_tested (fun r c => r ≠ .eSIR_SUCCESS ∧ c.gLimNumIbssPeers = 1 ∧
      ibss_peer_find c macA = some (some 0) ∧ c.session.dphHashTable.size = 8 ∧
      (range 8).filter (c.session.Added ·) = []) (by decide +kernel)
      fun r c hc ⟨hr, hnum, hfind, hsize, hnone⟩ => ?_
    refine ⟨hr, hnum, ?_⟩
    rintro ⟨l, hpeers, hagree⟩
    rw [hpeers.find, some.injEq] at hfind
    have hmac := of_decide_eq_true (find?_some (p := fun i => decide (macA = c.mac i)) hfind)
    have hin := mem_map.mpr ⟨0, mem_of_find?_eq_some hfind, hmac.symm⟩
    obtain ⟨p, hp, -⟩ := (hagree macA).mp hin
    have hmem : p ∈ (range 8).filter (c.session.Added ·) :=
      mem_filter.mpr ⟨mem_range.mpr (hsize ▸ hp.1), decide_eq_true hp⟩
    rw [hnone] at hmem
    cases hmem
  · refine exists_of_tested (fun c => c.gLimIbssPeerList = none ∧ c.beaconsUsed = 1 ∧ c.freed = [])
      (by decide +kernel) fun c hc ⟨hlist, hused, hfreed⟩ => ?_
    refine ⟨hlist, hused, hfreed, ?_⟩
    rintro ⟨l, hpeers⟩
    have hnil : l = [] := by
      cases l with
      | nil => rfl
      | cons a l => cases hlist.symm.trans hpeers.linked.1
    subst hnil
    have hlen := hpeers.beacons.length_eq
    rw [hfreed, hused] at hlen
    cases hlen

end Qcacld.LimIbss
