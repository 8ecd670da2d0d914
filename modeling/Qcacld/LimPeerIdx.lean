/-
Peer indices (association ids) of a PE session: `lim_aid_mgmt.c` and what calls it.

An operation has as its arguments what the code asks others for: `others` is the number of stations
of the other sessions, `limit` is `gLimAssocStaLimit`, which may be configured at any time, and a
`Sent` is how a request to the firmware went. Left out are the branches for the STA role and TDLS.
`log` and `delStaReqs` record the calls that give out and take back indices, and the requests to
delete stations, the newest first; the code does not have them.
-/
import Qcacld.DphTable

set_option autoImplicit false

namespace Qcacld.LimPeerIdx

open Function
open Lib DphTable

inductive LimSystemRole where
  | eLIM_AP_ROLE
  | eLIM_STA_IN_IBSS_ROLE
  deriving DecidableEq

/-- The states of `tLimMlmStates` that a station on an AP is in. -/
inductive MlmState where
  | OFFLINE
  | WT_ADD_STA_RSP
  | WT_ASSOC_CNF
  | LINK_ESTABLISHED
  | WT_DEL_STA_RSP
  | WT_ASSOC_DEL_STA_RSP
  deriving DecidableEq

structure MlmStaContext where
  mlmState : MlmState
  updateContext : Bool

inductive PoolEvent where
  | assign (peerIdx : UInt8)
  | release (peerIdx : UInt8)
  deriving DecidableEq

structure Session where
  limSystemRole : LimSystemRole
  gpLimPeerIdxpool : UInt8 → UInt8
  freePeerIdxHead : UInt8
  freePeerIdxTail : UInt8
  gLimNumOfCurrentSTAs : UInt16
  dphHashTable : HashTable
  mlmStaContext : Nat → MlmStaContext
  log : List PoolEvent
  delStaReqs : List Nat

/-- How a request to the firmware went: it was posted, there was no memory for it, or posting it
failed. -/
inductive Sent where
  | ok
  | noMem
  | notPosted
  deriving DecidableEq

/-! ## The pool -/

def LIM_START_PEER_IDX : UInt8 := 1

/-- The loop of `lim_init_peer_idxpool`, for `n` more indices from `i` on, with the write after it
and the last `i`. -/
def initLoop (pool : UInt8 → UInt8) : Nat → UInt8 → (UInt8 → UInt8) × UInt8
  | 0, i => (update pool i 0, i)
  | n + 1, i => initLoop (update pool i (i + 1)) n (i + 1)

/-- `maxAssocSta` is `gLimAssocStaLimit`, in an IBSS `gLimIbssStaLimit`. -/
def lim_init_peer_idxpool (s : Session) (maxAssocSta : UInt8) : Session :=
  let pool := update s.gpLimPeerIdxpool 0 0
  let (pool, i) := initLoop pool (maxAssocSta.toNat - LIM_START_PEER_IDX.toNat) LIM_START_PEER_IDX
  { s with
    gpLimPeerIdxpool := pool
    freePeerIdxHead := LIM_START_PEER_IDX
    freePeerIdxTail := i }

/-- The sum is kept in 8 bits. -/
def pe_get_current_stas_count (s : Session) (others : Nat) : Nat :=
  (others + s.gLimNumOfCurrentSTAs.toNat) % 2 ^ 8

def lim_assign_peer_idx (s : Session) (others limit : Nat) : UInt16 × Session :=
  if limit ≤ pe_get_current_stas_count s others then (0, s)
  else if s.freePeerIdxHead ≠ 0 then
    let peerId := s.freePeerIdxHead
    let head := s.gpLimPeerIdxpool peerId
    (peerId.toUInt16,
      { s with
        freePeerIdxHead := head
        freePeerIdxTail := if head = 0 then 0 else s.freePeerIdxTail
        gLimNumOfCurrentSTAs := s.gLimNumOfCurrentSTAs + 1
        log := .assign peerId :: s.log })
  else (0, s)

def lim_release_peer_idx (s : Session) (peerIdx : UInt16) : Session :=
  let idx := peerIdx.toUInt8
  let s := { s with gLimNumOfCurrentSTAs := s.gLimNumOfCurrentSTAs - 1, log := .release idx :: s.log }
  let s :=
    if s.freePeerIdxTail ≠ 0 then
      { s with
        gpLimPeerIdxpool := update s.gpLimPeerIdxpool s.freePeerIdxTail idx
        freePeerIdxTail := idx }
    else { s with freePeerIdxTail := idx, freePeerIdxHead := idx }
  { s with gpLimPeerIdxpool := update s.gpLimPeerIdxpool idx 0 }

/-! ## Stations -/

def Session.setState (s : Session) (p : Nat) (st : MlmState) : Session :=
  { s with mlmStaContext := update s.mlmStaContext p { s.mlmStaContext p with mlmState := st } }

def Session.setUpdateContext (s : Session) (p : Nat) (b : Bool) : Session :=
  { s with mlmStaContext := update s.mlmStaContext p { s.mlmStaContext p with updateContext := b } }

def Session.assocId (s : Session) (p : Nat) : UInt16 := (s.dphHashTable.pDphNodeArray p).assocId

def Session.staAddr (s : Session) (p : Nat) : MacAddr := (s.dphHashTable.pDphNodeArray p).staAddr

def Session.dphAdd (s : Session) (staAddr : MacAddr) (assocId : UInt16) (frag : Option UInt32) :
    Option (Option Nat × Session) :=
  (dph_add_hash_entry s.dphHashTable staAddr assocId frag).map fun r =>
    match r.1 with
    | some p =>
      (some p, { s with
        dphHashTable := r.2
        mlmStaContext := update s.mlmStaContext p ⟨.OFFLINE, false⟩ })
    | none => (none, { s with dphHashTable := r.2 })

def Session.dphDelete (s : Session) (staAddr : MacAddr) (assocId : UInt16) : Option Session :=
  (dph_delete_hash_entry s.dphHashTable staAddr assocId).map fun r =>
    { s with dphHashTable := r.2 }

def lim_delete_dph_hash_entry (s : Session) (staAddr : MacAddr) (staId : UInt16) :
    Option Session := do
  match ← dph_lookup_hash_entry s.dphHashTable staAddr with
  | none => some s
  | some _ => s.dphDelete staAddr staId

/-- Whether it returns `eSIR_SUCCESS`. -/
def lim_add_sta (s : Session) (p : Nat) (r : Sent) : Bool × Session :=
  match r with
  | .noMem => (false, s)
  | .notPosted => (false, s.setState p .WT_ADD_STA_RSP)
  | .ok => (true, s.setState p .WT_ADD_STA_RSP)

/-- Whether it returns `eSIR_SUCCESS`. -/
def lim_del_sta (s : Session) (p : Nat) (fRespReqd : Bool) (r : Sent) : Bool × Session :=
  if r = .noMem then (false, s)
  else
    let s :=
      if fRespReqd ∧ (s.mlmStaContext p).mlmState ≠ .WT_ASSOC_DEL_STA_RSP then
        s.setState p .WT_DEL_STA_RSP
      else s
    if r = .ok then (true, { s with delStaReqs := p :: s.delStaReqs }) else (false, s)

def lim_cleanup_rx_path (s : Session) (p : Nat) (del : Sent) : Option Session :=
  if (s.mlmStaContext p).mlmState = .WT_ASSOC_CNF ∧ (s.mlmStaContext p).updateContext = false then
    let s' := if s.limSystemRole = .eLIM_AP_ROLE then lim_release_peer_idx s (s.assocId p) else s
    lim_delete_dph_hash_entry s' (s'.staAddr p) (s'.assocId p)
  else some (lim_del_sta (s.setState p .WT_DEL_STA_RSP) p true del).2

def lim_reject_association (s : Session) (staId : UInt16) (delete_sta : Bool) (del : Sent) :
    Option Session :=
  if delete_sta = false then some s
  else
    match dph_get_hash_entry s.dphHashTable staId with
    | none => some s
    | some p => lim_cleanup_rx_path s p del

def lim_prepare_and_send_del_sta_cnf (s : Session) (p : Nat) : Option Session :=
  let s' := if s.limSystemRole = .eLIM_AP_ROLE then lim_release_peer_idx s (s.assocId p) else s
  lim_delete_dph_hash_entry s' (s'.staAddr p) (s'.assocId p)

/-! ## Stations of an AP -/

/-- How `lim_update_sta_ds` ends: with the entry filled in, without the configured guard intervals,
without a common rate, or without the timer for SA queries. -/
inductive StaDsUpdate where
  | ok
  | noShortGi
  | noRates
  | noTimer
  deriving DecidableEq

def lim_update_sta_ds (s : Session) (peer_idx : UInt16) (upd : StaDsUpdate) (del : Sent) :
    Option (Bool × Session) :=
  match upd with
  | .ok => some (true, s)
  | .noShortGi => some (false, s)
  | .noRates => do
      let s' ← lim_reject_association (lim_release_peer_idx s peer_idx) peer_idx true del
      some (false, s')
  | .noTimer => do
      let s' ← lim_reject_association s peer_idx false del
      some (false, s')

/-- For a station that has no context yet. -/
def lim_update_sta_ctx (s : Session) (p : Nat) (add del : Sent) : Option (Bool × Session) :=
  match lim_add_sta (s.setUpdateContext p false) p add with
  | (true, s') => some (true, s')
  | (false, s') => (lim_reject_association s' (s'.assocId p) true del).map fun s'' => (false, s'')

/-- What the code asks others for while it processes a request. -/
structure AssocEnv where
  accepted : Bool
  others : Nat
  limit : Nat
  frag : Option UInt32
  upd : StaDsUpdate
  add : Sent
  del : Sent

/-- Whether the association goes on, and the session. -/
def lim_process_assoc_req_frame (s : Session) (sa : MacAddr) (env : AssocEnv) :
    Option (Bool × Session) := do
  match ← dph_lookup_hash_entry s.dphHashTable sa with
  | some _ => some (false, s)
  | none =>
    if env.accepted = false then some (false, s)
    else
      match lim_assign_peer_idx s env.others env.limit with
      | (peer_idx, s) =>
        if peer_idx = 0 then
          (lim_reject_association s peer_idx false env.del).map fun s => (false, s)
        else
          match ← s.dphAdd sa peer_idx env.frag with
          | (none, s) =>
            (lim_reject_association (lim_release_peer_idx s peer_idx) peer_idx false env.del).map
              fun s => (false, s)
          | (some p, s) =>
            match ← lim_update_sta_ds s peer_idx env.upd env.del with
            | (false, s) => some (false, s)
            | (true, s) => lim_update_sta_ctx s p env.add env.del

/-- How `lim_send_mlm_assoc_ind` ends: the indication is posted, there is no memory for it, or the
RSN and WPA elements do not fit. -/
inductive AssocInd where
  | posted
  | noMem
  | tooLong
  deriving DecidableEq

def lim_send_mlm_assoc_ind (s : Session) (p : Nat) (ind : AssocInd) : Session :=
  match ind with
  | .noMem => lim_release_peer_idx s (s.assocId p)
  | _ => s

def lim_process_ap_mlm_add_sta_rsp (s : Session) (assocId : UInt16) (ok : Bool) (ind : AssocInd)
    (del : Sent) : Option Session :=
  match dph_get_hash_entry s.dphHashTable assocId with
  | none => some s
  | some p =>
    if (s.mlmStaContext p).mlmState ≠ .WT_ADD_STA_RSP then some s
    else if ok = false then lim_reject_association s (s.assocId p) true del
    else some (lim_send_mlm_assoc_ind (s.setState p .WT_ASSOC_CNF) p ind)

def lim_process_sme_assoc_cnf (s : Session) (aid : UInt16) (peer : MacAddr) (ok : Bool)
    (del : Sent) : Option Session :=
  match dph_get_hash_entry s.dphHashTable aid with
  | none => some s
  | some p =>
    if s.staAddr p ≠ peer then some s
    else if (s.mlmStaContext p).mlmState ≠ .WT_ASSOC_CNF then some s
    else if ok then some (s.setState p .LINK_ESTABLISHED)
    else
      let s' := s.setUpdateContext p true
      lim_reject_association s' (s'.assocId p) true del

def lim_handle_cnf_wait_timeout (s : Session) (staId : UInt16) (del : Sent) : Option Session :=
  match dph_get_hash_entry s.dphHashTable staId with
  | none => some s
  | some p =>
    if (s.mlmStaContext p).mlmState = .WT_ASSOC_CNF ∧ s.limSystemRole = .eLIM_AP_ROLE then
      lim_reject_association s (s.assocId p) true del
    else some s

def lim_process_ap_mlm_del_sta_rsp (s : Session) (assocId : UInt16) (ok : Bool) (add del : Sent) :
    Option Session :=
  match dph_get_hash_entry s.dphHashTable assocId with
  | none => some s
  | some p =>
    let st := (s.mlmStaContext p).mlmState
    if ok = true ∧ st = .WT_ASSOC_DEL_STA_RSP then
      match lim_add_sta s p add with
      | (true, s') => some s'
      | (false, s') => lim_reject_association s' (s'.assocId p) true del
    else if st ≠ .WT_ASSOC_DEL_STA_RSP then lim_prepare_and_send_del_sta_cnf s p
    else some s

/-- The loop of `__lim_handle_sme_stop_bss_request` over the stations, for `n` more of them. -/
def stopLoop (del : Nat → Sent) : Nat → Nat → Session → Option Session
  | 0, _, s => some s
  | n + 1, i, s =>
    match dph_get_hash_entry s.dphHashTable (UInt16.ofNat i) with
    | none => stopLoop del n (i + 1) s
    | some p =>
      match lim_del_sta s p false (del i) with
      | (true, s) => do
          let s ← lim_delete_dph_hash_entry s (s.staAddr p) (s.assocId p)
          stopLoop del n (i + 1) (lim_release_peer_idx s (s.assocId p))
      | (false, s) => stopLoop del n (i + 1) s

/-! ## Peers in an IBSS -/

structure IbssEnv where
  others : Nat
  limit : Nat
  frag : Option UInt32
  add : Sent
  del : Sent

/-- The entry, where the peer gets one. -/
def ibss_dph_entry_add (s : Session) (peerAddr : MacAddr) (env : IbssEnv) :
    Option (Option Nat × Session) := do
  match ← dph_lookup_hash_entry s.dphHashTable peerAddr with
  | some _ => some (none, s)
  | none =>
    match lim_assign_peer_idx s env.others env.limit with
    | (peerIdx, s) =>
      let s ←
        match dph_get_hash_entry s.dphHashTable peerIdx with
        | some p =>
          let s := (lim_del_sta s p false env.del).2
          lim_delete_dph_hash_entry s (s.staAddr p) peerIdx
        | none => some s
      s.dphAdd peerAddr peerIdx env.frag

/-- For a peer that is in the list of peers. -/
def lim_ibss_sta_add (s : Session) (peerAddr : MacAddr) (env : IbssEnv) :
    Option (Bool × Session) := do
  match ← ibss_dph_entry_add s peerAddr env with
  | (none, s) => some (false, s)
  | (some p, s) =>
    let prevState := (s.mlmStaContext p).mlmState
    match lim_add_sta s p env.add with
    | (true, s) => some (true, s)
    | (false, s) =>
      let s := s.setState p prevState
      (s.dphDelete (s.staAddr p) (s.assocId p)).map fun s => (false, s)

/-- What `__lim_ibss_search_and_delete_peer` and `lim_ibss_heart_beat_handle` do with the entry of
a peer. -/
def ibss_peer_departed (s : Session) (mac_addr : MacAddr) : Option Session := do
  match ← dph_lookup_hash_entry s.dphHashTable mac_addr with
  | none => some s
  | some (p, peer_idx) =>
    let s ← lim_delete_dph_hash_entry s (s.staAddr p) peer_idx
    some (lim_release_peer_idx s peer_idx)

def deleteAllLoop : List MacAddr → Session → Option Session
  | [], s => some s
  | mac :: macs, s => do
      match ← dph_lookup_hash_entry s.dphHashTable mac with
      | none => deleteAllLoop macs s
      | some (p, peerIdx) =>
        let s := lim_release_peer_idx s peerIdx
        let s ← s.dphDelete (s.staAddr p) peerIdx
        deleteAllLoop macs s

/-! ## Steps -/

inductive Op where
  | assoc_req (sa : MacAddr) (env : AssocEnv)
  | add_sta_rsp (assocId : UInt16) (ok : Bool) (ind : AssocInd) (del : Sent)
  | assoc_cnf (aid : UInt16) (peer : MacAddr) (ok : Bool) (del : Sent)
  | cnf_wait_timeout (staId : UInt16) (del : Sent)
  | disassoc_req (staId : UInt16)
  | cleanup (staId : UInt16) (del : Sent)
  | del_sta_rsp (assocId : UInt16) (ok : Bool) (add del : Sent)
  | stop_bss (limit : Nat) (del : Nat → Sent)
  | ibss_sta_add (peerAddr : MacAddr) (env : IbssEnv)
  | ibss_peer_departed (mac_addr : MacAddr)
  | ibss_delete_all_peers (macs : List MacAddr)

def Op.forRole (role : LimSystemRole) : Op → Prop
  | .ibss_sta_add .. | .ibss_peer_departed _ | .ibss_delete_all_peers _ =>
    role = .eLIM_STA_IN_IBSS_ROLE
  | .stop_bss .. => True
  | _ => role = .eLIM_AP_ROLE

instance (role : LimSystemRole) (op : Op) : Decidable (op.forRole role) := by
  unfold Op.forRole
  split <;> infer_instance

def perform (s : Session) : Op → Option (Bool × Session)
  | .assoc_req sa env => lim_process_assoc_req_frame s sa env
  | .add_sta_rsp assocId ok ind del =>
    (lim_process_ap_mlm_add_sta_rsp s assocId ok ind del).map fun s => (ok, s)
  | .assoc_cnf aid peer ok del =>
    (lim_process_sme_assoc_cnf s aid peer ok del).map fun s => (ok, s)
  | .cnf_wait_timeout staId del =>
    (lim_handle_cnf_wait_timeout s staId del).map fun s => (false, s)
  | .disassoc_req staId =>
    match dph_get_hash_entry s.dphHashTable staId with
    | none => some (true, s)
    | some p => some (true, s.setState p .WT_DEL_STA_RSP)
  | .cleanup staId del =>
    match dph_get_hash_entry s.dphHashTable staId with
    | none => some (true, s)
    | some p => (lim_cleanup_rx_path s p del).map fun s => (true, s)
  | .del_sta_rsp assocId ok add del =>
    (lim_process_ap_mlm_del_sta_rsp s assocId ok add del).map fun s => (true, s)
  | .stop_bss limit del => (stopLoop del (limit - 1) 1 s).map fun s => (true, s)
  | .ibss_sta_add peerAddr env => lim_ibss_sta_add s peerAddr env
  | .ibss_peer_departed mac_addr => (ibss_peer_departed s mac_addr).map fun s => (true, s)
  | .ibss_delete_all_peers macs => (deleteAllLoop macs s).map fun s => (true, s)

/-- Operations of the other role do not come to the session. -/
def step (s : Session) (op : Op) : Option Session :=
  if op.forRole s.limSystemRole then (perform s op).map Prod.snd else none

def init (role : LimSystemRole) (maxAssocSta : UInt8) (size : Nat) : Session :=
  lim_init_peer_idxpool
    { limSystemRole := role
      gpLimPeerIdxpool := fun _ => 0
      freePeerIdxHead := 0
      freePeerIdxTail := 0
      gLimNumOfCurrentSTAs := 0
      dphHashTable := dph_hash_table_class_init size
      mlmStaContext := fun _ => ⟨.OFFLINE, false⟩
      log := []
      delStaReqs := [] } maxAssocSta

end Qcacld.LimPeerIdx
