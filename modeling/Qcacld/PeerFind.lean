/-
The peer object's life: `ol_txrx_peer_find.c` and the peer half of `ol_txrx.c`.

Memory is explicit. `Pdev.peer p` is `none` before the allocation of `p` and after its release,
addresses are not reused, and reading a released peer has no result, so a use after free is a step
with no next state. Each call below is one critical section of `peer_ref_mutex`; a lookup and the
release that matches it are two separate steps, with anything in between. What a peer carries for
other components (tx queues, rx reorder state, security, the association state machine) is not read
by these functions and is left out.
-/
import Qcacld.Lib.Run
import Mathlib.Algebra.Order.Ring.Int

set_option autoImplicit false

namespace Qcacld.Peer

open Lib Function

/-! ## Data -/

def max_peer_id : Nat := 511

def HTT_INVALID_PEER : Nat := 0xffff

def MAX_NUM_PEER_ID_PER_PEER : Nat := 8

def OL_TXRX_NUM_LOCAL_PEER_IDS : Nat := 33

def OL_TXRX_INVALID_LOCAL_PEER_ID : Nat := 0xffff

/-- `union ol_txrx_align_mac_addr_t`, as its three 16-bit words. -/
structure MacAddr where
  bytes_ab : UInt16
  bytes_cd : UInt16
  bytes_ef : UInt16
deriving DecidableEq

abbrev PeerPtr := Nat
abbrev VdevId := Nat

/-- The fields of `struct ol_txrx_peer_t` that the reference count and the
lookup tables depend on. -/
structure OlPeer where
  vdev : VdevId
  mac_addr : MacAddr
  peer_ids : List Nat
  local_id : Nat
  ref_cnt : Int
  valid : Bool
  delete_in_progress : Bool

/-- `pdev->local_peer_ids`: `pool` links the free ids, the last one to itself. -/
structure LocalPeerIds where
  freelist : Nat
  pool : Nat → Nat
  map : Nat → Option PeerPtr

/-- The pdev, its vdevs and the peer objects.

`attached`, `lookups` and `freed` are not in the source: they record which
peers still owe a detach, how many lookups of each peer are outstanding, and
which objects went to `cdf_mem_free`. No function reads them except to check
that a caller releases only what it holds. -/
structure Pdev where
  peer : PeerPtr → Option OlPeer
  nextPeer : PeerPtr
  peer_hash : Nat → List PeerPtr
  peer_id_to_obj_map : Nat → Option PeerPtr
  local_peer_ids : LocalPeerIds
  peer_list : VdevId → List PeerPtr
  vdev_mac_addr : VdevId → MacAddr
  last_real_peer : VdevId → Option PeerPtr
  wait_on_peer_id : VdevId → Nat
  wait_delete_comp : VdevId → Bool
  waiting : List (VdevId × MacAddr)
  attached : PeerPtr → Bool
  lookups : PeerPtr → Nat
  freed : List PeerPtr

def ol_txrx_local_peer_id_pool_init : LocalPeerIds where
  freelist := 0
  pool := fun i => if i < OL_TXRX_NUM_LOCAL_PEER_IDS then i + 1 else i
  map := fun _ => none

def Pdev.init (vdev_mac_addr : VdevId → MacAddr) : Pdev where
  peer := fun _ => none
  nextPeer := 0
  peer_hash := fun _ => []
  peer_id_to_obj_map := fun _ => none
  local_peer_ids := ol_txrx_local_peer_id_pool_init
  peer_list := fun _ => []
  vdev_mac_addr := vdev_mac_addr
  last_real_peer := fun _ => none
  wait_on_peer_id := fun _ => OL_TXRX_INVALID_LOCAL_PEER_ID
  wait_delete_comp := fun _ => false
  waiting := []
  attached := fun _ => false
  lookups := fun _ => 0
  freed := []

def Pdev.modifyPeer (s : Pdev) (p : PeerPtr) (f : OlPeer → OlPeer) : Pdev :=
  { s with peer := update s.peer p ((s.peer p).map f) }

/-! ## The MAC address hash -/

/-- `pdev->peer_hash.idx_bits`: twice `max_peer_id + 1` bins, rounded up to a
power of two, is 1024. -/
def peer_hash_idx_bits : Nat := 10

def peer_hash_mask : Nat := 2 ^ peer_hash_idx_bits - 1

def ol_txrx_peer_find_hash_index (mac : MacAddr) : Nat :=
  let index := mac.bytes_ab.toNat ^^^ mac.bytes_cd.toNat ^^^ mac.bytes_ef.toNat
  let index := index ^^^ (index >>> peer_hash_idx_bits)
  index &&& peer_hash_mask

/-- `cdf_atomic_inc(&peer->ref_cnt)` and `cdf_atomic_dec`. -/
def atomic_add (s : Pdev) (p : PeerPtr) (n : Int) : Pdev :=
  s.modifyPeer p fun peer => { peer with ref_cnt := peer.ref_cnt + n }

/-- `TAILQ_FOREACH` with a test, stopping at the first hit. The outer `none` is
a released peer met on the way. -/
def tailq_find (s : Pdev) (test : OlPeer → Bool) : List PeerPtr → Option (Option PeerPtr)
  | [] => some none
  | p :: ps => (s.peer p).bind fun peer =>
    if test peer then some (some p) else tailq_find s test ps

/-- The body the two hash lookups share: search the bin and take a reference to
what is found. -/
def hash_find_with (s : Pdev) (mac : MacAddr) (test : OlPeer → Bool) :
    Option (Pdev × Option PeerPtr) :=
  (tailq_find s (fun peer => peer.mac_addr = mac && test peer)
    (s.peer_hash (ol_txrx_peer_find_hash_index mac))).map fun
      | none => (s, none)
      | some p => (atomic_add s p 1, some p)

def ol_txrx_peer_find_hash_find (s : Pdev) (mac : MacAddr) (check_valid : Bool) :
    Option (Pdev × Option PeerPtr) :=
  hash_find_with s mac fun peer => !check_valid || peer.valid

def ol_txrx_peer_vdev_find_hash (s : Pdev) (v : VdevId) (mac : MacAddr)
    (check_valid : Bool) : Option (Pdev × Option PeerPtr) :=
  hash_find_with s mac fun peer => (!check_valid || peer.valid) && peer.vdev = v

/-- New peers go to the tail of their bin, so that of two peers with one MAC
address the older is found. -/
def ol_txrx_peer_find_hash_add (s : Pdev) (p : PeerPtr) (mac : MacAddr) : Pdev :=
  let index := ol_txrx_peer_find_hash_index mac
  { s with peer_hash := update s.peer_hash index (s.peer_hash index ++ [p]) }

def ol_txrx_peer_find_hash_remove (s : Pdev) (p : PeerPtr) (mac : MacAddr) : Pdev :=
  let index := ol_txrx_peer_find_hash_index mac
  { s with peer_hash := update s.peer_hash index ((s.peer_hash index).erase p) }

/-! ## Local peer ids -/

def ol_txrx_local_peer_id_alloc (s : Pdev) (p : PeerPtr) : Pdev :=
  let ids := s.local_peer_ids
  let i := ids.freelist
  if ids.pool i = i then
    -- the list is empty, except for the list-end marker
    s.modifyPeer p fun peer => { peer with local_id := OL_TXRX_INVALID_LOCAL_PEER_ID }
  else
    { s.modifyPeer p (fun peer => { peer with local_id := i }) with
      local_peer_ids := { ids with freelist := ids.pool i, map := update ids.map i (some p) } }

def ol_txrx_local_peer_id_free (s : Pdev) (peer : OlPeer) : Pdev :=
  let ids := s.local_peer_ids
  let i := peer.local_id
  if i = OL_TXRX_INVALID_LOCAL_PEER_ID ∨ OL_TXRX_NUM_LOCAL_PEER_IDS ≤ i then s
  else
    { s with
      local_peer_ids :=
        { pool := update ids.pool i ids.freelist, freelist := i, map := update ids.map i none } }

/-! ## Releasing a reference -/

/-- The part of `ol_txrx_peer_unref_delete` behind `cdf_atomic_dec_and_test`:
unlink the peer from the hash and from its vdev, wake an attach that waits for
it, and free it. -/
def peer_delete (s : Pdev) (p : PeerPtr) (peer : OlPeer) : Pdev :=
  let v := peer.vdev
  let s := ol_txrx_peer_find_hash_remove s p peer.mac_addr
  let awaited : Bool := peer.local_id = s.wait_on_peer_id v
  { s with
    peer_list := update s.peer_list v ((s.peer_list v).erase p)
    wait_delete_comp :=
      if awaited then update s.wait_delete_comp v true else s.wait_delete_comp
    wait_on_peer_id :=
      if awaited then update s.wait_on_peer_id v OL_TXRX_INVALID_LOCAL_PEER_ID
      else s.wait_on_peer_id
    peer := update s.peer p none
    freed := p :: s.freed }

def ol_txrx_peer_unref_delete (s : Pdev) (p : PeerPtr) : Option Pdev :=
  (s.peer p).map fun peer =>
    if peer.ref_cnt = 0 then s
    else if peer.ref_cnt - 1 = 0 then peer_delete s p peer
    else atomic_add s p (-1)

/-! ## Attach and detach -/

/-- The peer state machine is not modelled; what is left of
`ol_txrx_peer_state_update` is a lookup of a valid peer and a plain
`cdf_atomic_dec`. -/
def ol_txrx_peer_state_update (s : Pdev) (mac : MacAddr) : Option Pdev :=
  (ol_txrx_peer_find_hash_find s mac true).map fun
    | (s, none) => s
    | (s, some p) => atomic_add s p (-1)

/-- A zeroed peer object with the fields `ol_txrx_peer_attach` sets. -/
def newPeer (v : VdevId) (mac : MacAddr) : OlPeer where
  vdev := v
  mac_addr := mac
  peer_ids := List.replicate MAX_NUM_PEER_ID_PER_PEER HTT_INVALID_PEER
  local_id := 0
  -- one reference for attach, one for ol_rx_peer_map_handler
  ref_cnt := 2
  valid := true
  delete_in_progress := false

/-- Link a new peer into its vdev. -/
def attach_link (s : Pdev) (v : VdevId) (mac : MacAddr) : Pdev :=
  { s with
    peer := update s.peer s.nextPeer (some (newPeer v mac))
    nextPeer := s.nextPeer + 1
    attached := update s.attached s.nextPeer true
    peer_list := update s.peer_list v (s.peer_list v ++ [s.nextPeer])
    last_real_peer :=
      if s.vdev_mac_addr v = mac then s.last_real_peer
      else update s.last_real_peer v (some s.nextPeer) }

def attach_create (s : Pdev) (v : VdevId) (mac : MacAddr) (malloc_ok : Bool) : Option Pdev :=
  if malloc_ok then
    let p := s.nextPeer
    let s := attach_link s v mac
    let s := ol_txrx_peer_find_hash_add s p mac
    (ol_txrx_peer_state_update s mac).map fun s => ol_txrx_local_peer_id_alloc s p
  else some s

/-- The duplicate scan of `ol_txrx_peer_attach`: whether the call is refused,
and the local id of the last duplicate that is on its way out. -/
def attach_scan (s : Pdev) (mac : MacAddr) :
    List PeerPtr → Option Nat → Option (Bool × Option Nat)
  | [], wait => some (false, wait)
  | p :: ps, wait => (s.peer p).bind fun peer =>
    if peer.mac_addr = mac then
      if peer.delete_in_progress then attach_scan s mac ps (some peer.local_id)
      else some (true, wait)
    else attach_scan s mac ps wait

/-- `ol_txrx_peer_attach`, up to the point where it either returns or goes to
sleep on `wait_delete_comp`. -/
def ol_txrx_peer_attach (s : Pdev) (v : VdevId) (mac : MacAddr) (malloc_ok : Bool) :
    Option Pdev :=
  (attach_scan s mac (s.peer_list v) none).bind fun
    | (true, none) => some s
    | (refused, some lid) =>
      let s :=
        { s with
          wait_on_peer_id := update s.wait_on_peer_id v lid
          wait_delete_comp := update s.wait_delete_comp v false }
      if refused then some s
      else some { s with waiting := (v, mac) :: s.waiting }
    | (false, none) => attach_create s v mac malloc_ok

/-- The rest of a call that went to sleep: woken by `wait_delete_comp`, or
timed out. -/
def attach_resume (s : Pdev) (v : VdevId) (mac : MacAddr) (woken malloc_ok : Bool) :
    Option Pdev :=
  if (v, mac) ∈ s.waiting then
    let s := { s with waiting := s.waiting.erase (v, mac) }
    if woken then
      if s.wait_delete_comp v then attach_create s v mac malloc_ok else none
    else
      some { s with
        wait_on_peer_id := update s.wait_on_peer_id v OL_TXRX_INVALID_LOCAL_PEER_ID }
  else none

/-- `ol_txrx_peer_detach`, by the caller that owns the attachment. -/
def ol_txrx_peer_detach (s : Pdev) (p : PeerPtr) : Option Pdev :=
  if s.attached p then
    (s.peer p).bind fun peer =>
      let s := s.modifyPeer p fun peer => { peer with valid := false }
      let s := ol_txrx_local_peer_id_free s peer
      let s :=
        { s with
          last_real_peer :=
            if s.last_real_peer peer.vdev = some p then update s.last_real_peer peer.vdev none
            else s.last_real_peer }
      let s := s.modifyPeer p fun peer => { peer with delete_in_progress := true }
      let s := { s with attached := update s.attached p false }
      ol_txrx_peer_unref_delete s p
  else none

/-! ## HTT messages -/

/-- `pdev->peer_id_to_obj_map[peer_id] = o`. -/
def Pdev.setIdMap (s : Pdev) (peer_id : Nat) (o : Option PeerPtr) : Pdev :=
  { s with peer_id_to_obj_map := update s.peer_id_to_obj_map peer_id o }

/-- Store the id in the first free place; `none` is the source's failure, with
all eight in use. -/
def ol_txrx_peer_find_add_id_to_obj : List Nat → Nat → Option (List Nat)
  | [], _ => none
  | i :: ids, peer_id =>
    if i = HTT_INVALID_PEER then some (peer_id :: ids)
    else (ol_txrx_peer_find_add_id_to_obj ids peer_id).map (i :: ·)

/-- The id map has `max_peer_id + 1` entries; a write past it has no result. -/
def ol_txrx_peer_find_add_id (s : Pdev) (mac : MacAddr) (peer_id : Nat) : Option Pdev :=
  (ol_txrx_peer_find_hash_find s mac false).bind fun
    | (s, none) => some s
    | (s, some p) =>
      if peer_id ≤ max_peer_id then
        let s := s.setIdMap peer_id (some p)
        (s.peer p).bind fun peer =>
          -- the reference for the first id was already taken by attach
          (if peer.peer_ids.head? = some HTT_INVALID_PEER then ol_txrx_peer_unref_delete s p
            else some s).bind fun s =>
              (s.peer p).map fun _ =>
                s.modifyPeer p fun peer =>
                  { peer with
                    peer_ids :=
                      (ol_txrx_peer_find_add_id_to_obj peer.peer_ids peer_id).getD
                        peer.peer_ids }
      else none

/-- `ol_rx_peer_map_handler`, without the tx queue unpausing of HL systems. -/
def ol_rx_peer_map_handler (s : Pdev) (peer_id : Nat) (mac : MacAddr) : Option Pdev :=
  ol_txrx_peer_find_add_id s mac peer_id

def ol_rx_peer_unmap_handler (s : Pdev) (peer_id : Nat) : Option Pdev :=
  if peer_id ≤ max_peer_id then
    let peer := if peer_id = HTT_INVALID_PEER then none else s.peer_id_to_obj_map peer_id
    let s := s.setIdMap peer_id none
    match peer with
    | none => some s
    | some p => ol_txrx_peer_unref_delete s p
  else none

/-! ## Lookups by id

These take no reference. -/

def ol_txrx_peer_find_by_id (s : Pdev) (peer_id : Nat) : Option (Option PeerPtr) :=
  match if peer_id > max_peer_id then none else s.peer_id_to_obj_map peer_id with
  | none => some none
  | some p => (s.peer p).map fun peer => if peer.valid then some p else none

/-- `ol_txrx_assoc_peer_find`: a reference to the vdev's last real peer, once an
HTT peer id has been set up for it. -/
def ol_txrx_assoc_peer_find (s : Pdev) (v : VdevId) : Option (Pdev × Option PeerPtr) :=
  match s.last_real_peer v with
  | none => some (s, none)
  | some p => (s.peer p).map fun peer =>
    if peer.peer_ids.head? ≠ some HTT_INVALID_PEER then (atomic_add s p 1, some p)
    else (s, none)

/-! ## The interleaving -/

/-- What can happen to the peer tables, one critical section at a time. -/
inductive Op where
  | attach (v : VdevId) (mac : MacAddr) (malloc_ok : Bool)
  | attach_resume (v : VdevId) (mac : MacAddr) (woken malloc_ok : Bool)
  | detach (p : PeerPtr)
  | peer_map (peer_id : Nat) (mac : MacAddr)
  | peer_unmap (peer_id : Nat)
  | hash_find (mac : MacAddr) (check_valid : Bool)
  | vdev_find_hash (v : VdevId) (mac : MacAddr) (check_valid : Bool)
  | assoc_peer_find (v : VdevId)
  /-- `ol_tx_queue_vdev_flush` takes a reference to a peer of the vdev's list. -/
  | vdev_flush_ref (v : VdevId) (p : PeerPtr)
  | find_by_id (peer_id : Nat)
  | find_by_local_id (local_peer_id : Nat)
  /-- The holder of a lookup calls `ol_txrx_peer_unref_delete`. -/
  | unref_delete (p : PeerPtr)
  /-- The holder of a lookup does a plain `cdf_atomic_dec(&peer->ref_cnt)`, as
  `ol_txrx_peer_state_update`, `ol_txrx_peer_update` and
  `ol_txrx_find_peer_by_addr` do. -/
  | atomic_dec (p : PeerPtr)

def holdLookup : Pdev × Option PeerPtr → Pdev
  | (s, none) => s
  | (s, some p) => { s with lookups := update s.lookups p (s.lookups p + 1) }

def dropLookup (s : Pdev) (p : PeerPtr) : Option Pdev :=
  if s.lookups p = 0 then none
  else some { s with lookups := update s.lookups p (s.lookups p - 1) }

def step (s : Pdev) : Op → Option Pdev
  | .attach v mac ok => ol_txrx_peer_attach s v mac ok
  | .attach_resume v mac woken ok => attach_resume s v mac woken ok
  | .detach p => ol_txrx_peer_detach s p
  | .peer_map peer_id mac => ol_rx_peer_map_handler s peer_id mac
  | .peer_unmap peer_id => ol_rx_peer_unmap_handler s peer_id
  | .hash_find mac cv => (ol_txrx_peer_find_hash_find s mac cv).map holdLookup
  | .vdev_find_hash v mac cv => (ol_txrx_peer_vdev_find_hash s v mac cv).map holdLookup
  | .assoc_peer_find v => (ol_txrx_assoc_peer_find s v).map holdLookup
  | .vdev_flush_ref v p =>
    if p ∈ s.peer_list v then
      (s.peer p).map fun _ => holdLookup (atomic_add s p 1, some p)
    else none
  | .find_by_id peer_id => (ol_txrx_peer_find_by_id s peer_id).map fun _ => s
  | .find_by_local_id _ => some s
  | .unref_delete p => (dropLookup s p).bind fun s => ol_txrx_peer_unref_delete s p
  | .atomic_dec p => (dropLookup s p).bind fun s => (s.peer p).map fun _ => atomic_add s p (-1)

/-- What the callers promise: they release what they hold, they name an
allocated id map entry, and they wake up only when woken. -/
def callerOk (s : Pdev) : Op → Bool
  | .attach_resume v mac woken _ => (v, mac) ∈ s.waiting && (!woken || s.wait_delete_comp v)
  | .detach p => s.attached p
  | .peer_map peer_id _ => peer_id ≤ max_peer_id
  | .peer_unmap peer_id => peer_id ≤ max_peer_id
  | .vdev_flush_ref v p => p ∈ s.peer_list v
  | .unref_delete p => s.lookups p ≠ 0
  | .atomic_dec p => s.lookups p ≠ 0
  | _ => true

end Qcacld.Peer
