/-
Credit groups of the tx queues: `ol_tx_queue.c` and `ol_txrx.c`, under
FEATURE_HL_GROUP_CREDIT_FLOW_CONTROL.

A group has a mask of vdevs and a mask of access categories, and each tx queue points to the groups
it belongs to, so that the scheduler limits what it takes from the queue to the credit of these
groups and charges them for it. When the target changes a group, `ol_tx_set_vdev_group_ptr`
overwrites all pointers of each vdev whose bit changed, whatever the AC mask is and whatever other
group the queues belong to; a change of the AC mask alone reaches no queue, and a vdev that is
attached after its group gets no pointer. The target numbers the bits of the AC mask by `enum
HTT_AC_WMM`, the test of the peer's queues by `enum txrx_wmm_ac`, which has the opposite order.
-/
import Qcacld.Lib.Run
import Mathlib.Data.BitVec

set_option autoImplicit false

namespace Qcacld.TxGroups

open Lib Function List

/-! ## Groups and queues -/

def OL_TX_NUM_QOS_TIDS : Nat := 16
def OL_TX_NUM_TIDS : Nat := 18
def OL_TX_VDEV_NUM_QUEUES : Nat := 2
def OL_TX_MAX_GROUPS_PER_QUEUE : Nat := 1
abbrev OL_TX_MAX_TXQ_GROUPS : Nat := 2

/-- A pointer into `txq_grps`. -/
abbrev GroupId := Fin OL_TX_MAX_TXQ_GROUPS

structure Group where
  /-- The mask of vdevs in the upper half, that of access categories in the lower. -/
  membership : BitVec 32
  credit : Int

structure Txq where
  ext_tid : Nat
  group_ptrs : List (Option GroupId)

structure Peer where
  txqs : List Txq

structure Vdev where
  vdev_id : Nat
  txqs : List Txq
  peer_list : List Peer

structure Pdev where
  txq_grps : GroupId → Group
  vdev_list : List Vdev

def Pdev.init : Pdev := { txq_grps := fun _ => ⟨0, 0⟩, vdev_list := [] }

def Vdev.queues (v : Vdev) : List Txq := v.txqs ++ v.peer_list.flatMap Peer.txqs

def OL_TXQ_GROUP_VDEV_ID_MASK_GET (membership : BitVec 32) : BitVec 32 :=
  (membership &&& 0xffff0000#32) >>> 16

def OL_TXQ_GROUP_VDEV_ID_BIT_MASK_GET (mask : BitVec 32) (vdev_id : Nat) : BitVec 32 :=
  (mask >>> vdev_id) &&& 1#32

def OL_TXQ_GROUP_AC_MASK_GET (membership : BitVec 32) : BitVec 32 := membership &&& 0x0000ffff#32

def OL_TXQ_GROUP_AC_BIT_MASK_GET (mask : BitVec 32) (ac : Nat) : BitVec 32 :=
  (mask >>> ac) &&& 1#32

def OL_TXQ_GROUP_MEMBERSHIP_GET (vdev_mask ac_mask : BitVec 32) : BitVec 32 :=
  (vdev_mask <<< 16) ||| ac_mask

def TXRX_WMM_AC_VO : Nat := 0
def TXRX_WMM_AC_VI : Nat := 1
def TXRX_WMM_AC_BK : Nat := 2
def TXRX_WMM_AC_BE : Nat := 3

def TXRX_TID_TO_WMM_AC (tid : Nat) : Nat :=
  if tid >>> 1 = 3 then TXRX_WMM_AC_VO
  else if tid >>> 1 = 2 then TXRX_WMM_AC_VI
  else if (tid ^^^ (tid >>> 1)) &&& 1 ≠ 0 then TXRX_WMM_AC_BK
  else TXRX_WMM_AC_BE

def ol_tx_vdev_has_tx_queue_group (group : Group) (vdev_id : Nat) : Bool :=
  OL_TXQ_GROUP_VDEV_ID_BIT_MASK_GET (OL_TXQ_GROUP_VDEV_ID_MASK_GET group.membership) vdev_id ≠ 0

def ol_tx_ac_has_tx_queue_group (group : Group) (ac : Nat) : Bool :=
  OL_TXQ_GROUP_AC_BIT_MASK_GET (OL_TXQ_GROUP_AC_MASK_GET group.membership) ac ≠ 0

/-! ## Credit -/

def ol_txrx_update_group_credit (s : Pdev) (group : GroupId) (credit : Int) (absolute : Bool) :
    Pdev :=
  { s with
    txq_grps := update s.txq_grps group
      { s.txq_grps group with
        credit := if absolute then credit else (s.txq_grps group).credit + credit } }

def ol_tx_txq_group_credit_limit (s : Pdev) (txq : Txq) (credit : Int) : Int :=
  let updated_credit := txq.group_ptrs.foldl (fun updated_credit ptr =>
    match ptr with
    | none => updated_credit
    | some group => min updated_credit (s.txq_grps group).credit) credit
  if updated_credit < 0 then 0 else updated_credit

def ol_tx_txq_group_credit_update (s : Pdev) (txq : Txq) (credit : Int) (absolute : Bool) : Pdev :=
  txq.group_ptrs.foldl (fun s ptr =>
    match ptr with
    | none => s
    | some group => ol_txrx_update_group_credit s group credit absolute) s

/-! ## Group pointers -/

def ol_tx_txq_set_group_ptr (txq : Txq) (grp_ptr : Option GroupId) : Txq :=
  { txq with group_ptrs := replicate OL_TX_MAX_GROUPS_PER_QUEUE grp_ptr }

def Vdev.setGroupPtr (v : Vdev) (grp_ptr : Option GroupId) : Vdev :=
  { v with
    txqs := v.txqs.map (ol_tx_txq_set_group_ptr · grp_ptr)
    peer_list := v.peer_list.map fun p =>
      { p with txqs := p.txqs.map (ol_tx_txq_set_group_ptr · grp_ptr) } }

def onVdev (vdev_id : Nat) (f : Vdev → Vdev) : List Vdev → List Vdev
  | [] => []
  | v :: vs => if v.vdev_id = vdev_id then f v :: vs else v :: onVdev vdev_id f vs

def ol_tx_set_vdev_group_ptr (s : Pdev) (vdev_id : Nat) (grp_ptr : Option GroupId) : Pdev :=
  { s with vdev_list := onVdev vdev_id (Vdev.setGroupPtr · grp_ptr) s.vdev_list }

/-- The loop of `ol_tx_set_peer_group_ptr` over the groups, with `j` slots filled. -/
def fillGroupPtrs (s : Pdev) (vdev_id tid : Nat) :
    List GroupId → Nat → List (Option GroupId) → List (Option GroupId)
  | [], _, ptrs => ptrs
  | i :: is, j, ptrs =>
    let found :=
      if ol_tx_vdev_has_tx_queue_group (s.txq_grps i) vdev_id then
        if tid < OL_TX_NUM_QOS_TIDS then
          ol_tx_ac_has_tx_queue_group (s.txq_grps i) (TXRX_TID_TO_WMM_AC tid)
        else true
      else false
    let ptrs := if found then ptrs.set j (some i) else ptrs
    let j := if found then j + 1 else j
    if OL_TX_MAX_GROUPS_PER_QUEUE ≤ j then ptrs else fillGroupPtrs s vdev_id tid is j ptrs

def ol_tx_set_peer_group_ptr (s : Pdev) (vdev_id tid : Nat) : List (Option GroupId) :=
  fillGroupPtrs s vdev_id tid (List.finRange OL_TX_MAX_TXQ_GROUPS) 0
    (replicate OL_TX_MAX_GROUPS_PER_QUEUE none)

def ol_txrx_vdev_txqs_init : List Txq :=
  (range OL_TX_VDEV_NUM_QUEUES).map fun i =>
    ol_tx_txq_set_group_ptr ⟨OL_TX_NUM_TIDS + i, []⟩ none

def ol_txrx_peer_txqs_init (s : Pdev) (vdev_id : Nat) : Peer :=
  ⟨(range OL_TX_NUM_TIDS).map fun i => ⟨i, ol_tx_set_peer_group_ptr s vdev_id i⟩⟩

def Vdev.addPeer (v : Vdev) (p : Peer) : Vdev := { v with peer_list := v.peer_list ++ [p] }

/-! ## Steps -/

inductive Op where
  | update_tx_queue_groups (group_id : Nat) (credit : Int) (absolute : Bool)
      (vdev_id_mask ac_mask : BitVec 32)
  | vdev_attach (vdev_id : Nat)
  | peer_attach (vdev_id : Nat)

/-- The bit of the vdev differs between the group and the new mask. -/
def vdevChanges (group : Group) (vdev_id_mask : BitVec 32) (vdev_id : Nat) : Bool :=
  OL_TXQ_GROUP_VDEV_ID_BIT_MASK_GET (OL_TXQ_GROUP_VDEV_ID_MASK_GET group.membership) vdev_id ≠
    OL_TXQ_GROUP_VDEV_ID_BIT_MASK_GET vdev_id_mask vdev_id

def newGroupPtr (group_id : GroupId) (vdev_id_mask : BitVec 32) (vdev_id : Nat) :
    Option GroupId :=
  if OL_TXQ_GROUP_VDEV_ID_BIT_MASK_GET vdev_id_mask vdev_id = 0 then none else some group_id

def Pdev.setMembership (s : Pdev) (group_id : GroupId) (membership : BitVec 32) : Pdev :=
  { s with
    txq_grps := update s.txq_grps group_id
      { s.txq_grps group_id with membership := membership } }

def ol_txrx_update_tx_queue_groups (s : Pdev) (group_id : GroupId) (credit : Int)
    (absolute : Bool) (vdev_id_mask ac_mask : BitVec 32) : Pdev :=
  let group := s.txq_grps group_id
  let membership := OL_TXQ_GROUP_MEMBERSHIP_GET vdev_id_mask ac_mask
  if group.membership = membership then
    ol_txrx_update_group_credit s group_id credit absolute
  else
    let s := s.vdev_list.foldl (fun t v =>
      if vdevChanges group vdev_id_mask v.vdev_id then
        ol_tx_set_vdev_group_ptr t v.vdev_id (newGroupPtr group_id vdev_id_mask v.vdev_id)
      else t) s
    ol_txrx_update_group_credit (s.setMembership group_id membership) group_id credit absolute

/-- A group id beyond the array, an id that another vdev has and a peer of a vdev that is
not there have no next state. -/
def step (s : Pdev) : Op → Option Pdev
  | .update_tx_queue_groups group_id credit absolute vdev_id_mask ac_mask =>
    if h : group_id < OL_TX_MAX_TXQ_GROUPS then
      some (ol_txrx_update_tx_queue_groups s ⟨group_id, h⟩ credit absolute vdev_id_mask ac_mask)
    else none
  | .vdev_attach vdev_id =>
    if vdev_id ∈ s.vdev_list.map Vdev.vdev_id then none
    else some { s with vdev_list := s.vdev_list ++ [⟨vdev_id, ol_txrx_vdev_txqs_init, []⟩] }
  | .peer_attach vdev_id =>
    if vdev_id ∈ s.vdev_list.map Vdev.vdev_id then
      some { s with
        vdev_list := onVdev vdev_id
          (Vdev.addPeer · (ol_txrx_peer_txqs_init s vdev_id)) s.vdev_list }
    else none

/-! ## Membership -/

/-- The access category of an ext-TID, as `enum HTT_AC_WMM` numbers them: BE, BK, VI and VO,
then non-QoS data, unicast management, multicast data and multicast management. -/
def htt_ac_wmm (ext_tid : Nat) : Nat :=
  if ext_tid < OL_TX_NUM_QOS_TIDS then
    if ext_tid >>> 1 = 3 then 3
    else if ext_tid >>> 1 = 2 then 2
    else if (ext_tid ^^^ (ext_tid >>> 1)) &&& 1 ≠ 0 then 1
    else 0
  else 4 + (ext_tid - OL_TX_NUM_QOS_TIDS)

def Group.includes (group : Group) (vdev_id ac : Nat) : Bool :=
  ol_tx_vdev_has_tx_queue_group group vdev_id && ol_tx_ac_has_tx_queue_group group ac

def Txq.Exact (grps : GroupId → Group) (vdev_id : Nat) (q : Txq) : Prop :=
  ∀ g, q.group_ptrs.count (some g) =
    if (grps g).includes vdev_id (htt_ac_wmm q.ext_tid) then 1 else 0

def Vdev.Exact (grps : GroupId → Group) (v : Vdev) : Prop :=
  ∀ q ∈ v.queues, q.Exact grps v.vdev_id

def Exact (s : Pdev) : Prop := ∀ v ∈ s.vdev_list, v.Exact s.txq_grps

instance (s : Pdev) : Decidable (Exact s) :=
  inferInstanceAs (Decidable (∀ v ∈ s.vdev_list, ∀ q ∈ v.queues, ∀ g : GroupId,
    q.group_ptrs.count (some g) =
      if (s.txq_grps g).includes v.vdev_id (htt_ac_wmm q.ext_tid) then 1 else 0))

/-- What is taken from a queue is charged once to each of its groups and to no other, and
is no more than what each of them has. -/
structure Charged (s : Pdev) : Prop where
  exact : Exact s
  charged : ∀ v ∈ s.vdev_list, ∀ q ∈ v.queues, ∀ (credit : Int) (g : GroupId),
    ((ol_tx_txq_group_credit_update s q credit false).txq_grps g).credit =
      (s.txq_grps g).credit +
        if (s.txq_grps g).includes v.vdev_id (htt_ac_wmm q.ext_tid) then credit else 0
  limited : ∀ v ∈ s.vdev_list, ∀ q ∈ v.queues, ∀ credit n : Int, 0 < n →
    (n ≤ ol_tx_txq_group_credit_limit s q credit ↔
      n ≤ credit ∧
        ∀ g, (s.txq_grps g).includes v.vdev_id (htt_ac_wmm q.ext_tid) →
          n ≤ (s.txq_grps g).credit)

/-! ## What a step may do -/

/-- The access categories of the queues of the vdev. -/
def Vdev.acs (v : Vdev) : List Nat := [6, 7] ++ if v.peer_list = [] then [] else range 6

/-- The test that `ol_tx_set_peer_group_ptr` makes. -/
def peerTest (group : Group) (vdev_id tid : Nat) : Bool :=
  ol_tx_vdev_has_tx_queue_group group vdev_id &&
    (decide (OL_TX_NUM_QOS_TIDS ≤ tid) ||
      ol_tx_ac_has_tx_queue_group group (TXRX_TID_TO_WMM_AC tid))

/-- A vdev that joins the group brings all its access categories and is in no other group;
one that leaves it leaves with all of them and is in no other group; one that does neither
keeps the access categories that it has in the group. -/
def vdevOk (s : Pdev) (group_id : GroupId) (vdev_id_mask : BitVec 32) (new : Group) (v : Vdev) :
    Bool :=
  if vdevChanges (s.txq_grps group_id) vdev_id_mask v.vdev_id then
    v.acs.all fun ac =>
      (new.includes v.vdev_id ac ==
        (OL_TXQ_GROUP_VDEV_ID_BIT_MASK_GET vdev_id_mask v.vdev_id != 0)) &&
      decide (∀ g, g ≠ group_id → (s.txq_grps g).includes v.vdev_id ac = false)
  else
    v.acs.all fun ac =>
      new.includes v.vdev_id ac == (s.txq_grps group_id).includes v.vdev_id ac

def stepOk (s : Pdev) : Op → Bool
  | .update_tx_queue_groups group_id _ _ vdev_id_mask ac_mask =>
    if h : group_id < OL_TX_MAX_TXQ_GROUPS then
      let membership := OL_TXQ_GROUP_MEMBERSHIP_GET vdev_id_mask ac_mask
      (s.txq_grps ⟨group_id, h⟩).membership == membership ||
        s.vdev_list.all (vdevOk s ⟨group_id, h⟩ vdev_id_mask ⟨membership, 0⟩)
    else true
  | .vdev_attach vdev_id =>
    [6, 7].all fun ac => decide (∀ g, (s.txq_grps g).includes vdev_id ac = false)
  | .peer_attach vdev_id =>
    -- the first group that passes the test is the only one that has the queue
    (range OL_TX_NUM_TIDS).all fun tid =>
      decide (∀ g, (s.txq_grps g).includes vdev_id (htt_ac_wmm tid) =
        (peerTest (s.txq_grps g) vdev_id tid &&
          decide (∀ h, h < g → peerTest (s.txq_grps h) vdev_id tid = false)))

/-! ## One queue -/

/-- The queues of a vdev and of its peers have their ext-TIDs and one slot each. -/
structure Vdev.Wf (v : Vdev) : Prop where
  vdev_tids : v.txqs.map Txq.ext_tid = [18, 19]
  peer_tids : ∀ p ∈ v.peer_list, p.txqs.map Txq.ext_tid = range OL_TX_NUM_TIDS
  one_slot : ∀ q ∈ v.queues, ∃ p, q.group_ptrs = [p]

theorem Txq.exact_singleton {grps : GroupId → Group} {vdev_id : Nat} {q : Txq}
    {p : Option GroupId} (hq : q.group_ptrs = [p]) :
    q.Exact grps vdev_id ↔
      ∀ g, p = some g ↔ (grps g).includes vdev_id (htt_ac_wmm q.ext_tid) = true := by
  refine forall_congr' fun g => ?_
  rw [hq]
  by_cases hp : p = some g <;>
    cases (grps g).includes vdev_id (htt_ac_wmm q.ext_tid) <;> simp [hp]

theorem peer_acs (P : Nat → Prop) :
    (∀ tid < OL_TX_NUM_TIDS, P (htt_ac_wmm tid)) ↔ ∀ ac ∈ range 6, P ac := by
  have hmem : ∀ tid < OL_TX_NUM_TIDS, htt_ac_wmm tid ∈ range 6 := by decide
  have hsurj : ∀ ac ∈ range 6, ∃ tid < OL_TX_NUM_TIDS, htt_ac_wmm tid = ac := by decide
  constructor
  · intro h ac hac
    obtain ⟨tid, htid, rfl⟩ := hsurj ac hac
    exact h tid htid
  · intro h tid htid; exact h _ (hmem tid htid)

theorem Vdev.Wf.forall_queues {v : Vdev} (hv : v.Wf) (P : Nat → Prop) :
    (∀ q ∈ v.queues, P (htt_ac_wmm q.ext_tid)) ↔ ∀ ac ∈ v.acs, P ac := by
  have hvdev : (∀ q ∈ v.txqs, P (htt_ac_wmm q.ext_tid)) ↔ P 6 ∧ P 7 := by
    have := forall_mem_map (f := Txq.ext_tid) (l := v.txqs) (P := fun t => P (htt_ac_wmm t))
    rw [← this, hv.vdev_tids]; simp [htt_ac_wmm, OL_TX_NUM_QOS_TIDS]
  have hpeer : ∀ p ∈ v.peer_list,
      ((∀ q ∈ p.txqs, P (htt_ac_wmm q.ext_tid)) ↔ ∀ ac ∈ range 6, P ac) := by
    intro p hp
    have := forall_mem_map (f := Txq.ext_tid) (l := p.txqs) (P := fun t => P (htt_ac_wmm t))
    rw [← this, hv.peer_tids p hp, ← peer_acs]; simp only [mem_range]
  rw [Vdev.queues, forall_mem_append, hvdev, Vdev.acs, forall_mem_append]
  refine and_congr (by simp) ?_
  by_cases hnil : v.peer_list = []
  · simp [hnil]
  · obtain ⟨p, hp⟩ := exists_mem_of_ne_nil _ hnil
    rw [if_neg hnil, ← hpeer p hp]
    constructor
    · intro h q hq; exact h q (mem_flatMap.mpr ⟨p, hp, hq⟩)
    · intro h q hq
      obtain ⟨p', hp', hq'⟩ := mem_flatMap.mp hq
      exact (hpeer p' hp').mpr ((hpeer p hp).mp h) q hq'

/-! ## One vdev -/

variable {grps grps' : GroupId → Group} {v : Vdev}

@[simp] theorem Vdev.setGroupPtr_vdev_id (p : Option GroupId) :
    (v.setGroupPtr p).vdev_id = v.vdev_id := rfl

theorem Vdev.setGroupPtr_queues (p : Option GroupId) :
    (v.setGroupPtr p).queues = v.queues.map (ol_tx_txq_set_group_ptr · p) := by
  simp only [Vdev.queues, Vdev.setGroupPtr, map_append, map_flatMap, flatMap_map]

theorem Vdev.Wf.setGroupPtr (hv : v.Wf) (p : Option GroupId) : (v.setGroupPtr p).Wf where
  vdev_tids := by
    rw [← hv.vdev_tids]; simp [Vdev.setGroupPtr, ol_tx_txq_set_group_ptr, Function.comp_def]
  peer_tids := by
    intro p' hp'
    obtain ⟨p₀, hp₀, rfl⟩ := mem_map.mp hp'
    rw [← hv.peer_tids p₀ hp₀]; simp [ol_tx_txq_set_group_ptr, Function.comp_def]
  one_slot := by
    rw [Vdev.setGroupPtr_queues]
    intro q hq
    obtain ⟨q₀, -, rfl⟩ := mem_map.mp hq
    exact ⟨p, rfl⟩

theorem Vdev.Wf.setGroupPtr_exact (hv : v.Wf) (p : Option GroupId) :
    (v.setGroupPtr p).Exact grps ↔
      ∀ ac ∈ v.acs, ∀ g, p = some g ↔ (grps g).includes v.vdev_id ac = true := by
  rw [← hv.forall_queues (fun ac => ∀ g, p = some g ↔ (grps g).includes v.vdev_id ac = true),
    Vdev.Exact, Vdev.setGroupPtr_queues, forall_mem_map]
  refine forall₂_congr fun q _ => ?_
  rw [Vdev.setGroupPtr_vdev_id, Txq.exact_singleton (p := p) rfl]; rfl

theorem Vdev.Wf.exact_congr (hv : v.Wf) (hex : v.Exact grps) :
    v.Exact grps' ↔
      ∀ ac ∈ v.acs, ∀ g, (grps' g).includes v.vdev_id ac = (grps g).includes v.vdev_id ac := by
  rw [← hv.forall_queues
    (fun ac => ∀ g, (grps' g).includes v.vdev_id ac = (grps g).includes v.vdev_id ac)]
  refine forall₂_congr fun q hq => ?_
  obtain ⟨p, hp⟩ := hv.one_slot q hq
  have hold := (Txq.exact_singleton hp).mp (hex q hq)
  rw [Txq.exact_singleton hp]
  refine forall_congr' fun g => ?_
  rw [hold g]
  constructor
  · intro h; exact (Bool.eq_iff_iff.mpr h).symm
  · intro h; rw [h]

/-! ## The list of vdevs -/

structure Wf (s : Pdev) : Prop where
  nodup : (s.vdev_list.map Vdev.vdev_id).Nodup
  vdevs : ∀ v ∈ s.vdev_list, v.Wf

theorem map_vdev_id_onVdev (vdev_id : Nat) {f : Vdev → Vdev}
    (hf : ∀ v, (f v).vdev_id = v.vdev_id) (l : List Vdev) :
    (onVdev vdev_id f l).map Vdev.vdev_id = l.map Vdev.vdev_id := by
  induction l with
  | nil => rfl
  | cons v vs ih =>
    rw [onVdev]
    split
    · rw [map_cons, map_cons, hf]
    · rw [map_cons, map_cons, ih]

theorem onVdev_eq_map {vdev_id : Nat} {f : Vdev → Vdev} {l : List Vdev}
    (hl : (l.map Vdev.vdev_id).Nodup) :
    onVdev vdev_id f l = l.map fun v => if v.vdev_id = vdev_id then f v else v := by
  induction l with
  | nil => rfl
  | cons v vs ih =>
    rw [map_cons, nodup_cons] at hl
    rw [onVdev, map_cons]
    split
    · rename_i hv
      refine congrArg _ ?_
      rw [map_congr_left (g := id), map_id]
      intro w hw
      have hne : w.vdev_id ≠ vdev_id := by rintro rfl; exact hl.1 (hv ▸ mem_map_of_mem hw)
      exact if_neg hne
    · rw [ih hl.2]

theorem Vdev.setGroupPtr_idem (v : Vdev) (p : Option GroupId) :
    (v.setGroupPtr p).setGroupPtr p = v.setGroupPtr p := by
  simp [Vdev.setGroupPtr, ol_tx_txq_set_group_ptr, Function.comp_def]

theorem foldl_set_vdev_group_ptr (c : Nat → Bool) (p : Nat → Option GroupId) (l : List Vdev) :
    ∀ s : Pdev, (s.vdev_list.map Vdev.vdev_id).Nodup →
      l.foldl (fun t v =>
        if c v.vdev_id then ol_tx_set_vdev_group_ptr t v.vdev_id (p v.vdev_id) else t) s =
      { s with
        vdev_list := s.vdev_list.map fun v =>
          if c v.vdev_id = true ∧ v.vdev_id ∈ l.map Vdev.vdev_id then v.setGroupPtr (p v.vdev_id)
          else v } := by
  induction l with
  | nil => intro s _; simp
  | cons w ws ih =>
    intro s hs
    rw [foldl_cons]
    by_cases hc : c w.vdev_id = true
    · have hids : (onVdev w.vdev_id (Vdev.setGroupPtr · (p w.vdev_id)) s.vdev_list).map
          Vdev.vdev_id = s.vdev_list.map Vdev.vdev_id := 
          map_vdev_id_onVdev _ (f := (Vdev.setGroupPtr · (p w.vdev_id))) (fun _ => rfl) _
      rw [if_pos hc, ih _ (by rw [ol_tx_set_vdev_group_ptr, hids]; exact hs),
        ol_tx_set_vdev_group_ptr, onVdev_eq_map hs, map_map]
      refine congrArg (fun l => { s with vdev_list := l }) (map_congr_left fun v _ => ?_)
      -- a vdev that the rest of the loop meets again gets the same pointer again
      by_cases hv : v.vdev_id = w.vdev_id
      · by_cases hw : w.vdev_id ∈ ws.map Vdev.vdev_id <;>
          simp [hv, hc, hw, Vdev.setGroupPtr_idem]
      · simp [hv]
    · rw [if_neg hc, ih s hs]
      refine congrArg (fun l => { s with vdev_list := l }) (map_congr_left fun v _ => ?_)
      by_cases hv : v.vdev_id = w.vdev_id
      · simp [hv, hc]
      · simp [hv]

/-! ## Updates of a group -/

section Update

variable {s : Pdev} {group_id : GroupId} {credit : Int} {absolute : Bool}
  {vdev_id_mask ac_mask : BitVec 32}

theorem Group.includes_congr {g h : Group} (hm : g.membership = h.membership) (vdev_id ac : Nat) :
    g.includes vdev_id ac = h.includes vdev_id ac := by
  simp only [Group.includes, ol_tx_vdev_has_tx_queue_group, ol_tx_ac_has_tx_queue_group, hm]

theorem Vdev.exact_of_membership (hm : ∀ g, (grps' g).membership = (grps g).membership) :
    v.Exact grps' ↔ v.Exact grps := by
  have hinc : ∀ g ac, (grps' g).includes v.vdev_id ac = (grps g).includes v.vdev_id ac :=
    fun g ac => Group.includes_congr (hm g) _ _
  simp only [Vdev.Exact, Txq.Exact, hinc]

theorem credit_membership (g : GroupId) :
    ((ol_txrx_update_group_credit s group_id credit absolute).txq_grps g).membership =
      (s.txq_grps g).membership := by
  by_cases hg : g = group_id
  · subst hg; simp [ol_txrx_update_group_credit]
  · simp [ol_txrx_update_group_credit, hg]

theorem credit_exact :
    Exact (ol_txrx_update_group_credit s group_id credit absolute) ↔ Exact s :=
  forall₂_congr fun _ _ => Vdev.exact_of_membership credit_membership

def updatedVdev (group : Group) (group_id : GroupId) (vdev_id_mask : BitVec 32) (v : Vdev) :
    Vdev :=
  if vdevChanges group vdev_id_mask v.vdev_id then
    v.setGroupPtr (newGroupPtr group_id vdev_id_mask v.vdev_id)
  else v

theorem updatedVdev_vdev_id (group : Group) :
    (updatedVdev group group_id vdev_id_mask v).vdev_id = v.vdev_id := by
  unfold updatedVdev
  split <;> rfl

theorem Vdev.Wf.updatedVdev (hv : v.Wf) (group : Group) :
    (updatedVdev group group_id vdev_id_mask v).Wf := by
  unfold TxGroups.updatedVdev
  split
  · exact hv.setGroupPtr _
  · exact hv

theorem update_of_membership_ne (hs : Wf s)
    (hm : (s.txq_grps group_id).membership ≠ OL_TXQ_GROUP_MEMBERSHIP_GET vdev_id_mask ac_mask) :
    ol_txrx_update_tx_queue_groups s group_id credit absolute vdev_id_mask ac_mask =
      ol_txrx_update_group_credit
        { s.setMembership group_id (OL_TXQ_GROUP_MEMBERSHIP_GET vdev_id_mask ac_mask) with
          vdev_list := s.vdev_list.map
            (updatedVdev (s.txq_grps group_id) group_id vdev_id_mask) }
        group_id credit absolute := by
  unfold ol_txrx_update_tx_queue_groups
  simp only [if_neg hm]
  rw [foldl_set_vdev_group_ptr (vdevChanges (s.txq_grps group_id) vdev_id_mask)
    (newGroupPtr group_id vdev_id_mask) _ s hs.nodup]
  refine congrArg (ol_txrx_update_group_credit · group_id credit absolute) ?_
  simp only [Pdev.setMembership, Pdev.mk.injEq, true_and]
  refine map_congr_left fun v hv => ?_
  rw [updatedVdev]; simp only [mem_map_of_mem hv, and_true]

theorem newGroupPtr_eq_some {vdev_id : Nat} {g : GroupId} :
    newGroupPtr group_id vdev_id_mask vdev_id = some g ↔
      OL_TXQ_GROUP_VDEV_ID_BIT_MASK_GET vdev_id_mask vdev_id ≠ 0 ∧ g = group_id := by
  unfold newGroupPtr
  split <;> simp_all [eq_comm]

theorem updatedVdev_exact {new : Group} (hv : v.Wf) (hex : v.Exact s.txq_grps) :
    (updatedVdev (s.txq_grps group_id) group_id vdev_id_mask v).Exact
        (update s.txq_grps group_id new) ↔
      vdevOk s group_id vdev_id_mask new v = true := by
  unfold updatedVdev vdevOk
  split
  -- the vdev is in one of the two masks: all its queues get the same new pointer
  · rw [hv.setGroupPtr_exact, all_eq_true]
    refine forall₂_congr fun ac _ => ?_
    rw [Bool.and_eq_true, decide_eq_true_iff, beq_iff_eq]
    constructor
    · intro h
      refine ⟨?_, fun g hg => ?_⟩
      · have := h group_id
        rw [newGroupPtr_eq_some, update_self] at this
        rw [Bool.eq_iff_iff, ← this]; simp
      · have := h g
        rw [newGroupPtr_eq_some, Function.update_of_ne hg] at this
        exact Bool.eq_false_iff.mpr fun hinc => hg (this.mpr hinc).2
    · rintro ⟨hgid, hother⟩ g
      rw [newGroupPtr_eq_some]
      by_cases hg : g = group_id
      · subst hg
        rw [update_self, hgid]; simp
      · rw [Function.update_of_ne hg, hother g hg]; simp [hg]
  -- its queues keep their pointers while the group's membership changes
  · rw [hv.exact_congr hex, all_eq_true]
    refine forall₂_congr fun ac _ => ?_
    rw [beq_iff_eq]
    constructor
    · intro h
      have := h group_id
      rwa [update_self] at this
    · intro h g
      by_cases hg : g = group_id
      · subst hg; rw [update_self, h]
      · rw [Function.update_of_ne hg]

theorem update_exact (hs : Wf s) (hex : Exact s) :
    Exact (ol_txrx_update_tx_queue_groups s group_id credit absolute vdev_id_mask ac_mask) ↔
      stepOk s (.update_tx_queue_groups group_id credit absolute vdev_id_mask ac_mask) = true := by
  have hok : stepOk s (.update_tx_queue_groups group_id credit absolute vdev_id_mask ac_mask) =
      ((s.txq_grps group_id).membership == OL_TXQ_GROUP_MEMBERSHIP_GET vdev_id_mask ac_mask ||
        s.vdev_list.all (vdevOk s group_id vdev_id_mask
          ⟨OL_TXQ_GROUP_MEMBERSHIP_GET vdev_id_mask ac_mask, 0⟩)) := by
    simp only [stepOk, group_id.isLt, dite_true]
  rw [hok, Bool.or_eq_true, beq_iff_eq]
  by_cases hm : (s.txq_grps group_id).membership =
      OL_TXQ_GROUP_MEMBERSHIP_GET vdev_id_mask ac_mask
  · unfold ol_txrx_update_tx_queue_groups
    simp only [hm, if_true, true_or, iff_true]
    exact credit_exact.mpr hex
  · rw [update_of_membership_ne hs hm, credit_exact, all_eq_true]
    simp only [hm, false_or]
    refine Iff.trans forall_mem_map (forall₂_congr fun v hv => ?_)
    rw [← updatedVdev_exact (hs.vdevs v hv) (hex v hv)]
    refine Vdev.exact_of_membership fun g => ?_
    by_cases hg : g = group_id
    · subst hg; simp [Pdev.setMembership]
    · simp [Pdev.setMembership, hg]

end Update

/-! ## Attaching -/

section Attach

variable {s : Pdev} {vdev_id : Nat}

theorem vdev_txqs_init_wf : (Vdev.mk vdev_id ol_txrx_vdev_txqs_init []).Wf where
  vdev_tids := rfl
  peer_tids := by simp
  one_slot := by
    intro q hq
    simp only [Vdev.queues, ol_txrx_vdev_txqs_init, flatMap_nil, append_nil] at hq
    obtain ⟨i, -, rfl⟩ := mem_map.mp hq
    exact ⟨none, rfl⟩

theorem vdev_attach_exact (hex : Exact s) :
    Exact { s with vdev_list := s.vdev_list ++ [⟨vdev_id, ol_txrx_vdev_txqs_init, []⟩] } ↔
      stepOk s (.vdev_attach vdev_id) = true := by
  have hset : Vdev.mk vdev_id ol_txrx_vdev_txqs_init [] =
      (Vdev.mk vdev_id ol_txrx_vdev_txqs_init []).setGroupPtr none := rfl
  have hnew : (Vdev.mk vdev_id ol_txrx_vdev_txqs_init []).Exact s.txq_grps ↔
      stepOk s (.vdev_attach vdev_id) = true := by
    rw [hset, vdev_txqs_init_wf.setGroupPtr_exact]; simp [stepOk, Vdev.acs]
  rw [← hnew]
  constructor
  · intro h; exact h _ (mem_append_right _ (mem_singleton_self _))
  · intro h v hv
    rcases mem_append.mp hv with hv | hv
    · exact hex v hv
    · rw [mem_singleton.mp hv]; exact h

theorem fillGroupPtrs_eq (tid : Nat) (is : List GroupId) :
    fillGroupPtrs s vdev_id tid is 0 [none] =
      [is.find? fun g => peerTest (s.txq_grps g) vdev_id tid] := by
  have htest : ∀ i, (if ol_tx_vdev_has_tx_queue_group (s.txq_grps i) vdev_id then
      if tid < OL_TX_NUM_QOS_TIDS then
        ol_tx_ac_has_tx_queue_group (s.txq_grps i) (TXRX_TID_TO_WMM_AC tid)
      else true
    else false) = peerTest (s.txq_grps i) vdev_id tid := by
    intro i
    unfold peerTest
    by_cases htid : tid < OL_TX_NUM_QOS_TIDS
    · cases ol_tx_vdev_has_tx_queue_group (s.txq_grps i) vdev_id <;> simp [htid]
    · cases ol_tx_vdev_has_tx_queue_group (s.txq_grps i) vdev_id <;> simp [htid, not_lt.mp htid]
  induction is with
  | nil => rfl
  | cons i is ih =>
    simp only [fillGroupPtrs, htest, OL_TX_MAX_GROUPS_PER_QUEUE]
    by_cases hi : peerTest (s.txq_grps i) vdev_id tid = true
    · simp [hi]
    · simp [hi, ih]

theorem find_test_eq_some {P : GroupId → Bool} {g : GroupId} :
    (List.finRange OL_TX_MAX_TXQ_GROUPS).find? P = some g ↔ P g = true ∧ ∀ h, h < g → P h = false := by
  rw [find?_eq_some_iff_getElem]
  constructor
  · rintro ⟨hg, i, hi, rfl, hlt⟩
    refine ⟨hg, fun h hh => ?_⟩
    have hhi : h.val < i := by simpa [Fin.lt_def] using hh
    simpa using hlt h.val hhi
  · rintro ⟨hg, hlt⟩
    have hglt : g.val < (List.finRange OL_TX_MAX_TXQ_GROUPS).length := by exact g.isLt
    refine ⟨hg, g.val, hglt, by simp, fun j hj => ?_⟩
    have hjn : j < OL_TX_MAX_TXQ_GROUPS := hj.trans g.isLt
    simpa using hlt ⟨j, hjn⟩ hj

theorem peer_txqs_init_exact :
    (∀ q ∈ (ol_txrx_peer_txqs_init s vdev_id).txqs, q.Exact s.txq_grps vdev_id) ↔
      stepOk s (.peer_attach vdev_id) = true := by
  rw [ol_txrx_peer_txqs_init, forall_mem_map, stepOk, all_eq_true]
  refine forall₂_congr fun tid _ => ?_
  rw [Txq.exact_singleton (fillGroupPtrs_eq tid _), decide_eq_true_iff]
  refine forall_congr' fun g => ?_
  have hbool : ((s.txq_grps g).includes vdev_id (htt_ac_wmm tid) =
      (peerTest (s.txq_grps g) vdev_id tid &&
        decide (∀ h, h < g → peerTest (s.txq_grps h) vdev_id tid = false))) ↔
      ((s.txq_grps g).includes vdev_id (htt_ac_wmm tid) = true ↔
        (peerTest (s.txq_grps g) vdev_id tid = true ∧
          ∀ h, h < g → peerTest (s.txq_grps h) vdev_id tid = false)) := by
    rw [Bool.eq_iff_iff, Bool.and_eq_true, decide_eq_true_iff]
  rw [find_test_eq_some, hbool]; exact iff_comm

theorem Vdev.mem_addPeer_queues {p : Peer} {q : Txq} :
    q ∈ (v.addPeer p).queues ↔ q ∈ v.queues ∨ q ∈ p.txqs := by
  simp only [Vdev.queues, Vdev.addPeer, flatMap_append, mem_append, flatMap_singleton, or_assoc]

theorem Vdev.Wf.addPeer (hv : v.Wf) :
    (v.addPeer (ol_txrx_peer_txqs_init s vdev_id)).Wf where
  vdev_tids := hv.vdev_tids
  peer_tids := by
    intro p hp
    rcases mem_append.mp hp with hp | hp
    · exact hv.peer_tids p hp
    · rw [mem_singleton.mp hp]; simp [ol_txrx_peer_txqs_init, Function.comp_def]
  one_slot := by
    intro q hq
    rcases Vdev.mem_addPeer_queues.mp hq with hq | hq
    · exact hv.one_slot q hq
    · obtain ⟨tid, -, rfl⟩ := mem_map.mp hq; exact ⟨_, fillGroupPtrs_eq tid _⟩

theorem peer_attach_exact (hs : Wf s) (hex : Exact s)
    (hmem : vdev_id ∈ s.vdev_list.map Vdev.vdev_id) :
    Exact { s with
        vdev_list := onVdev vdev_id
          (Vdev.addPeer · (ol_txrx_peer_txqs_init s vdev_id)) s.vdev_list } ↔
      stepOk s (.peer_attach vdev_id) = true := by
  rw [← peer_txqs_init_exact, onVdev_eq_map hs.nodup]
  constructor
  · intro h q hq
    obtain ⟨v, hv, rfl⟩ := mem_map.mp hmem
    have := h _ (mem_map_of_mem hv)
    rw [if_pos rfl] at this; exact this q (Vdev.mem_addPeer_queues.mpr (.inr hq))
  · intro h w hw
    obtain ⟨v, hv, rfl⟩ := mem_map.mp hw
    split
    · rename_i hid
      intro q hq
      rcases Vdev.mem_addPeer_queues.mp hq with hq | hq
      · exact hex v hv q hq
      · have := h q hq; rwa [← hid] at this
    · exact hex v hv

end Attach

/-! ## Charging -/

section Charge

variable {s : Pdev}

theorem credit_update_credit (credit : Int) (g : GroupId) (ptrs : List (Option GroupId)) :
    ∀ s : Pdev, ((ol_tx_txq_group_credit_update s ⟨0, ptrs⟩ credit false).txq_grps g).credit =
      (s.txq_grps g).credit + ptrs.count (some g) * credit := by
  induction ptrs with
  | nil => intro s; simp [ol_tx_txq_group_credit_update]
  | cons ptr ptrs ih =>
    intro s
    have hcons : ol_tx_txq_group_credit_update s ⟨0, ptr :: ptrs⟩ credit false =
        ol_tx_txq_group_credit_update
          (match ptr with
            | none => s
            | some group => ol_txrx_update_group_credit s group credit false)
          ⟨0, ptrs⟩ credit false := rfl
    rw [hcons, ih]
    cases ptr with
    | none => simp
    | some group =>
      by_cases hg : group = g
      · subst hg
        simp only [ol_txrx_update_group_credit, update_self, count_cons_self]
        push_cast
        simp only [Int.add_mul, Int.one_mul]
        omega
      · have hne : g ≠ group := fun h => hg h.symm; simp [ol_txrx_update_group_credit, hg, hne]

theorem le_credit_limit (n credit : Int) (hn : 0 < n) (ptrs : List (Option GroupId)) :
    n ≤ ol_tx_txq_group_credit_limit s ⟨0, ptrs⟩ credit ↔
      n ≤ credit ∧ ∀ g, some g ∈ ptrs → n ≤ (s.txq_grps g).credit := by
  have hfold : ∀ c : Int, n ≤ ptrs.foldl (fun updated_credit ptr =>
      match ptr with
      | none => updated_credit
      | some group => min updated_credit (s.txq_grps group).credit) c ↔
        n ≤ c ∧ ∀ g, some g ∈ ptrs → n ≤ (s.txq_grps g).credit := by
    induction ptrs with
    | nil => simp
    | cons ptr ptrs ih =>
      intro c
      cases ptr with
      | none => simp [ih]
      | some group => simp [ih, and_assoc]
  rw [← hfold credit, ol_tx_txq_group_credit_limit]
  split
  · rename_i hneg
    constructor
    · intro h; omega
    · intro h; exact absurd (hn.trans_le h) (not_lt.mpr hneg.le)
  · rfl

theorem Exact.charged (hex : Exact s) : Charged s where
  exact := hex
  charged := by
    intro v hv q hq credit g
    refine (credit_update_credit credit g q.group_ptrs s).trans ?_
    rw [hex v hv q hq g]
    split <;> simp
  limited := by
    intro v hv q hq credit n hn
    refine (le_credit_limit n credit hn q.group_ptrs).trans (and_congr_right fun _ => ?_)
    refine forall_congr' fun g => ?_
    rw [← count_pos_iff, hex v hv q hq g]
    split <;> simp_all

end Charge

/-! ## Runs -/

theorem init_exact : Exact Pdev.init := by intro v hv; cases hv

theorem init_wf : Wf Pdev.init where
  nodup := nodup_nil
  vdevs := nofun

theorem Wf.step {s s' : Pdev} {op : Op} (hs : Wf s) (h : step s op = some s') : Wf s' := by
  cases op with
  | update_tx_queue_groups group_id credit absolute vdev_id_mask ac_mask =>
    simp only [TxGroups.step] at h
    split at h
    · rename_i hlt
      cases h
      by_cases hm : (s.txq_grps ⟨group_id, hlt⟩).membership =
          OL_TXQ_GROUP_MEMBERSHIP_GET vdev_id_mask ac_mask
      · unfold ol_txrx_update_tx_queue_groups
        simp only [hm, if_true]
        exact ⟨hs.nodup, hs.vdevs⟩
      · rw [update_of_membership_ne hs hm]
        -- only group pointers change, never which vdevs and queues there are
        refine ⟨?_, forall_mem_map.mpr fun v hv => (hs.vdevs v hv).updatedVdev _⟩
        have := hs.nodup
        simpa [ol_txrx_update_group_credit, Function.comp_def, updatedVdev_vdev_id] using this
    · cases h
  | vdev_attach vdev_id =>
    simp only [TxGroups.step] at h
    split at h
    · cases h
    · rename_i hnew
      cases h
      constructor
      · rw [map_append, nodup_append]
        refine ⟨hs.nodup, nodup_singleton _, ?_⟩
        intro a ha b hb hab
        rw [map_singleton, mem_singleton] at hb
        rw [hab, hb] at ha; exact hnew ha
      · intro v hv
        rcases mem_append.mp hv with hv | hv
        · exact hs.vdevs v hv
        · rw [mem_singleton.mp hv]; exact vdev_txqs_init_wf
  | peer_attach vdev_id =>
    simp only [TxGroups.step] at h
    split at h
    · cases h
      constructor
      · have hids := map_vdev_id_onVdev vdev_id
          (f := (Vdev.addPeer · (ol_txrx_peer_txqs_init s vdev_id))) (fun _ => rfl) s.vdev_list
        rw [hids]; exact hs.nodup
      · intro w hw
        rw [onVdev_eq_map hs.nodup] at hw
        obtain ⟨v, hv, rfl⟩ := mem_map.mp hw
        split
        · exact (hs.vdevs v hv).addPeer
        · exact hs.vdevs v hv
    · cases h

theorem step_exact {s s' : Pdev} {op : Op} (hs : Wf s) (hex : Exact s)
    (h : step s op = some s') : Exact s' ↔ stepOk s op = true := by
  cases op with
  | update_tx_queue_groups group_id credit absolute vdev_id_mask ac_mask =>
    simp only [step] at h
    split at h
    · rename_i hlt
      cases h
      exact @update_exact s ⟨group_id, hlt⟩ credit absolute vdev_id_mask ac_mask hs hex
    · cases h
  | vdev_attach vdev_id =>
    simp only [step] at h
    split at h
    · cases h
    · cases h; exact vdev_attach_exact hex
  | peer_attach vdev_id =>
    simp only [step] at h
    split at h
    · rename_i hmem
      cases h
      exact peer_attach_exact hs hex hmem
    · cases h

/-- In every run of updates and attaches whose masks agree with the pointers that the code
sets, each queue points to exactly the groups that its vdev and access category are in, and
is charged once to each; and the first step that does not meet the condition breaks it. -/
theorem groups_charged_once {ops : List Op} {s : Pdev}
    (h : run (guarded (fun s op => stepOk s op = true) step) Pdev.init ops = some s) :
    Charged s ∧
      ∀ op s', step s op = some s' →
        (Exact s' ↔ stepOk s op = true) ∧ (stepOk s op = true → Charged s') := by
  have hinv : Wf s ∧ Exact s := by
    refine guarded_run_invariant (I := fun t => Wf t ∧ Exact t) ?_ ⟨init_wf, init_exact⟩ h
    intro t op t' ⟨hwf, hex⟩ hok hst; exact ⟨hwf.step hst, (step_exact hwf hex hst).mpr hok⟩
  refine ⟨hinv.2.charged, fun op s' hst => ?_⟩
  have hiff := step_exact hinv.1 hinv.2 hst
  exact ⟨hiff, fun hok => (hiff.mpr hok).charged⟩

/-- A vdev joins a group with all its access categories, and a peer follows. -/
theorem groups_charged_once_joined :
    ∃ s, run (guarded (fun s op => stepOk s op = true) step) Pdev.init
        [.vdev_attach 0, .update_tx_queue_groups 0 8 true 1 0xff, .peer_attach 0] = some s ∧
      Charged s := by
  exact exists_of_tested (fun _ => True) (by decide +kernel) fun s hs _ =>
    (groups_charged_once hs).1

/-- The target makes a group of the best-effort queues of vdev 0. The queue of its peer for
TID 5, video, then points to the group and is charged to it. -/
theorem other_category_charged :
    ∃ s, run step Pdev.init
        [.vdev_attach 0, .peer_attach 0, .update_tx_queue_groups 0 8 true 1 0x1] = some s ∧
      ¬ Exact s ∧
      ∃ v ∈ s.vdev_list, ∃ q ∈ v.queues,
        q.ext_tid = 5 ∧ htt_ac_wmm q.ext_tid = 2 ∧
          (s.txq_grps 0).includes v.vdev_id 2 = false ∧ q.group_ptrs = [some 0] ∧
          ((ol_tx_txq_group_credit_update s q (-1) false).txq_grps 0).credit ≠
            (s.txq_grps 0).credit := by
  exact exists_of_tested _ (by decide +kernel) fun s _ hcharged => hcharged

end Qcacld.TxGroups
