/-
TDLS peers of a STA session: `lim_process_tdls.c`.

The pool and the station table are those of the peer indices (`pe`); a STA session leaves index 1 to
the AP (`DPH_STA_HASH_INDEX_PEER`). What is kept of the capabilities in an entry is `ι`, and `fill`
in a request is what `lim_tdls_update_hash_node_info` makes of them. The environment of a call has
the number of stations of other sessions and the limit, the outcomes of posting to the firmware, and
whether there is memory for the response. A message has the number of its request, the one to the
firmware also the entry that the peer had before; the code does not have these.
-/
import Mathlib.Data.UInt
import Qcacld.LimPeerIdxInv

set_option autoImplicit false

namespace Qcacld.LimTdls

open Function
open DphTable LimPeerIdx

section

section

def DPH_STA_HASH_INDEX_PEER : UInt16 := 1

/-- `STA_ENTRY_PEER` is `STA_ENTRY_OTHER`. -/
inductive StaType where
  | STA_ENTRY_SELF
  | STA_ENTRY_OTHER
  | STA_ENTRY_BSSID
  | STA_ENTRY_BCAST
  | STA_ENTRY_TDLS_PEER
  deriving DecidableEq

/-- The two states of `tLimSmeStates` in which TDLS is possible, and the others. -/
inductive SmeState where
  | eLIM_SME_ASSOCIATED_STATE
  | eLIM_SME_LINK_EST_STATE
  | other
  deriving DecidableEq

inductive TdlsOper where
  | TDLS_OPER_ADD
  | TDLS_OPER_UPDATE
  deriving DecidableEq

inductive RetStatus where
  | eSIR_SUCCESS
  | eSIR_FAILURE
  | eSIR_MEM_ALLOC_FAILED

abbrev Entry (ι : Type) := UInt16 × StaType × ι

structure AddStaReq (ι : Type) where
  bssid : MacAddr
  peermac : MacAddr
  tdlsAddOper : TdlsOper
  fill : ι → ι

/-- `tAddStaParams`, which the firmware hands back with its answer. -/
structure AddStaParams (ι : Type) where
  req : Nat
  staMac : MacAddr
  updateSta : Bool
  before : Option (Entry ι)

/-- The messages to SME. A response has its status, which is `true` for `eSIR_SUCCESS`. -/
inductive SmeMsg where
  | TDLS_ADD_STA_RSP (req : Nat) (statusCode : Bool) (peermac : MacAddr) (tdlsAddOper : TdlsOper)
      (staId : Option UInt16)
  | TDLS_DEL_STA_RSP (req : Nat) (statusCode : Bool) (peermac : MacAddr) (staId : UInt16)
  | TDLS_DEL_ALL_PEER_IND

structure Session (ι : Type) where
  bssId : MacAddr
  isSta : Bool
  limSmeState : SmeState
  gLimAddStaTdls : Bool
  pe : LimPeerIdx.Session
  staType : Nat → StaType
  caps : Nat → ι
  peerAIDBitmap : Nat → BitVec 32
  addStaReqs : List (AddStaParams ι)
  sme : List SmeMsg
  reqs : Nat

variable {ι : Type}

/-! ## The bitmap -/

def SET_BIT (value : BitVec 32) (mask : Nat) : BitVec 32 := value ||| 1#32 <<< mask

def CLEAR_BIT (value : BitVec 32) (mask : Nat) : BitVec 32 := value &&& ~~~(1#32 <<< mask)

def CHECK_BIT (value : BitVec 32) (mask : Nat) : Bool := value &&& 1#32 <<< mask != 0

def SET_PEER_AID_BITMAP (peer_bitmap : Nat → BitVec 32) (aid : Nat) : Nat → BitVec 32 :=
  if aid < 32 then update peer_bitmap 0 (SET_BIT (peer_bitmap 0) aid)
  else if aid < 64 then update peer_bitmap 1 (SET_BIT (peer_bitmap 1) (aid - 32))
  else peer_bitmap

def CLEAR_PEER_AID_BITMAP (peer_bitmap : Nat → BitVec 32) (aid : Nat) : Nat → BitVec 32 :=
  if aid < 32 then update peer_bitmap 0 (CLEAR_BIT (peer_bitmap 0) aid)
  else if aid < 64 then update peer_bitmap 1 (CLEAR_BIT (peer_bitmap 1) (aid - 32))
  else peer_bitmap

/-! ## Responses -/

def lim_send_sme_tdls_add_sta_rsp (s : Session ι) (mem : Bool) (req : Nat) (peerMac : MacAddr)
    (updateSta : Bool) (pStaDs : Option Nat) (status : Bool) : Session ι :=
  if mem then
    let staId := pStaDs.map fun p => (s.pe.dphHashTable.pDphNodeArray p).staIndex
    let oper := if updateSta then .TDLS_OPER_UPDATE else .TDLS_OPER_ADD
    { s with sme := .TDLS_ADD_STA_RSP req status peerMac oper staId :: s.sme }
  else s

def lim_send_sme_tdls_del_sta_rsp (s : Session ι) (mem : Bool) (req : Nat) (peerMac : MacAddr)
    (pStaDs : Option Nat) (status : Bool) : Session ι :=
  if mem then
    let staId := match pStaDs with
      | some p => (s.pe.dphHashTable.pDphNodeArray p).staIndex
      | none => STA_INVALID_IDX
    { s with sme := .TDLS_DEL_STA_RSP req status peerMac staId :: s.sme }
  else s

/-! ## Adding a peer -/

structure AddEnv where
  others : Nat
  limit : Nat
  frag : Option UInt32
  add : Sent
  del : Sent
  mem : Bool

def askFirmware (s : Session ι) (r : AddStaReq ι) (req : Nat) (before : Option (Entry ι)) (p : Nat)
    (add : Sent) : RetStatus × Session ι :=
  let s := { s with
    caps := update s.caps p (r.fill (s.caps p))
    staType := update s.staType p .STA_ENTRY_TDLS_PEER
    pe := (lim_add_sta s.pe p add).2 }
  match add with
  | .noMem => (.eSIR_MEM_ALLOC_FAILED, s)
  | .notPosted => (.eSIR_FAILURE, s)
  | .ok => (.eSIR_SUCCESS, { s with
      addStaReqs := s.addStaReqs ++
        [⟨req, s.pe.staAddr p, decide (r.tdlsAddOper = .TDLS_OPER_UPDATE), before⟩] })

def dropStale (pe : LimPeerIdx.Session) (aid : UInt16) (del : Sent) : Option LimPeerIdx.Session :=
  match dph_get_hash_entry pe.dphHashTable aid with
  | none => some pe
  | some p =>
    let pe := (lim_del_sta pe p false del).2
    lim_delete_dph_hash_entry pe (pe.staAddr p) aid

/-- `dph_init_sta_state` zeroes the entry. -/
def lim_tdls_setup_add_sta [Inhabited ι] (s : Session ι) (r : AddStaReq ι) (req : Nat)
    (env : AddEnv) : Option (RetStatus × Session ι) :=
  (dph_lookup_hash_entry s.pe.dphHashTable r.peermac).bind fun
    | some (p, aid) =>
      some (askFirmware s r req (some (aid, s.staType p, s.caps p)) p env.add)
    | none =>
      let (aid, pe) := lim_assign_peer_idx s.pe env.others env.limit
      if aid = 0 then some (.eSIR_FAILURE, { s with pe := pe })
      else
        let bitmap := SET_PEER_AID_BITMAP s.peerAIDBitmap aid.toNat
        (dropStale pe aid env.del).bind fun pe =>
        (pe.dphAdd r.peermac aid env.frag).map fun
          | (none, pe) => (.eSIR_FAILURE, { s with pe := pe, peerAIDBitmap := bitmap })
          | (some p, pe) =>
            let s := { s with
              pe := pe
              peerAIDBitmap := bitmap
              caps := update s.caps p default }
            askFirmware s r req none p env.add

def Session.mayTdls (s : Session ι) (bssid : MacAddr) : Bool :=
  decide (bssid = s.bssId) && s.isSta &&
    (decide (s.limSmeState = .eLIM_SME_ASSOCIATED_STATE) ||
      decide (s.limSmeState = .eLIM_SME_LINK_EST_STATE))

def lim_process_sme_tdls_add_sta_req [Inhabited ι] (s : Session ι) (r : AddStaReq ι)
    (env : AddEnv) : Option (Session ι) :=
  let req := s.reqs
  let s := { s with reqs := req + 1 }
  let refuse (s : Session ι) := lim_send_sme_tdls_add_sta_rsp s env.mem req r.peermac
    (decide (r.tdlsAddOper = .TDLS_OPER_UPDATE)) none false
  if s.mayTdls r.bssid then
    (lim_tdls_setup_add_sta { s with gLimAddStaTdls := true } r req env).map fun
      | (.eSIR_FAILURE, s) => refuse s
      | (_, s) => s
  else some (refuse s)

/-- `status` and `staIdx` are those that the firmware has put into `pAddStaParams`. -/
def lim_process_tdls_add_sta_rsp (s : Session ι) (params : AddStaParams ι) (status : Bool)
    (staIdx : UInt16) (mem : Bool) : Option (Session ι) :=
  let answer (s : Session ι) (p : Option Nat) (status : Bool) :=
    lim_send_sme_tdls_add_sta_rsp s mem params.req params.staMac params.updateSta p status
  if status then
    (dph_lookup_hash_entry s.pe.dphHashTable params.staMac).map fun
      | none => answer s none false
      | some (p, _) =>
        let t := s.pe.dphHashTable
        let pe := { s.pe with
          dphHashTable := t.setNode p { t.pDphNodeArray p with staIndex := staIdx, valid := true } }
        answer { s with pe := pe.setState p .LINK_ESTABLISHED } (some p) true
  else some (answer s none false)

/-- The answer to the `k`-th message that the firmware has. Without the flag it is taken for one
about the AP. -/
def lim_process_add_sta_rsp (s : Session ι) (k : Nat) (status : Bool) (staIdx : UInt16)
    (mem : Bool) : Option (Session ι) :=
  match s.addStaReqs[k]? with
  | none => some s
  | some params =>
    let s := { s with addStaReqs := s.addStaReqs.eraseIdx k }
    if s.gLimAddStaTdls then
      (lim_process_tdls_add_sta_rsp s params status staIdx mem).map fun s =>
        { s with gLimAddStaTdls := false }
    else some s

/-! ## Deleting peers -/

structure DelEnv where
  del : Sent
  mem : Bool

/-- The entry that is deleted. -/
def lim_tdls_del_sta (s : Session ι) (peerMac : MacAddr) (del : Sent) :
    Option (Option Nat × Session ι) :=
  (dph_lookup_hash_entry s.pe.dphHashTable peerMac).map fun
    | none => (none, s)
    | some (p, _) => (some p, { s with pe := (lim_del_sta s.pe p false del).2 })

def lim_process_sme_tdls_del_sta_req (s : Session ι) (bssid peermac : MacAddr) (env : DelEnv) :
    Option (Session ι) :=
  let req := s.reqs
  let s := { s with reqs := req + 1 }
  let answer (s : Session ι) := lim_send_sme_tdls_del_sta_rsp s env.mem req peermac
  if s.mayTdls bssid then
    (lim_tdls_del_sta s peermac env.del).bind fun
      | (some p, s) =>
        let s := answer s (some p) true
        let assocId := s.pe.assocId p
        let pe := lim_release_peer_idx s.pe assocId
        (lim_delete_dph_hash_entry pe (pe.staAddr p) assocId).map fun pe =>
          { s with
            pe := pe
            peerAIDBitmap := CLEAR_PEER_AID_BITMAP s.peerAIDBitmap assocId.toNat }
      | (none, s) => some (answer s none false)
  else some (answer s none false)

/-- The body of the two loops, for bit `aid` of word `i`. -/
def deletePeer (s : Session ι) (i aid : Nat) : Option (Session ι) :=
  if CHECK_BIT (s.peerAIDBitmap i) aid then
    let idx := UInt16.ofNat (aid + i * 32)
    (match dph_get_hash_entry s.pe.dphHashTable idx with
      | some p => s.pe.dphDelete (s.pe.staAddr p) (s.pe.assocId p)
      | none => some s.pe).map fun pe =>
    { s with
      pe := lim_release_peer_idx pe idx
      peerAIDBitmap := update s.peerAIDBitmap i (CLEAR_BIT (s.peerAIDBitmap i) aid) }
  else some s

/-- The two loops in one, for `n` more bits. -/
def deleteLoop : Nat → Nat → Session ι → Option (Session ι)
  | 0, _, s => some s
  | n + 1, idx, s => (deletePeer s (idx / 32) (idx % 32)).bind (deleteLoop n (idx + 1))

def lim_delete_tdls_peers (s : Session ι) (roamSynch : Bool) : Option (Session ι) :=
  (deleteLoop 64 0 s).map fun s =>
    if roamSynch then s else { s with sme := .TDLS_DEL_ALL_PEER_IND :: s.sme }

/-! ## Steps -/

inductive Op (ι : Type) where
  | add_sta_req (r : AddStaReq ι) (env : AddEnv)
  | add_sta_rsp (k : Nat) (status : Bool) (staIdx : UInt16) (mem : Bool)
  | del_sta_req (bssid peermac : MacAddr) (env : DelEnv)
  | delete_tdls_peers (roamSynch : Bool)
  | sme_state (st : SmeState)

def step [Inhabited ι] (s : Session ι) : Op ι → Option (Session ι)
  | .add_sta_req r env => lim_process_sme_tdls_add_sta_req s r env
  | .add_sta_rsp k status staIdx mem => lim_process_add_sta_rsp s k status staIdx mem
  | .del_sta_req bssid peermac env => lim_process_sme_tdls_del_sta_req s bssid peermac env
  | .delete_tdls_peers roamSynch => lim_delete_tdls_peers s roamSynch
  | .sme_state st => some { s with limSmeState := st }

/-- What a session starts from. -/
structure Setup where
  bssId : MacAddr
  maxAssocSta : UInt8
  size : Nat
  frag : Option UInt32
  max_le : maxAssocSta.toNat ≤ 63
  max_lt : max 2 maxAssocSta.toNat < size
  size_le : size ≤ 255

/-- The pool of a STA session: `lim_init_peer_idxpool` begins behind the index of the AP. -/
def initPool (maxAssocSta : UInt8) (size : Nat) : LimPeerIdx.Session :=
  let (pool, i) := initLoop (fun _ => 0) (maxAssocSta.toNat - 2) 2
  { limSystemRole := .eLIM_AP_ROLE
    gpLimPeerIdxpool := pool
    freePeerIdxHead := 2
    freePeerIdxTail := i
    gLimNumOfCurrentSTAs := 0
    dphHashTable := dph_hash_table_class_init size
    mlmStaContext := fun _ => ⟨.OFFLINE, false⟩
    log := []
    delStaReqs := [] }

def init [Inhabited ι] (c : Setup) : Option (Session ι) :=
  ((initPool c.maxAssocSta c.size).dphAdd c.bssId DPH_STA_HASH_INDEX_PEER c.frag).map fun r =>
    { bssId := c.bssId
      isSta := true
      limSmeState := .eLIM_SME_LINK_EST_STATE
      gLimAddStaTdls := false
      pe := r.2
      staType := fun _ => .STA_ENTRY_SELF
      caps := fun _ => default
      peerAIDBitmap := fun _ => 0
      addStaReqs := []
      sme := []
      reqs := 0 }

end

open List
open Lib

/-! A STA session's pool is that of an AP that has given index 1 to a station (`withAp`), so that
the rules of the peer indices apply. -/

/-! ## The bitmap -/

def bit (bitmap : Nat → BitVec 32) (i : Nat) : Bool := (bitmap (i / 32)).getLsbD (i % 32)

section Bits

variable {value : BitVec 32} {bitmap : Nat → BitVec 32} {m n i aid : Nat}

theorem getLsbD_one_shift (hm : m < 32) : (1#32 <<< m).getLsbD n = decide (n = m) := by
  rcases Nat.lt_trichotomy n m with h | rfl | h
  · simp [h, Nat.ne_of_lt h]
  · simp [hm]
  · have h1 : n - m ≠ 0 := by omega
    simp [BitVec.getLsbD_one, h1, Nat.ne_of_gt h]

theorem check_bit (hm : m < 32) : CHECK_BIT value m = value.getLsbD m := by
  have hand (n : Nat) : (value &&& 1#32 <<< m).getLsbD n = (value.getLsbD n && decide (n = m)) := by
    rw [BitVec.getLsbD_and, getLsbD_one_shift hm]
  cases hb : value.getLsbD m with
  | true =>
    apply bne_iff_ne.mpr
    intro hzero
    have hm' := hand m
    rw [hzero, hb, decide_eq_true rfl] at hm'
    exact Bool.false_ne_true (BitVec.getLsbD_zero.symm.trans hm')
  | false =>
    rw [CHECK_BIT, bne_eq_false_iff_eq]
    apply BitVec.eq_of_getLsbD_eq
    intro n _
    rw [hand]
    by_cases hn : n = m
    · subst hn
      rw [hb]; exact BitVec.getLsbD_zero.symm
    · rw [decide_eq_false hn, Bool.and_false]; exact BitVec.getLsbD_zero.symm

theorem set_bit (hm : m < 32) :
    (SET_BIT value m).getLsbD n = (value.getLsbD n || decide (n = m)) := by
  rw [SET_BIT, BitVec.getLsbD_or, getLsbD_one_shift hm]

theorem clear_bit (hm : m < 32) (hn : n < 32) :
    (CLEAR_BIT value m).getLsbD n = (value.getLsbD n && !decide (n = m)) := by
  rw [CLEAR_BIT, BitVec.getLsbD_and, BitVec.getLsbD_not, getLsbD_one_shift hm, decide_eq_true hn,
    Bool.true_and]

theorem word_eq (f : BitVec 32 → Nat → BitVec 32) (haid : aid < 64) :
    (if aid < 32 then update bitmap 0 (f (bitmap 0) aid)
      else if aid < 64 then update bitmap 1 (f (bitmap 1) (aid - 32)) else bitmap) =
      update bitmap (aid / 32) (f (bitmap (aid / 32)) (aid % 32)) := by
  split
  next h => rw [Nat.div_eq_of_lt h, Nat.mod_eq_of_lt h]
  next h => rw [show aid / 32 = 1 by omega, show aid % 32 = aid - 32 by omega]

theorem bit_update (f : BitVec 32 → Nat → BitVec 32) (g : Bool → Bool → Bool)
    (hf : ∀ v m n, m < 32 → n < 32 → (f v m).getLsbD n = g (v.getLsbD n) (decide (n = m)))
    (hg : ∀ b, g b false = b) :
    bit (update bitmap (aid / 32) (f (bitmap (aid / 32)) (aid % 32))) i =
      g (bit bitmap i) (decide (i = aid)) := by
  by_cases hw : i / 32 = aid / 32
  · rw [bit, hw, update_self, hf _ _ _ (by omega) (by omega), bit, hw]
    congr 1
    apply decide_eq_decide.mpr
    omega
  · rw [bit, update_of_ne hw, decide_eq_false (by rintro rfl; exact hw rfl), hg, bit]

theorem bit_set (haid : aid < 64) :
    bit (SET_PEER_AID_BITMAP bitmap aid) i = (bit bitmap i || decide (i = aid)) := by
  rw [SET_PEER_AID_BITMAP, word_eq SET_BIT haid]
  exact bit_update SET_BIT (· || ·) (fun _ _ _ hm _ => set_bit hm) Bool.or_false

theorem bit_clear (haid : aid < 64) :
    bit (CLEAR_PEER_AID_BITMAP bitmap aid) i = (bit bitmap i && !decide (i = aid)) := by
  rw [CLEAR_PEER_AID_BITMAP, word_eq CLEAR_BIT haid]
  exact bit_update CLEAR_BIT (· && !·) (fun _ _ _ => clear_bit) Bool.and_true

theorem update_clear (hi : i < 64) :
    update bitmap (i / 32) (CLEAR_BIT (bitmap (i / 32)) (i % 32)) =
      CLEAR_PEER_AID_BITMAP bitmap i := by rw [CLEAR_PEER_AID_BITMAP, word_eq CLEAR_BIT hi]

end Bits

/-! ## The pool of a STA session

A STA session is as one of an AP that has given index 1 to a station. -/

def withAp (pe : LimPeerIdx.Session) : LimPeerIdx.Session :=
  { pe with
    gLimNumOfCurrentSTAs := pe.gLimNumOfCurrentSTAs + 1
    log := pe.log ++ [.assign 1] }

section Pool

variable {pe pe' : LimPeerIdx.Session} {top size : Nat} {free : List UInt8}

theorem release_withAp (i : UInt16) :
    lim_release_peer_idx (withAp pe) i = withAp (lim_release_peer_idx pe i) := by
  have hnum : pe.gLimNumOfCurrentSTAs + 1 - 1 = pe.gLimNumOfCurrentSTAs - 1 + 1 := by
    rw [UInt16.add_sub_cancel, UInt16.sub_add_cancel]
  by_cases htail : pe.freePeerIdxTail ≠ 0
  · simp only [lim_release_peer_idx, withAp, if_pos htail, hnum, cons_append]
  · simp only [lim_release_peer_idx, withAp, if_neg htail, hnum, cons_append]

theorem dphAdd_withAp (staAddr : MacAddr) (assocId : UInt16) (frag : Option UInt32) :
    (withAp pe).dphAdd staAddr assocId frag =
      (pe.dphAdd staAddr assocId frag).map fun r => (r.1, withAp r.2) := by
  rw [LimPeerIdx.Session.dphAdd, LimPeerIdx.Session.dphAdd, Option.map_map]
  congr 1
  funext r
  obtain ⟨p, t⟩ := r
  cases p with
  | none => rfl
  | some p => rfl

theorem dphAdd_log {staAddr : MacAddr} {assocId : UInt16} {frag : Option UInt32}
    {p : Option Nat} (h : pe.dphAdd staAddr assocId frag = some (p, pe')) : pe'.log = pe.log := by
  obtain ⟨⟨q, t⟩, -, heq⟩ := Option.map_eq_some_iff.mp h
  cases q with
  | none => obtain ⟨-, rfl⟩ := Prod.mk.inj heq; rfl
  | some q => obtain ⟨-, rfl⟩ := Prod.mk.inj heq; rfl

theorem samePool_withAp (h : SamePool pe pe') : SamePool (withAp pe) (withAp pe') :=
  ⟨h.role, h.pool, h.head, h.tail, congrArg (· + 1) h.num, h.dph,
    congrArg (· ++ [PoolEvent.assign 1]) h.log⟩

theorem take_withAp (h : LimPeerIdx.Inv top size free (withAp pe)) (htop : top < size)
    (hsize : size ≤ 255) {others limit : Nat} (hidx : HasIdx pe others limit) {staAddr : MacAddr}
    (hnew : ∀ q, pe.Added q → pe.staAddr q ≠ staAddr) (frag : Option UInt32) :
    ∃ i pe₁ pe₂ free', lim_assign_peer_idx pe others limit = (i, pe₁) ∧ i ≠ 0 ∧
      dph_get_hash_entry pe₁.dphHashTable i = none ∧
      pe₁.dphAdd staAddr i frag = some (some i.toNat, pe₂) ∧
      LimPeerIdx.Inv top size free' (withAp pe₂) ∧ pe₂.log = .assign i.toUInt8 :: pe.log ∧
      Took i.toNat staAddr (withAp pe) (withAp pe₂) ∧
      SameBut i.toNat pe.dphHashTable pe₂.dphHashTable := by
  have hidx' : HasIdx (withAp pe) others 256 := ⟨Nat.mod_lt _ (by decide), hidx.2⟩
  obtain ⟨i, s₁, s₂, free', hassign, hne, hget, hadd, hinv, htook, hsame⟩ :=
    h.take htop hsize hidx' hnew frag
  obtain ⟨rfl, rfl⟩ := Prod.mk.inj ((assign_eq hidx').symm.trans hassign)
  have htake : (withAp pe).takeHead = withAp pe.takeHead := rfl
  rw [htake] at hget hadd
  rw [dphAdd_withAp] at hadd
  obtain ⟨⟨p, pe₂⟩, hone, heq⟩ := Option.map_eq_some_iff.mp hadd
  obtain ⟨rfl, rfl⟩ := Prod.mk.inj heq
  refine ⟨_, pe.takeHead, pe₂, free', assign_eq hidx, hne, hget, hone, hinv, ?_, htook, hsame⟩
  rw [dphAdd_log hone, UInt8.toUInt8_toUInt16]; rfl

theorem drop_withAp (h : LimPeerIdx.Inv top size free (withAp pe)) (htop : top < size)
    (hsize : size ≤ 255) {p : Nat} (hp : pe.Added p) {t' : HashTable} (hgood : Good t')
    (hsame : SameBut p pe.dphHashTable t') (hout : ¬t'.Added p) :
    ∃ free', LimPeerIdx.Inv top size free'
        (withAp { lim_release_peer_idx pe (pe.assocId p) with dphHashTable := t' }) ∧
      ∀ q, t'.Added q ↔ q ≠ p ∧ pe.Added q := by
  obtain ⟨free', hinv, hdrop⟩ := h.drop htop hsize hp hgood hsame hout
  have hid : (withAp pe).assocId p = pe.assocId p := rfl
  rw [hid, release_withAp] at hinv; exact ⟨free', hinv, hdrop.added⟩

end Pool

/-! ## The bookkeeping -/

structure Core (top size : Nat) (free : List UInt8) (bssId : MacAddr) (pe : LimPeerIdx.Session)
    (staType : Nat → StaType) (bitmap : Nat → BitVec 32) : Prop where
  pool : LimPeerIdx.Inv top size free (withAp pe)
  ap : pe.Added 1
  apAddr : pe.staAddr 1 = bssId
  notAssigned : .assign 1 ∉ pe.log
  notReleased : .release 1 ∉ pe.log
  bits : ∀ i < 64, bit bitmap i = true ↔ i ≠ 1 ∧ pe.Added i
  types : ∀ p, pe.Added p → p ≠ 1 → staType p = .STA_ENTRY_TDLS_PEER

section Core

variable {top size : Nat} {free : List UInt8} {bssId : MacAddr} {pe pe' : LimPeerIdx.Session}
  {staType : Nat → StaType} {bitmap : Nat → BitVec 32} {p : Nat}

theorem Core.lt (h : Core top size free bssId pe staType bitmap) (hmax : top ≤ 63)
    (hp : pe.Added p) : p < 64 := by have hle := (h.pool.valid p hp).2; omega

theorem Core.same (h : Core top size free bssId pe staType bitmap) (hs : SamePool pe pe') :
    Core top size free bssId pe' staType bitmap where
  pool := h.pool.same (samePool_withAp hs)
  ap := (hs.added 1).mpr h.ap
  apAddr := by rw [LimPeerIdx.Session.staAddr, hs.dph]; exact h.apAddr
  notAssigned := hs.log ▸ h.notAssigned
  notReleased := hs.log ▸ h.notReleased
  bits := fun i hi => by rw [h.bits i hi, hs.added]
  types := fun q hq => h.types q ((hs.added q).mp hq)

theorem Core.setType (h : Core top size free bssId pe staType bitmap) (p : Nat) :
    Core top size free bssId pe (update staType p .STA_ENTRY_TDLS_PEER) bitmap := by
  refine { h with types := fun q hq hne => ?_ }
  by_cases hqp : q = p
  · rw [hqp, update_self]
  · rw [update_of_ne hqp]; exact h.types q hq hne

theorem Core.setNode (h : Core top size free bssId pe staType bitmap) (hp : pe.Added p)
    {n : HashNode} (hadded : n.added = true)
    (hid : n.assocId = (pe.dphHashTable.pDphNodeArray p).assocId)
    (hnext : n.next = pe.dphHashTable.next p) (haddr : n.staAddr = pe.staAddr p) :
    Core top size free bssId { pe with dphHashTable := pe.dphHashTable.setNode p n } staType
      bitmap := by
  have hgood : Good pe.dphHashTable := h.pool.good
  have hnat : n.assocId.toNat = p := by rw [hid, hgood.assocId p hp.1]
  have hsame := sameBut_setNode hgood hnat
  have hgood' := hgood.reinit hp hadded hnat hnext (congrArg (hash_function · _) haddr)
    (fun q hq hqadd heq => hq (hgood.distinct hqadd hp (heq.trans haddr)))
  have hall (q : Nat) : (pe.dphHashTable.setNode p n).Added q ↔ pe.Added q := by
    by_cases hq : q = p
    · subst hq; exact ⟨fun _ => hp, fun _ => ⟨hp.1, by rw [HashTable.setNode_self, hadded]⟩⟩
    · exact hsame.added q hq
  refine ⟨⟨hgood', h.pool.size_eq, h.pool.queue, fun i => ?_, fun q hq => ?_, h.pool.count,
    h.pool.once, fun i => ?_⟩, (hall 1).mpr h.ap, ?_, h.notAssigned, h.notReleased, fun i hi => ?_,
    fun q hq => h.types q ((hall q).mp hq)⟩
  · rw [h.pool.mem i]
    exact and_congr_right fun _ => and_congr_right fun _ => not_congr (hall _).symm
  · exact h.pool.valid q ((hall q).mp hq)
  · exact (h.pool.held i).trans (hall _).symm
  · by_cases h1 : 1 = p
    · rw [← h.apAddr, LimPeerIdx.Session.staAddr]
      subst h1
      rw [HashTable.setNode_self, haddr]
    · exact (hsame.addr 1 h1).trans h.apAddr
  · rw [h.bits i hi]; exact and_congr_right fun _ => (hall i).symm

theorem Core.took (h : Core top size free bssId pe staType bitmap) (hmax : top ≤ 63)
    {i : UInt16} {free' : List UInt8} {staAddr : MacAddr}
    (hpool : LimPeerIdx.Inv top size free' (withAp pe'))
    (hlog : pe'.log = .assign i.toUInt8 :: pe.log)
    (htook : Took i.toNat staAddr (withAp pe) (withAp pe'))
    (hsame : SameBut i.toNat pe.dphHashTable pe'.dphHashTable) :
    Core top size free' bssId pe' (update staType i.toNat .STA_ENTRY_TDLS_PEER)
      (SET_PEER_AID_BITMAP bitmap i.toNat) := by
  have hne : i.toNat ≠ 1 := by
    intro heq
    have hnew := htook.new
    rw [heq] at hnew; exact hnew h.ap
  have hle : i.toNat ≤ top := (hpool.valid _ ((htook.added _).mpr (.inl rfl))).2
  have hidx : i.toUInt8 ≠ 1 := by
    intro heq
    have hnat := congrArg UInt8.toNat heq
    rw [UInt16.toNat_toUInt8, Nat.mod_eq_of_lt (by omega)] at hnat; exact hne hnat
  refine ⟨hpool, (htook.added 1).mpr (.inr h.ap), ?_, ?_, ?_, fun q hq => ?_, fun q hq hq1 => ?_⟩
  · exact (hsame.addr 1 (Ne.symm hne)).trans h.apAddr
  · rw [hlog, mem_cons, not_or]
    exact ⟨fun heq => hidx (PoolEvent.assign.inj heq).symm, h.notAssigned⟩
  · rw [hlog, mem_cons, not_or]; exact ⟨PoolEvent.noConfusion, h.notReleased⟩
  · rw [bit_set (by omega), Bool.or_eq_true, h.bits q hq, decide_eq_true_eq]
    have hadded : pe'.Added q ↔ q = i.toNat ∨ pe.Added q := htook.added q
    rw [hadded]
    constructor
    · rintro (⟨hq1, hold⟩ | rfl)
      · exact ⟨hq1, .inr hold⟩
      · exact ⟨hne, .inl rfl⟩
    · rintro ⟨hq1, rfl | hold⟩
      · exact .inr rfl
      · exact .inl ⟨hq1, hold⟩
  · by_cases hqi : q = i.toNat
    · rw [hqi, update_self]
    · rw [update_of_ne hqi]; exact h.types q (((htook.added q).mp hq).resolve_left hqi) hq1

theorem Core.drop (h : Core top size free bssId pe staType bitmap) (hmax : top ≤ 63)
    (htop : top < size) (hsize : size ≤ 255) (hp : pe.Added p) (hp1 : p ≠ 1) {t' : HashTable}
    (hgood : Good t') (hsame : SameBut p pe.dphHashTable t') (hout : ¬t'.Added p) :
    ∃ free', Core top size free' bssId
      { lim_release_peer_idx pe (pe.assocId p) with dphHashTable := t' } staType
      (CLEAR_PEER_AID_BITMAP bitmap p) := by
  obtain ⟨free', hpool, hadded⟩ := drop_withAp h.pool htop hsize hp hgood hsame hout
  have hlt := h.lt hmax hp
  have hidx : (pe.assocId p).toUInt8 ≠ 1 := by
    intro heq
    have hnat : (pe.assocId p).toUInt8.toNat = p := h.pool.idx htop hsize hp
    rw [heq] at hnat; exact hp1 hnat.symm
  refine ⟨free', hpool, (hadded 1).mpr ⟨Ne.symm hp1, h.ap⟩, ?_, ?_, ?_, fun q hq => ?_,
    fun q hq => h.types q ((hadded q).mp hq).2⟩
  · exact (hsame.addr 1 (Ne.symm hp1)).trans h.apAddr
  · rw [release_log, mem_cons, not_or]; exact ⟨PoolEvent.noConfusion, h.notAssigned⟩
  · rw [release_log, mem_cons, not_or]
    exact ⟨fun heq => hidx (PoolEvent.release.inj heq).symm, h.notReleased⟩
  · have hq' : LimPeerIdx.Session.Added
        { lim_release_peer_idx pe (pe.assocId p) with dphHashTable := t' } q ↔ q ≠ p ∧ pe.Added q :=
      hadded q
    rw [bit_clear hlt, Bool.and_eq_true, h.bits q hq, Bool.not_eq_true', decide_eq_false_iff_not,
      hq']
    exact ⟨fun h' => ⟨h'.1.1, h'.2, h'.1.2⟩, fun h' => ⟨⟨h'.1, h'.2.2⟩, h'.2.1⟩⟩

end Core

/-! ## What the log says -/

section Log

variable {log : List PoolEvent} {i : UInt8}

theorem held_append (hi : i ≠ 1) : Held (log ++ [.assign 1]) i ↔ Held log i := by
  induction log with
  | nil => exact ⟨fun h => h.resolve_left hi, fun h => h.elim⟩
  | cons e log ih =>
    cases e with
    | assign j => exact or_congr_right ih
    | release j => exact and_congr_right fun _ => ih

theorem mem_of_held (h : Held log i) : .assign i ∈ log := by
  induction log with
  | nil => exact h.elim
  | cons e log ih =>
    cases e with
    | assign j =>
      rcases h with rfl | h
      · exact mem_cons_self
      · exact mem_cons_of_mem _ (ih h)
    | release j => exact mem_cons_of_mem _ (ih h.2)

theorem logOk_of_append (h : LogOk (log ++ [.assign 1])) (hassign : .assign 1 ∉ log)
    (hrelease : .release 1 ∉ log) : LogOk log := by
  induction log with
  | nil => trivial
  | cons e log ih =>
    rw [mem_cons, not_or] at hassign hrelease
    have ih := fun h => ih h hassign.2 hrelease.2
    cases e with
    | assign j =>
      have hj : j ≠ 1 := fun heq => hassign.1 (heq ▸ rfl)
      exact ⟨ih h.1, h.2.1, fun hheld => h.2.2 ((held_append hj).mpr hheld)⟩
    | release j =>
      have hj : j ≠ 1 := fun heq => hrelease.1 (heq ▸ rfl)
      exact ⟨ih h.1, (held_append hj).mp h.2⟩

variable {top size : Nat} {free : List UInt8} {bssId : MacAddr} {pe : LimPeerIdx.Session}
  {staType : Nat → StaType} {bitmap : Nat → BitVec 32}

theorem Core.held (h : Core top size free bssId pe staType bitmap) (i : UInt8) :
    Held pe.log i ↔ i ≠ 1 ∧ pe.Added i.toNat := by
  by_cases hi : i = 1
  · subst hi
    exact ⟨fun hheld => absurd (mem_of_held hheld) h.notAssigned, fun hh => absurd rfl hh.1⟩
  · rw [and_iff_right hi, ← held_append hi]; exact h.pool.held i

end Log

/-! ## Requests and responses -/

def SmeMsg.req? : SmeMsg → Option Nat
  | .TDLS_ADD_STA_RSP req .. => some req
  | .TDLS_DEL_STA_RSP req .. => some req
  | .TDLS_DEL_ALL_PEER_IND => none

def SmeMsg.failed : SmeMsg → Bool
  | .TDLS_ADD_STA_RSP _ status .. => !status
  | .TDLS_DEL_STA_RSP _ status .. => !status
  | .TDLS_DEL_ALL_PEER_IND => false

variable {ι : Type}

/-- Each request has been answered once, or the firmware has it and has not answered. -/
def Once (sme : List SmeMsg) (waiting : List (AddStaParams ι)) (reqs : Nat) : Prop :=
  (sme.filterMap SmeMsg.req? ++ waiting.map AddStaParams.req).Perm (range reqs)

section Once

variable {sme : List SmeMsg} {waiting : List (AddStaParams ι)} {reqs : Nat} {m : SmeMsg}
  {params : AddStaParams ι}

theorem Once.refuse (h : Once sme waiting reqs) (hm : m.req? = some reqs) :
    Once (m :: sme) waiting (reqs + 1) := by
  rw [Once, filterMap_cons_some hm, range_succ]
  exact (h.cons reqs).trans (perm_append_singleton reqs _).symm

theorem Once.wait (h : Once sme waiting reqs) (hp : params.req = reqs) :
    Once sme (waiting ++ [params]) (reqs + 1) := by
  rw [Once, map_append, ← append_assoc, range_succ, map_singleton, hp]
  exact h.append_right [reqs]

theorem Once.answer (h : Once sme waiting reqs) {k : Nat} (hk : waiting[k]? = some params)
    (hm : m.req? = some params.req) : Once (m :: sme) (waiting.eraseIdx k) reqs := by
  obtain ⟨hlt, rfl⟩ := List.getElem?_eq_some_iff.mp hk
  rw [Once, filterMap_cons_some hm]
  refine Perm.trans ?_ h
  refine perm_middle.symm.trans (List.Perm.append_left _ ?_)
  exact (getElem_cons_eraseIdx_perm hlt).map AddStaParams.req

theorem Once.indicate (h : Once sme waiting reqs) (hm : m.req? = none) :
    Once (m :: sme) waiting reqs := by rw [Once, filterMap_cons_none hm]; exact h

end Once

end

open Lib List Option

/-! Runs: the agreement survives every operation but the deletion of the AP's own entry (`Ok`). -/

variable {ι : Type} {s s' : Session ι}

/-! ## What is to hold -/

def Session.entry (s : Session ι) (mac : MacAddr) : Option (Entry ι) :=
  (dph_lookup_hash_entry s.pe.dphHashTable mac).join.map fun r =>
    (r.2, s.staType r.1, s.caps r.1)

/-- What holds of a state: the bitmap, the AP's entry, the indices, the answers. -/
structure Sound (s : Session ι) : Prop where
  /-- A bit is set for the indices given out to peers that have their entry. -/
  bitmap : ∀ i < 64, bit s.peerAIDBitmap i = true ↔
    Held s.pe.log (UInt8.ofNat i) ∧ s.pe.Added i ∧ s.staType i = .STA_ENTRY_TDLS_PEER
  apKept : s.pe.Added 1 ∧ s.pe.staAddr 1 = s.bssId ∧ .release 1 ∉ s.pe.log
  /-- No index is given back that is not given out. -/
  released : LogOk s.pe.log
  answered : Once s.sme s.addStaReqs s.reqs

structure Same (s s' : Session ι) : Prop where
  bitmap : s'.peerAIDBitmap = s.peerAIDBitmap
  pe : s'.pe = s.pe
  staType : s'.staType = s.staType
  caps : s'.caps = s.caps

/-- A request that is answered with failure leaves everything as it was. When the firmware had it in
between, the entry of its peer is the one from before it, or was deleted by another request. -/
def LeavesAsWere (s : Session ι) (op : Op ι) (s' : Session ι) : Prop :=
  ∀ m, s'.sme = m :: s.sme → m.failed = true → Same s s' ∧
    ∀ k status staIdx mem, op = .add_sta_rsp k status staIdx mem →
      ∀ params, s.addStaReqs[k]? = some params →
        s.entry params.staMac = none ∨ s.entry params.staMac = params.before

/-- No peer is left, and what was given back was given out, and given back once. -/
structure Emptied (s s' : Session ι) : Prop where
  bitmap : ∀ i < 64, bit s'.peerAIDBitmap i = false
  entries : ∀ p, s'.pe.Added p → p = 1
  released : ∃ idxs : List UInt8, s'.pe.log = idxs.map .release ++ s.pe.log ∧ idxs.Nodup ∧
    ∀ i ∈ idxs, Held s.pe.log i

/-! ## Where a run does not go -/

/-- The request comes as far as asking the firmware. -/
def Starts (s : Session ι) (r : AddStaReq ι) (env : AddEnv) : Prop :=
  s.mayTdls r.bssid = true ∧
    (dph_lookup_hash_entry s.pe.dphHashTable r.peermac ≠ some none ∨
      HasIdx s.pe env.others env.limit)
deriving Decidable

/-- An answer that keeps the books: that of a peer added, or one about a peer whose entry is gone or
was not changed. -/
def AnswerOk (s : Session ι) (params : AddStaParams ι) (status mem : Bool) : Prop :=
  s.gLimAddStaTdls = true ∧ mem = true ∧
    (status = true ∨ s.entry params.staMac = none ∨ s.entry params.staMac = params.before)

/-- Requests are posted, and no peer has the address of the AP. -/
def Ok (s : Session ι) : Op ι → Prop
  | .add_sta_req r env => if Starts s r env then env.add = .ok else env.mem = true
  | .add_sta_rsp k status _ mem => ∀ params ∈ s.addStaReqs[k]?, AnswerOk s params status mem
  | .del_sta_req bssid peermac env =>
    env.mem = true ∧ (s.mayTdls bssid = true → peermac ≠ s.bssId)
  | .delete_tdls_peers _ | .sme_state _ => True

instance [DecidableEq ι] (s : Session ι) (params : AddStaParams ι) (status mem : Bool) :
    Decidable (AnswerOk s params status mem) :=
  inferInstanceAs (Decidable (_ ∧ _ ∧ (_ ∨ _ ∨ _)))

instance [DecidableEq ι] (s : Session ι) (op : Op ι) : Decidable (Ok s op) := by
  unfold Ok
  split <;> infer_instance

/-! ## The invariant -/

structure Inv (top size : Nat) (free : List UInt8) (s : Session ι) : Prop where
  core : Core top size free s.bssId s.pe s.staType s.peerAIDBitmap
  once : Once s.sme s.addStaReqs s.reqs

def Fine [Inhabited ι] (top size : Nat) (s : Session ι) (op : Op ι) : Prop :=
  ∃ s' free', step s op = some s' ∧ Inv top size free' s' ∧ LeavesAsWere s op s'

theorem leaves_of_sme {op : Op ι} (h : s'.sme = s.sme) : LeavesAsWere s op s' := by
  intro m hm
  rw [h] at hm; exact absurd hm.symm (cons_ne_self m s.sme)

theorem leaves_of_ok {op : Op ι} {m : SmeMsg} (h : s'.sme = m :: s.sme) (hm : m.failed = false) :
    LeavesAsWere s op s' := by
  intro m' hm' hfailed
  rw [h] at hm'
  obtain ⟨rfl, -⟩ := List.cons.inj hm'
  exact absurd (hm.symm.trans hfailed) Bool.false_ne_true

section Ops

variable [Inhabited ι] {top size : Nat} {free : List UInt8}
variable (hmax : top ≤ 63) (htop : top < size) (hsize : size ≤ 255)

theorem Inv.refuse_add (h : Inv top size free s) (r : AddStaReq ι) {env : AddEnv} {b : Bool}
    (hmem : env.mem = true) (hstep : step s (.add_sta_req r env) =
      some (lim_send_sme_tdls_add_sta_rsp { s with reqs := s.reqs + 1, gLimAddStaTdls := b } env.mem
        s.reqs r.peermac (decide (r.tdlsAddOper = .TDLS_OPER_UPDATE)) none false)) :
    Fine top size s (.add_sta_req r env) := by
  rw [lim_send_sme_tdls_add_sta_rsp, if_pos hmem] at hstep
  refine ⟨_, free, hstep, ⟨h.core, h.once.refuse rfl⟩, fun m _ _ => ⟨⟨rfl, rfl, rfl, rfl⟩, ?_⟩⟩
  intro k status staIdx mem hop
  cases hop

theorem add_sta_req_refused (r : AddStaReq ι) (env : AddEnv) (hmay : ¬s.mayTdls r.bssid = true) :
    step s (.add_sta_req r env) =
      some (lim_send_sme_tdls_add_sta_rsp
        { s with reqs := s.reqs + 1, gLimAddStaTdls := s.gLimAddStaTdls } env.mem s.reqs r.peermac
        (decide (r.tdlsAddOper = .TDLS_OPER_UPDATE)) none false) := by exact if_neg hmay

theorem add_sta_req_setup (r : AddStaReq ι) (env : AddEnv) (hmay : s.mayTdls r.bssid = true) :
    step s (.add_sta_req r env) =
      (lim_tdls_setup_add_sta { s with reqs := s.reqs + 1, gLimAddStaTdls := true } r s.reqs
        env).map fun
        | (.eSIR_FAILURE, s') => lim_send_sme_tdls_add_sta_rsp s' env.mem s.reqs r.peermac
            (decide (r.tdlsAddOper = .TDLS_OPER_UPDATE)) none false
        | (_, s') => s' := by exact if_pos hmay

theorem Inv.fail_rsp (h : Inv top size free s) {k : Nat} {status : Bool} {staIdx : UInt16}
    {mem : Bool} {params : AddStaParams ι} (hk : s.addStaReqs[k]? = some params) (hmem : mem = true)
    (hcase : s.entry params.staMac = none ∨ s.entry params.staMac = params.before)
    (hstep : step s (.add_sta_rsp k status staIdx mem) =
      some { lim_send_sme_tdls_add_sta_rsp { s with addStaReqs := s.addStaReqs.eraseIdx k } mem
        params.req params.staMac params.updateSta none false with gLimAddStaTdls := false }) :
    Fine top size s (.add_sta_rsp k status staIdx mem) := by
  rw [lim_send_sme_tdls_add_sta_rsp, if_pos hmem] at hstep
  refine ⟨_, free, hstep, ⟨h.core, h.once.answer hk rfl⟩, fun m _ _ => ⟨⟨rfl, rfl, rfl, rfl⟩, ?_⟩⟩
  intro k' status' staIdx' mem' hop params' hk'
  cases hop
  obtain rfl := some.inj (hk.symm.trans hk')
  exact hcase

theorem Inv.refuse_del (h : Inv top size free s) {bssid peermac : MacAddr} {env : DelEnv}
    (hmem : env.mem = true) (hstep : step s (.del_sta_req bssid peermac env) =
      some (lim_send_sme_tdls_del_sta_rsp { s with reqs := s.reqs + 1 } env.mem s.reqs peermac none
        false)) :
    Fine top size s (.del_sta_req bssid peermac env) := by
  rw [lim_send_sme_tdls_del_sta_rsp, if_pos hmem] at hstep
  refine ⟨_, free, hstep, ⟨h.core, h.once.refuse rfl⟩, fun m _ _ => ⟨⟨rfl, rfl, rfl, rfl⟩, ?_⟩⟩
  intro k status staIdx mem hop
  cases hop

include hmax htop hsize

theorem Inv.add_sta_req (h : Inv top size free s) (r : AddStaReq ι) (env : AddEnv)
    (hok : Ok s (.add_sta_req r env)) : Fine top size s (.add_sta_req r env) := by
  by_cases hmay : s.mayTdls r.bssid = true
  · have hsetup := add_sta_req_setup r env hmay
    rw [lim_tdls_setup_add_sta] at hsetup
    rcases h.core.pool.lookup (by omega) r.peermac with ⟨hlook, hnew⟩ | ⟨p, hp, -, hlook⟩
    · have hlook' : dph_lookup_hash_entry s.pe.dphHashTable r.peermac = some none := hlook
      rw [hlook', bind_some] at hsetup
      by_cases hidx : HasIdx s.pe env.others env.limit
      · -- a new peer
        have hadd : env.add = .ok := by rw [Ok, if_pos ⟨hmay, .inr hidx⟩] at hok; exact hok
        obtain ⟨i, pe₁, pe₂, free', hassign, hne, hget, hdph, hpool, hlog, htook, hsame⟩ :=
          take_withAp h.core.pool htop hsize hidx hnew env.frag
        have hcore := (h.core.took hmax hpool hlog htook hsame).same (samePool_add_sta i.toNat .ok)
        have hstale : dropStale pe₁ i env.del = some pe₁ := by rw [dropStale, hget]
        simp only [hassign, if_neg hne, hstale, bind_some, hdph, map_some,
          askFirmware, hadd] at hsetup
        exact ⟨_, free', hsetup, ⟨hcore, h.once.wait rfl⟩, leaves_of_sme rfl⟩
      · -- no index is left
        have hno : ¬Starts s r env := by
          rintro ⟨-, hfound | hidx'⟩
          · exact hfound hlook'
          · exact hidx hidx'
        rw [Ok, if_neg hno] at hok
        simp only [assign_none hidx, if_true, map_some] at hsetup
        exact h.refuse_add r hok hsetup
    · have hlook' : dph_lookup_hash_entry s.pe.dphHashTable r.peermac =
          some (some (p, s.pe.assocId p)) := hlook
      have hadd : env.add = .ok := by
        rw [Ok, if_pos ⟨hmay, .inl (by rw [hlook']; exact nofun)⟩] at hok
        exact hok
      have hcore := (h.core.setType p).same (samePool_add_sta p .ok)
      simp only [hlook', bind_some, map_some, askFirmware, hadd] at hsetup
      exact ⟨_, free, hsetup, ⟨hcore, h.once.wait rfl⟩, leaves_of_sme rfl⟩
  · have hno : ¬Starts s r env := fun hs => hmay hs.1
    rw [Ok, if_neg hno] at hok; exact h.refuse_add r hok (add_sta_req_refused r env hmay)

theorem Inv.add_sta_rsp (h : Inv top size free s) (k : Nat) (status : Bool) (staIdx : UInt16)
    (mem : Bool) (hok : Ok s (.add_sta_rsp k status staIdx mem)) :
    Fine top size s (.add_sta_rsp k status staIdx mem) := by
  have hstep : step s (.add_sta_rsp k status staIdx mem) =
    lim_process_add_sta_rsp s k status staIdx mem := rfl
  rw [lim_process_add_sta_rsp] at hstep
  rcases hk : s.addStaReqs[k]? with _ | params
  · rw [hk] at hstep; exact ⟨s, free, hstep, h, leaves_of_sme rfl⟩
  obtain ⟨hflag, hmem, hcase⟩ := hok params hk
  rw [hk] at hstep
  simp only [if_pos hflag, lim_process_tdls_add_sta_rsp] at hstep
  cases hst : status with
  | false => subst hst; exact h.fail_rsp hk hmem (hcase.resolve_left Bool.false_ne_true) hstep
  | true =>
    subst hst
    rcases h.core.pool.lookup (by omega) params.staMac with ⟨hlook, -⟩ | ⟨p, hp, -, hlook⟩
    · have hlook' : dph_lookup_hash_entry s.pe.dphHashTable params.staMac = some none := hlook
      have hnone : s.entry params.staMac = none := by rw [Session.entry, hlook']; rfl
      simp only [hlook', map_some] at hstep
      exact h.fail_rsp hk hmem (.inl hnone) hstep
    · have hlook' : dph_lookup_hash_entry s.pe.dphHashTable params.staMac =
          some (some (p, s.pe.assocId p)) := hlook
      simp only [hlook', map_some, lim_send_sme_tdls_add_sta_rsp, if_pos hmem] at hstep
      have hcore := h.core.setNode hp
        (n := { s.pe.dphHashTable.pDphNodeArray p with staIndex := staIdx, valid := true })
        hp.2 rfl rfl rfl
      exact ⟨_, free, hstep, ⟨hcore.same (samePool_setState p .LINK_ESTABLISHED),
        h.once.answer hk rfl⟩, leaves_of_ok rfl rfl⟩

theorem Inv.del_sta_req (h : Inv top size free s) (bssid peermac : MacAddr) (env : DelEnv)
    (hok : Ok s (.del_sta_req bssid peermac env)) :
    Fine top size s (.del_sta_req bssid peermac env) := by
  obtain ⟨hmem, hap⟩ := hok
  have hstep : step s (.del_sta_req bssid peermac env) =
    lim_process_sme_tdls_del_sta_req s bssid peermac env := rfl
  by_cases hmay : s.mayTdls bssid = true
  · replace hstep := hstep.trans (if_pos hmay)
    rw [lim_tdls_del_sta] at hstep
    rcases h.core.pool.lookup (by omega) peermac with ⟨hlook, hnew⟩ | ⟨p, hp, haddr, hlook⟩
    · have hlook' : dph_lookup_hash_entry s.pe.dphHashTable peermac = some none := hlook
      simp only [hlook', map_some, bind_some] at hstep
      exact h.refuse_del hmem hstep
    · have hlook' : dph_lookup_hash_entry s.pe.dphHashTable peermac =
          some (some (p, s.pe.assocId p)) := hlook
      have hp1 : p ≠ 1 := by rintro rfl; exact hap hmay (haddr.symm.trans h.core.apAddr)
      have hsame := samePool_del_sta (s := s.pe) p false env.del
      have hcore := h.core.same hsame
      have hp' := (hsame.added p).mpr hp
      obtain ⟨t', hgood, hbut, hout, hdel⟩ := hcore.pool.delete hp'
      obtain ⟨free', hcore'⟩ := hcore.drop hmax htop hsize hp' hp1 hgood hbut hout
      have hdel' := (hdel (lim_release_peer_idx (lim_del_sta s.pe p false env.del).2
        ((lim_del_sta s.pe p false env.del).2.assocId p)) (release_dph _ _)).2
      rw [release_assocId] at hdel'
      have hid : ((lim_del_sta s.pe p false env.del).2.assocId p).toNat = p :=
        hcore.pool.good.assocId p hp'.1
      simp only [hlook', map_some, bind_some, lim_send_sme_tdls_del_sta_rsp,
        if_pos hmem, hdel', hid] at hstep
      exact ⟨_, free', hstep, ⟨hcore', h.once.refuse rfl⟩, leaves_of_ok rfl rfl⟩
  · exact h.refuse_del hmem (hstep.trans (if_neg hmay))

end Ops

/-! ## Deleting all peers -/

section DeleteAll

variable {top size : Nat} {free : List UInt8}

theorem deletePeer_none {idx : Nat} (hbit : bit s.peerAIDBitmap idx = false) :
    deletePeer s (idx / 32) (idx % 32) = some s := by
  have hcheck : ¬CHECK_BIT (s.peerAIDBitmap (idx / 32)) (idx % 32) = true := by
    rw [check_bit (by omega), Bool.not_eq_true]; exact hbit
  rw [deletePeer, if_neg hcheck]

variable (hmax : top ≤ 63) (htop : top < size) (hsize : size ≤ 255)

include hmax htop hsize

theorem Core.deletePeer (h : Core top size free s.bssId s.pe s.staType s.peerAIDBitmap) {idx : Nat}
    (hidx : idx < 64) (hbit : bit s.peerAIDBitmap idx = true) :
    ∃ pe' free', deletePeer s (idx / 32) (idx % 32) =
        some { s with pe := pe', peerAIDBitmap := CLEAR_PEER_AID_BITMAP s.peerAIDBitmap idx } ∧
      Core top size free' s.bssId pe' s.staType (CLEAR_PEER_AID_BITMAP s.peerAIDBitmap idx) ∧
      pe'.log = .release (UInt8.ofNat idx) :: s.pe.log := by
  obtain ⟨hne, hadded⟩ := (h.bits idx hidx).mp hbit
  obtain ⟨t', hgood, hsame, hout, hdel⟩ := h.pool.delete hadded
  obtain ⟨free', hcore⟩ := h.drop hmax htop hsize hadded hne hgood hsame hout
  have hid : UInt16.ofNat (idx % 32 + idx / 32 * 32) = s.pe.assocId idx := by
    have hassoc : (s.pe.assocId idx).toNat = idx := h.pool.good.assocId idx hadded.1
    rw [Nat.mul_comm, Nat.mod_add_div]
    exact UInt16.toNat_inj.mp
      ((UInt16.toNat_ofNat_of_lt' (show idx < 2 ^ 16 by omega)).trans hassoc.symm)
  have hget : dph_get_hash_entry s.pe.dphHashTable (s.pe.assocId idx) = some idx :=
    h.pool.get hadded
  have hone := (hdel s.pe rfl).1
  refine ⟨_, free', ?_, hcore, ?_⟩
  · have hcheck : CHECK_BIT (s.peerAIDBitmap (idx / 32)) (idx % 32) = true := by
      rw [check_bit (by omega)]; exact hbit
    rw [LimTdls.deletePeer, if_pos hcheck]
    simp only [hid, hget, hone, map_some, release_setDph, update_clear hidx]
  · have hnat : (s.pe.assocId idx).toUInt8.toNat = idx := h.pool.idx htop hsize hadded
    rw [release_log]
    congr 2
    exact UInt8.toNat_inj.mp
      (hnat.trans (UInt8.toNat_ofNat_of_lt' (show idx < 2 ^ 8 by omega)).symm)

theorem Core.deleteLoop (n idx : Nat) {s : Session ι} {free : List UInt8}
    (h : Core top size free s.bssId s.pe s.staType s.peerAIDBitmap) (hn : idx + n = 64)
    (hclear : ∀ i < idx, bit s.peerAIDBitmap i = false) :
    ∃ pe' bitmap' free', deleteLoop n idx s =
        some { s with pe := pe', peerAIDBitmap := bitmap' } ∧
      Core top size free' s.bssId pe' s.staType bitmap' ∧
      (∀ i < 64, bit bitmap' i = false) ∧
      ∃ idxs : List UInt8, pe'.log = idxs.map .release ++ s.pe.log ∧ idxs.Nodup ∧
        ∀ i ∈ idxs, idx ≤ i.toNat ∧ Held s.pe.log i := by
  induction n generalizing idx s free with
  | zero =>
    refine ⟨s.pe, s.peerAIDBitmap, free, rfl, h, fun i hi => hclear i (by omega), [], rfl,
      nodup_nil, nofun⟩
  | succ n ih =>
    cases hbit : bit s.peerAIDBitmap idx with
    | false =>
      obtain ⟨pe', bitmap', free', hloop, hcore, hall, idxs, hlog, hnd, hheld⟩ :=
        ih (idx + 1) h (by omega) (fun i hi => by
          rcases Nat.lt_succ_iff_lt_or_eq.mp hi with hlt | rfl
          · exact hclear i hlt
          · exact hbit)
      refine ⟨pe', bitmap', free', ?_, hcore, hall, idxs, hlog, hnd, fun i hi => ?_⟩
      · rw [LimTdls.deleteLoop, deletePeer_none hbit]; exact hloop
      · obtain ⟨hle, hh⟩ := hheld i hi; exact ⟨by omega, hh⟩
    | true =>
      obtain ⟨pe₁, free₁, hone, hcore₁, hlog₁⟩ :=
        h.deletePeer hmax htop hsize (by omega) hbit
      obtain ⟨pe', bitmap', free', hloop, hcore, hall, idxs, hlog, hnd, hheld⟩ :=
        ih (idx + 1)
          (s := { s with
            pe := pe₁
            peerAIDBitmap := CLEAR_PEER_AID_BITMAP s.peerAIDBitmap idx })
          hcore₁ (by omega) (fun i hi => by
            rw [bit_clear (show idx < 64 by omega), Bool.and_eq_false_iff]
            rcases Nat.lt_succ_iff_lt_or_eq.mp hi with hlt | rfl
            · exact .inl (hclear i hlt)
            · exact .inr (by simp))
      have hnat : (UInt8.ofNat idx).toNat = idx :=
        UInt8.toNat_ofNat_of_lt' (show idx < 2 ^ 8 by omega)
      have hadded := (h.bits idx (by omega)).mp hbit
      refine ⟨pe', bitmap', free', ?_, hcore, hall, idxs ++ [UInt8.ofNat idx], ?_, ?_, ?_⟩
      · rw [LimTdls.deleteLoop, hone]; exact hloop
      · rw [hlog, map_append, append_assoc]
        rw [hlog₁]; rfl
      · rw [nodup_append]
        refine ⟨hnd, nodup_singleton _, fun a ha b hb => ?_⟩
        rw [mem_singleton.mp hb]
        rintro rfl
        have hle := (hheld _ ha).1
        omega
      · intro i hi
        rcases mem_append.mp hi with hi | hi
        · obtain ⟨hle, hh⟩ := hheld i hi
          rw [hlog₁] at hh; exact ⟨by omega, hh.2⟩
        · rw [mem_singleton.mp hi, hnat]
          refine ⟨Nat.le_refl idx, (h.held _).mpr ⟨?_, hnat.symm ▸ hadded.2⟩⟩
          intro heq
          rw [heq] at hnat; exact hadded.1 hnat.symm

theorem Inv.delete_tdls_peers [Inhabited ι] (h : Inv top size free s) (roamSynch : Bool) :
    ∃ s' free', step s (.delete_tdls_peers roamSynch) = some s' ∧ Inv top size free' s' ∧
      LeavesAsWere s (.delete_tdls_peers roamSynch) s' ∧ Emptied s s' := by
  obtain ⟨pe', bitmap', free', hloop, hcore, hall, idxs, hlog, hnd, hheld⟩ :=
    h.core.deleteLoop hmax htop hsize 64 0 rfl (nofun)
  have hstep : step s (.delete_tdls_peers roamSynch) = lim_delete_tdls_peers s roamSynch := rfl
  rw [lim_delete_tdls_peers, hloop, map_some] at hstep
  have hentries (p : Nat) (hp : pe'.Added p) : p = 1 := by
    by_contra hne
    have hlt := hcore.lt hmax hp
    exact Bool.false_ne_true ((hall p hlt).symm.trans ((hcore.bits p hlt).mpr ⟨hne, hp⟩))
  have hreleased : ∃ idxs : List UInt8, pe'.log = idxs.map .release ++ s.pe.log ∧ idxs.Nodup ∧
      ∀ i ∈ idxs, Held s.pe.log i := ⟨idxs, hlog, hnd, fun i hi => (hheld i hi).2⟩
  cases roamSynch with
  | true =>
    exact ⟨_, free', hstep, ⟨hcore, h.once⟩, leaves_of_sme rfl, hall, hentries, hreleased⟩
  | false =>
    exact ⟨_, free', hstep, ⟨hcore, h.once.indicate rfl⟩, leaves_of_ok rfl rfl, hall, hentries,
      hreleased⟩

end DeleteAll

/-! ## Runs -/

theorem Inv.sound {top size : Nat} {free : List UInt8} (h : Inv top size free s) : Sound s where
  bitmap := by
    intro i hi
    have hnat : (UInt8.ofNat i).toNat = i := UInt8.toNat_ofNat_of_lt' (show i < 2 ^ 8 by omega)
    rw [h.core.bits i hi, h.core.held, hnat]
    constructor
    · rintro ⟨hne, hadded⟩
      refine ⟨⟨fun heq => hne ?_, hadded⟩, hadded, h.core.types i hadded hne⟩
      rw [← hnat, heq]; rfl
    · rintro ⟨⟨hne, -⟩, hadded, -⟩
      refine ⟨?_, hadded⟩
      rintro rfl; exact hne rfl
  apKept := ⟨h.core.ap, h.core.apAddr, h.core.notReleased⟩
  released := logOk_of_append h.core.pool.once h.core.notAssigned h.core.notReleased
  answered := h.once

section Run

variable [Inhabited ι]

theorem inv_init (c : Setup) : ∃ s free, init c = some s ∧
    Inv (max 2 c.maxAssocSta.toNat) c.size free (s : Session ι) := by
  have hlt := c.max_lt
  have hsize := c.size_le
  have hgood := good_init hsize
  have hnone (q : Nat) : ¬(dph_hash_table_class_init c.size).Added q :=
    fun hq => Bool.false_ne_true hq.2
  have hidx : DPH_STA_HASH_INDEX_PEER.toNat < (dph_hash_table_class_init c.size).size :=
    show 1 < c.size by omega
  have hnew (q : Nat) (hq : (dph_hash_table_class_init c.size).Added q) :
      (dph_hash_table_class_init c.size).addr q ≠ c.bssId := absurd hq (hnone q)
  obtain ⟨t', hadd, hgood', hsame, hap, haddr⟩ :=
    hgood.add (show 0 < c.size by omega) (show c.size ≤ 256 by omega) hidx (hnone _) hnew c.frag
  have hall (q : Nat) : t'.Added q ↔ q = 1 := by
    by_cases hq : q = 1
    · rw [hq]; exact iff_of_true hap rfl
    · exact iff_of_false (fun hqadd => hnone q ((hsame.added q hq).mp hqadd)) hq
  obtain ⟨hlast, -, hlinked⟩ := linked_initLoop (c.maxAssocSta.toNat - 2) (fun _ => 0) 2
    (by decide) (show 2 + (c.maxAssocSta.toNat - 2) < 256 by omega)
  have htail : (initLoop (fun _ => 0) (c.maxAssocSta.toNat - 2) 2).2.toNat =
      2 + (c.maxAssocSta.toNat - 2) := hlast
  have hne : (initLoop (fun _ => 0) (c.maxAssocSta.toNat - 2) 2).2 ≠ 0 := by
    intro hz
    rw [hz] at htail; exact absurd htail (show ¬0 = 2 + (c.maxAssocSta.toNat - 2) by omega)
  have hdph : (initPool c.maxAssocSta c.size).dphAdd c.bssId DPH_STA_HASH_INDEX_PEER c.frag =
      some (some 1, { initPool c.maxAssocSta c.size with
        dphHashTable := t'
        mlmStaContext := update (fun _ => ⟨.OFFLINE, false⟩) 1 ⟨.OFFLINE, false⟩ }) :=
    congrArg (Option.map _) hadd
  refine ⟨_, idxs 2 (c.maxAssocSta.toNat - 2 + 1), congrArg (Option.map _) hdph,
    ⟨⟨hgood', hsame.size, ⟨hlinked, ?_, nodup_idxs (by omega)⟩, fun i => ?_, fun p hp => ?_, ?_,
      ⟨trivial, by decide, id⟩, fun i => ?_⟩, hap, haddr, not_mem_nil, not_mem_nil,
      fun i hi => ?_, fun p hp hp1 => absurd ((hall p).mp hp) hp1⟩, Perm.refl _⟩
  · -- the last index
    refine (ptr_of_ne hne).trans ?_
    rw [idxs, getLast?_map, getLast?_range', if_neg (by omega), map_some,
      some.injEq, ← UInt8.toNat_inj, htail,
      UInt8.toNat_ofNat_of_lt' (show _ < 2 ^ 8 by omega)]
    omega
  · change _ ↔ _ ∧ _ ∧ ¬t'.Added i.toNat
    rw [mem_idxs (by omega), hall]; omega
  · obtain rfl := (hall p).mp hp; omega
  · change 1 + (idxs 2 (c.maxAssocSta.toNat - 2 + 1)).length = _
    rw [idxs, length_map, length_range']; omega
  · change i = 1 ∨ False ↔ t'.Added i.toNat
    rw [hall, or_false, ← UInt8.toNat_inj]; rfl
  · refine iff_of_false ?_ (fun h => h.1 ((hall i).mp h.2))
    rw [bit, Bool.not_eq_true]; exact BitVec.getLsbD_zero

theorem Inv.fine {top size : Nat} {free : List UInt8} (h : Inv top size free s) (hmax : top ≤ 63)
    (htop : top < size) (hsize : size ≤ 255) (op : Op ι) (hok : Ok s op) : Fine top size s op := by
  cases op with
  | add_sta_req r env => exact h.add_sta_req hmax htop hsize r env hok
  | add_sta_rsp k status staIdx mem => exact h.add_sta_rsp hmax htop hsize k status staIdx mem hok
  | del_sta_req bssid peermac env => exact h.del_sta_req hmax htop hsize bssid peermac env hok
  | delete_tdls_peers roamSynch =>
    obtain ⟨s', free', hstep, hinv, hleaves, -⟩ :=
      h.delete_tdls_peers hmax htop hsize roamSynch
    exact ⟨s', free', hstep, hinv, hleaves⟩
  | sme_state st => exact ⟨_, free, rfl, ⟨h.core, h.once⟩, leaves_of_sme rfl⟩

/-- **TDLS peers.** In every run that stays out of the places above, the bits are those of the peers
that have an index and an entry, the AP keeps its own, each request is answered once, one that is
refused changes nothing, and deleting all peers leaves none. -/
theorem tdls_peers_kept [DecidableEq ι] (c : Setup) {s₀ s : Session ι} (hinit : init c = some s₀)
    (ops : List (Op ι)) (hrun : run (guarded Ok step) s₀ ops = some s) :
    Sound s ∧ ∀ op, Ok s op → ∃ s', step s op = some s' ∧ LeavesAsWere s op s' ∧
      ∀ roamSynch, op = .delete_tdls_peers roamSynch → Emptied s s' := by
  have hmax : max 2 c.maxAssocSta.toNat ≤ 63 := by have hle := c.max_le; omega
  obtain ⟨s₁, free₁, hs₁, hinv₁⟩ := inv_init (ι := ι) c
  obtain rfl := some.inj (hinit.symm.trans hs₁)
  obtain ⟨free, hinv⟩ : ∃ free, Inv (max 2 c.maxAssocSta.toNat) c.size free s := by
    apply guarded_run_invariant
      (I := fun u => ∃ free, Inv (max 2 c.maxAssocSta.toNat) c.size free u)
      ?_ ⟨free₁, hinv₁⟩ hrun
    rintro u op u' ⟨free, hu⟩ hok hstep
    obtain ⟨u'', free', hstep', hinv', -⟩ := hu.fine hmax c.max_lt c.size_le op hok
    obtain rfl := some.inj (hstep.symm.trans hstep')
    exact ⟨free', hinv'⟩
  refine ⟨hinv.sound, fun op hok => ?_⟩
  obtain ⟨s', free', hstep, -, hleaves⟩ := hinv.fine hmax c.max_lt c.size_le op hok
  refine ⟨s', hstep, hleaves, ?_⟩
  rintro roamSynch rfl
  obtain ⟨s'', -, hstep', -, -, hempty⟩ :=
    hinv.delete_tdls_peers hmax c.max_lt c.size_le roamSynch
  obtain rfl := some.inj (hstep.symm.trans hstep')
  exact hempty

end Run

/-! ## A session with two peers -/

def macAP : MacAddr := macA

def macPeer : MacAddr := #v[2, 0, 0, 0, 0, 2]

def macOther : MacAddr := #v[2, 0, 0, 0, 0, 3]

def smallSetup : Setup where
  bssId := macAP
  maxAssocSta := 4
  size := 8
  frag := none
  max_le := by decide
  max_lt := by decide
  size_le := by decide

def addPeer (mac : MacAddr) (oper : TdlsOper) (caps : Nat) : AddStaReq Nat :=
  ⟨macAP, mac, oper, fun _ => caps⟩

def addWell : AddEnv := ⟨0, 4, none, .ok, .ok, true⟩

def twoPeers : List (Op Nat) :=
  [.add_sta_req (addPeer macPeer .TDLS_OPER_ADD 5) addWell, .add_sta_rsp 0 true 7 true,
    .add_sta_req (addPeer macOther .TDLS_OPER_ADD 6) addWell, .add_sta_rsp 0 true 8 true,
    .add_sta_req (addPeer macPeer .TDLS_OPER_UPDATE 9) addWell, .add_sta_rsp 0 true 7 true,
    .del_sta_req macAP macOther ⟨.ok, true⟩, .del_sta_req macAP macOther ⟨.ok, true⟩]

theorem tdls_peers_kept_two :
    ∃ s₀ s : Session Nat, init smallSetup = some s₀ ∧ run (guarded Ok step) s₀ twoPeers = some s ∧
      bit s.peerAIDBitmap 2 = true ∧ bit s.peerAIDBitmap 3 = false ∧ s.reqs = 5 ∧
      Sound s ∧ ∀ op, Ok s op → ∃ s', step s op = some s' ∧ LeavesAsWere s op s' ∧
        ∀ roamSynch, op = .delete_tdls_peers roamSynch → Emptied s s' := by
  have h : ((init smallSetup).bind fun s₀ => (run (guarded Ok step) s₀ twoPeers).map fun s =>
      decide (bit s.peerAIDBitmap 2 = true ∧ bit s.peerAIDBitmap 3 = false ∧ s.reqs = 5)) =
        some true := by decide +kernel
  obtain ⟨s₀, hs₀, h⟩ := bind_eq_some_iff.mp h
  obtain ⟨s, hs, hall⟩ := map_eq_some_iff.mp h
  obtain ⟨h2, h3, hreqs⟩ := of_decide_eq_true hall
  exact ⟨s₀, s, hs₀, hs, h2, h3, hreqs, tdls_peers_kept smallSetup hs₀ twoPeers hs⟩

/-- A request to delete the peer with the address of the AP takes the AP's entry, and its index goes
into the pool. -/
theorem ap_deleted :
    ∃ s₀ s : Session Nat, init smallSetup = some s₀ ∧
      run step s₀ [.del_sta_req macAP macAP ⟨.ok, true⟩] = some s ∧
      ¬s.pe.Added 1 ∧ .release 1 ∈ s.pe.log ∧ ¬Sound s := by
  have h : ((init smallSetup : Option (Session Nat)).bind fun s₀ =>
      (run step s₀ [.del_sta_req macAP macAP ⟨.ok, true⟩]).map fun s =>
        decide (¬s.pe.Added 1 ∧ .release 1 ∈ s.pe.log)) = some true := by decide +kernel
  obtain ⟨s₀, hs₀, h⟩ := bind_eq_some_iff.mp h
  obtain ⟨s, hs, hall⟩ := map_eq_some_iff.mp h
  obtain ⟨hadded, hlog⟩ := of_decide_eq_true hall
  exact ⟨s₀, s, hs₀, hs, hadded, hlog, fun hsound => hadded hsound.apKept.1⟩

end Qcacld.LimTdls
