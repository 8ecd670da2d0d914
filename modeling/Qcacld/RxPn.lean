/-
Rx packet number check: `ol_rx_pn.c`.

Buffers live in an explicit memory of `next` pointers; their rx descriptors are read-only. The union
`htt_rx_pn_t` is its two 64-bit words: `pn48` and `pn24` are low bits of the first one on the
little-endian hosts that the code is written for. The local variable `new_pn` is not initialised,
and for a 48-bit PN the second word is copied to `tids_last_pn` as it happens to be; the model takes
what the variable held before from `Buffers.stack`. A loop that runs out of fuel, or dereferences
NULL, has no result, and neither has a list that fails the assertion on its first descriptor.
-/
import Qcacld.Lib.Run
import Qcacld.Lib.Chain
import Mathlib.Algebra.Order.Ring.Int

set_option autoImplicit false

namespace Qcacld.RxPn

open Lib Function

/-! ## Data -/

inductive SecType where
  | none
  | wep128
  | wep104
  | wep40
  | tkip
  | tkip_nomic
  | aes_ccmp
  | wapi
  | aes_ccmp_256
  | aes_gcmp
  | aes_gcmp_256
deriving DecidableEq

inductive OpMode where
  | unknown
  | ap
  | ibss
  | sta
  | monitor
  | ocb
deriving DecidableEq

/-- `txrx_sec_mcast` and `txrx_sec_ucast`. -/
inductive SecIndex where
  | mcast
  | ucast
deriving DecidableEq

/-- `union htt_rx_pn_t`: `pn128[0]` and `pn128[1]`. -/
structure Pn where
  w0 : BitVec 64
  w1 : BitVec 64
deriving DecidableEq

structure RxDesc where
  first_msdu : Bool
  last_msdu : Bool
  mcast_bcast : Bool
  encrypted : Bool
  pn_31_0 : BitVec 32
  pn_47_32 : BitVec 16
  pn_63_48 : BitVec 16
  pn_95_64 : BitVec 32
  pn_127_96 : BitVec 32

structure Buffers where
  next : Nat → Option Nat
  desc : Nat → RxDesc
  /-- The contents of the uninitialised `new_pn` when MPDU `m` is looked at. -/
  stack : Nat → Pn

/-- What a check depends on and leaves alone: the kind of device, the operating
mode of the vdev and the security settings of the peer. -/
structure Cfg where
  is_high_latency : Bool
  opmode : OpMode
  fw_pn_check : Bool
  sec_type : SecIndex → SecType

structure Peer where
  tids_last_pn : Nat → Pn
  tids_last_pn_valid : Nat → Bool

/-! ## Descriptors -/

/-- The `mcast_bcast` flag is valid in the descriptor of a first MSDU only. -/
def htt_rx_msdu_has_wlan_mcast_flag (rx_desc : RxDesc) : Bool := rx_desc.first_msdu

def htt_rx_mpdu_is_encrypted (cfg : Cfg) (rx_desc : RxDesc) : Bool :=
  if cfg.is_high_latency then rx_desc.first_msdu && rx_desc.encrypted else rx_desc.encrypted

def htt_rx_mpdu_desc_pn_ll (rx_desc : RxDesc) (pn : Pn) (pn_len_bits : Nat) : Pn :=
  match pn_len_bits with
  | 24 => { pn with w0 :=
      (pn.w0 &&& 0xffffffff00000000#64) ||| (rx_desc.pn_31_0 &&& 0xffffff#32).setWidth 64 }
  | 48 => { pn with w0 :=
      rx_desc.pn_31_0.setWidth 64 ||| (rx_desc.pn_47_32.setWidth 64 <<< 32) }
  | 128 =>
    { w0 := rx_desc.pn_31_0.setWidth 64 ||| (rx_desc.pn_47_32.setWidth 64 <<< 32)
        ||| (rx_desc.pn_63_48.setWidth 64 <<< 48)
      w1 := rx_desc.pn_95_64.setWidth 64 ||| (rx_desc.pn_127_96.setWidth 64 <<< 32) }
  | _ => pn

/-- The 64 bits that the high-latency descriptor has from bit 0 on. -/
def pn_63_0 (rx_desc : RxDesc) : BitVec 64 :=
  rx_desc.pn_31_0.setWidth 64 |||
    ((rx_desc.pn_47_32.setWidth 32 ||| (rx_desc.pn_63_48.setWidth 32 <<< 16)).setWidth 64 <<< 32)

/-- The cases of the `switch` fall through, from 128 to 24. -/
def htt_rx_mpdu_desc_pn_hl (rx_desc : RxDesc) (pn : Pn) (pn_len_bits : Nat) : Pn :=
  if rx_desc.first_msdu then
    match pn_len_bits with
    | 128 =>
      { w0 := pn_63_0 rx_desc
        w1 := rx_desc.pn_95_64.setWidth 64 ||| (rx_desc.pn_127_96.setWidth 64 <<< 32) }
    | 48 => { pn with w0 := pn_63_0 rx_desc }
    | 24 => { pn with w0 :=
        (pn.w0 &&& 0xffffffff00000000#64) ||| rx_desc.pn_31_0.setWidth 64 }
    | _ => pn
  else pn

def htt_rx_mpdu_desc_pn (cfg : Cfg) (rx_desc : RxDesc) (pn : Pn) (pn_len_bits : Nat) : Pn :=
  if cfg.is_high_latency then htt_rx_mpdu_desc_pn_hl rx_desc pn pn_len_bits
  else htt_rx_mpdu_desc_pn_ll rx_desc pn pn_len_bits

/-! ## Comparisons

Each returns whether `new_pn` is a replay. -/

def ol_rx_pn_cmp48 (new_pn old_pn : Pn) (_is_unicast : Bool) (_opmode : OpMode) : Bool :=
  (new_pn.w0 &&& 0xffffffffffff#64) ≤ (old_pn.w0 &&& 0xffffffffffff#64)

def ol_rx_pn_wapi_cmp (new_pn old_pn : Pn) (is_unicast : Bool) (opmode : OpMode) : Bool :=
  let pn_is_replay : Bool :=
    if new_pn.w1 = old_pn.w1 then new_pn.w0 ≤ old_pn.w0 else new_pn.w1 < old_pn.w1
  if is_unicast then
    if opmode = .ap then pn_is_replay || (new_pn.w0 &&& 1#64) ≠ 0#64
    else pn_is_replay || (new_pn.w0 &&& 1#64) ≠ 1#64
  else pn_is_replay

/-- An entry of `pdev->rx_pn`; the comparison may be NULL. -/
structure RxPnEntry where
  len : Nat
  cmp : Option (Pn → Pn → Bool → OpMode → Bool)

/-- `pdev->rx_pn`, as `ol_txrx_pdev_attach` fills it in. -/
def rx_pn : SecType → RxPnEntry
  | .tkip => ⟨48, some ol_rx_pn_cmp48⟩
  | .tkip_nomic => ⟨48, some ol_rx_pn_cmp48⟩
  | .aes_ccmp => ⟨48, some ol_rx_pn_cmp48⟩
  | .wapi => ⟨128, some ol_rx_pn_wapi_cmp⟩
  | _ => ⟨0, Option.none⟩

/-! ## The check -/

/-- `ol_rx_mpdu_list_next`: the last MSDU of the MPDU that starts at `msdu`, and
the MSDU after it. -/
def ol_rx_mpdu_list_next (b : Buffers) : Nat → Nat → Option (Nat × Option Nat)
  | 0, _ => none
  | fuel + 1, msdu =>
    if (b.desc msdu).last_msdu then some (msdu, b.next msdu)
    else (b.next msdu).bind fun msdu => ol_rx_mpdu_list_next b fuel msdu

/-- The loop that frees the MSDUs of a rejected MPDU, with what it frees. -/
def free_mpdu (b : Buffers) (mpdu_tail fuel mpdu : Nat) : Option (List Nat) :=
  walkTo b.next mpdu_tail fuel mpdu

/-- The variables of `ol_rx_pn_check_base`. `freed` are the buffers that went to
`htt_rx_desc_frame_free`, `rx_err` the MPDUs that `ol_rx_err` was told about,
both in order. -/
structure Vars where
  next : Nat → Option Nat
  out_list_head : Option Nat
  out_list_tail : Option Nat
  last_pn : Pn
  last_pn_valid : Bool
  freed : List Nat
  rx_err : List Nat

def Vars.set_next (v : Vars) (m : Nat) (p : Option Nat) : Vars :=
  { v with next := update v.next m p }

def add_mpdu_to_list (v : Vars) (mpdu mpdu_tail : Nat) : Option Vars :=
  match v.out_list_head with
  | none => some { v with out_list_head := some mpdu, out_list_tail := some mpdu_tail }
  | some _ => v.out_list_tail.map fun tail =>
    { v.set_next tail (some mpdu) with out_list_tail := some mpdu_tail }

/-- Whether the PN is a replay; without a prior PN there is nothing to check. -/
def pn_is_replay (cfg : Cfg) (index : SecIndex) (v : Vars) (new_pn : Pn) : Option Bool :=
  if v.last_pn_valid then
    (rx_pn (cfg.sec_type index)).cmp.map fun cmp =>
      cmp new_pn v.last_pn (index = .ucast) cfg.opmode
  else some false

/-- One pass of the `while` loop, for the MPDU that starts at `mpdu`, with the
MPDU to continue with. -/
def check_mpdu (cfg : Cfg) (b : Buffers) (index : SecIndex) (fuel mpdu : Nat) (v : Vars) :
    Option (Vars × Option Nat) :=
  let rx_desc := b.desc mpdu
  let pn_len := (rx_pn (cfg.sec_type index)).len
  (ol_rx_mpdu_list_next { b with next := v.next } fuel mpdu).bind fun r =>
    if !htt_rx_mpdu_is_encrypted cfg rx_desc then
      (add_mpdu_to_list v mpdu r.1).map fun v => (v, r.2)
    else
      let new_pn := htt_rx_mpdu_desc_pn cfg rx_desc (b.stack mpdu) pn_len
      (pn_is_replay cfg index v new_pn).bind fun replay =>
        let v := { v with last_pn_valid := true }
        if replay then
          (free_mpdu { b with next := v.next } r.1 fuel mpdu).map fun msdus =>
            ({ v with freed := v.freed ++ msdus, rx_err := v.rx_err ++ [mpdu] }, r.2)
        else
          (add_mpdu_to_list v mpdu r.1).map fun v => ({ v with last_pn := new_pn }, r.2)

/-- The `while` loop. -/
def check_loop (cfg : Cfg) (b : Buffers) (index : SecIndex) :
    Nat → Option Nat → Vars → Option Vars
  | _, none, v => some v
  | 0, some _, _ => none
  | fuel + 1, some mpdu, v =>
    (check_mpdu cfg b index fuel mpdu v).bind fun r => check_loop cfg b index fuel r.2 r.1

def terminate (v : Vars) : Vars :=
  match v.out_list_tail with
  | some tail => v.set_next tail none
  | none => v

structure Output where
  msdu_list : Option Nat
  next : Nat → Option Nat
  freed : List Nat
  rx_err : List Nat

/-- The security index that goes with the first MSDU of a list. -/
def secIndex (b : Buffers) (msdu_list : Nat) : SecIndex :=
  if (b.desc msdu_list).mcast_bcast then .mcast else .ucast

def ol_rx_pn_check_base (cfg : Cfg) (peer : Peer) (tid : Nat) (b : Buffers) (fuel : Nat)
    (msdu_list : Nat) : Option (Peer × Output) :=
  if cfg.fw_pn_check || cfg.opmode = .ibss then some (peer, ⟨some msdu_list, b.next, [], []⟩)
  -- `cdf_assert`
  else if !htt_rx_msdu_has_wlan_mcast_flag (b.desc msdu_list) then none
  else
    let index := secIndex b msdu_list
    if (rx_pn (cfg.sec_type index)).len = 0 then
      some (peer, ⟨some msdu_list, b.next, [], []⟩)
    else
      (check_loop cfg b index fuel (some msdu_list)
        { next := b.next
          out_list_head := none
          out_list_tail := none
          last_pn := peer.tids_last_pn tid
          last_pn_valid := peer.tids_last_pn_valid tid
          freed := []
          rx_err := [] }).map fun v =>
        let v := terminate v
        ({ tids_last_pn := update peer.tids_last_pn tid v.last_pn
           tids_last_pn_valid := update peer.tids_last_pn_valid tid v.last_pn_valid },
          ⟨v.out_list_head, v.next, v.freed, v.rx_err⟩)

end Qcacld.RxPn
