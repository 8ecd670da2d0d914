/-
The access control lists of a SoftAP: `sap_fsm.c` and `sap_module.c`.

The list pointers are arrays of the context and not null. Traces are left out, and of what is sent
the deauthentications and the event about an unknown station are kept.
-/
import Mathlib.Data.Finset.Card
import Qcacld.Lib.Run
import Qcacld.Lib.SortedArray

set_option autoImplicit false

namespace Qcacld.SapAcl

open Lib Function

def MAX_ACL_MAC_ADDRESS : Nat := 32

abbrev MacAddr := Vector UInt8 6

def zeroAddr : MacAddr := Vector.replicate 6 0

def memcmp : List UInt8 → List UInt8 → Int
  | x :: xs, y :: ys => if x = y then memcmp xs ys else (x.toNat : Int) - y.toNat
  | _, _ => 0

def cdf_mem_compare2 (a b : MacAddr) : Int := memcmp a.toList b.toList

inductive Status
  | SUCCESS
  | E_FAILURE
  deriving DecidableEq

inductive SapMacAddrACL
  | ACCEPT_UNLESS_DENIED
  | DENY_UNLESS_ACCEPTED
  | SUPPORT_ACCEPT_AND_DENY
  | ALLOW_ALL
  deriving DecidableEq

inductive SapACLType
  | BLACK_LIST
  | WHITE_LIST
  | other (value : Int)

inductive SapACLCmdType
  | ADD_STA_TO_ACL
  | DELETE_STA_FROM_ACL
  | other (value : Int)

inductive Event
  | deauthSta (mac : MacAddr)
  | UNKNOWN_STA_JOIN (mac : MacAddr)

structure MacList where
  macList : Nat → MacAddr
  size : Nat

/-- What `tsap_Config_t` has about the lists. -/
structure Config where
  SapMacaddr_acl : SapMacAddrACL
  accept_mac : MacList
  deny_mac : MacList

structure SapContext where
  eSapMacAddrAclMode : SapMacAddrACL
  acceptMacList : MacList
  denyMacList : MacList

/-! ## One list -/

/-- Bubble sort, with as many passes as there are addresses. -/
def sap_sort_mac_list (l : MacList) : MacList :=
  if l.size > MAX_ACL_MAC_ADDRESS then l
  else { l with macList := bubbleSort cdf_mem_compare2 l.size l.macList }

/-- The index of the address if it is found; no result if the loop goes on for longer than there
are addresses. -/
def sap_search_mac_list (l : MacList) (peerMac : MacAddr) : Option (Option Nat) :=
  if l.size > MAX_ACL_MAC_ADDRESS then some none
  else bsearch cdf_mem_compare2 l.macList peerMac l.size 0 (l.size - 1)

def sap_add_mac_to_acl (l : MacList) (peerMac : MacAddr) : MacList :=
  if l.size = 0 ∨ l.size > MAX_ACL_MAC_ADDRESS then l
  else
    { macList := insertSorted cdf_mem_compare2 l.macList l.size peerMac
      size := l.size + 1 }

def sap_remove_mac_from_acl (l : MacList) (index : Nat) : MacList :=
  if l.size = 0 ∨ l.size > MAX_ACL_MAC_ADDRESS then l
  else
    { macList := update (closeGap (l.size - 1 - index) index l.macList) (l.size - 1) zeroAddr
      size := l.size - 1 }

def clearList (l : MacList) : MacList :=
  { macList := (List.range (l.size - 1)).foldl (fun a i => update a i zeroAddr) l.macList
    size := 0 }

/-! ## The context -/

def wlansap_clear_acl (s : SapContext) : SapContext :=
  { s with denyMacList := clearList s.denyMacList, acceptMacList := clearList s.acceptMacList }

/-- The lists and the mode that `wlansap_start_bss` installs. -/
def startBssAcl (pConfig : Config) : SapContext :=
  { eSapMacAddrAclMode := pConfig.SapMacaddr_acl
    acceptMacList := sap_sort_mac_list pConfig.accept_mac
    denyMacList := sap_sort_mac_list pConfig.deny_mac }

def wlansap_set_mac_acl (pConfig : Config) (s : SapContext) : SapContext :=
  let s := { s with eSapMacAddrAclMode := pConfig.SapMacaddr_acl }
  if s.eSapMacAddrAclMode = .DENY_UNLESS_ACCEPTED then
    { s with acceptMacList := sap_sort_mac_list pConfig.accept_mac }
  else if s.eSapMacAddrAclMode = .ACCEPT_UNLESS_DENIED then
    { s with denyMacList := sap_sort_mac_list pConfig.deny_mac }
  else s

/-- `ADD_STA_TO_ACL` and `DELETE_STA_FROM_ACL` for the white list, with where the address is in
the two lists. -/
def modifyWhite (s : SapContext) (mac : MacAddr) (cmd : SapACLCmdType) (white black : Option Nat) :
    SapContext × Status × List Event :=
  match cmd with
  | .ADD_STA_TO_ACL =>
    if s.acceptMacList.size = MAX_ACL_MAC_ADDRESS then (s, .E_FAILURE, [])
    else if white.isSome then (s, .SUCCESS, [])
    else
      let s := match black with
        | some staBLIndex =>
          { s with denyMacList := sap_remove_mac_from_acl s.denyMacList staBLIndex }
        | none => s
      ({ s with acceptMacList := sap_add_mac_to_acl s.acceptMacList mac }, .SUCCESS, [])
  | .DELETE_STA_FROM_ACL =>
    match white with
    | some staWLIndex =>
      -- a client that is connected is sent a deauthentication
      ({ s with acceptMacList := sap_remove_mac_from_acl s.acceptMacList staWLIndex },
        .SUCCESS, [.deauthSta mac])
    | none => (s, .E_FAILURE, [])
  | .other _ => (s, .E_FAILURE, [])

def modifyBlack (s : SapContext) (mac : MacAddr) (cmd : SapACLCmdType) (white black : Option Nat) :
    SapContext × Status × List Event :=
  match cmd with
  | .ADD_STA_TO_ACL =>
    if s.denyMacList.size = MAX_ACL_MAC_ADDRESS then (s, .E_FAILURE, [])
    else if black.isSome then (s, .SUCCESS, [])
    else
      let s := match white with
        | some staWLIndex =>
          { s with acceptMacList := sap_remove_mac_from_acl s.acceptMacList staWLIndex }
        | none => s
      ({ s with denyMacList := sap_add_mac_to_acl s.denyMacList mac }, .SUCCESS, [.deauthSta mac])
  | .DELETE_STA_FROM_ACL =>
    match black with
    | some staBLIndex =>
      ({ s with denyMacList := sap_remove_mac_from_acl s.denyMacList staBLIndex }, .SUCCESS, [])
    | none => (s, .E_FAILURE, [])
  | .other _ => (s, .E_FAILURE, [])

def wlansap_modify_acl (s : SapContext) (peer_sta_mac : MacAddr) (list_type : SapACLType)
    (cmd : SapACLCmdType) : Option (SapContext × Status × List Event) :=
  (sap_search_mac_list s.acceptMacList peer_sta_mac).bind fun white =>
    (sap_search_mac_list s.denyMacList peer_sta_mac).map fun black =>
      if white.isSome ∧ black.isSome then (s, .E_FAILURE, [])
      else match list_type with
        | .WHITE_LIST => modifyWhite s peer_sta_mac cmd white black
        | .BLACK_LIST => modifyBlack s peer_sta_mac cmd white black
        | .other _ => (s, .E_FAILURE, [])

def sap_is_peer_mac_allowed (s : SapContext) (peerMac : MacAddr) : Option (Status × List Event) :=
  if s.eSapMacAddrAclMode = .ALLOW_ALL then some (.SUCCESS, [])
  else
    (sap_search_mac_list s.acceptMacList peerMac).bind fun accept =>
      if accept.isSome then some (.SUCCESS, [])
      else
        (sap_search_mac_list s.denyMacList peerMac).map fun deny =>
          if deny.isSome then (.E_FAILURE, [])
          else match s.eSapMacAddrAclMode with
            | .ACCEPT_UNLESS_DENIED => (.SUCCESS, [])
            | .DENY_UNLESS_ACCEPTED => (.E_FAILURE, [])
            -- the HDD is told about the station that is not known
            | .SUPPORT_ACCEPT_AND_DENY => (.E_FAILURE, [.UNKNOWN_STA_JOIN peerMac])
            | .ALLOW_ALL => (.SUCCESS, [])

/-! ## Runs -/

inductive Cmd
  | startBss (pConfig : Config)
  | setMacAcl (pConfig : Config)
  | setMode (mode : SapMacAddrACL)
  | clear
  | modify (mac : MacAddr) (list_type : SapACLType) (cmd : SapACLCmdType)

def exec (s : SapContext) : Cmd → Option (SapContext × Status)
  | .startBss c => some (startBssAcl c, .SUCCESS)
  | .setMacAcl c => some (wlansap_set_mac_acl c s, .SUCCESS)
  | .setMode mode => some ({ s with eSapMacAddrAclMode := mode }, .SUCCESS)
  | .clear => some (wlansap_clear_acl s, .SUCCESS)
  | .modify mac ty cmd => (wlansap_modify_acl s mac ty cmd).map fun r => (r.1, r.2.1)

def step (s : SapContext) (c : Cmd) : Option SapContext := (exec s c).map Prod.fst

def emptyList : MacList := ⟨fun _ => zeroAddr, 0⟩

def SapContext.init : SapContext := ⟨.ACCEPT_UNLESS_DENIED, emptyList, emptyList⟩

open Option

/-! A sorted list stands for the set of its elements (`Sets`), which a command changes as it says.
-/

/-! ## The order of addresses -/

theorem memcmp_neg (xs ys : List UInt8) : memcmp xs ys = -memcmp ys xs := by
  induction xs generalizing ys with
  | nil => cases ys <;> rfl
  | cons x xs ih =>
    cases ys with
    | nil => rfl
    | cons y ys =>
      rw [memcmp, memcmp]
      by_cases heq : x = y
      · rw [if_pos heq, if_pos heq.symm]; exact ih ys
      · rw [if_neg heq, if_neg (Ne.symm heq)]; omega

theorem memcmp_eq_zero {xs ys : List UInt8} (h : xs.length = ys.length) :
    memcmp xs ys = 0 ↔ xs = ys := by
  induction xs generalizing ys with
  | nil => rw [List.eq_nil_of_length_eq_zero h.symm]; exact iff_of_true rfl rfl
  | cons x xs ih =>
    cases ys with
    | nil => exact absurd h (Nat.succ_ne_zero _)
    | cons y ys =>
      rw [memcmp, List.cons.injEq]
      by_cases heq : x = y
      · rw [if_pos heq, ih (Nat.succ.inj h), and_iff_right heq]
      · rw [if_neg heq]
        apply iff_of_false
        · intro hzero; exact heq (UInt8.toNat_inj.mp (by omega))
        · exact fun hboth => heq hboth.1

theorem memcmp_trans {xs ys zs : List UInt8} (h : xs.length = ys.length)
    (h' : ys.length = zs.length) (hxy : memcmp xs ys < 0) (hyz : memcmp ys zs < 0) :
    memcmp xs zs < 0 := by
  induction xs generalizing ys zs with
  | nil => exact absurd hxy (Int.lt_irrefl 0)
  | cons x xs ih =>
    cases ys with
    | nil => exact absurd h (Nat.succ_ne_zero _)
    | cons y ys =>
      cases zs with
      | nil => exact absurd h' (Nat.succ_ne_zero _)
      | cons z zs =>
        rw [memcmp] at hxy hyz ⊢
        by_cases hxy' : x = y
        · rw [if_pos hxy'] at hxy
          subst hxy'
          by_cases hxz : x = z
          · rw [if_pos hxz] at hyz ⊢
            exact ih (Nat.succ.inj h) (Nat.succ.inj h') hxy hyz
          · rw [if_neg hxz] at hyz ⊢
            exact hyz
        · rw [if_neg hxy'] at hxy
          by_cases hyz' : y = z
          · subst hyz'
            rw [if_neg hxy']; exact hxy
          · rw [if_neg hyz'] at hyz
            have hxz : x ≠ z := fun heq => by subst heq; omega
            rw [if_neg hxz]; omega

theorem threeWay_compare2 : ThreeWay cdf_mem_compare2 where
  eq_zero := by
    intro x y
    rw [cdf_mem_compare2, memcmp_eq_zero (by rw [Vector.length_toList, Vector.length_toList]),
      Vector.toList_inj]
  swap := by
    intro x y
    rw [cdf_mem_compare2, cdf_mem_compare2, memcmp_neg]; omega
  trans := by
    intro x y z
    apply memcmp_trans <;> rw [Vector.length_toList, Vector.length_toList]

/-! ## One list -/

def MacList.Valid (l : MacList) : Prop :=
  l.size ≤ MAX_ACL_MAC_ADDRESS ∧ DistinctUpTo l.macList l.size

structure MacList.WellFormed (l : MacList) : Prop where
  size_le : l.size ≤ MAX_ACL_MAC_ADDRESS
  sorted : SortedUpTo cdf_mem_compare2 l.macList l.size

def MacList.elems (l : MacList) : Finset MacAddr := (Finset.range l.size).image l.macList

theorem MacList.mem_elems {l : MacList} {x : MacAddr} : x ∈ l.elems ↔ Has l.macList l.size x := by
  simp only [elems, Finset.mem_image, Finset.mem_range, Has]

variable {l : MacList} {mac : MacAddr}

theorem MacList.WellFormed.card_elems (h : l.WellFormed) : l.elems.card = l.size := by
  rw [MacList.elems, Finset.card_image_of_injOn, Finset.card_range]
  intro i hi j hj heq
  rw [Finset.coe_range, Set.mem_Iio] at hi hj
  exact h.sorted.distinct threeWay_compare2 i j hi hj heq

/-- `r` is where the address is in the list. -/
structure FoundAt (l : MacList) (mac : MacAddr) (r : Option Nat) : Prop where
  isSome : r.isSome ↔ mac ∈ l.elems
  at_index : ∀ m, r = some m → m < l.size ∧ l.macList m = mac

theorem sap_search_mac_list_spec (h : l.WellFormed) (mac : MacAddr) :
    ∃ r, sap_search_mac_list l mac = some r ∧ FoundAt l mac r := by
  obtain ⟨r, hr, hfound, hnone⟩ := @bsearch_spec _ _ _ mac _ threeWay_compare2 h.sorted l.size 0
    (l.size - 1) (Int.le_refl 0) (by omega) (by omega) (fun i hi _ => by omega)
  refine ⟨r, ?_, ?_, hfound⟩
  · rw [sap_search_mac_list, if_neg (Nat.not_lt.mpr h.size_le)]; exact hr
  · rw [MacList.mem_elems]
    rcases r with - | m
    · exact iff_of_false Bool.false_ne_true (hnone rfl)
    · exact iff_of_true rfl ⟨m, hfound m rfl⟩

theorem sap_sort_mac_list_spec (h : l.Valid) :
    (sap_sort_mac_list l).WellFormed ∧ (sap_sort_mac_list l).elems = l.elems := by
  obtain ⟨hsorted, hhas⟩ := bubbleSort_spec threeWay_compare2 h.2
  rw [sap_sort_mac_list, if_neg (Nat.not_lt.mpr h.1)]
  refine ⟨⟨h.1, hsorted⟩, ?_⟩
  ext x
  rw [MacList.mem_elems, MacList.mem_elems]; exact hhas x

theorem sap_add_mac_to_acl_spec (h : l.WellFormed) (hpos : l.size ≠ 0)
    (hlt : l.size ≠ MAX_ACL_MAC_ADDRESS) (hnew : mac ∉ l.elems) :
    (sap_add_mac_to_acl l mac).WellFormed ∧
      (sap_add_mac_to_acl l mac).elems = insert mac l.elems := by
  have hle := h.size_le
  rw [MacList.mem_elems] at hnew
  obtain ⟨hsorted, hhas⟩ := insertSorted_spec threeWay_compare2 h.sorted hnew
  rw [sap_add_mac_to_acl, if_neg (by omega)]
  refine ⟨⟨by dsimp only; omega, hsorted⟩, ?_⟩
  ext x
  rw [MacList.mem_elems, Finset.mem_insert, MacList.mem_elems]; exact hhas x

theorem sap_add_mac_to_acl_empty (h : l.size = 0) : sap_add_mac_to_acl l mac = l :=
  if_pos (.inl h)

theorem sap_remove_mac_from_acl_spec (h : l.WellFormed) {m : Nat} (hm : m < l.size)
    (heq : l.macList m = mac) :
    (sap_remove_mac_from_acl l m).WellFormed ∧
      (sap_remove_mac_from_acl l m).elems = l.elems.erase mac := by
  have hle := h.size_le
  -- the place that is wiped is behind the elements
  obtain ⟨hsorted, hhas⟩ := @closeGap_spec _ _ _ _ threeWay_compare2 h.sorted m hm
    (update (closeGap (l.size - 1 - m) m l.macList) (l.size - 1) zeroAddr)
    (fun j hj => update_of_ne (by omega) _ _)
  rw [sap_remove_mac_from_acl, if_neg (by omega)]
  refine ⟨⟨by dsimp only; omega, hsorted⟩, ?_⟩
  ext x
  rw [MacList.mem_elems, Finset.mem_erase, MacList.mem_elems, ← heq, and_comm]; exact hhas x

theorem clearList_spec (l : MacList) : (clearList l).WellFormed ∧ (clearList l).elems = ∅ := by
  refine ⟨⟨Nat.zero_le _, nofun⟩, ?_⟩
  rw [MacList.elems, clearList, Finset.range_zero, Finset.image_empty]

/-! ## Sets of addresses -/

structure Sets where
  mode : SapMacAddrACL
  accept : Finset MacAddr
  deny : Finset MacAddr

def Sets.own (S : Sets) : SapACLType → Finset MacAddr
  | .WHITE_LIST => S.accept
  | .BLACK_LIST => S.deny
  | .other _ => ∅

def Sets.opposite (S : Sets) : SapACLType → Finset MacAddr
  | .WHITE_LIST => S.deny
  | .BLACK_LIST => S.accept
  | .other _ => ∅

def modifySets (own opposite : Finset MacAddr) (mac : MacAddr) :
    SapACLCmdType → (Finset MacAddr × Finset MacAddr) × Status
  | .ADD_STA_TO_ACL =>
    if own.card = MAX_ACL_MAC_ADDRESS then ((own, opposite), .E_FAILURE)
    else ((insert mac own, opposite.erase mac), .SUCCESS)
  | .DELETE_STA_FROM_ACL =>
    if mac ∈ own then ((own.erase mac, opposite), .SUCCESS) else ((own, opposite), .E_FAILURE)
  | .other _ => ((own, opposite), .E_FAILURE)

def Sets.modify (S : Sets) (mac : MacAddr) (ty : SapACLType) (cmd : SapACLCmdType) :
    Sets × Status :=
  if mac ∈ S.accept ∧ mac ∈ S.deny then (S, .E_FAILURE)
  else match ty with
    | .WHITE_LIST =>
      let r := modifySets S.accept S.deny mac cmd
      (⟨S.mode, r.1.1, r.1.2⟩, r.2)
    | .BLACK_LIST =>
      let r := modifySets S.deny S.accept mac cmd
      (⟨S.mode, r.1.2, r.1.1⟩, r.2)
    | .other _ => (S, .E_FAILURE)

def Sets.exec (S : Sets) : Cmd → Sets × Status
  | .startBss c => (⟨c.SapMacaddr_acl, c.accept_mac.elems, c.deny_mac.elems⟩, .SUCCESS)
  | .setMacAcl c =>
    (⟨c.SapMacaddr_acl,
      if c.SapMacaddr_acl = .DENY_UNLESS_ACCEPTED then c.accept_mac.elems else S.accept,
      if c.SapMacaddr_acl = .ACCEPT_UNLESS_DENIED then c.deny_mac.elems else S.deny⟩, .SUCCESS)
  | .setMode mode => ({ S with mode := mode }, .SUCCESS)
  | .clear => (⟨S.mode, ∅, ∅⟩, .SUCCESS)
  | .modify mac ty cmd => S.modify mac ty cmd

def Sets.Rule (S : Sets) (mac : MacAddr) : Prop :=
  match S.mode with
  | .ACCEPT_UNLESS_DENIED => mac ∉ S.deny
  | .DENY_UNLESS_ACCEPTED => mac ∈ S.accept
  | .SUPPORT_ACCEPT_AND_DENY => mac ∈ S.accept
  | .ALLOW_ALL => True

def Sets.init : Sets := ⟨.ACCEPT_UNLESS_DENIED, ∅, ∅⟩

/-! ## The context -/

structure SapContext.WellFormed (s : SapContext) : Prop where
  accept : s.acceptMacList.WellFormed
  deny : s.denyMacList.WellFormed

def SapContext.sets (s : SapContext) : Sets :=
  ⟨s.eSapMacAddrAclMode, s.acceptMacList.elems, s.denyMacList.elems⟩

def SapContext.swap (s : SapContext) : SapContext :=
  { s with acceptMacList := s.denyMacList, denyMacList := s.acceptMacList }

theorem SapContext.WellFormed.swap {s : SapContext} (h : s.WellFormed) : s.swap.WellFormed :=
  ⟨h.deny, h.accept⟩

variable {s : SapContext}

/-- Lists from outside fit and are without repetition, and nothing is added to an empty list. -/
def Ok (s : SapContext) : Cmd → Prop
  | .startBss c => c.accept_mac.Valid ∧ c.deny_mac.Valid
  | .setMacAcl c =>
    (c.SapMacaddr_acl = .DENY_UNLESS_ACCEPTED → c.accept_mac.Valid) ∧
      (c.SapMacaddr_acl = .ACCEPT_UNLESS_DENIED → c.deny_mac.Valid)
  | .modify _ .WHITE_LIST .ADD_STA_TO_ACL => s.acceptMacList.size ≠ 0
  | .modify _ .BLACK_LIST .ADD_STA_TO_ACL => s.denyMacList.size ≠ 0
  | _ => True

instance (l : MacList) : Decidable l.Valid := inferInstanceAs (Decidable (_ ∧ _))

instance (s : SapContext) (c : Cmd) : Decidable (Ok s c) := by
  unfold Ok
  split <;> infer_instance

structure Modified (s : SapContext) (mac : MacAddr) (cmd : SapACLCmdType)
    (r : SapContext × Status × List Event) : Prop where
  wellFormed : r.1.WellFormed
  mode : r.1.eSapMacAddrAclMode = s.eSapMacAddrAclMode
  sets : modifySets s.acceptMacList.elems s.denyMacList.elems mac cmd =
    ((r.1.acceptMacList.elems, r.1.denyMacList.elems), r.2.1)
  same : r.2.1 = .E_FAILURE → r.1 = s

theorem modifyWhite_spec (h : s.WellFormed) {white black : Option Nat} {cmd : SapACLCmdType}
    (hw : FoundAt s.acceptMacList mac white) (hb : FoundAt s.denyMacList mac black)
    (hboth : ¬(white.isSome ∧ black.isSome))
    (hok : cmd = .ADD_STA_TO_ACL → s.acceptMacList.size ≠ 0) :
    Modified s mac cmd (modifyWhite s mac cmd white black) := by
  match cmd with
  | .other _ => exact ⟨h, rfl, rfl, fun _ => rfl⟩
  | .DELETE_STA_FROM_ACL =>
    rcases white with - | m
    · have hnot : mac ∉ s.acceptMacList.elems := fun hin => Bool.false_ne_true (hw.isSome.mpr hin)
      refine ⟨h, rfl, ?_, fun _ => rfl⟩
      rw [modifySets, if_neg hnot]; rfl
    · obtain ⟨hm, heq⟩ := hw.at_index m rfl
      obtain ⟨hwf, helems⟩ := sap_remove_mac_from_acl_spec h.accept hm heq
      refine ⟨⟨hwf, h.deny⟩, rfl, ?_, nofun⟩
      rw [modifySets, if_pos (hw.isSome.mp rfl), ← helems]; rfl
  | .ADD_STA_TO_ACL =>
    unfold modifyWhite
    by_cases hmax : s.acceptMacList.size = MAX_ACL_MAC_ADDRESS
    · rw [if_pos hmax]
      refine ⟨h, rfl, ?_, fun _ => rfl⟩
      rw [modifySets, if_pos (h.accept.card_elems.trans hmax)]
    rw [if_neg hmax]
    have hcard : s.acceptMacList.elems.card ≠ MAX_ACL_MAC_ADDRESS := h.accept.card_elems ▸ hmax
    by_cases hin : white.isSome
    · rw [if_pos hin]
      -- the address is in this list, so it is not in the other one
      have hnot : mac ∉ s.denyMacList.elems := fun hmem => hboth ⟨hin, hb.isSome.mpr hmem⟩
      refine ⟨h, rfl, ?_, nofun⟩
      rw [modifySets, if_neg hcard, Finset.insert_eq_of_mem (hw.isSome.mp hin),
        Finset.erase_eq_of_notMem hnot]
    · rw [if_neg hin]
      obtain ⟨hwf, helems⟩ := sap_add_mac_to_acl_spec h.accept (hok rfl) hmax
        fun hmem => hin (hw.isSome.mpr hmem)
      rcases black with - | m
      · have hnot : mac ∉ s.denyMacList.elems := fun hmem =>
          Bool.false_ne_true (hb.isSome.mpr hmem)
        refine ⟨⟨hwf, h.deny⟩, rfl, ?_, nofun⟩
        rw [modifySets, if_neg hcard, Finset.erase_eq_of_notMem hnot, ← helems]
      · obtain ⟨hm, heq⟩ := hb.at_index m rfl
        obtain ⟨hwf', helems'⟩ := sap_remove_mac_from_acl_spec h.deny hm heq
        refine ⟨⟨hwf, hwf'⟩, rfl, ?_, nofun⟩
        rw [modifySets, if_neg hcard, ← helems, ← helems']

theorem modifyBlack_swap (s : SapContext) (mac : MacAddr) (cmd : SapACLCmdType)
    (white black : Option Nat) :
    (modifyBlack s mac cmd white black).1 = (modifyWhite s.swap mac cmd black white).1.swap ∧
      (modifyBlack s mac cmd white black).2.1 = (modifyWhite s.swap mac cmd black white).2.1 := by
  match cmd with
  | .other _ => exact ⟨rfl, rfl⟩
  | .DELETE_STA_FROM_ACL =>
    rcases black with - | m <;> exact ⟨rfl, rfl⟩
  | .ADD_STA_TO_ACL =>
    have hsize : s.swap.acceptMacList.size = s.denyMacList.size := rfl
    unfold modifyBlack modifyWhite
    rw [hsize]
    by_cases hmax : s.denyMacList.size = MAX_ACL_MAC_ADDRESS
    · rw [if_pos hmax, if_pos hmax]; exact ⟨rfl, rfl⟩
    rw [if_neg hmax, if_neg hmax]
    by_cases hin : black.isSome
    · rw [if_pos hin, if_pos hin]; exact ⟨rfl, rfl⟩
    · rw [if_neg hin, if_neg hin]
      rcases white with - | m <;> exact ⟨rfl, rfl⟩

theorem wlansap_modify_acl_spec (h : s.WellFormed) {ty : SapACLType} {cmd : SapACLCmdType}
    (hok : Ok s (.modify mac ty cmd)) :
    ∃ r, wlansap_modify_acl s mac ty cmd = some r ∧ r.1.WellFormed ∧
      s.sets.modify mac ty cmd = (r.1.sets, r.2.1) ∧ (r.2.1 = .E_FAILURE → r.1 = s) := by
  obtain ⟨white, hwhite, hw⟩ := sap_search_mac_list_spec h.accept mac
  obtain ⟨black, hblack, hb⟩ := sap_search_mac_list_spec h.deny mac
  rw [wlansap_modify_acl, hwhite, bind_some, hblack, map_some]
  refine ⟨_, rfl, ?_⟩
  have hiff : white.isSome ∧ black.isSome ↔ mac ∈ s.sets.accept ∧ mac ∈ s.sets.deny :=
    and_congr hw.isSome hb.isSome
  by_cases hboth : white.isSome ∧ black.isSome
  · unfold Sets.modify
    rw [if_pos hboth, if_pos (hiff.mp hboth)]; exact ⟨h, rfl, fun _ => rfl⟩
  unfold Sets.modify
  rw [if_neg hboth, if_neg (fun hin => hboth (hiff.mpr hin))]
  match ty with
  | .other _ => exact ⟨h, rfl, fun _ => rfl⟩
  | .WHITE_LIST =>
    have hmod := @modifyWhite_spec mac s h white black cmd hw hb hboth fun hadd => by
      subst hadd; exact hok
    refine ⟨hmod.wellFormed, ?_, hmod.same⟩
    dsimp only [SapContext.sets]
    rw [hmod.sets, hmod.mode]
  | .BLACK_LIST =>
    have hmod := @modifyWhite_spec mac s.swap h.swap black white cmd hb hw
      (fun hin => hboth hin.symm) fun hadd => by subst hadd; exact hok
    obtain ⟨hctx, hstatus⟩ := modifyBlack_swap s mac cmd white black
    rw [hctx, hstatus]
    refine ⟨hmod.wellFormed.swap, ?_, fun hfail => ?_⟩
    · have hsets := hmod.sets
      have hmode := hmod.mode
      dsimp only [SapContext.sets, SapContext.swap] at hsets hmode ⊢
      rw [hsets, hmode]
    · rw [hmod.same hfail]; rfl

theorem exec_spec (h : s.WellFormed) {c : Cmd} (hok : Ok s c) :
    ∃ s' status, exec s c = some (s', status) ∧ s'.WellFormed ∧
      s.sets.exec c = (s'.sets, status) ∧ (status = .E_FAILURE → s' = s) := by
  match c with
  | .startBss c =>
    obtain ⟨hacc, hacc'⟩ := sap_sort_mac_list_spec hok.1
    obtain ⟨hdeny, hdeny'⟩ := sap_sort_mac_list_spec hok.2
    refine ⟨_, _, rfl, ⟨hacc, hdeny⟩, ?_, nofun⟩
    rw [Sets.exec, ← hacc', ← hdeny']; rfl
  | .setMacAcl c =>
    refine ⟨_, _, rfl, ?_⟩
    rw [Sets.exec, wlansap_set_mac_acl]
    by_cases hmode : c.SapMacaddr_acl = .DENY_UNLESS_ACCEPTED
    · obtain ⟨hwf, helems⟩ := sap_sort_mac_list_spec (hok.1 hmode)
      have hmode' : c.SapMacaddr_acl ≠ .ACCEPT_UNLESS_DENIED := by rw [hmode]; decide
      rw [if_pos hmode, if_pos hmode, if_neg hmode', ← helems]
      exact ⟨⟨hwf, h.deny⟩, rfl, nofun⟩
    rw [if_neg hmode, if_neg hmode]
    by_cases hmode' : c.SapMacaddr_acl = .ACCEPT_UNLESS_DENIED
    · obtain ⟨hwf, helems⟩ := sap_sort_mac_list_spec (hok.2 hmode')
      rw [if_pos hmode', if_pos hmode', ← helems]; exact ⟨⟨h.accept, hwf⟩, rfl, nofun⟩
    · rw [if_neg hmode', if_neg hmode']; exact ⟨⟨h.accept, h.deny⟩, rfl, nofun⟩
  | .setMode mode => exact ⟨_, _, rfl, ⟨h.accept, h.deny⟩, rfl, nofun⟩
  | .clear =>
    obtain ⟨hacc, hacc'⟩ := clearList_spec s.acceptMacList
    obtain ⟨hdeny, hdeny'⟩ := clearList_spec s.denyMacList
    refine ⟨_, _, rfl, ⟨hacc, hdeny⟩, ?_, nofun⟩
    rfl
  | .modify mac ty cmd =>
    obtain ⟨r, hr, hwf, hsets, hsame⟩ := wlansap_modify_acl_spec h hok
    exact ⟨r.1, r.2.1, by rw [exec, hr, map_some], hwf, hsets, hsame⟩

theorem modifyWhite_empty (h : s.WellFormed) {white black : Option Nat}
    (hw : FoundAt s.acceptMacList mac white) (hb : FoundAt s.denyMacList mac black)
    (hempty : s.acceptMacList.size = 0) {r : SapContext × Status × List Event}
    (hr : modifyWhite s mac .ADD_STA_TO_ACL white black = r) :
    r.2.1 = .SUCCESS ∧ mac ∉ r.1.acceptMacList.elems ∧ mac ∉ r.1.denyMacList.elems := by
  have hnot : mac ∉ s.acceptMacList.elems := by
    rw [MacList.elems, hempty]; exact Finset.notMem_empty mac
  have hnone : ¬white.isSome := fun hsome => hnot (hw.isSome.mp hsome)
  have hmax : s.acceptMacList.size ≠ MAX_ACL_MAC_ADDRESS := by rw [hempty]; decide
  unfold modifyWhite at hr
  dsimp only at hr
  rw [if_neg hmax, if_neg hnone] at hr
  rcases black with - | m
  · rw [sap_add_mac_to_acl_empty hempty] at hr
    subst hr; exact ⟨rfl, hnot, fun hin => Bool.false_ne_true (hb.isSome.mpr hin)⟩
  · -- it is taken out of the other list and not added to this one
    obtain ⟨hm, heq⟩ := hb.at_index m rfl
    obtain ⟨-, helems⟩ := sap_remove_mac_from_acl_spec h.deny hm heq
    rw [sap_add_mac_to_acl_empty hempty] at hr
    subst hr
    refine ⟨rfl, hnot, ?_⟩
    rw [helems]; exact Finset.notMem_erase mac _

theorem add_to_empty (h : s.WellFormed) {ty : SapACLType} (mac : MacAddr)
    (hok : ¬Ok s (.modify mac ty .ADD_STA_TO_ACL)) :
    ∃ s', exec s (.modify mac ty .ADD_STA_TO_ACL) = some (s', .SUCCESS) ∧
      mac ∉ s'.sets.accept ∧ mac ∉ s'.sets.deny := by
  obtain ⟨white, hwhite, hw⟩ := sap_search_mac_list_spec h.accept mac
  obtain ⟨black, hblack, hb⟩ := sap_search_mac_list_spec h.deny mac
  have hnotin : ∀ {l : MacList} {r : Option Nat}, FoundAt l mac r → l.size = 0 → ¬r.isSome := by
    intro l r hfound hempty hsome
    obtain ⟨m, hm⟩ := isSome_iff_exists.mp hsome
    have hlt := (hfound.at_index m hm).1
    omega
  rw [exec, wlansap_modify_acl, hwhite, bind_some, hblack, map_some, map_some]
  match ty with
  | .other _ => exact absurd trivial hok
  | .WHITE_LIST =>
    have hempty : s.acceptMacList.size = 0 := not_not.mp hok
    rw [if_neg (fun hboth => hnotin hw hempty hboth.1)]
    obtain ⟨hstatus, hout, hout'⟩ := modifyWhite_empty h hw hb hempty rfl
    rw [hstatus]; exact ⟨_, rfl, hout, hout'⟩
  | .BLACK_LIST =>
    have hempty : s.denyMacList.size = 0 := not_not.mp hok
    rw [if_neg (fun hboth => hnotin hb hempty hboth.2)]
    obtain ⟨hstatus, hout, hout'⟩ := @modifyWhite_empty mac s.swap h.swap black white hb hw hempty
      _ rfl
    obtain ⟨hctx, hstatus'⟩ := modifyBlack_swap s mac .ADD_STA_TO_ACL white black
    rw [hctx, hstatus', hstatus]; exact ⟨_, rfl, hout', hout⟩

/-! ## Whom a mode lets in -/

theorem sap_is_peer_mac_allowed_spec (h : s.WellFormed) (mac : MacAddr) :
    ∃ status sent, sap_is_peer_mac_allowed s mac = some (status, sent) ∧
      (status = .SUCCESS ↔ s.sets.Rule mac ∨ mac ∈ s.sets.accept) := by
  obtain ⟨accept, haccept, ha⟩ := sap_search_mac_list_spec h.accept mac
  obtain ⟨deny, hdeny, hd⟩ := sap_search_mac_list_spec h.deny mac
  have hrule : s.sets.Rule mac = match s.eSapMacAddrAclMode with
      | .ACCEPT_UNLESS_DENIED => mac ∉ s.denyMacList.elems
      | .DENY_UNLESS_ACCEPTED => mac ∈ s.acceptMacList.elems
      | .SUPPORT_ACCEPT_AND_DENY => mac ∈ s.acceptMacList.elems
      | .ALLOW_ALL => True := rfl
  rw [sap_is_peer_mac_allowed, haccept, hdeny, bind_some, map_some, hrule]
  by_cases hin : mac ∈ s.acceptMacList.elems
  · rw [if_pos (ha.isSome.mpr hin), ite_self]; exact ⟨_, _, rfl, iff_of_true rfl (.inr hin)⟩
  rw [if_neg (fun hsome => hin (ha.isSome.mp hsome))]
  have hout : mac ∉ s.sets.accept := hin
  rw [or_iff_left hout]
  by_cases hin' : mac ∈ s.denyMacList.elems
  · rw [if_pos (hd.isSome.mpr hin')]
    cases hmode : s.eSapMacAddrAclMode with
    | ALLOW_ALL => exact ⟨_, _, if_pos rfl, iff_of_true rfl trivial⟩
    | ACCEPT_UNLESS_DENIED =>
      exact ⟨_, _, if_neg (by decide), iff_of_false (by decide) fun hnot => hnot hin'⟩
    | DENY_UNLESS_ACCEPTED | SUPPORT_ACCEPT_AND_DENY =>
      exact ⟨_, _, if_neg (by decide), iff_of_false (by decide) hin⟩
  · rw [if_neg (fun hsome => hin' (hd.isSome.mp hsome))]
    cases hmode : s.eSapMacAddrAclMode with
    | ALLOW_ALL => exact ⟨_, _, if_pos rfl, iff_of_true rfl trivial⟩
    | ACCEPT_UNLESS_DENIED => exact ⟨_, _, if_neg (by decide), iff_of_true rfl hin'⟩
    | DENY_UNLESS_ACCEPTED | SUPPORT_ACCEPT_AND_DENY =>
      exact ⟨_, _, if_neg (by decide), iff_of_false (by decide) hin⟩

/-! ## Runs -/

theorem wellFormed_init : SapContext.init.WellFormed :=
  ⟨⟨Nat.zero_le _, nofun⟩,
    ⟨Nat.zero_le _, nofun⟩⟩

def Sets.after (S : Sets) (cs : List Cmd) : Sets := cs.foldl (fun S c => (S.exec c).1) S

theorem run_sets {cs : List Cmd} {s s' : SapContext} (h : s.WellFormed)
    (hrun : run (guarded Ok step) s cs = some s') : s'.WellFormed ∧ s'.sets = s.sets.after cs := by
  induction cs generalizing s with
  | nil =>
    rw [run_nil, some.injEq] at hrun
    subst hrun; exact ⟨h, rfl⟩
  | cons c cs ih =>
    obtain ⟨t, ht, hrun⟩ := run_cons_eq_some.mp hrun
    obtain ⟨hok, hstep⟩ := guarded_eq_some.mp ht
    obtain ⟨u, status, hexec, hwf, hsets, -⟩ := exec_spec h hok
    rw [step, hexec, map_some, some.injEq] at hstep
    subst hstep
    obtain ⟨hwf', hsets'⟩ := ih hwf hrun
    refine ⟨hwf', ?_⟩
    rw [hsets', Sets.after, Sets.after, List.foldl_cons, hsets]

theorem modify_own {S S' : Sets} {ty : SapACLType} {cmd : SapACLCmdType}
    (h : S.modify mac ty cmd = (S', .SUCCESS)) :
    (cmd = .ADD_STA_TO_ACL ∧ S'.own ty = insert mac (S.own ty) ∧
        S'.opposite ty = (S.opposite ty).erase mac) ∨
      (cmd = .DELETE_STA_FROM_ACL ∧ mac ∈ S.own ty ∧ S'.own ty = (S.own ty).erase mac ∧
        S'.opposite ty = S.opposite ty) := by
  have hsets : ∀ {own opposite own' opposite' : Finset MacAddr},
      modifySets own opposite mac cmd = ((own', opposite'), .SUCCESS) →
        (cmd = .ADD_STA_TO_ACL ∧ own' = insert mac own ∧ opposite' = opposite.erase mac) ∨
          (cmd = .DELETE_STA_FROM_ACL ∧ mac ∈ own ∧ own' = own.erase mac ∧
            opposite' = opposite) := by
    intro own opposite own' opposite' heq
    match cmd with
    | .other _ => exact nomatch (Prod.mk.inj heq).2
    | .ADD_STA_TO_ACL =>
      rw [modifySets] at heq
      split at heq
      · exact nomatch (Prod.mk.inj heq).2
      · obtain ⟨hown, hopp⟩ := Prod.mk.inj (Prod.mk.inj heq).1
        exact .inl ⟨rfl, hown.symm, hopp.symm⟩
    | .DELETE_STA_FROM_ACL =>
      rw [modifySets] at heq
      split at heq
      next hin =>
        obtain ⟨hown, hopp⟩ := Prod.mk.inj (Prod.mk.inj heq).1
        exact .inr ⟨rfl, hin, hown.symm, hopp.symm⟩
      · exact nomatch (Prod.mk.inj heq).2
  unfold Sets.modify at h
  split at h
  · exact nomatch (Prod.mk.inj h).2
  match ty with
  | .other _ => exact nomatch (Prod.mk.inj h).2
  | .WHITE_LIST => obtain ⟨rfl, hstatus⟩ := Prod.mk.inj h; exact hsets (Prod.ext rfl hstatus)
  | .BLACK_LIST => obtain ⟨rfl, hstatus⟩ := Prod.mk.inj h; exact hsets (Prod.ext rfl hstatus)

/-- **The lists of a SoftAP.** As long as no address is added to an empty list, the lists are
sorted and hold what the commands say. The next addition puts the address in its list and in it
only, a deletion takes this address out of it, and a command that fails changes nothing. -/
theorem acl_lists (cs : List Cmd) (s : SapContext) (h : run (guarded Ok step) .init cs = some s) :
    s.WellFormed ∧ s.sets = Sets.init.after cs ∧
      (∀ c, Ok s c → ∃ s' status, exec s c = some (s', status) ∧
        s.sets.exec c = (s'.sets, status) ∧ (status = .E_FAILURE → s' = s)) ∧
      (∀ mac ty s', Ok s (.modify mac ty .ADD_STA_TO_ACL) →
        exec s (.modify mac ty .ADD_STA_TO_ACL) = some (s', .SUCCESS) →
          s'.sets.own ty = insert mac (s.sets.own ty) ∧
            s'.sets.opposite ty = (s.sets.opposite ty).erase mac) ∧
      (∀ mac ty s', exec s (.modify mac ty .DELETE_STA_FROM_ACL) = some (s', .SUCCESS) →
        mac ∈ s.sets.own ty ∧ s'.sets.own ty = (s.sets.own ty).erase mac ∧
          s'.sets.opposite ty = s.sets.opposite ty) ∧
      (∀ mac, (∃ i, sap_search_mac_list s.acceptMacList mac = some (some i)) ↔
        mac ∈ s.sets.accept) ∧
      (∀ mac, (∃ i, sap_search_mac_list s.denyMacList mac = some (some i)) ↔ mac ∈ s.sets.deny) ∧
      (∀ mode mac, ∃ status sent,
        sap_is_peer_mac_allowed { s with eSapMacAddrAclMode := mode } mac = some (status, sent) ∧
          (status = .SUCCESS ↔ Sets.Rule { s.sets with mode := mode } mac ∨ mac ∈ s.sets.accept)) ∧
      ∀ mac ty, ¬Ok s (.modify mac ty .ADD_STA_TO_ACL) →
        ∃ s', exec s (.modify mac ty .ADD_STA_TO_ACL) = some (s', .SUCCESS) ∧
          mac ∉ s'.sets.accept ∧ mac ∉ s'.sets.deny := by
  obtain ⟨hwf, hsets⟩ := run_sets wellFormed_init h
  have hexec : ∀ {c s' status}, Ok s c → exec s c = some (s', status) →
      s.sets.exec c = (s'.sets, status) := by
    intro c s' status hok heq
    obtain ⟨u, status', hu, -, hspec, -⟩ := exec_spec hwf hok
    obtain ⟨rfl, rfl⟩ := Prod.mk.inj (some.inj (heq.symm.trans hu))
    exact hspec
  have hsearch : ∀ {l : MacList}, l.WellFormed → ∀ mac,
      (∃ i, sap_search_mac_list l mac = some (some i)) ↔ mac ∈ l.elems := by
    intro l hl mac
    obtain ⟨r, hr, hfound⟩ := sap_search_mac_list_spec hl mac
    rw [← hfound.isSome, hr, isSome_iff_exists]; exact exists_congr fun i => some_inj
  refine ⟨hwf, hsets, ?_, ?_, ?_, hsearch hwf.accept, hsearch hwf.deny, ?_, ?_⟩
  · intro c hok
    obtain ⟨s', status, hexec', -, hspec, hsame⟩ := exec_spec hwf hok
    exact ⟨s', status, hexec', hspec, hsame⟩
  · intro mac ty s' hok heq
    rcases modify_own (hexec hok heq) with ⟨-, hown⟩ | ⟨hcmd, -⟩
    · exact hown
    · exact nomatch hcmd
  · intro mac ty s' heq
    have hok : Ok s (.modify mac ty .DELETE_STA_FROM_ACL) := by
      match ty with
      | .WHITE_LIST | .BLACK_LIST | .other _ => exact trivial
    rcases modify_own (hexec hok heq) with ⟨hcmd, -⟩ | ⟨-, hown⟩
    · exact nomatch hcmd
    · exact hown
  · intro mode mac
    exact @sap_is_peer_mac_allowed_spec { s with eSapMacAddrAclMode := mode }
      ⟨hwf.accept, hwf.deny⟩ mac
  · exact fun mac ty hok => add_to_empty hwf mac hok

def station (x : UInt8) : MacAddr := #v[2, 0, 0, 0, 0, x]

def oneStation : MacList := ⟨fun _ => station 7, 1⟩

def aclCmds : List Cmd :=
  [.startBss ⟨.DENY_UNLESS_ACCEPTED, oneStation, ⟨fun _ => station 1, 1⟩⟩,
    .modify (station 9) .WHITE_LIST .ADD_STA_TO_ACL,
    .modify (station 3) .WHITE_LIST .ADD_STA_TO_ACL,
    .modify (station 7) .BLACK_LIST .ADD_STA_TO_ACL]

theorem acl_lists_three : ∃ s, run (guarded Ok step) .init aclCmds = some s ∧
    sap_search_mac_list s.acceptMacList (station 9) = some (some 1) ∧
    sap_search_mac_list s.acceptMacList (station 7) = some none ∧ s.WellFormed := by
  exact exists_of_tested (fun s => _ ∧ _) (by decide +kernel) fun s hs ⟨hin, hout⟩ =>
    ⟨hin, hout, (acl_lists aclCmds s hs).1⟩

/-- The first station of a black list: the command succeeds, and the station is let in. -/
theorem add_first_station :
    ((exec .init (.modify (station 7) .BLACK_LIST .ADD_STA_TO_ACL)).map fun r =>
      (r.2, sap_search_mac_list r.1.denyMacList (station 7),
        (sap_is_peer_mac_allowed r.1 (station 7)).map Prod.fst)) =
      some (.SUCCESS, some none, some .SUCCESS) := by decide +kernel

end Qcacld.SapAcl
