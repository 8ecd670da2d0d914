/-
Changing the hardware mode after the beacons are updated: `cds_concurrency.c`.

The contexts are not null, and the ids of the connections fit the callback's byte. Whether a request
to the SME succeeds is up to the environment. With each call of `cds_soc_set_hw_mode` is noted how
many updates were outstanding then.
-/
import Mathlib.Algebra.Order.Ring.Int
import Qcacld.Lib.Countdown

set_option autoImplicit false

namespace Qcacld.CdsHwMode

open Lib

section

inductive Status
  | SUCCESS
  | E_FAILURE
  | E_NOSUPPORT
  | E_ALREADY
  deriving DecidableEq

inductive ConMode
  | STA
  | SAP
  | P2P_CLIENT
  | P2P_GO
  | IBSS
  deriving DecidableEq

inductive NextAction
  | NOP
  | DBS
  | DBS_DOWNGRADE
  | MCC
  | MCC_UPGRADE
  | MAX_CONC_NEXT_ACTION
  deriving DecidableEq

inductive HwModeSs
  | SS_0x0
  | SS_1x1
  | SS_2x2
  deriving DecidableEq

inductive HwModeBw
  | BW_NONE
  | BW_40_MHZ
  | BW_80_MHZ
  deriving DecidableEq

/-- `struct cds_conc_connection_info`, without channel, bandwidth, mac and chain mask. An
`original_nss` of 1 is taken for that of a connection that began with two streams. -/
structure ConnInfo where
  mode : ConMode
  tx_spatial_stream : Nat
  rx_spatial_stream : Nat
  original_nss : Nat
  vdev_id : Nat
  in_use : Bool

structure NssUpdate where
  vdev_id : Nat
  new_nss : Nat
  next_action : NextAction
  reason : Nat
  deriving DecidableEq

structure SetHwMode where
  session_id : Nat
  mac0_ss : HwModeSs
  mac0_bw : HwModeBw
  mac1_ss : HwModeSs
  mac1_bw : HwModeBw
  dbs : Bool
  reason : Nat
  deriving DecidableEq

structure Env where
  /-- `wma_is_hw_dbs_capable`. -/
  dbs_capable : Bool
  /-- `dbs_cap` of the mode that `wma_get_current_hw_mode` gives, if it succeeds. -/
  current_hw_mode : Option Bool
  /-- Whether a call of `sme_nss_update_request` succeeds; the calls are numbered. -/
  nss_update_ok : Nat → Bool
  set_hw_mode_status : Status

structure State where
  conc_connection_list : List ConnInfo
  /-- The calls of `sme_nss_update_request` so far. -/
  calls : Nat
  /-- The updates whose callback has not come yet. -/
  outstanding : List NssUpdate
  /-- The calls of `cds_soc_set_hw_mode`. -/
  sets : List (SetHwMode × Nat)

def CDS_RX_NSS_1 : Nat := 1
def CDS_RX_NSS_2 : Nat := 2

variable (env : Env)

/-! ## The table of connections -/

def cds_mode_specific_connection_count (mode : ConMode) (t : List ConnInfo) : List Nat :=
  (List.range t.length).filter fun i => t[i]?.any fun c => c.mode = mode ∧ c.in_use

/-- The length of the table if there is no such connection. -/
def cds_get_connection_for_vdev_id (vdev_id : Nat) (t : List ConnInfo) : Nat :=
  t.findIdx fun c => c.vdev_id = vdev_id ∧ c.in_use

def isWaiting (streams : Nat) (c : ConnInfo) : Bool :=
  c.original_nss = 1 ∧ c.tx_spatial_stream = streams ∧ c.rx_spatial_stream = streams ∧ c.in_use

def cds_wait_for_nss_update (action : NextAction) (t : List ConnInfo) : Bool :=
  match action with
  | .DBS => t.any (isWaiting 2)
  | .MCC => t.any (isWaiting 1)
  | _ => false

/-! ## The actions -/

def cds_soc_set_hw_mode (s : State) (m : SetHwMode) : State × Status :=
  ({ s with sets := s.sets ++ [(m, s.outstanding.length)] }, env.set_hw_mode_status)

/-- One connection of the loops of `cds_complete_action`; with the status of the last request. -/
def requestNss (new_nss : Nat) (next_action : NextAction) (reason : Nat) (r : State × Status)
    (i : Nat) : State × Status :=
  match r.1.conc_connection_list[i]? with
  | none => r
  | some c =>
    if c.original_nss = 1 then
      if env.nss_update_ok r.1.calls then
        ({ r.1 with
            calls := r.1.calls + 1
            outstanding := r.1.outstanding ++ [⟨c.vdev_id, new_nss, next_action, reason⟩] },
          .SUCCESS)
      else ({ r.1 with calls := r.1.calls + 1 }, .E_FAILURE)
    else r

/-- The loop over the GO connections, from `index` on. Where a connection is not found it goes
on without counting up. -/
def goLoop (new_nss : Nat) (next_action : NextAction) (reason : Nat) (list : List Nat) :
    Nat → Nat → State × Status → Option (State × Status)
  | 0, index, r => if index < list.length then none else some r
  | fuel + 1, index, r =>
    match list[index]? with
    | none => some r
    | some i =>
      let t := r.1.conc_connection_list
      if t[i]?.all fun c => cds_get_connection_for_vdev_id c.vdev_id t = t.length then
        goLoop new_nss next_action reason list fuel index r
      else
        goLoop new_nss next_action reason list fuel (index + 1)
          (requestNss env new_nss next_action reason r i)

/-- `next_actions` is `cds_next_actions`, which calls this function. -/
def cds_complete_action (next_actions : NextAction → State → Option (State × Status))
    (new_nss : Nat) (next_action : NextAction) (reason : Nat) (s : State) :
    Option (State × Status) :=
  if env.dbs_capable = false then some (s, .E_NOSUPPORT)
  else
    let list := cds_mode_specific_connection_count .P2P_GO s.conc_connection_list
    (goLoop env new_nss next_action reason list list.length 0 (s, .E_FAILURE)).bind fun r =>
      let list := cds_mode_specific_connection_count .SAP r.1.conc_connection_list
      let r := list.foldl (requestNss env new_nss next_action reason) r
      if r.2 ≠ .SUCCESS then next_actions next_action r.1 else some r

/-- The first argument bounds how often it is entered again. -/
def cds_next_actions : Nat → Nat → NextAction → Nat → State → Option (State × Status)
  | 0, _, _, _, _ => none
  | depth + 1, session_id, action, reason, s =>
    if env.dbs_capable = false then some (s, .E_NOSUPPORT)
    else
      match env.current_hw_mode with
      | none => some (s, .E_FAILURE)
      | some dbs_cap =>
        if ((action = .DBS_DOWNGRADE ∨ action = .DBS) ∧ dbs_cap = true) ∨
            ((action = .MCC_UPGRADE ∨ action = .MCC) ∧ dbs_cap = false) then
          some (s, .E_ALREADY)
        else
          match action with
          | .DBS_DOWNGRADE =>
            cds_complete_action env
              (fun action => cds_next_actions depth session_id action reason)
              CDS_RX_NSS_1 .DBS reason s
          | .DBS =>
            some (cds_soc_set_hw_mode env s
              ⟨session_id, .SS_1x1, .BW_80_MHZ, .SS_1x1, .BW_40_MHZ, true, reason⟩)
          | .MCC_UPGRADE =>
            cds_complete_action env
              (fun action => cds_next_actions depth session_id action reason)
              CDS_RX_NSS_2 .MCC reason s
          | .MCC =>
            some (cds_soc_set_hw_mode env s
              ⟨session_id, .SS_2x2, .BW_80_MHZ, .SS_0x0, .BW_NONE, false, reason⟩)
          | .NOP | .MAX_CONC_NEXT_ACTION => some (s, .E_FAILURE)

/-! ## The callback -/

def setStreams (streams : Nat) (c : ConnInfo) : ConnInfo :=
  { c with tx_spatial_stream := streams, rx_spatial_stream := streams }

def cds_nss_update_cb (tx_status : Status) (u : NssUpdate) (s : State) : Option State :=
  if tx_status = .E_FAILURE then some s
  else
    let conn_index := cds_get_connection_for_vdev_id u.vdev_id s.conc_connection_list
    if conn_index = s.conc_connection_list.length then some s
    else
      let (t, wait) :=
        match u.next_action with
        | .DBS =>
          let t := s.conc_connection_list.modify conn_index (setStreams 1)
          (t, cds_wait_for_nss_update .DBS t)
        | .MCC =>
          let t := s.conc_connection_list.modify conn_index (setStreams 2)
          (t, cds_wait_for_nss_update .MCC t)
        | _ => (s.conc_connection_list, true)
      let s := { s with conc_connection_list := t }
      if wait then some s
      else (cds_next_actions env 2 u.vdev_id u.next_action u.reason s).map Prod.fst

def callbacks : List NssUpdate → State → Option State
  | [], s => some s
  | u :: us, s =>
    if u ∈ s.outstanding then
      (cds_nss_update_cb env .SUCCESS u { s with outstanding := s.outstanding.erase u }).bind
        (callbacks us)
    else none

end

open List

/-! What is waited for are the connections that began with two streams and do not have the new
number. -/

/-! ## The two directions -/

/-- To DBS mode with a downgrade to one stream, or to the other mode with an upgrade to two. -/
inductive Dir
  | downgrade
  | upgrade

namespace Dir

def action : Dir → NextAction
  | downgrade => .DBS_DOWNGRADE
  | upgrade => .MCC_UPGRADE

def next : Dir → NextAction
  | downgrade => .DBS
  | upgrade => .MCC

def nss : Dir → Nat
  | downgrade => CDS_RX_NSS_1
  | upgrade => CDS_RX_NSS_2

/-- The number of streams of the connections that are waited for. -/
def old : Dir → Nat
  | downgrade => 2
  | upgrade => 1

def new : Dir → Nat
  | downgrade => 1
  | upgrade => 2

def dbs : Dir → Bool
  | downgrade => true
  | upgrade => false

def target (session_id reason : Nat) : Dir → SetHwMode
  | downgrade => ⟨session_id, .SS_1x1, .BW_80_MHZ, .SS_1x1, .BW_40_MHZ, true, reason⟩
  | upgrade => ⟨session_id, .SS_2x2, .BW_80_MHZ, .SS_0x0, .BW_NONE, false, reason⟩

theorem new_ne_old (d : Dir) : d.new ≠ d.old := by
  match d with
  | downgrade | upgrade => decide

end Dir

variable {env : Env} {d : Dir} {s : State}

theorem cds_next_actions_next (hcap : env.dbs_capable = true)
    (hhw : env.current_hw_mode = some !d.dbs) (depth session_id reason : Nat) (s : State) :
    cds_next_actions env (depth + 1) session_id d.next reason s =
      some (cds_soc_set_hw_mode env s (d.target session_id reason)) := by
  unfold cds_next_actions
  rw [hcap, hhw]
  match d with
  | .downgrade | .upgrade => rfl

theorem cds_next_actions_action (hcap : env.dbs_capable = true)
    (hhw : env.current_hw_mode = some !d.dbs) (depth session_id reason : Nat) (s : State) :
    cds_next_actions env (depth + 1) session_id d.action reason s =
      cds_complete_action env (fun action => cds_next_actions env depth session_id action reason)
        d.nss d.next reason s := by
  unfold cds_next_actions
  rw [hcap, hhw]
  match d with
  | .downgrade | .upgrade => rfl

/-! ## The requests -/

def twoStreams (t : List ConnInfo) (list : List Nat) : List Nat :=
  list.filterMap fun i => t[i]?.bind fun c => if c.original_nss = 1 then some c.vdev_id else none

def requested (t : List ConnInfo) : List Nat :=
  twoStreams t (cds_mode_specific_connection_count .P2P_GO t ++
    cds_mode_specific_connection_count .SAP t)

def accepted (env : Env) (new_nss : Nat) (next_action : NextAction) (reason : Nat) :
    Nat → List Nat → List NssUpdate
  | _, [] => []
  | k, v :: vs =>
    if env.nss_update_ok k then
      ⟨v, new_nss, next_action, reason⟩ :: accepted env new_nss next_action reason (k + 1) vs
    else accepted env new_nss next_action reason (k + 1) vs

def lastStatus (env : Env) (k : Nat) (vs : List Nat) (status : Status) : Status :=
  if vs = [] then status
  else if env.nss_update_ok (k + vs.length - 1) then .SUCCESS else .E_FAILURE

theorem lastStatus_cons (env : Env) (k v : Nat) (vs : List Nat) (status : Status) :
    lastStatus env k (v :: vs) status =
      lastStatus env (k + 1) vs (if env.nss_update_ok k then .SUCCESS else .E_FAILURE) := by
  rw [lastStatus, lastStatus, if_neg (cons_ne_nil v vs), length_cons]
  have hlen : k + (vs.length + 1) - 1 = k + vs.length := by omega
  rw [hlen]
  by_cases hnil : vs = []
  · subst hnil; rfl
  · have hlen' : k + 1 + vs.length - 1 = k + vs.length := by omega
    rw [if_neg hnil, hlen']

theorem foldl_requestNss (new_nss : Nat) (next_action : NextAction) (reason : Nat)
    (list : List Nat) (s : State) (status : Status) :
    list.foldl (requestNss env new_nss next_action reason) (s, status) =
      ({ s with
          calls := s.calls + (twoStreams s.conc_connection_list list).length
          outstanding := s.outstanding ++ accepted env new_nss next_action reason s.calls
            (twoStreams s.conc_connection_list list) },
        lastStatus env s.calls (twoStreams s.conc_connection_list list) status) := by
  induction list generalizing s status with
  | nil => rw [foldl_nil, twoStreams, filterMap_nil, accepted, append_nil]; rfl
  | cons i list ih =>
    rw [foldl_cons, requestNss]
    rcases hc : s.conc_connection_list[i]? with - | c
    · have hskip : twoStreams s.conc_connection_list (i :: list) =
          twoStreams s.conc_connection_list list := by
        rw [twoStreams, filterMap_cons_none (by rw [hc]; rfl)]
        rfl
      rw [hskip]; exact ih s status
    dsimp only
    by_cases hnss : c.original_nss = 1
    · have hcons : twoStreams s.conc_connection_list (i :: list) =
          c.vdev_id :: twoStreams s.conc_connection_list list := by
        rw [twoStreams, filterMap_cons_some (by rw [hc]; exact if_pos hnss)]
        rfl
      rw [if_pos hnss, hcons, lastStatus_cons, accepted, length_cons]
      by_cases hok : env.nss_update_ok s.calls
      · rw [if_pos hok, if_pos hok, if_pos hok, ih, append_assoc, singleton_append]
        rw [Nat.add_right_comm, Nat.add_assoc s.calls]
      · rw [if_neg hok, if_neg hok, if_neg hok, ih]
        rw [Nat.add_right_comm, Nat.add_assoc s.calls]
    · have hskip : twoStreams s.conc_connection_list (i :: list) =
          twoStreams s.conc_connection_list list := by
        rw [twoStreams, filterMap_cons_none (by rw [hc]; exact if_neg hnss)]
        rfl
      rw [if_neg hnss, hskip]; exact ih s status

variable {t : List ConnInfo}

theorem cds_get_connection_for_vdev_id_lt {c : ConnInfo} (hc : c ∈ t) (hin : c.in_use = true) :
    cds_get_connection_for_vdev_id c.vdev_id t < t.length := by
  rw [cds_get_connection_for_vdev_id, findIdx_lt_length]
  exact ⟨c, hc, decide_eq_true ⟨rfl, hin⟩⟩

theorem mem_mode_specific {mode : ConMode} {i : Nat}
    (h : i ∈ cds_mode_specific_connection_count mode t) :
    ∃ c, t[i]? = some c ∧ c.mode = mode ∧ c.in_use = true := by
  rw [cds_mode_specific_connection_count, mem_filter] at h
  rcases hc : t[i]? with - | c
  · rw [hc] at h; exact nomatch h.2
  · rw [hc] at h; exact ⟨c, rfl, of_decide_eq_true h.2⟩

theorem goLoop_eq (new_nss : Nat) (next_action : NextAction) (reason : Nat) {list : List Nat}
    {fuel index : Nat} (r : State × Status)
    (hfound : ∀ i ∈ list, ∃ c, r.1.conc_connection_list[i]? = some c ∧ c.in_use = true)
    (hfuel : list.length ≤ index + fuel) :
    goLoop env new_nss next_action reason list fuel index r =
      some ((list.drop index).foldl (requestNss env new_nss next_action reason) r) := by
  induction fuel generalizing index r with
  | zero => rw [goLoop, if_neg (by omega), drop_eq_nil_of_le (by omega)]; rfl
  | succ fuel ih =>
    rw [goLoop]
    rcases hi : list[index]? with - | i
    · rw [drop_eq_nil_of_le (getElem?_eq_none_iff.mp hi)]; rfl
    dsimp only
    have hmem := mem_of_getElem? hi
    obtain ⟨c, hc, hin⟩ := hfound i hmem
    have hlt := cds_get_connection_for_vdev_id_lt (mem_of_getElem? hc) hin
    have hidx : index < list.length := (List.getElem?_eq_some_iff.mp hi).1
    rw [hc, Option.all_some, if_neg (fun h => Nat.ne_of_lt hlt (of_decide_eq_true h)),
      drop_eq_getElem_cons hidx, foldl_cons]
    have hget : list[index] = i := (List.getElem?_eq_some_iff.mp hi).2
    rw [hget]
    have hkeep := @foldl_requestNss env new_nss next_action reason [i] r.1 r.2
    rw [foldl_cons, foldl_nil] at hkeep
    refine ih _ ?_ (by omega)
    rw [hkeep]; exact hfound

/-- What the actions leave behind: the requests are made, and the mode is asked for at once if the
last of them, or all, did not succeed. -/
theorem cds_next_actions_eq (hcap : env.dbs_capable = true)
    (hhw : env.current_hw_mode = some !d.dbs) (depth session_id reason : Nat) (s : State) :
    let vs := requested s.conc_connection_list
    let s' : State :=
      { s with
        calls := s.calls + vs.length
        outstanding := s.outstanding ++ accepted env d.nss d.next reason s.calls vs }
    cds_next_actions env (depth + 2) session_id d.action reason s =
      if lastStatus env s.calls vs .E_FAILURE = .SUCCESS then some (s', .SUCCESS)
      else some (cds_soc_set_hw_mode env s' (d.target session_id reason)) := by
  intro vs s'
  have hin : ∀ {mode : ConMode}, ∀ i ∈ cds_mode_specific_connection_count mode
      s.conc_connection_list, ∃ c, s.conc_connection_list[i]? = some c ∧ c.in_use = true := by
    intro mode i hi
    obtain ⟨c, hc, -, hin⟩ := mem_mode_specific hi
    exact ⟨c, hc, hin⟩
  have hboth : ∀ list, (cds_mode_specific_connection_count .P2P_GO s.conc_connection_list ++ list).foldl
      (requestNss env d.nss d.next reason) (s, .E_FAILURE) =
        list.foldl (requestNss env d.nss d.next reason)
          ((cds_mode_specific_connection_count .P2P_GO s.conc_connection_list).foldl
            (requestNss env d.nss d.next reason) (s, .E_FAILURE)) :=
    fun list => foldl_append
  rw [cds_next_actions_action hcap hhw, cds_complete_action, hcap]
  dsimp only
  rw [if_neg (by decide), goLoop_eq d.nss d.next reason (s, .E_FAILURE) hin (by omega),
    drop_zero, Option.bind_some]
  have hkeep : ((cds_mode_specific_connection_count .P2P_GO s.conc_connection_list).foldl
      (requestNss env d.nss d.next reason) (s, .E_FAILURE)).1.conc_connection_list =
        s.conc_connection_list := by rw [foldl_requestNss]
  rw [hkeep, ← hboth, foldl_requestNss]
  change (if lastStatus env s.calls vs .E_FAILURE ≠ .SUCCESS then
    cds_next_actions env (depth + 1) session_id d.next reason s' else _) = _
  by_cases hlast : lastStatus env s.calls vs .E_FAILURE = .SUCCESS
  · rw [if_neg (not_not.mpr hlast), if_pos hlast]; exact congrArg some (Prod.ext rfl hlast)
  · rw [if_pos hlast, if_neg hlast, cds_next_actions_next hcap hhw]

/-! ## The callbacks -/

/-- The indices of the connections that are waited for. -/
def waiting (d : Dir) (t : List ConnInfo) : Finset Nat :=
  (Finset.range t.length).filter fun i => t[i]?.any (isWaiting d.old)

theorem mem_waiting {i : Nat} :
    i ∈ waiting d t ↔ ∃ c, t[i]? = some c ∧ isWaiting d.old c = true := by
  rw [waiting, Finset.mem_filter, Finset.mem_range, ← Option.any_eq_true]
  apply and_iff_right_of_imp
  intro hany
  rw [Option.any_eq_true] at hany
  obtain ⟨c, hc, -⟩ := hany
  exact (List.getElem?_eq_some_iff.mp hc).1

theorem cds_wait_for_nss_update_eq (d : Dir) (t : List ConnInfo) :
    cds_wait_for_nss_update d.next t = true ↔ waiting d t ≠ ∅ := by
  have hany : cds_wait_for_nss_update d.next t = t.any (isWaiting d.old) := by
    match d with
    | .downgrade | .upgrade => rfl
  rw [hany, any_eq_true, ← Finset.nonempty_iff_ne_empty]
  constructor
  · rintro ⟨c, hc, hwait⟩
    obtain ⟨i, hi⟩ := mem_iff_getElem?.mp hc
    exact ⟨i, mem_waiting.mpr ⟨c, hi, hwait⟩⟩
  · rintro ⟨i, hi⟩
    obtain ⟨c, hc, hwait⟩ := mem_waiting.mp hi
    exact ⟨c, mem_of_getElem? hc, hwait⟩

theorem isWaiting_setStreams (d : Dir) (c : ConnInfo) :
    isWaiting d.old (setStreams d.new c) = false :=
  decide_eq_false fun h => d.new_ne_old h.2.1

theorem waiting_modify (d : Dir) (t : List ConnInfo) (i : Nat) :
    waiting d (t.modify i (setStreams d.new)) = (waiting d t).erase i := by
  ext j
  rw [Finset.mem_erase, mem_waiting, mem_waiting, getElem?_modify]
  by_cases hij : i = j
  · subst hij
    apply iff_of_false
    · rintro ⟨c, hc, hwait⟩
      obtain ⟨c', -, rfl⟩ := Option.map_eq_some_iff.mp (hc : (t[i]?).map _ = some c)
      rw [if_pos rfl, isWaiting_setStreams] at hwait; exact Bool.false_ne_true hwait
    · exact fun h => h.1 rfl
  · rw [and_iff_right (Ne.symm hij)]
    simp only [hij, if_false, Option.map_eq_map, Option.map_id']

theorem find_modify (vdev_id i streams : Nat) (t : List ConnInfo) :
    cds_get_connection_for_vdev_id vdev_id (t.modify i (setStreams streams)) =
      cds_get_connection_for_vdev_id vdev_id t := by
  induction t generalizing i with
  | nil => rw [modify_nil]
  | cons c t ih =>
    simp only [cds_get_connection_for_vdev_id] at ih ⊢
    match i with
    | 0 => rfl
    | i + 1 => rw [modify_succ_cons, findIdx_cons, findIdx_cons, ih]

def connOf (t : List ConnInfo) (u : NssUpdate) : Nat := cds_get_connection_for_vdev_id u.vdev_id t

theorem cds_nss_update_cb_eq (hcap : env.dbs_capable = true)
    (hhw : env.current_hw_mode = some !d.dbs) {u : NssUpdate} (hnext : u.next_action = d.next)
    (hfound : connOf s.conc_connection_list u ≠ s.conc_connection_list.length) :
    let i := connOf s.conc_connection_list u
    let s' : State :=
      { s with conc_connection_list := s.conc_connection_list.modify i (setStreams d.new) }
    cds_nss_update_cb env .SUCCESS u s =
      if (waiting d s.conc_connection_list).erase i = ∅ then
        some (cds_soc_set_hw_mode env s' (d.target u.vdev_id u.reason)).1
      else some s' := by
  intro i s'
  have hcb : cds_nss_update_cb env .SUCCESS u s =
      let t := s.conc_connection_list.modify i (setStreams d.new)
      if cds_wait_for_nss_update d.next t then some { s with conc_connection_list := t }
      else
        (cds_next_actions env 2 u.vdev_id d.next u.reason
          { s with conc_connection_list := t }).map Prod.fst := by
    rw [cds_nss_update_cb, if_neg (by decide)]
    have hfound' : cds_get_connection_for_vdev_id u.vdev_id s.conc_connection_list ≠
        s.conc_connection_list.length := hfound
    rw [if_neg hfound', hnext]
    match d with
    | .downgrade | .upgrade => rfl
  dsimp only at hcb
  rw [hcb, cds_next_actions_next hcap hhw]
  by_cases hnone : (waiting d s.conc_connection_list).erase i = ∅
  · have hwait : ¬cds_wait_for_nss_update d.next s'.conc_connection_list = true := by
      rw [cds_wait_for_nss_update_eq, waiting_modify]; exact not_not.mpr hnone
    rw [if_pos hnone, if_neg hwait, Option.map_some]
  · have hwait : cds_wait_for_nss_update d.next s'.conc_connection_list = true := by
      rw [cds_wait_for_nss_update_eq, waiting_modify]; exact hnone
    rw [if_neg hnone, if_pos hwait]

theorem callbacks_eq (hcap : env.dbs_capable = true) (hhw : env.current_hw_mode = some !d.dbs)
    {order : List NssUpdate} (hperm : order.Perm s.outstanding)
    (hnext : ∀ u ∈ order, u.next_action = d.next)
    (hfound : ∀ u ∈ order, connOf s.conc_connection_list u < s.conc_connection_list.length) :
    ∃ s' ms, callbacks env order s = some s' ∧ s'.outstanding = [] ∧ s'.sets = s.sets ++ ms ∧
      ms.map Prod.snd = fires (waiting d s.conc_connection_list)
        (order.map (connOf s.conc_connection_list)) ∧
      ∀ m ∈ ms, ∃ session_id reason, m.1 = d.target session_id reason := by
  induction order generalizing s with
  | nil =>
    refine ⟨s, [], rfl, hperm.symm.eq_nil, (append_nil _).symm, rfl, ?_⟩
    exact fun m hm => nomatch hm
  | cons u us ih =>
    have hmem : u ∈ s.outstanding := hperm.subset mem_cons_self
    have hrest : us.Perm (s.outstanding.erase u) :=
      (cons_perm_iff_perm_erase.mp hperm).2
    have hlt := hfound u mem_cons_self
    have hcb := @cds_nss_update_cb_eq env d
      { s with outstanding := s.outstanding.erase u } hcap hhw u (hnext u mem_cons_self)
      (Nat.ne_of_lt hlt)
    rw [callbacks, if_pos hmem, hcb, map_cons, fires]
    -- the table only changes in the streams of one connection
    have hconn : ∀ v, connOf (s.conc_connection_list.modify (connOf s.conc_connection_list u)
        (setStreams d.new)) v = connOf s.conc_connection_list v :=
      fun v => find_modify v.vdev_id _ _ _
    have hfound' : ∀ v ∈ us, connOf s.conc_connection_list v < s.conc_connection_list.length :=
      fun v hv => hfound v (mem_cons_of_mem u hv)
    have hnext' : ∀ v ∈ us, v.next_action = d.next :=
      fun v hv => hnext v (mem_cons_of_mem u hv)
    have hih : ∀ sets, ∃ s' ms, callbacks env us
        { s with
          conc_connection_list := s.conc_connection_list.modify
            (connOf s.conc_connection_list u) (setStreams d.new)
          outstanding := s.outstanding.erase u
          sets := sets } = some s' ∧ s'.outstanding = [] ∧ s'.sets = sets ++ ms ∧
        ms.map Prod.snd = fires ((waiting d s.conc_connection_list).erase
          (connOf s.conc_connection_list u)) (us.map (connOf s.conc_connection_list)) ∧
        ∀ m ∈ ms, ∃ session_id reason, m.1 = d.target session_id reason := by
      intro sets
      obtain ⟨s', ms, hrun, hout, hsets, hfires, htarget⟩ := @ih
        { s with
          conc_connection_list := s.conc_connection_list.modify
            (connOf s.conc_connection_list u) (setStreams d.new)
          outstanding := s.outstanding.erase u
          sets := sets } hrest hnext' (fun v hv => by
            rw [hconn, length_modify]; exact hfound' v hv)
      refine ⟨s', ms, hrun, hout, hsets, ?_, htarget⟩
      rw [hfires, waiting_modify, map_congr_left fun v _ => hconn v]
    by_cases hnone : (waiting d s.conc_connection_list).erase
        (connOf s.conc_connection_list u) = ∅
    · obtain ⟨s', ms, hrun, hout, hsets, hfires, htarget⟩ := hih
        (s.sets ++ [(d.target u.vdev_id u.reason, (s.outstanding.erase u).length)])
      rw [if_pos hnone, if_pos hnone, Option.bind_some]
      refine ⟨s', (d.target u.vdev_id u.reason, (s.outstanding.erase u).length) :: ms, hrun, hout,
        ?_, ?_, ?_⟩
      · rw [hsets, append_assoc, singleton_append]
      · rw [map_cons, hfires, length_map, hrest.length_eq]
      · intro m hm
        rcases mem_cons.mp hm with rfl | hm
        · exact ⟨_, _, rfl⟩
        · exact htarget m hm
    · obtain ⟨s', ms, hrun, hout, hsets, hfires, htarget⟩ := hih s.sets
      rw [if_neg hnone, if_neg hnone, Option.bind_some]
      exact ⟨s', ms, hrun, hout, hsets, hfires, htarget⟩

/-! ## When the mode is asked for once -/

theorem mem_accepted {new_nss : Nat} {next_action : NextAction} {reason k : Nat} {vs : List Nat}
    {u : NssUpdate} (h : u ∈ accepted env new_nss next_action reason k vs) :
    u.vdev_id ∈ vs ∧ u.next_action = next_action := by
  induction vs generalizing k with
  | nil => exact nomatch h
  | cons v vs ih =>
    rw [accepted] at h
    split at h
    · rcases mem_cons.mp h with rfl | h
      · exact ⟨mem_cons_self, rfl⟩
      · exact ⟨mem_cons_of_mem v (ih h).1, (ih h).2⟩
    · exact ⟨mem_cons_of_mem v (ih h).1, (ih h).2⟩

theorem accepted_ne_nil {new_nss : Nat} {next_action : NextAction} {reason k : Nat} {vs : List Nat}
    (h : lastStatus env k vs .E_FAILURE = .SUCCESS) :
    accepted env new_nss next_action reason k vs ≠ [] := by
  induction vs generalizing k with
  | nil => exact nomatch h
  | cons v vs ih =>
    rw [lastStatus_cons] at h
    rw [accepted]
    by_cases hok : env.nss_update_ok k
    · rw [if_pos hok]; exact cons_ne_nil _ _
    · rw [if_neg hok] at h ⊢
      exact ih h

theorem mem_requested {v : Nat} (h : v ∈ requested t) :
    ∃ c ∈ t, c.vdev_id = v ∧ c.in_use = true := by
  rw [requested, twoStreams, mem_filterMap] at h
  obtain ⟨i, hi, hv⟩ := h
  have hin : ∃ c, t[i]? = some c ∧ c.in_use = true := by
    rcases mem_append.mp hi with hi | hi
    · obtain ⟨c, hc, -, hin⟩ := mem_mode_specific hi; exact ⟨c, hc, hin⟩
    · obtain ⟨c, hc, -, hin⟩ := mem_mode_specific hi; exact ⟨c, hc, hin⟩
  obtain ⟨c, hc, hin⟩ := hin
  rw [hc, Option.bind_some] at hv
  split at hv
  · exact ⟨c, mem_of_getElem? hc, Option.some.inj hv, hin⟩
  · exact nomatch hv

/-- The condition, for callbacks in this order: no update succeeded, or the last request did, the
connections that are waited for are all updated, and one of them not before the last callback, unless
that is the only one. -/
def Meets (env : Env) (d : Dir) (calls : Nat) (t : List ConnInfo) (order : List NssUpdate) : Prop :=
  env.dbs_capable = true ∧ (order = [] ∨
    (env.nss_update_ok (calls + (requested t).length - 1) = true ∧
      (∀ i ∈ waiting d t, ∃ u ∈ order, connOf t u = i) ∧
      (order.dropLast ≠ [] → ∃ i ∈ waiting d t, ∀ u ∈ order.dropLast, connOf t u ≠ i)))

/-- **Asking for the hardware mode.** The actions come to their end, and so do the callbacks in
any order. The target mode has then been asked for exactly once, and while no update was
outstanding, if and only if the condition holds. -/
theorem hw_mode_once (env : Env) (d : Dir) (session_id reason : Nat) (s : State)
    (hhw : env.current_hw_mode = some !d.dbs) (hout : s.outstanding = []) (hsets : s.sets = []) :
    ∃ s₁ status, cds_next_actions env 2 session_id d.action reason s = some (s₁, status) ∧
      (env.dbs_capable = true → s₁.outstanding = accepted env d.nss d.next reason s.calls
        (requested s.conc_connection_list)) ∧
      ∀ order : List NssUpdate, order.Perm s₁.outstanding →
        ∃ s₂, callbacks env order s₁ = some s₂ ∧ s₂.outstanding = [] ∧
          ((∃ session_id reason, s₂.sets = [(d.target session_id reason, 0)]) ↔
            Meets env d s.calls s.conc_connection_list order) := by
  by_cases hcap : env.dbs_capable = true
  swap
  · -- nothing is done without the capability
    have hcap' : env.dbs_capable = false := eq_false_of_ne_true hcap
    refine ⟨s, .E_NOSUPPORT, ?_, fun h => absurd h hcap, ?_⟩
    · unfold cds_next_actions; rw [if_pos hcap']
    · intro order hperm
      rw [hout] at hperm
      obtain rfl := hperm.eq_nil
      refine ⟨s, rfl, hout, iff_of_false ?_ fun h => hcap h.1⟩
      rintro ⟨session_id, reason, hset⟩
      rw [hsets] at hset; exact nomatch hset
  have hactions := @cds_next_actions_eq env d hcap hhw 0 session_id reason s
  dsimp only at hactions
  rw [hout, nil_append] at hactions
  have hfound : ∀ u ∈ accepted env d.nss d.next reason s.calls (requested s.conc_connection_list),
      connOf s.conc_connection_list u < s.conc_connection_list.length := by
    intro u hu
    obtain ⟨c, hc, hv, hin⟩ := mem_requested (mem_accepted hu).1
    rw [connOf, ← hv]; exact cds_get_connection_for_vdev_id_lt hc hin
  by_cases hlast : lastStatus env s.calls (requested s.conc_connection_list) .E_FAILURE = .SUCCESS
  · rw [if_pos hlast] at hactions
    refine ⟨_, _, hactions, fun _ => rfl, ?_⟩
    intro order hperm
    obtain ⟨s₂, ms, hrun, hout₂, hsets₂, hfires, htarget⟩ := @callbacks_eq env d
      { s with
        calls := s.calls + (requested s.conc_connection_list).length
        outstanding := accepted env d.nss d.next reason s.calls
          (requested s.conc_connection_list) } hcap hhw order hperm
      (fun u hu => (mem_accepted (hperm.subset hu)).2) (fun u hu => hfound u (hperm.subset hu))
    refine ⟨s₂, hrun, hout₂, ?_⟩
    rw [hsets, nil_append] at hsets₂
    have hne : order ≠ [] := by rintro rfl; exact accepted_ne_nil hlast hperm.symm.eq_nil
    have hone : (∃ session_id reason, s₂.sets = [(d.target session_id reason, 0)]) ↔
        fires (waiting d s.conc_connection_list) (order.map (connOf s.conc_connection_list)) =
          [0] := by
      rw [hsets₂, ← hfires]
      constructor
      · rintro ⟨session_id', reason', heq⟩
        rw [heq]; rfl
      · intro heq
        obtain ⟨m, rfl⟩ := length_eq_one_iff.mp
          ((length_map _).symm.trans (congrArg List.length heq))
        obtain ⟨session_id', reason', hm⟩ := htarget m mem_cons_self
        rw [map_singleton, List.cons.injEq] at heq
        exact ⟨session_id', reason', by rw [← hm, ← heq.1]⟩
    have hstatus : env.nss_update_ok
        (s.calls + (requested s.conc_connection_list).length - 1) = true := by
      rw [lastStatus] at hlast
      split at hlast
      · exact nomatch hlast
      split at hlast
      next hok => exact hok
      · exact nomatch hlast
    rw [hone, fires_eq_single, Meets, and_iff_right hcap, or_iff_right hne, and_iff_right hstatus,
      and_iff_right (fun hnil => hne (map_eq_nil_iff.mp hnil)), ← map_dropLast]
    simp only [mem_map, ne_eq, map_eq_nil_iff, not_exists, not_and]
  · rw [if_neg hlast] at hactions
    refine ⟨_, _, hactions, fun _ => rfl, ?_⟩
    intro order hperm
    obtain ⟨s₂, ms, hrun, hout₂, hsets₂, hfires, htarget⟩ := @callbacks_eq env d
      (cds_soc_set_hw_mode env
        { s with
          calls := s.calls + (requested s.conc_connection_list).length
          outstanding := accepted env d.nss d.next reason s.calls
            (requested s.conc_connection_list) } (d.target session_id reason)).1 hcap hhw order hperm
      (fun u hu => (mem_accepted (hperm.subset hu)).2) (fun u hu => hfound u (hperm.subset hu))
    refine ⟨s₂, hrun, hout₂, ?_⟩
    dsimp only [cds_soc_set_hw_mode] at hsets₂
    rw [hsets, nil_append, singleton_append, ← hperm.length_eq] at hsets₂
    have hstatus : order ≠ [] → ¬env.nss_update_ok
        (s.calls + (requested s.conc_connection_list).length - 1) = true := by
      intro hne hok
      rw [lastStatus] at hlast
      split at hlast
      next hnil => rw [hnil, accepted] at hperm; exact hne hperm.eq_nil
      · exact hlast rfl
    rw [hsets₂, Meets, and_iff_right hcap]
    by_cases hnil : order = []
    · -- there is no callback
      subst hnil
      have hms : ms = [] := map_eq_nil_iff.mp hfires
      rw [hms]; exact iff_of_true ⟨session_id, reason, rfl⟩ (.inl rfl)
    · apply iff_of_false
      · rintro ⟨session_id', reason', heq⟩
        exact hnil (length_eq_zero_iff.mp (Prod.mk.inj (List.cons.inj heq).1).2)
      · rintro (h | h)
        · exact hnil h
        · exact hstatus hnil h.1

/-- Everything succeeds, and the hardware is not in DBS mode. -/
def goodEnv : Env := ⟨true, some false, fun _ => true, .SUCCESS⟩

def twoBeacons : State :=
  ⟨[⟨.SAP, 2, 2, 1, 4, true⟩, ⟨.P2P_GO, 2, 2, 1, 7, true⟩], 0, [], []⟩

/-- The update that is asked for of a connection of `twoBeacons`. -/
def toOneStream (vdev_id : Nat) : NssUpdate := ⟨vdev_id, CDS_RX_NSS_1, .DBS, 1⟩

theorem hw_mode_once_two : ∃ s₁ status,
    cds_next_actions goodEnv 2 4 .DBS_DOWNGRADE 1 twoBeacons = some (s₁, status) ∧
      ∀ order ∈ [[toOneStream 7, toOneStream 4], [toOneStream 4, toOneStream 7]],
        ∃ s₂, callbacks goodEnv order s₁ = some s₂ ∧ s₂.outstanding = [] ∧
          ∃ session_id reason, s₂.sets = [(Dir.downgrade.target session_id reason, 0)] := by
  obtain ⟨s₁, status, hact, hout, horder⟩ :=
    hw_mode_once goodEnv .downgrade 4 1 twoBeacons rfl rfl rfl
  refine ⟨s₁, status, hact, fun order hmem => ?_⟩
  have hok : ∀ order ∈ [[toOneStream 7, toOneStream 4], [toOneStream 4, toOneStream 7]],
      order.Perm [toOneStream 7, toOneStream 4] ∧
        Meets goodEnv .downgrade 0 twoBeacons.conc_connection_list order := by
    unfold Meets; decide
  obtain ⟨hperm, hmeets⟩ := hok order hmem
  have hout₁ : s₁.outstanding = [toOneStream 7, toOneStream 4] := (hout rfl).trans (by decide)
  obtain ⟨s₂, hrun, hdone, hsets⟩ := horder order (hout₁ ▸ hperm)
  exact ⟨s₂, hrun, hdone, hsets.mpr hmeets⟩

/-- A SoftAP and a station with two streams each: the SoftAP is updated, nothing is outstanding and
the mode has not been asked for. -/
theorem station_waited_for :
    ((cds_next_actions goodEnv 2 4 .DBS_DOWNGRADE 1
        ⟨[⟨.STA, 2, 2, 1, 3, true⟩, ⟨.SAP, 2, 2, 1, 4, true⟩], 0, [], []⟩).bind fun r =>
      (callbacks goodEnv r.1.outstanding r.1).map fun s =>
        (r.1.outstanding.length, s.outstanding, s.sets)) = some (1, [], []) := by decide +kernel

end Qcacld.CdsHwMode
