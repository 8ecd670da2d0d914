/-
The channel availability check (CAC) of several APs: `sap_fsm.c` and `sap_api_link_cntl.c`.

All APs share the timer and the DFS state, and both events go to one AP, which handles them for all
of them. A context is known by the number of its session, and at most one context is registered for
each. The handles are not null, and the timer is started when that is asked for. Whether the HDD
accepts what it is told, which channel is chosen, and whether a session can be opened is up to the
environment. The status codes, upon which nobody acts, are left out, and so is the scan for a
channel: what `sap_goto_channel_sel` and `sap_goto_starting` lead to comes as an event of its own.
-/
import Mathlib.Algebra.Group.Nat.Defs
import Mathlib.Data.List.Range
import Qcacld.Lib.Run

set_option autoImplicit false

namespace Qcacld.SapCac

open Lib Function

section

inductive FsmState
  | DISCONNECTED
  | CH_SELECT
  | DFS_CAC_WAIT
  | STARTING
  | STARTED
  | DISCONNECTING
  deriving DecidableEq

inductive AdapterMode
  | STA
  | SAP
  | P2P_GO
  deriving DecidableEq

inductive CacState
  | DO_NOT_SKIP_CAC
  | SKIP_CAC
  deriving DecidableEq

inductive ChWidth
  | CH_WIDTH_20MHZ
  | CH_WIDTH_40MHZ
  | CH_WIDTH_80MHZ
  | CH_WIDTH_160MHZ
  | CH_WIDTH_80P80MHZ

structure SapContext where
  sapsMachine : FsmState
  isCacStartNotified : Bool
  isCacEndNotified : Bool
  isSapSessionOpen : Bool
  disableDFSChSwitch : Bool
  channel : Nat
  ch_width : ChWidth
  center_freq_seg1 : Nat

structure SapDfsInfo where
  is_dfs_cac_timer_running : Bool
  cac_state : CacState
  ignore_cac : Bool
  sap_radar_found_status : Bool
  target_channel : Nat
  user_provided_target_channel : Nat

structure State where
  ctx : Nat → SapContext
  /-- The entries of `sapCtxList`: the persona, and whether there is a context. -/
  sapPersona : Nat → AdapterMode
  pSapContext : Nat → Bool
  dfs : SapDfsInfo
  /-- The CAC timer is armed. -/
  timer : Bool
  /-- The contexts for which a start of the beacons was asked for. -/
  beacons : List Nat

inductive HddEvent
  | DFS_CAC_START
  | DFS_CAC_END
  | START_BSS_EVENT

inductive Event
  /-- With whether a session can be opened, if there is none. -/
  | HDD_START_INFRA_BSS (opened : Bool)
  | HDD_STOP_INFRA_BSS
  /-- With the channel that is chosen in the end, if there is one. -/
  | MAC_SCAN_COMPLETE (channel : Option Nat)
  | CHANNEL_SELECTION_FAILED
  | CHANNEL_SELECTION_RETRY
  | MAC_START_BSS_SUCCESS
  | MAC_START_FAILS
  | MAC_READY_FOR_CONNECTIONS
  | OPERATING_CHANNEL_CHANGED
  | DFS_CHANNEL_CAC_START
  | DFS_CHANNEL_CAC_RADAR_FOUND
  | DFS_CHANNEL_CAC_END
  | DFS_CHNL_SWITCH_ANNOUNCEMENT_START
  | CHANNEL_SWITCH_ANNOUNCEMENT_START
  | SME_CHANNEL_CHANGE_REQ
  deriving DecidableEq

-- `SAP_MAX_NUM_SESSION`, and whether `cds_get_channel_state` is `CHANNEL_STATE_DFS`
variable (n : Nat) (isDfsChannel : Nat → Bool)

def init : State where
  ctx _ := ⟨.DISCONNECTED, false, false, false, false, 0, .CH_WIDTH_20MHZ, 0⟩
  sapPersona _ := .STA
  pSapContext _ := false
  dfs := ⟨false, .DO_NOT_SKIP_CAC, false, false, 0, 0⟩
  timer := false
  beacons := []

/-! ## Contexts -/

def setCtx (s : State) (i : Nat) (c : SapContext) : State := { s with ctx := update s.ctx i c }

def setMachine (s : State) (i : Nat) (m : FsmState) : State :=
  setCtx s i { s.ctx i with sapsMachine := m }

def valid (s : State) (i : Nat) : Bool :=
  (s.sapPersona i = .SAP ∨ s.sapPersona i = .P2P_GO) ∧ s.pSapContext i

def sap_find_valid_concurrent_session (s : State) : Option Nat :=
  (List.range n).find? (valid s)

def SIR_80MHZ_START_CENTER_CH_DIFF : Nat := 6

/-- The difference wraps in the `uint32_t` of `cds_get_channel_state`. -/
def is_dfs (c : SapContext) : Bool :=
  match c.ch_width with
  | .CH_WIDTH_160MHZ => true
  | .CH_WIDTH_80P80MHZ =>
    isDfsChannel c.channel ||
      isDfsChannel ((c.center_freq_seg1 + 2 ^ 32 - SIR_80MHZ_START_CENTER_CH_DIFF) % 2 ^ 32)
  | _ => isDfsChannel c.channel

/-- A beacon is started only if no radar was found. -/
def wlansap_start_beacon_req (s : State) (i : Nat) : State :=
  if s.dfs.sap_radar_found_status = false then { s with beacons := s.beacons ++ [i] } else s

/-! ## The timer and the notifications -/

def sap_start_dfs_cac_timer (s : State) : State :=
  if s.dfs.ignore_cac then s
  else { s with timer := true, dfs := { s.dfs with is_dfs_cac_timer_running := true } }

def sap_stop_dfs_cac_timer (s : State) : State :=
  if s.timer then
    { s with timer := false, dfs := { s.dfs with is_dfs_cac_timer_running := false } }
  else s

variable (hdd : Nat → HddEvent → Bool)

/-- The loop of `sap_cac_start_notify`, which ends when the HDD refuses. -/
def cacStartLoop : List Nat → State → State
  | [], s => s
  | i :: is, s =>
    if valid s i ∧ (s.ctx i).isCacStartNotified = false then
      if hdd i .DFS_CAC_START then
        cacStartLoop is (setCtx s i { s.ctx i with isCacStartNotified := true })
      else s
    else cacStartLoop is s

def sap_cac_start_notify (s : State) : State := cacStartLoop hdd (List.range n) s

/-- One context of `sap_cac_end_notify`, from the notification on. -/
def endOne (s : State) (i : Nat) : State :=
  let s := setCtx s i { s.ctx i with isCacEndNotified := true }
  let s := { s with dfs := { s.dfs with sap_radar_found_status := false } }
  setMachine (wlansap_start_beacon_req s i) i .STARTED

/-- The loop of `sap_cac_end_notify`, which ends when the HDD refuses. -/
def cacEndLoop : List Nat → State → State
  | [], s => { s with dfs := { s.dfs with cac_state := .SKIP_CAC } }
  | i :: is, s =>
    if valid s i ∧ (s.ctx i).isCacEndNotified = false then
      if hdd i .DFS_CAC_END then
        if hdd i .START_BSS_EVENT then cacEndLoop is (endOne s i) else endOne s i
      else s
    else cacEndLoop is s

def sap_cac_end_notify (s : State) : State := cacEndLoop hdd (List.range n) s

def sap_cac_reset_notify (s : State) : State :=
  (List.range n).foldl (fun s i =>
    if valid s i then
      setCtx s i { s.ctx i with isCacStartNotified := false, isCacEndNotified := false }
    else s) s

/-! ## Sessions -/

/-- `sap_open_session`, for a context of `wlansap_open`. -/
def sap_open_session (s : State) (i : Nat) (persona : AdapterMode) : State :=
  { setCtx s i { (init.ctx i) with isSapSessionOpen := true } with
    sapPersona := update s.sapPersona i persona
    pSapContext := update s.pSapContext i true }

def sap_close_session (s : State) (i : Nat) : State :=
  let s := setCtx s i { s.ctx i with
    isCacStartNotified := false, isCacEndNotified := false, isSapSessionOpen := false }
  let s := { s with pSapContext := update s.pSapContext i false }
  if sap_find_valid_concurrent_session n s = none then
    let s :=
      if s.dfs.is_dfs_cac_timer_running then
        { s with timer := false, dfs := { s.dfs with is_dfs_cac_timer_running := false } }
      else s
    -- the global structure is cleared
    { s with
      sapPersona := fun _ => .STA
      pSapContext := fun _ => false
      dfs := ⟨false, .DO_NOT_SKIP_CAC, false, false, 0, 0⟩ }
  else s

/-! ## The state machine -/

def startTimerIfNotRunning (s : State) : State :=
  if s.dfs.is_dfs_cac_timer_running then s else sap_start_dfs_cac_timer s

def sap_fsm_state_disconnected (s : State) (i : Nat) : Event → State
  | .HDD_START_INFRA_BSS opened =>
    if (s.ctx i).isSapSessionOpen = false ∧ opened = false then s
    else setCtx s i { s.ctx i with isSapSessionOpen := true, sapsMachine := .CH_SELECT }
  | .DFS_CHANNEL_CAC_START =>
    sap_cac_start_notify n hdd (startTimerIfNotRunning (setMachine s i .DFS_CAC_WAIT))
  | .CHANNEL_SELECTION_RETRY => setMachine s i .CH_SELECT
  | _ => s

def sap_fsm_state_ch_select (s : State) (i : Nat) : Event → State
  | .MAC_SCAN_COMPLETE none => s
  | .MAC_SCAN_COMPLETE (some channel) =>
    setCtx s i { s.ctx i with channel := channel, sapsMachine := .STARTING }
  | .CHANNEL_SELECTION_FAILED => setMachine s i .DISCONNECTED
  | .HDD_STOP_INFRA_BSS => setMachine s i .DISCONNECTED
  | _ => s

def wlansap_channel_change_request (s : State) (i : Nat) : State :=
  setCtx s i { s.ctx i with channel := s.dfs.target_channel }

def sap_fsm_state_dfs_cac_wait (s : State) (i : Nat) : Event → State
  | .DFS_CHANNEL_CAC_START => sap_cac_start_notify n hdd (startTimerIfNotRunning s)
  | .DFS_CHANNEL_CAC_RADAR_FOUND =>
    (List.range n).foldl (fun s j =>
      -- the context of the event, for each `j`
      if valid s j then wlansap_channel_change_request (setMachine s i .DISCONNECTING) j
      else s) s
  | .DFS_CHANNEL_CAC_END => sap_cac_end_notify n hdd s
  | .HDD_STOP_INFRA_BSS =>
    let s := if sap_find_valid_concurrent_session n s = none then sap_stop_dfs_cac_timer s else s
    setMachine s i .DISCONNECTING
  | _ => s

def sap_fsm_state_starting (s : State) (i : Nat) : Event → State
  | .MAC_START_BSS_SUCCESS =>
    let s := setMachine s i .STARTED
    if is_dfs isDfsChannel (s.ctx i) then
      if s.dfs.ignore_cac = false ∧ s.dfs.cac_state = .DO_NOT_SKIP_CAC then
        sap_cac_start_notify n hdd (startTimerIfNotRunning (setMachine s i .DFS_CAC_WAIT))
      else wlansap_start_beacon_req s i
    else s
  | .MAC_START_FAILS => setMachine s i .DISCONNECTED
  | .HDD_STOP_INFRA_BSS =>
    let s := setMachine s i .DISCONNECTED
    if (s.ctx i).isSapSessionOpen then sap_close_session n s i else s
  | .OPERATING_CHANNEL_CHANGED =>
    setCtx s i { s.ctx i with channel := s.dfs.target_channel, sapsMachine := .STARTED }
  | _ => s

def sap_fsm_state_started (s : State) (i : Nat) : Event → State
  | .HDD_STOP_INFRA_BSS => setMachine s i .DISCONNECTING
  | _ => s

def sap_fsm_state_disconnecting (s : State) (i : Nat) : Event → State
  | .MAC_READY_FOR_CONNECTIONS =>
    let s := setMachine s i .DISCONNECTED
    if (s.ctx i).isSapSessionOpen then sap_close_session n s i else s
  | .SME_CHANNEL_CHANGE_REQ => wlansap_channel_change_request s i
  | _ => s

def sap_fsm (s : State) (i : Nat) (e : Event) : State :=
  match (s.ctx i).sapsMachine with
  | .DISCONNECTED => sap_fsm_state_disconnected n hdd s i e
  | .CH_SELECT => sap_fsm_state_ch_select s i e
  | .DFS_CAC_WAIT => sap_fsm_state_dfs_cac_wait n hdd s i e
  | .STARTING => sap_fsm_state_starting n isDfsChannel hdd s i e
  | .STARTED => sap_fsm_state_started s i e
  | .DISCONNECTING => sap_fsm_state_disconnecting n s i e

/-! ## Who sends the events -/

def sap_dfs_cac_timer_callback (s : State) : State :=
  match sap_find_valid_concurrent_session n s with
  | none => s
  | some i =>
    if (s.ctx i).sapsMachine = .DFS_CAC_WAIT then
      sap_fsm n isDfsChannel hdd
        { s with dfs := { s.dfs with is_dfs_cac_timer_running := false } } i .DFS_CHANNEL_CAC_END
    else s

def wlansap_start_bss (s : State) (i channel : Nat) (ch_width : ChWidth) (seg1 : Nat)
    (opened : Bool) : State :=
  let s := setCtx s i { s.ctx i with
    sapsMachine := .DISCONNECTED, channel := channel, ch_width := ch_width
    center_freq_seg1 := seg1 }
  sap_fsm n isDfsChannel hdd s i (.HDD_START_INFRA_BSS opened)

def wlansap_roam_process_ch_change_success (s : State) (i : Nat) : State :=
  let s := setCtx s i { s.ctx i with channel := s.dfs.target_channel }
  if (s.ctx i).sapsMachine ≠ .DISCONNECTING then s
  else if is_dfs isDfsChannel (s.ctx i) then
    if s.dfs.ignore_cac = false ∧ s.dfs.cac_state = .DO_NOT_SKIP_CAC then
      sap_fsm n isDfsChannel hdd (setMachine s i .DISCONNECTED) i .DFS_CHANNEL_CAC_START
    else
      let s := setMachine (wlansap_start_beacon_req s i) i .STARTING
      sap_fsm n isDfsChannel hdd { s with dfs := { s.dfs with sap_radar_found_status := false } } i
        .MAC_START_BSS_SUCCESS
  else
    let s := setMachine s i .STARTING
    sap_fsm n isDfsChannel hdd { s with dfs := { s.dfs with sap_radar_found_status := false } } i
      .MAC_START_BSS_SUCCESS

def wlansap_roam_process_dfs_chansw_update (s : State) (i : Nat) : State :=
  if (s.ctx i).disableDFSChSwitch then s
  else if (s.ctx i).sapsMachine ≠ .STARTED then s
  else setMachine s i .DISCONNECTING

def wlansap_roam_process_dfs_radar_found (s : State) (i : Nat) : State :=
  if (s.ctx i).sapsMachine = .DFS_CAC_WAIT then
    if (s.ctx i).disableDFSChSwitch then s
    else if s.dfs.sap_radar_found_status = false then s
    else
      sap_fsm n isDfsChannel hdd
        { s with timer := false, dfs := { s.dfs with is_dfs_cac_timer_running := false } } i
        .DFS_CHANNEL_CAC_RADAR_FOUND
  else if (s.ctx i).sapsMachine = .STARTED then
    sap_fsm n isDfsChannel hdd s i .DFS_CHNL_SWITCH_ANNOUNCEMENT_START
  else s

/-- With the channel to go to: none in a false alarm, and the old one if switching is disabled. -/
def sap_indicate_radar (s : State) (i : Nat) (dfs_radar_status : Bool) (channel : Nat) :
    State × Nat :=
  if dfs_radar_status = false then (s, 0)
  else if (s.ctx i).disableDFSChSwitch then (s, (s.ctx i).channel)
  else ({ s with dfs := { s.dfs with sap_radar_found_status := true } }, channel)

/-- The channel that the user has set goes first, once. -/
def setTargetChannel (s : State) (channel : Nat) : State :=
  let user := s.dfs.user_provided_target_channel
  { s with dfs := { s.dfs with
    target_channel := if 0 < user then user else channel, user_provided_target_channel := 0 } }

/-- `eCSR_ROAM_DFS_RADAR_IND`: without a channel to go to all BSSs are stopped. -/
def roamDfsRadarInd (s : State) (i : Nat) (dfs_radar_status : Bool) (channel : Nat) : State :=
  let r := sap_indicate_radar s i dfs_radar_status channel
  let s := setTargetChannel r.1 r.2
  if s.dfs.target_channel ≠ 0 then
    sap_cac_reset_notify n { s with dfs := { s.dfs with cac_state := .DO_NOT_SKIP_CAC } }
  else
    (List.range n).foldl (fun s j =>
      if valid s j then sap_fsm n isDfsChannel hdd s j .HDD_STOP_INFRA_BSS else s) s

def wlansap_set_channel_change_with_csa (s : State) (i : Nat) (channel : Nat) : State :=
  if (s.ctx i).sapsMachine = .STARTED then
    let s := { s with dfs := { s.dfs with
      target_channel := channel, sap_radar_found_status := true
      cac_state := .DO_NOT_SKIP_CAC } }
    sap_fsm n isDfsChannel hdd (sap_cac_reset_notify n s) i .CHANNEL_SWITCH_ANNOUNCEMENT_START
  else s

def wlansap_clean_cb (s : State) (i : Nat) : State :=
  let s := if (s.ctx i).isSapSessionOpen then sap_close_session n s i else s
  setCtx s i (init.ctx i)

/-! ## Runs -/

inductive Op
  | openSession (i : Nat) (persona : AdapterMode)
  | cleanCb (i : Nat)
  | startBss (i channel : Nat) (ch_width : ChWidth) (seg1 : Nat) (opened : Bool)
  | fsm (i : Nat) (e : Event)
  /-- The scan found no channel, or failed. -/
  | scanFailed (i : Nat)
  | chChangeSuccess (i : Nat)
  | chChangeFailure (i : Nat)
  | chanswUpdate (i : Nat)
  | radarInd (i : Nat) (dfs_radar_status : Bool) (channel : Nat)
  | radarFound (i : Nat)
  | setChannelChangeWithCsa (i channel : Nat)
  | timerExpiry
  | setIgnoreCac (ignore_cac : Bool)
  | setDfsTargetChnl (target_channel : Nat)
  | setChParams (i : Nat) (ch_width : ChWidth) (seg1 : Nat) (disableDFSChSwitch : Bool)

structure Step where
  op : Op
  hdd : Nat → HddEvent → Bool

def step (s : State) (e : Step) : Option State :=
  match e.op with
  | .openSession i persona =>
    if i < n ∧ s.pSapContext i = false then some (sap_open_session s i persona) else none
  | .cleanCb i => some (wlansap_clean_cb n s i)
  | .startBss i channel ch_width seg1 opened =>
    some (wlansap_start_bss n isDfsChannel e.hdd s i channel ch_width seg1 opened)
  | .fsm i ev => some (sap_fsm n isDfsChannel e.hdd s i ev)
  | .scanFailed i =>
    some (sap_fsm n isDfsChannel e.hdd (setMachine s i .CH_SELECT) i .CHANNEL_SELECTION_FAILED)
  | .chChangeSuccess i => some (wlansap_roam_process_ch_change_success n isDfsChannel e.hdd s i)
  | .chChangeFailure i => some (setMachine s i .DISCONNECTED)
  | .chanswUpdate i => some (wlansap_roam_process_dfs_chansw_update s i)
  | .radarInd i dfs_radar_status channel =>
    some (roamDfsRadarInd n isDfsChannel e.hdd s i dfs_radar_status channel)
  | .radarFound i => some (wlansap_roam_process_dfs_radar_found n isDfsChannel e.hdd s i)
  | .setChannelChangeWithCsa i channel =>
    some (wlansap_set_channel_change_with_csa n isDfsChannel e.hdd s i channel)
  | .timerExpiry =>
    if s.timer then some (sap_dfs_cac_timer_callback n isDfsChannel e.hdd { s with timer := false })
    else none
  | .setIgnoreCac ignore_cac => some { s with dfs := { s.dfs with ignore_cac := ignore_cac } }
  | .setDfsTargetChnl target_channel =>
    some { s with dfs := { s.dfs with user_provided_target_channel := target_channel } }
  | .setChParams i ch_width seg1 disable =>
    some (setCtx s i { s.ctx i with
      ch_width := ch_width, center_freq_seg1 := seg1, disableDFSChSwitch := disable })

end

open List Option

/-! The events that end the check act on all contexts but on those that wait only where `Ok` says
so. -/

variable {n : Nat} {isDfsChannel : Nat → Bool} {hdd : Nat → HddEvent → Bool}
variable {s s' t : State} {i j : Nat} {c : SapContext} {e : Step} {ev : Event}

/-! ## The contexts that wait -/

def waiting (s : State) (i : Nat) : Bool :=
  valid s i ∧ (s.ctx i).sapsMachine = .DFS_CAC_WAIT

theorem waiting_iff :
    waiting s i = true ↔ valid s i = true ∧ (s.ctx i).sapsMachine = .DFS_CAC_WAIT := by
  simp [waiting]

/-- The timer is as it was, and no context has begun to wait. -/
structure Kept (s s' : State) : Prop where
  timer : s'.timer = s.timer
  running : s'.dfs.is_dfs_cac_timer_running = s.dfs.is_dfs_cac_timer_running
  waiting : ∀ j, waiting s' j = true → waiting s j = true

theorem Kept.refl (s : State) : Kept s s := ⟨rfl, rfl, fun _ h => h⟩

theorem Kept.trans (h : Kept s t) (h' : Kept t s') : Kept s s' := by
  constructor
  · rw [h'.timer, h.timer]
  · rw [h'.running, h.running]
  · intro j hj; exact h.waiting j (h'.waiting j hj)

theorem setCtx_machine (s : State) (i j : Nat) (c : SapContext) :
    ((setCtx s i c).ctx j).sapsMachine
      = if j = i then c.sapsMachine else (s.ctx j).sapsMachine := by
  unfold setCtx
  dsimp only
  by_cases hj : j = i
  · rw [hj, update_self, if_pos rfl]
  · rw [update_of_ne hj, if_neg hj]

theorem setMachine_machine (s : State) (i j : Nat) (m : FsmState) :
    ((setMachine s i m).ctx j).sapsMachine = if j = i then m else (s.ctx j).sapsMachine :=
  setCtx_machine s i j { s.ctx i with sapsMachine := m }

theorem kept_setCtx (h : c.sapsMachine = .DFS_CAC_WAIT → (s.ctx i).sapsMachine = .DFS_CAC_WAIT) :
    Kept s (setCtx s i c) := by
  constructor
  · rfl
  · rfl
  · intro j hj
    have hw := waiting_iff.mp hj
    rw [setCtx_machine] at hw
    apply waiting_iff.mpr
    apply And.intro hw.1
    by_cases hji : j = i
    · rw [if_pos hji] at hw
      rw [hji]; exact h hw.2
    · rw [if_neg hji] at hw; exact hw.2

theorem kept_setMachine {m : FsmState} (h : m ≠ .DFS_CAC_WAIT) : Kept s (setMachine s i m) :=
  kept_setCtx (fun hm => absurd hm h)

theorem kept_data (h : c.sapsMachine = (s.ctx i).sapsMachine) : Kept s (setCtx s i c) :=
  kept_setCtx (fun hc => h ▸ hc)

theorem kept_beacon (s : State) (i : Nat) : Kept s (wlansap_start_beacon_req s i) := by
  unfold wlansap_start_beacon_req
  split
  · exact ⟨rfl, rfl, fun _ h => h⟩
  · exact Kept.refl s

theorem kept_foldl {f : State → Nat → State} (h : ∀ s j, Kept s (f s j)) (l : List Nat)
    (s : State) : Kept s (l.foldl f s) := by
  induction l generalizing s with
  | nil => exact Kept.refl s
  | cons j l ih => exact (h s j).trans (ih (f s j))

theorem kept_cacStartLoop (l : List Nat) (s : State) : Kept s (cacStartLoop hdd l s) := by
  induction l generalizing s with
  | nil => exact Kept.refl s
  | cons j l ih =>
    unfold cacStartLoop
    split
    · split
      · apply Kept.trans _ (ih _); exact kept_data rfl
      · exact Kept.refl s
    · exact ih s

theorem kept_reset (s : State) : Kept s (sap_cac_reset_notify n s) := by
  apply kept_foldl
  intro s j
  split
  · exact kept_data rfl
  · exact Kept.refl s

/-! ## The end of the check -/

structure Ended (l : List Nat) (s s' : State) : Prop where
  machine : ∀ j, (s'.ctx j).sapsMachine
    = if j ∈ l ∧ waiting s j = true then .STARTED else (s.ctx j).sapsMachine
  beacons : s'.beacons = s.beacons ++ l.filter (waiting s)
  valid : ∀ j, valid s' j = valid s j
  timer : s'.timer = s.timer
  running : s'.dfs.is_dfs_cac_timer_running = s.dfs.is_dfs_cac_timer_running

/-- The contexts of `l` that were not told of an end are those that wait, and the HDD accepts what
the loop tells it before it comes to the last of them. -/
def EndOk (hdd : Nat → HddEvent → Bool) (s : State) : List Nat → Prop
  | [] => True
  | i :: is =>
    (valid s i = true → ((s.ctx i).isCacEndNotified = false ↔ waiting s i = true)) ∧
    (waiting s i = true → hdd i .DFS_CAC_END = true ∧
      ((∃ j ∈ is, waiting s j = true) → hdd i .START_BSS_EVENT = true)) ∧
    EndOk hdd s is

instance (hdd : Nat → HddEvent → Bool) (s : State) : (l : List Nat) → Decidable (EndOk hdd s l)
  | [] => inferInstanceAs (Decidable True)
  | _ :: is =>
    have : Decidable (EndOk hdd s is) := instDecidableEndOk hdd s is
    inferInstanceAs (Decidable (_ ∧ _ ∧ _))

theorem endOne_machine (s : State) (i j : Nat) :
    ((endOne s i).ctx j).sapsMachine = if j = i then .STARTED else (s.ctx j).sapsMachine := by
  unfold endOne
  rw [setMachine_machine]
  by_cases hj : j = i
  · rw [if_pos hj, if_pos hj]
  · simp [wlansap_start_beacon_req, setCtx, hj]

theorem endOne_beacons (s : State) (i : Nat) : (endOne s i).beacons = s.beacons ++ [i] := by
  simp [endOne, setMachine, setCtx, wlansap_start_beacon_req]

theorem endOne_notified (s : State) (h : j ≠ i) :
    ((endOne s i).ctx j).isCacEndNotified = (s.ctx j).isCacEndNotified := by
  simp [endOne, setMachine, setCtx, wlansap_start_beacon_req, h]

theorem endOne_valid (s : State) (i j : Nat) : valid (endOne s i) j = valid s j := by
  simp [endOne, setMachine, setCtx, wlansap_start_beacon_req, valid]

theorem endOne_timer (s : State) (i : Nat) : (endOne s i).timer = s.timer := by
  simp [endOne, setMachine, setCtx, wlansap_start_beacon_req]

theorem endOne_running (s : State) (i : Nat) :
    (endOne s i).dfs.is_dfs_cac_timer_running = s.dfs.is_dfs_cac_timer_running := by
  simp [endOne, setMachine, setCtx, wlansap_start_beacon_req]

theorem endOne_waiting (s : State) (h : j ≠ i) : waiting (endOne s i) j = waiting s j := by
  unfold waiting
  rw [endOne_valid, endOne_machine, if_neg h]

variable {l : List Nat}

theorem EndOk.congr
    (h : ∀ j ∈ l, valid t j = valid s j ∧ waiting t j = waiting s j ∧
      (t.ctx j).isCacEndNotified = (s.ctx j).isCacEndNotified)
    (hs : EndOk hdd s l) : EndOk hdd t l := by
  induction l with
  | nil => exact trivial
  | cons k l ih =>
    obtain ⟨hnotified, hhdd, hrest⟩ := hs
    obtain ⟨hv, hw, he⟩ := h k mem_cons_self
    refine ⟨?_, ?_, ih (fun j hj => h j (mem_cons_of_mem k hj)) hrest⟩
    · rw [hv, hw, he]; exact hnotified
    · rw [hw]
      intro hwk
      apply And.intro (hhdd hwk).1
      rintro ⟨j, hj, hwj⟩
      apply (hhdd hwk).2
      rw [(h j (mem_cons_of_mem k hj)).2.1] at hwj; exact ⟨j, hj, hwj⟩

theorem EndOk.endOne (hi : i ∉ l) (h : EndOk hdd s l) : EndOk hdd (endOne s i) l := by
  apply h.congr
  intro j hj
  have hji : j ≠ i := fun hji => hi (hji ▸ hj)
  exact ⟨endOne_valid s i j, endOne_waiting s hji, endOne_notified s hji⟩

theorem filter_endOne (hi : i ∉ l) : l.filter (waiting (endOne s i)) = l.filter (waiting s) := by
  apply filter_congr
  intro j hj; exact endOne_waiting s (fun hji => hi (hji ▸ hj))

theorem Ended.cons (hi : i ∉ l) (hw : waiting s i = true) (h : Ended l (endOne s i) s') :
    Ended (i :: l) s s' := by
  constructor
  · intro j
    rw [h.machine, endOne_machine]
    by_cases hj : j = i
    · rw [hj, if_neg (fun hil => hi hil.1), if_pos rfl, if_pos ⟨mem_cons_self, hw⟩]
    · rw [if_neg hj, endOne_waiting s hj]; simp [hj]
  · rw [h.beacons, endOne_beacons, filter_endOne hi, filter_cons_of_pos hw,
      append_assoc, singleton_append]
  · intro j; rw [h.valid, endOne_valid]
  · rw [h.timer, endOne_timer]
  · rw [h.running, endOne_running]

theorem Ended.skip (hw : waiting s i = false) (h : Ended l s s') : Ended (i :: l) s s' := by
  constructor
  · intro j
    rw [h.machine]
    by_cases hj : j = i
    · simp [hj, hw]
    · simp [hj]
  · rw [h.beacons, filter_cons_of_neg (by simp [hw])]
  · exact h.valid
  · exact h.timer
  · exact h.running

theorem ended_none (h : ∀ j ∈ l, waiting s j = false) : Ended l s s := by
  constructor
  · intro j
    rw [if_neg]
    rintro ⟨hj, hw⟩
    rw [h j hj] at hw; exact absurd hw (by decide)
  · rw [filter_eq_nil_iff.mpr (by simpa using h), append_nil]
  · exact fun _ => rfl
  · rfl
  · rfl

theorem cacEndLoop_ended (hl : l.Nodup) (h : EndOk hdd s l) : Ended l s (cacEndLoop hdd l s) := by
  induction l generalizing s with
  | nil => exact ⟨fun _ => by simp [cacEndLoop], by simp [cacEndLoop], fun _ => rfl, rfl, rfl⟩
  | cons i l ih =>
    obtain ⟨hnotified, hhdd, hrest⟩ := h
    obtain ⟨hi, hl⟩ := nodup_cons.mp hl
    unfold cacEndLoop
    by_cases htold : valid s i = true ∧ (s.ctx i).isCacEndNotified = false
    · have hw : waiting s i = true := (hnotified htold.1).mp htold.2
      rw [if_pos htold, if_pos (hhdd hw).1]
      by_cases hstart : hdd i .START_BSS_EVENT = true
      · rw [if_pos hstart]; exact Ended.cons hi hw (ih hl (hrest.endOne hi))
      · -- the loop ends here, but nobody else waits
        rw [if_neg hstart]
        apply Ended.cons hi hw
        apply ended_none
        intro j hj
        have hji : j ≠ i := fun hji => hi (hji ▸ hj)
        rw [endOne_waiting s hji]
        apply eq_false_of_ne_true
        intro hwj; exact hstart ((hhdd hw).2 ⟨j, hj, hwj⟩)
    · rw [if_neg htold]
      apply Ended.skip _ (ih hl hrest)
      apply eq_false_of_ne_true
      intro hw
      have hv : valid s i = true := (waiting_iff.mp hw).1
      exact htold ⟨hv, (hnotified hv).mpr hw⟩

theorem Ended.not_waiting (h : Ended (range n) s s') (hi : i < n) : waiting s' i = false := by
  apply eq_false_of_ne_true
  intro hw
  obtain ⟨hv, hm⟩ := waiting_iff.mp hw
  rw [h.valid] at hv
  rw [h.machine] at hm
  by_cases hwi : waiting s i = true
  · rw [if_pos ⟨mem_range.mpr hi, hwi⟩] at hm; exact absurd hm (by decide)
  · rw [if_neg (fun h => hwi h.2)] at hm; exact hwi (waiting_iff.mpr ⟨hv, hm⟩)

/-! ## A radar -/

theorem kept_radarOne (s : State) (i j : Nat) :
    Kept s (if valid s j then wlansap_channel_change_request (setMachine s i .DISCONNECTING) j
      else s) := by
  split
  · apply Kept.trans (kept_setMachine (i := i) (by decide : FsmState.DISCONNECTING ≠ _))
    exact kept_data rfl
  · exact Kept.refl s

theorem radarLoop_machine (l : List Nat) (s : State) (i j : Nat) :
    ((l.foldl (fun s k =>
        if valid s k then wlansap_channel_change_request (setMachine s i .DISCONNECTING) k
        else s) s).ctx j).sapsMachine
      = if j = i ∧ ∃ k ∈ l, valid s k = true then .DISCONNECTING else (s.ctx j).sapsMachine := by
  induction l generalizing s with
  | nil => simp
  | cons k l ih =>
    rw [foldl_cons, ih]
    by_cases hk : valid s k = true
    · have hv : ∀ m, valid (wlansap_channel_change_request (setMachine s i .DISCONNECTING) k) m
          = valid s m := fun _ => rfl
      have hm : ((wlansap_channel_change_request
          (setMachine s i .DISCONNECTING) k).ctx j).sapsMachine
            = if j = i then .DISCONNECTING else (s.ctx j).sapsMachine := by
        unfold wlansap_channel_change_request
        rw [setCtx_machine]
        rw [← setMachine_machine s i j]
        by_cases hjk : j = k
        · rw [if_pos hjk, hjk]
        · rw [if_neg hjk]
      simp only [if_pos hk, hv, hm]
      by_cases hj : j = i
      · simp [hj, hk]
      · simp [hj]
    · simp [hk]

/-! ## The invariant -/

/-- The flag says whether the timer is armed, and it is while a context waits. -/
structure Inv (n : Nat) (s : State) : Prop where
  running : s.dfs.is_dfs_cac_timer_running = s.timer
  armed : ∀ i < n, waiting s i = true → s.timer = true

theorem Inv.kept (h : Inv n s) (hk : Kept s s') : Inv n s' := by
  constructor
  · rw [hk.running, hk.timer, h.running]
  · intro i hi hw
    rw [hk.timer]; exact h.armed i hi (hk.waiting i hw)

theorem init_inv : Inv n init := ⟨rfl, fun _ _ h => absurd h (by simp [waiting, valid, init])⟩

theorem inv_startTimer (hr : s.dfs.is_dfs_cac_timer_running = s.timer)
    (h : s.dfs.ignore_cac = false ∨ s.dfs.is_dfs_cac_timer_running = true) :
    Inv n (startTimerIfNotRunning s) := by
  unfold startTimerIfNotRunning
  by_cases hrun : s.dfs.is_dfs_cac_timer_running = true
  · rw [if_pos hrun]; exact ⟨hr, fun _ _ _ => hr ▸ hrun⟩
  · have hig : s.dfs.ignore_cac = false := h.resolve_right hrun
    rw [if_neg hrun]
    unfold sap_start_dfs_cac_timer
    rw [if_neg (by simp [hig])]; exact ⟨rfl, fun _ _ _ => rfl⟩

theorem Inv.cacStart (h : Inv n s)
    (hok : s.dfs.ignore_cac = false ∨ s.dfs.is_dfs_cac_timer_running = true) (i : Nat) :
    Inv n (sap_cac_start_notify n hdd (startTimerIfNotRunning (setMachine s i .DFS_CAC_WAIT))) := by
  apply Inv.kept _ (kept_cacStartLoop _ _)
  exact inv_startTimer h.running hok

theorem Inv.closeSession (h : Inv n s) (i : Nat) : Inv n (sap_close_session n s i) := by
  unfold sap_close_session
  dsimp only
  split
  · -- the last one: the timer is destroyed, and everything is cleared
    constructor
    · split
      · rfl
      · rename_i hrun
        have ht : s.timer = false := by rw [← h.running]; exact eq_false_of_ne_true hrun
        exact ht.symm
    · intro j _ hw; exact absurd (waiting_iff.mp hw).1 (by simp [valid])
  · apply h.kept
    constructor
    · rfl
    · rfl
    · intro j hw
      obtain ⟨hv, hm⟩ := waiting_iff.mp hw
      by_cases hj : j = i
      · simp [valid, setCtx, hj] at hv
      · simp only [setCtx, update_of_ne hj] at hm
        apply waiting_iff.mpr
        refine ⟨?_, hm⟩
        simpa [valid, setCtx, update_of_ne hj] using hv

theorem find_none (h : sap_find_valid_concurrent_session n s = none) (hi : i < n) :
    valid s i = false := by
  have hv := find?_eq_none.mp h i (mem_range.mpr hi)
  exact eq_false_of_ne_true hv

/-! ## What an event may do -/

def RadarOk (n : Nat) (s : State) (i : Nat) : Prop := ∀ j < n, waiting s j = true → j = i

/-- A radar is for the only context that waits, at the end of the check those wait that were not
told, and a check is begun only if the timer runs then. -/
def EventOk (n : Nat) (hdd : Nat → HddEvent → Bool) (s : State) (i : Nat) (ev : Event) : Prop :=
  ((s.ctx i).sapsMachine = .DFS_CAC_WAIT → ev = .DFS_CHANNEL_CAC_RADAR_FOUND → RadarOk n s i) ∧
  ((s.ctx i).sapsMachine = .DFS_CAC_WAIT → ev = .DFS_CHANNEL_CAC_END →
    EndOk hdd s (range n)) ∧
  ((s.ctx i).sapsMachine = .DISCONNECTED → ev = .DFS_CHANNEL_CAC_START →
    s.dfs.ignore_cac = false ∨ s.dfs.is_dfs_cac_timer_running = true)

instance : Decidable (RadarOk n s i) := inferInstanceAs (Decidable (∀ j < n, _))

instance : Decidable (EventOk n hdd s i ev) := inferInstanceAs (Decidable (_ ∧ _ ∧ _))

theorem Inv.ended (h : Inv n s) (hok : EndOk hdd s (range n)) :
    Inv n (sap_cac_end_notify n hdd s) := by
  have he : Ended (range n) s (sap_cac_end_notify n hdd s) :=
    cacEndLoop_ended nodup_range hok
  constructor
  · rw [he.running, he.timer, h.running]
  · intro i hi hw
    rw [he.not_waiting hi] at hw; exact absurd hw (by decide)

theorem Inv.disconnected (h : Inv n s) (hok : ev = .DFS_CHANNEL_CAC_START →
      s.dfs.ignore_cac = false ∨ s.dfs.is_dfs_cac_timer_running = true) (i : Nat) :
    Inv n (sap_fsm_state_disconnected n hdd s i ev) := by
  unfold sap_fsm_state_disconnected
  split
  · split
    · exact h
    · exact h.kept (kept_setCtx (fun hc => absurd hc (by simp)))
  · exact h.cacStart (hok rfl) i
  · exact h.kept (kept_setMachine (by decide))
  · exact h

theorem Inv.ch_select (h : Inv n s) (i : Nat) : Inv n (sap_fsm_state_ch_select s i ev) := by
  unfold sap_fsm_state_ch_select
  split
  · exact h
  · exact h.kept (kept_setCtx (fun hc => absurd hc (by simp)))
  · exact h.kept (kept_setMachine (by decide))
  · exact h.kept (kept_setMachine (by decide))
  · exact h

theorem Inv.cac_wait (h : Inv n s) (i : Nat)
    (hend : ev = .DFS_CHANNEL_CAC_END → EndOk hdd s (range n)) :
    Inv n (sap_fsm_state_dfs_cac_wait n hdd s i ev) := by
  unfold sap_fsm_state_dfs_cac_wait
  split
  · apply Inv.kept _ (kept_cacStartLoop _ _)
    unfold startTimerIfNotRunning sap_start_dfs_cac_timer
    split
    · exact h
    · split
      · exact h
      · exact ⟨rfl, fun _ _ _ => rfl⟩
  · exact h.kept (kept_foldl (fun s j => kept_radarOne s i j) _ s)
  · exact h.ended (hend rfl)
  · split
    · rename_i hnone
      unfold sap_stop_dfs_cac_timer
      split
      · -- nobody is left who could wait
        constructor
        · rfl
        · intro j hj hw
          have hv : valid s j = false := find_none hnone hj
          exact absurd ((waiting_iff.mp hw).1.symm.trans hv) (by decide)
      · exact h.kept (kept_setMachine (by decide))
    · exact h.kept (kept_setMachine (by decide))
  · exact h

theorem Inv.starting (h : Inv n s) (i : Nat) :
    Inv n (sap_fsm_state_starting n isDfsChannel hdd s i ev) := by
  unfold sap_fsm_state_starting
  split
  · dsimp only
    have hs : Inv n (setMachine s i .STARTED) := h.kept (kept_setMachine (by decide))
    split
    · split
      · rename_i hdo; exact hs.cacStart (Or.inl hdo.1) i
      · exact hs.kept (kept_beacon _ i)
    · exact hs
  · exact h.kept (kept_setMachine (by decide))
  · dsimp only
    have hs : Inv n (setMachine s i .DISCONNECTED) := h.kept (kept_setMachine (by decide))
    split
    · exact hs.closeSession i
    · exact hs
  · exact h.kept (kept_setCtx (fun hc => absurd hc (by simp)))
  · exact h

theorem Inv.started (h : Inv n s) (i : Nat) : Inv n (sap_fsm_state_started s i ev) := by
  unfold sap_fsm_state_started
  split
  · exact h.kept (kept_setMachine (by decide))
  · exact h

theorem Inv.disconnecting (h : Inv n s) (i : Nat) :
    Inv n (sap_fsm_state_disconnecting n s i ev) := by
  unfold sap_fsm_state_disconnecting
  split
  · dsimp only
    have hs : Inv n (setMachine s i .DISCONNECTED) := h.kept (kept_setMachine (by decide))
    split
    · exact hs.closeSession i
    · exact hs
  · exact h.kept (kept_data rfl)
  · exact h

theorem Inv.fsm (h : Inv n s) (hok : EventOk n hdd s i ev) :
    Inv n (sap_fsm n isDfsChannel hdd s i ev) := by
  obtain ⟨-, hend, hstart⟩ := hok
  unfold sap_fsm
  cases hm : (s.ctx i).sapsMachine with
  | DISCONNECTED => exact h.disconnected (hstart hm) i
  | CH_SELECT => exact h.ch_select i
  | DFS_CAC_WAIT => exact h.cac_wait i (hend hm)
  | STARTING => exact h.starting i
  | STARTED => exact h.started i
  | DISCONNECTING => exact h.disconnecting i

theorem eventOk_of_ne (h : ev ≠ .DFS_CHANNEL_CAC_RADAR_FOUND) (h' : ev ≠ .DFS_CHANNEL_CAC_END)
    (h'' : ev ≠ .DFS_CHANNEL_CAC_START) (s : State) (i : Nat) : EventOk n hdd s i ev :=
  ⟨fun _ he => absurd he h, fun _ he => absurd he h', fun _ he => absurd he h''⟩

/-! ## The timer -/

/-- The timer is not armed any more, and the flag says so. -/
def stopped (s : State) : State :=
  { s with timer := false, dfs := { s.dfs with is_dfs_cac_timer_running := false } }

theorem callback_ended (hfirst : (sap_find_valid_concurrent_session n s).any (waiting s) = true)
    (hok : EndOk hdd s (range n)) :
    Ended (range n) (stopped s)
      (sap_dfs_cac_timer_callback n isDfsChannel hdd { s with timer := false }) := by
  obtain ⟨i, hi, hw⟩ := (any_eq_true _ _).mp hfirst
  have hm : (s.ctx i).sapsMachine = .DFS_CAC_WAIT := (waiting_iff.mp hw).2
  have hcall : sap_dfs_cac_timer_callback n isDfsChannel hdd { s with timer := false }
      = sap_cac_end_notify n hdd (stopped s) := by
    have hi' : sap_find_valid_concurrent_session n { s with timer := false } = some i := hi
    unfold sap_dfs_cac_timer_callback
    rw [hi']
    dsimp only
    unfold sap_fsm
    rw [hm]; rfl
  have hok' : EndOk hdd (stopped s) (range n) :=
    EndOk.congr (s := s) (fun _ _ => ⟨rfl, rfl, rfl⟩) hok
  rw [hcall]; exact cacEndLoop_ended nodup_range hok'

theorem inv_of_ended (h : Ended (range n) (stopped s) s') : Inv n s' := by
  constructor
  · rw [h.running, h.timer]; rfl
  · intro j hj hw
    rw [h.not_waiting hj] at hw; exact absurd hw (by decide)

/-! ## Operations -/

theorem Inv.startBss (h : Inv n s) (i channel : Nat) (w : ChWidth) (seg1 : Nat) (opened : Bool) :
    Inv n (wlansap_start_bss n isDfsChannel hdd s i channel w seg1 opened) := by
  apply Inv.fsm
  · exact h.kept (kept_setCtx (fun hc => absurd hc (by simp)))
  · exact eventOk_of_ne (by simp) (by simp) (by simp) _ i

theorem Inv.chChangeSuccess (h : Inv n s) (i : Nat) :
    Inv n (wlansap_roam_process_ch_change_success n isDfsChannel hdd s i) := by
  unfold wlansap_roam_process_ch_change_success
  dsimp only
  have hs : Inv n (setCtx s i { s.ctx i with channel := s.dfs.target_channel }) :=
    h.kept (kept_data rfl)
  split
  · exact hs
  · split
    · split
      · rename_i hdo
        apply Inv.fsm
        · exact hs.kept (kept_setMachine (by decide))
        · -- the check begins, and it is not to be ignored
          refine ⟨fun _ he => absurd he (by simp), fun _ he => absurd he (by simp), ?_⟩
          exact fun _ _ => Or.inl hdo.1
      · apply Inv.fsm
        · apply Inv.kept (hs.kept (kept_beacon _ i))
          exact (kept_setMachine (by decide)).trans ⟨rfl, rfl, fun _ hw => hw⟩
        · exact eventOk_of_ne (by simp) (by simp) (by simp) _ i
    · apply Inv.fsm
      · apply hs.kept; exact (kept_setMachine (by decide)).trans ⟨rfl, rfl, fun _ hw => hw⟩
      · exact eventOk_of_ne (by simp) (by simp) (by simp) _ i

theorem Inv.chanswUpdate (h : Inv n s) (i : Nat) :
    Inv n (wlansap_roam_process_dfs_chansw_update s i) := by
  unfold wlansap_roam_process_dfs_chansw_update
  split
  · exact h
  · split
    · exact h
    · exact h.kept (kept_setMachine (by decide))

theorem Inv.radarInd (h : Inv n s) (i : Nat) (dfs_radar_status : Bool) (channel : Nat) :
    Inv n (roamDfsRadarInd n isDfsChannel hdd s i dfs_radar_status channel) := by
  have hfold : ∀ (l : List Nat) (s : State), Inv n s → Inv n (l.foldl (fun s j =>
      if valid s j then sap_fsm n isDfsChannel hdd s j .HDD_STOP_INFRA_BSS else s) s) := by
    intro l
    induction l with
    | nil => exact fun _ hs => hs
    | cons j l ih =>
      intro s hs
      apply ih
      dsimp only
      split
      · exact hs.fsm (eventOk_of_ne (by simp) (by simp) (by simp) s j)
      · exact hs
  have hs : Inv n (setTargetChannel (sap_indicate_radar s i dfs_radar_status channel).1
      (sap_indicate_radar s i dfs_radar_status channel).2) := by
    unfold sap_indicate_radar
    repeat' split
    all_goals exact h.kept ⟨rfl, rfl, fun _ hw => hw⟩
  unfold roamDfsRadarInd
  dsimp only
  split
  · apply hs.kept
    apply Kept.trans _ (kept_reset _)
    exact ⟨rfl, rfl, fun _ hw => hw⟩
  · exact hfold _ _ hs

def radarTakenUp (s : State) (i : Nat) : Bool :=
  (s.ctx i).sapsMachine = .DFS_CAC_WAIT ∧ (s.ctx i).disableDFSChSwitch = false ∧
    s.dfs.sap_radar_found_status = true

theorem radarFound_of_takenUp (h : radarTakenUp s i = true) :
    wlansap_roam_process_dfs_radar_found n isDfsChannel hdd s i
      = sap_fsm_state_dfs_cac_wait n hdd (stopped s) i .DFS_CHANNEL_CAC_RADAR_FOUND := by
  simp only [radarTakenUp, decide_eq_true_eq] at h
  obtain ⟨hm, hswitch, hstatus⟩ := h
  unfold wlansap_roam_process_dfs_radar_found
  rw [if_pos hm, if_neg (by simp [hswitch]), if_neg (by simp [hstatus])]
  unfold sap_fsm
  rw [hm]; rfl

theorem radar_machine (hok : RadarOk n s i) (hj : j < n) (hw : waiting s j = true) :
    ((sap_fsm_state_dfs_cac_wait n hdd s i .DFS_CHANNEL_CAC_RADAR_FOUND).ctx j).sapsMachine
      = .DISCONNECTING := by
  have hji : j = i := hok j hj hw
  unfold sap_fsm_state_dfs_cac_wait
  rw [radarLoop_machine, if_pos]; exact ⟨hji, j, mem_range.mpr hj, (waiting_iff.mp hw).1⟩

theorem radar_machine_of_ne (hji : j ≠ i) :
    ((sap_fsm_state_dfs_cac_wait n hdd s i .DFS_CHANNEL_CAC_RADAR_FOUND).ctx j).sapsMachine
      = (s.ctx j).sapsMachine := by
  unfold sap_fsm_state_dfs_cac_wait
  rw [radarLoop_machine, if_neg]; exact fun h => hji h.1

theorem Inv.radarFound (h : Inv n s) (hok : radarTakenUp s i = true → RadarOk n s i) :
    Inv n (wlansap_roam_process_dfs_radar_found n isDfsChannel hdd s i) := by
  by_cases hup : radarTakenUp s i = true
  · rw [radarFound_of_takenUp hup]
    have hk : Kept (stopped s)
        (sap_fsm_state_dfs_cac_wait n hdd (stopped s) i .DFS_CHANNEL_CAC_RADAR_FOUND) :=
      kept_foldl (fun s j => kept_radarOne s i j) _ _
    constructor
    · rw [hk.running, hk.timer]; rfl
    · intro j hj hw
      have hm := @radar_machine n hdd (stopped s) i j (hok hup) hj (hk.waiting j hw)
      rw [(waiting_iff.mp hw).2] at hm; exact absurd hm (by decide)
  · simp only [radarTakenUp, decide_eq_true_eq] at hup
    unfold wlansap_roam_process_dfs_radar_found
    split
    · rename_i hm
      split
      · exact h
      · rename_i hswitch
        split
        · exact h
        · rename_i hstatus
          exact absurd ⟨hm, by simpa using hswitch, by simpa using hstatus⟩ hup
    · split
      · exact h.fsm (eventOk_of_ne (by simp) (by simp) (by simp) s i)
      · exact h

theorem Inv.csa (h : Inv n s) (i channel : Nat) :
    Inv n (wlansap_set_channel_change_with_csa n isDfsChannel hdd s i channel) := by
  unfold wlansap_set_channel_change_with_csa
  split
  · apply Inv.fsm
    · apply h.kept
      apply Kept.trans _ (kept_reset _)
      exact ⟨rfl, rfl, fun _ hw => hw⟩
    · exact eventOk_of_ne (by simp) (by simp) (by simp) _ i
  · exact h

theorem Inv.cleanCb (h : Inv n s) (i : Nat) : Inv n (wlansap_clean_cb n s i) := by
  unfold wlansap_clean_cb
  split
  · exact (h.closeSession i).kept (kept_setCtx (fun hc => absurd hc (by simp [init])))
  · exact h.kept (kept_setCtx (fun hc => absurd hc (by simp [init])))

theorem Inv.openSession (h : Inv n s) (i : Nat) (p : AdapterMode) :
    Inv n (sap_open_session s i p) := by
  apply h.kept
  constructor
  · rfl
  · rfl
  · intro j hw
    obtain ⟨hv, hm⟩ := waiting_iff.mp hw
    by_cases hj : j = i
    · simp [sap_open_session, setCtx, init, hj] at hm
    · simp only [sap_open_session, setCtx, update_of_ne hj] at hm
      apply waiting_iff.mpr
      refine ⟨?_, hm⟩
      simpa [valid, sap_open_session, setCtx, update_of_ne hj] using hv

/-! ## Runs -/

def Ok (n : Nat) (s : State) (e : Step) : Prop :=
  match e.op with
  | .fsm i ev => EventOk n e.hdd s i ev
  | .radarFound i => radarTakenUp s i = true → RadarOk n s i
  | .timerExpiry =>
    (sap_find_valid_concurrent_session n s).any (waiting s) = true ∧
      EndOk e.hdd s (range n)
  | _ => True

instance (n : Nat) (s : State) (e : Step) : Decidable (Ok n s e) := by
  unfold Ok
  split <;> infer_instance

theorem Inv.step (h : Inv n s) (hok : Ok n s e) (hs : step n isDfsChannel s e = some s') :
    Inv n s' := by
  obtain ⟨op, hdd⟩ := e
  cases op with
  | openSession i p =>
    simp only [SapCac.step, ite_none_right_eq_some, some.injEq] at hs
    exact hs.2 ▸ h.openSession i p
  | cleanCb i => exact some.inj hs ▸ h.cleanCb i
  | startBss i channel w seg1 opened => exact some.inj hs ▸ h.startBss i channel w seg1 opened
  | fsm i ev => exact some.inj hs ▸ h.fsm hok
  | scanFailed i =>
    rw [← some.inj hs]
    apply Inv.fsm
    · exact h.kept (kept_setMachine (by decide))
    · exact eventOk_of_ne (by simp) (by simp) (by simp) _ i
  | chChangeSuccess i => exact some.inj hs ▸ h.chChangeSuccess i
  | chChangeFailure i => exact some.inj hs ▸ h.kept (kept_setMachine (by decide))
  | chanswUpdate i => exact some.inj hs ▸ h.chanswUpdate i
  | radarInd i status channel => exact some.inj hs ▸ h.radarInd i status channel
  | radarFound i => exact some.inj hs ▸ h.radarFound hok
  | setChannelChangeWithCsa i channel => exact some.inj hs ▸ h.csa i channel
  | timerExpiry =>
    simp only [SapCac.step, ite_none_right_eq_some, some.injEq] at hs
    exact hs.2 ▸ inv_of_ended (callback_ended hok.1 hok.2)
  | setIgnoreCac _ | setDfsTargetChnl _ => exact some.inj hs ▸ h.kept ⟨rfl, rfl, fun _ hw => hw⟩
  | setChParams i w seg1 disable => exact some.inj hs ▸ h.kept (kept_data rfl)

def endsCac (s : State) (e : Step) : Bool :=
  match e.op with
  | .timerExpiry => true
  | .fsm i .DFS_CHANNEL_CAC_END => (s.ctx i).sapsMachine = .DFS_CAC_WAIT
  | _ => false

def radarInCac (s : State) (e : Step) : Bool :=
  match e.op with
  | .radarFound i => radarTakenUp s i
  | .fsm i .DFS_CHANNEL_CAC_RADAR_FOUND => (s.ctx i).sapsMachine = .DFS_CAC_WAIT
  | _ => false

theorem step_endsCac (hok : Ok n s e) (hs : step n isDfsChannel s e = some s')
    (hend : endsCac s e = true) :
    (∀ j, (s'.ctx j).sapsMachine
      = if j < n ∧ waiting s j = true then .STARTED else (s.ctx j).sapsMachine) ∧
    s'.beacons = s.beacons ++ (range n).filter (waiting s) := by
  have hof : ∀ t, (∀ j, waiting t j = waiting s j ∧ t.ctx j = s.ctx j) → t.beacons = s.beacons →
      Ended (range n) t s' → (∀ j, (s'.ctx j).sapsMachine
        = if j < n ∧ waiting s j = true then .STARTED else (s.ctx j).sapsMachine) ∧
      s'.beacons = s.beacons ++ (range n).filter (waiting s) := by
    intro t ht hb he
    have hw : waiting t = waiting s := funext fun j => (ht j).1
    constructor
    · intro j
      rw [he.machine, hw, (ht j).2]; simp only [mem_range]
    · rw [he.beacons, hw, hb]
  obtain ⟨op, hdd⟩ := e
  unfold endsCac at hend
  split at hend
  · rename_i hop
    subst hop
    simp only [step, ite_none_right_eq_some, some.injEq] at hs
    rw [← hs.2]
    rw [← hs.2] at hof
    exact hof (stopped s) (fun _ => ⟨rfl, rfl⟩) rfl (callback_ended hok.1 hok.2)
  · rename_i i hop
    subst hop
    have hm : (s.ctx i).sapsMachine = .DFS_CAC_WAIT := by simpa using hend
    have hs' : sap_cac_end_notify n hdd s = s' := by
      rw [← some.inj hs]
      unfold sap_fsm
      rw [hm]; rfl
    apply hof s (fun _ => ⟨rfl, rfl⟩) rfl
    rw [← hs']; exact cacEndLoop_ended nodup_range (hok.2.1 hm rfl)
  · exact absurd hend (by decide)

theorem step_radarInCac (hok : Ok n s e) (hs : step n isDfsChannel s e = some s')
    (hradar : radarInCac s e = true) :
    (∀ j < n, waiting s j = true → (s'.ctx j).sapsMachine = .DISCONNECTING) ∧
    ∀ j, (s.ctx j).sapsMachine ≠ .DFS_CAC_WAIT →
      (s'.ctx j).sapsMachine = (s.ctx j).sapsMachine := by
  obtain ⟨op, hdd⟩ := e
  unfold radarInCac at hradar
  split at hradar
  · rename_i i hop
    subst hop
    rw [← some.inj hs, radarFound_of_takenUp hradar]
    constructor
    · intro j hj hw; exact @radar_machine n hdd (stopped s) i j (hok hradar) hj hw
    · intro j hne
      apply radar_machine_of_ne (s := stopped s)
      intro hji
      simp only [radarTakenUp, decide_eq_true_eq] at hradar
      exact hne (hji ▸ hradar.1)
  · rename_i i hop
    subst hop
    have hm : (s.ctx i).sapsMachine = .DFS_CAC_WAIT := by simpa using hradar
    have hs' : sap_fsm_state_dfs_cac_wait n hdd s i .DFS_CHANNEL_CAC_RADAR_FOUND = s' := by
      rw [← some.inj hs]
      unfold sap_fsm
      rw [hm]
    rw [← hs']
    constructor
    · intro j hj hw; exact radar_machine (hok.1 hm rfl) hj hw
    · intro j hne; exact radar_machine_of_ne (fun hji => hne (hji ▸ hm))
  · exact absurd hradar (by decide)

/-- **The check of several APs.** While the events that end it act on those who wait, the flag says
whether the timer is armed, who waits has an armed timer, the end of the check starts those who wait
and no others, and a radar takes all of them to `eSAP_DISCONNECTING`. -/
theorem cac_run {es : List Step} (h : run (guarded (Ok n) (step n isDfsChannel)) init es = some s) :
    (s.dfs.is_dfs_cac_timer_running = true ↔ s.timer = true) ∧
    (∀ i < n, waiting s i = true → s.timer = true) ∧
    ∀ e s', Ok n s e → step n isDfsChannel s e = some s' →
      (endsCac s e = true →
        (∀ j, (s'.ctx j).sapsMachine
          = if j < n ∧ waiting s j = true then .STARTED else (s.ctx j).sapsMachine) ∧
        s'.beacons = s.beacons ++ (range n).filter (waiting s)) ∧
      (radarInCac s e = true →
        (∀ j < n, waiting s j = true → (s'.ctx j).sapsMachine = .DISCONNECTING) ∧
        ∀ j, (s.ctx j).sapsMachine ≠ .DFS_CAC_WAIT →
          (s'.ctx j).sapsMachine = (s.ctx j).sapsMachine) := by
  have hinv : Inv n s :=
    guarded_run_invariant (fun _ _ _ hs hok hst => hs.step hok hst) init_inv h
  refine ⟨by rw [hinv.running], hinv.armed, ?_⟩
  intro e s' hok hs; exact ⟨step_endsCac hok hs, step_radarInCac hok hs⟩

/-- The second AP is to choose a channel of its own if `channel` is `AUTO_CHANNEL_SELECT`, 0. -/
def twoAps (channel : Nat) : List Op :=
  [.openSession 0 .SAP, .openSession 1 .P2P_GO,
    .startBss 0 52 .CH_WIDTH_20MHZ 0 true, .startBss 1 channel .CH_WIDTH_20MHZ 0 true,
    .fsm 0 (.MAC_SCAN_COMPLETE (some 52)), .fsm 0 .MAC_START_BSS_SUCCESS]

def bothWait : List Op :=
  twoAps 52 ++ [Op.fsm 1 (.MAC_SCAN_COMPLETE (some 52)), Op.fsm 1 .MAC_START_BSS_SUCCESS]

def willing (o : Op) : Step := ⟨o, fun _ _ => true⟩

theorem cac_run_two :
    ∃ s, run (guarded (Ok 2) (step 2 (· == 52))) init (bothWait.map willing) = some s ∧
    waiting s 0 = true ∧ waiting s 1 = true ∧ s.timer = true ∧
    ∃ s', step 2 (· == 52) s (willing .timerExpiry) = some s' ∧ s'.beacons = [0, 1] := by
  refine ⟨_, rfl, rfl, rfl, ?_, _, rfl, ?_⟩
  · exact (@cac_run 2 (· == 52) _ (bothWait.map willing) rfl).2.1 0 (by decide) rfl
  · exact (((@cac_run 2 (· == 52) _ (bothWait.map willing) rfl).2.2
      (willing .timerExpiry) _ (by decide) rfl).1 rfl).2

/-- A radar that the first AP reports leaves the second one waiting, with no timer, and the end of
the check of the first AP starts the second one, which has no channel yet. -/
theorem second_ap :
    (∃ s s', run (step 2 (· == 52)) init
        ((bothWait ++ [Op.radarInd 0 true 44]).map willing) = some s ∧
      step 2 (· == 52) s (willing (.radarFound 0)) = some s' ∧
      radarInCac s (willing (.radarFound 0)) = true ∧
      waiting s 1 = true ∧ waiting s' 1 = true ∧ s'.timer = false) ∧
    ∃ s s', run (step 2 (· == 52)) init ((twoAps 0).map willing) = some s ∧
      step 2 (· == 52) s (willing .timerExpiry) = some s' ∧
      (s.ctx 1).channel = 0 ∧ (s.ctx 1).sapsMachine = .CH_SELECT ∧ (s'.ctx 1).sapsMachine = .STARTED ∧
      s'.beacons = [0, 1] := by
  constructor
  · exact ⟨_, _, rfl, rfl, rfl, rfl, rfl, rfl⟩
  · exact ⟨_, _, rfl, rfl, rfl, rfl, rfl, rfl⟩

end Qcacld.SapCac
