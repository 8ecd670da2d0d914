/-
The table of the concurrent connections, and the modes of the open sessions: `cds_concurrency.c`.

The contexts are not null. The requests that `cds_nss_update_cb` makes do not change the table and
are left out.
-/
import Mathlib.Algebra.Order.Ring.Int
import Qcacld.Lib.Packed
import Qcacld.Lib.Run
import Qcacld.Lib.Keyed

set_option autoImplicit false

namespace Qcacld.CdsConc

open Lib

section

def MAX_NUMBER_OF_CONC_CONNECTIONS : Nat := 3

inductive ConMode
  | STA
  | SAP
  | P2P_CLIENT
  | P2P_GO
  | IBSS
  | MAX_NUM_OF_MODE
  deriving DecidableEq

inductive ChWidth
  | CH_WIDTH_20MHZ
  | CH_WIDTH_40MHZ
  | CH_WIDTH_80MHZ
  | CH_WIDTH_160MHZ
  | CH_WIDTH_80P80MHZ
  | CH_WIDTH_5MHZ
  | CH_WIDTH_10MHZ
  | CH_WIDTH_INVALID
  | CH_WIDTH_MAX
  deriving DecidableEq

inductive HwModeBandwidth
  | BW_NONE
  | BW_5_MHZ
  | BW_10_MHZ
  | BW_20_MHZ
  | BW_40_MHZ
  | BW_80_MHZ
  | BW_80_PLUS_80_MHZ
  | BW_160_MHZ
  deriving DecidableEq

inductive NextAction
  | NOP
  | DBS
  | DBS_DOWNGRADE
  | MCC
  | MCC_UPGRADE
  | MAX_CONC_NEXT_ACTION

/-- `struct cds_conc_connection_info` but for `in_use`, which is the mark of its slot. -/
structure ConnInfo where
  mode : ConMode
  chan : Nat
  bw : HwModeBandwidth
  mac : Nat
  chain_mask : Nat
  tx_spatial_stream : Nat
  rx_spatial_stream : Nat
  original_nss : Nat
  vdev_id : Nat
  deriving DecidableEq

abbrev Table := List (Slot ConnInfo)

def ConnInfo.zero : ConnInfo := ⟨.STA, 0, .BW_NONE, 0, 0, 0, 0, 0, 0⟩

structure WmaTxrxNode where
  type : Nat
  sub_type : Nat
  mhz : Nat
  chan_width : ChWidth
  mac_id : Nat
  chain_mask : Nat
  tx_streams : Nat
  rx_streams : Nat
  nss : Nat

structure Wma where
  max_bssid : Nat
  interfaces : Nat → WmaTxrxNode

/-- The argument is a byte. -/
def wma_get_interface_by_vdev_id (wma : Wma) (vdev_id : Nat) : Option WmaTxrxNode :=
  if vdev_id % 256 ≥ wma.max_bssid then none else some (wma.interfaces (vdev_id % 256))

/-! ## What the WMA has, in the terms of the table -/

def WMI_VDEV_TYPE_AP : Nat := 1
def WMI_VDEV_TYPE_STA : Nat := 2
def WMI_VDEV_TYPE_IBSS : Nat := 3
def WMI_UNIFIED_VDEV_SUBTYPE_P2P_CLIENT : Nat := 2
def WMI_UNIFIED_VDEV_SUBTYPE_P2P_GO : Nat := 3

def cds_get_mode (type subtype : Nat) : ConMode :=
  if type % 256 = WMI_VDEV_TYPE_AP then
    if subtype % 256 = 0 then .SAP
    else if subtype % 256 = WMI_UNIFIED_VDEV_SUBTYPE_P2P_GO then .P2P_GO
    else .MAX_NUM_OF_MODE
  else if type % 256 = WMI_VDEV_TYPE_STA then
    if subtype % 256 = 0 then .STA
    else if subtype % 256 = WMI_UNIFIED_VDEV_SUBTYPE_P2P_CLIENT then .P2P_CLIENT
    else .MAX_NUM_OF_MODE
  else if type % 256 = WMI_VDEV_TYPE_IBSS then .IBSS
  else .MAX_NUM_OF_MODE

def cds_get_bw : ChWidth → HwModeBandwidth
  | .CH_WIDTH_20MHZ => .BW_20_MHZ
  | .CH_WIDTH_40MHZ => .BW_40_MHZ
  | .CH_WIDTH_80MHZ => .BW_80_MHZ
  | .CH_WIDTH_160MHZ => .BW_160_MHZ
  | .CH_WIDTH_80P80MHZ => .BW_80_PLUS_80_MHZ
  | .CH_WIDTH_5MHZ => .BW_5_MHZ
  | .CH_WIDTH_10MHZ => .BW_10_MHZ
  | .CH_WIDTH_INVALID | .CH_WIDTH_MAX => .BW_NONE

def CDS_24_GHZ_BASE_FREQ : Nat := 2407
def CDS_5_GHZ_BASE_FREQ : Nat := 5000
def CDS_24_GHZ_CHANNEL_14 : Nat := 14
def CDS_24_GHZ_CHANNEL_15 : Nat := 15
def CDS_CHAN_SPACING_5MHZ : Nat := 5
def CDS_CHAN_SPACING_20MHZ : Nat := 20
def CDS_CHAN_14_FREQ : Nat := 2484
def CDS_CHAN_15_FREQ : Nat := 2512

/-- The differences are of 32 bits, the channel is a byte. -/
def cds_freq_to_chan (freq : Nat) : Nat :=
  let minus (f g : Nat) : Nat := (f + 2 ^ 32 - g) % 2 ^ 32
  (if freq > CDS_24_GHZ_BASE_FREQ ∧ freq < CDS_CHAN_14_FREQ then
      minus freq CDS_24_GHZ_BASE_FREQ / CDS_CHAN_SPACING_5MHZ
    else if freq = CDS_CHAN_14_FREQ then CDS_24_GHZ_CHANNEL_14
    else if freq > CDS_24_GHZ_BASE_FREQ ∧ freq < CDS_5_GHZ_BASE_FREQ then
      minus freq CDS_CHAN_15_FREQ / CDS_CHAN_SPACING_20MHZ + CDS_24_GHZ_CHANNEL_15
    else minus freq CDS_5_GHZ_BASE_FREQ / CDS_CHAN_SPACING_5MHZ) % 256

/-- The arguments that `cds_update_conc_list` is called with. -/
def connInfo (node : WmaTxrxNode) (vdev_id : Nat) : ConnInfo where
  mode := cds_get_mode node.type node.sub_type
  chan := cds_freq_to_chan node.mhz
  bw := cds_get_bw node.chan_width
  mac := node.mac_id % 256
  chain_mask := node.chain_mask
  tx_spatial_stream := node.tx_streams % 256
  rx_spatial_stream := node.rx_streams % 256
  original_nss := node.nss
  vdev_id := vdev_id

/-! ## The table -/

def cds_update_conc_list (c : Table) (conn_index : Nat) (info : ConnInfo) : Table :=
  if conn_index ≥ MAX_NUMBER_OF_CONC_CONNECTIONS then c else Slots.fill c conn_index info

def cds_get_connection_count (c : Table) : Nat := c.countP Slot.active

def findVdev (c : Table) (vdev_id : Nat) : Option Nat :=
  Slots.findPrefix (fun a => a.vdev_id = vdev_id) c

def cds_get_connection_for_vdev_id (c : Table) (vdev_id : Nat) : Option Nat :=
  Slots.find (fun a => a.vdev_id = vdev_id) c

-- `gMaxConcurrentActiveSessions`
variable (limit : Nat)

def cds_incr_connection_count (wma : Wma) (c : Table) (vdev_id : Nat) : Table × Bool :=
  let conn_index := cds_get_connection_count c
  if limit < conn_index then (c, false)
  else
    match wma_get_interface_by_vdev_id wma vdev_id with
    | none => (c, false)
    | some node => (cds_update_conc_list c conn_index (connInfo node vdev_id), true)

def cds_update_connection_info (wma : Wma) (c : Table) (vdev_id : Nat) : Table × Bool :=
  match findVdev c vdev_id with
  | none => (c, false)
  | some conn_index =>
    match wma_get_interface_by_vdev_id wma vdev_id with
    | none => (c, false)
    | some node => (cds_update_conc_list c conn_index (connInfo node vdev_id), true)

/-- What an entry is after the next one is copied to it: the bandwidth is not copied. -/
def copyNext (cur next : ConnInfo) : ConnInfo := { next with bw := cur.bw }

def cds_decr_connection_count (c : Table) (vdev_id : Nat) : Table × Bool :=
  match findVdev c vdev_id with
  | none => (c, false)
  | some conn_index => (Slots.removeAt copyNext .zero c conn_index, true)

structure VdevMacMap where
  vdev_id : Nat
  mac_id : Nat

structure HwModeParams where
  mac0_tx_ss : Nat
  mac0_rx_ss : Nat
  mac1_tx_ss : Nat
  mac1_rx_ss : Nat

def assignMac (hw_mode : HwModeParams) (mac_id : Nat) (a : ConnInfo) : ConnInfo :=
  if mac_id = 0 then
    { a with
      mac := mac_id % 256, tx_spatial_stream := hw_mode.mac0_tx_ss,
      rx_spatial_stream := hw_mode.mac0_rx_ss }
  else
    { a with
      mac := mac_id % 256, tx_spatial_stream := hw_mode.mac1_tx_ss,
      rx_spatial_stream := hw_mode.mac1_rx_ss }

def updateMac (hw_mode : HwModeParams) (c : Table) (m : VdevMacMap) : Table :=
  match findVdev c m.vdev_id with
  | none => c
  | some conn_index =>
    c.modify conn_index fun s => { s with content := assignMac hw_mode m.mac_id s.content }

def cds_update_hw_mode_conn_info (c : Table) (vdev_mac_map : List VdevMacMap)
    (hw_mode : HwModeParams) : Table :=
  vdev_mac_map.foldl (updateMac hw_mode) c

def assignNss (next_action : NextAction) (a : ConnInfo) : ConnInfo :=
  match next_action with
  | .DBS => { a with tx_spatial_stream := 1, rx_spatial_stream := 1 }
  | .MCC => { a with tx_spatial_stream := 2, rx_spatial_stream := 2 }
  | _ => a

/-- `failed` is that the status is `CDF_STATUS_E_FAILURE`. -/
def cds_nss_update_cb (c : Table) (failed : Bool) (vdev_id : Nat) (next_action : NextAction) :
    Table :=
  if failed then c
  else
    match cds_get_connection_for_vdev_id c vdev_id with
    | none => c
    | some conn_index =>
      c.modify conn_index fun s => { s with content := assignNss next_action s.content }

/-! ## The modes of the open sessions -/

inductive AdapterMode
  | STA
  | SAP
  | P2P_CLIENT
  | P2P_GO
  | FTM
  | IBSS
  | P2P_DEVICE
  | OCB
  | EPPING
  | QVIT
  deriving DecidableEq

def AdapterMode.val : AdapterMode → Nat
  | .STA => 0
  | .SAP => 1
  | .P2P_CLIENT => 2
  | .P2P_GO => 3
  | .FTM => 4
  | .IBSS => 5
  | .P2P_DEVICE => 6
  | .OCB => 7
  | .EPPING => 8
  | .QVIT => 9

structure Sessions where
  concurrency_mode : BitVec 32
  /-- Bytes. -/
  no_of_open_sessions : AdapterMode → Nat

def AdapterMode.bit (mode : AdapterMode) : BitVec 32 := 1#32 <<< mode.val

def cds_set_concurrency_mode (h : Sessions) (mode : AdapterMode) : Sessions :=
  match mode with
  | .STA | .P2P_CLIENT | .P2P_GO | .SAP | .IBSS =>
    ⟨h.concurrency_mode ||| mode.bit,
      Function.update h.no_of_open_sessions mode ((h.no_of_open_sessions mode + 1) % 256)⟩
  | _ => h

def cds_clear_concurrency_mode (h : Sessions) (mode : AdapterMode) : Sessions :=
  match mode with
  | .STA | .P2P_CLIENT | .P2P_GO | .SAP =>
    let n := (h.no_of_open_sessions mode + 255) % 256
    ⟨if n = 0 then h.concurrency_mode &&& ~~~mode.bit else h.concurrency_mode,
      Function.update h.no_of_open_sessions mode n⟩
  | _ => h

/-! ## Runs -/

structure State where
  conc_connection_list : Table
  hdd : Sessions

inductive Op
  | incrConnectionCount (vdev_id : Nat)
  | updateConnectionInfo (vdev_id : Nat)
  | decrConnectionCount (vdev_id : Nat)
  | updateHwModeConnInfo (vdev_mac_map : List VdevMacMap) (hw_mode : HwModeParams)
  | nssUpdateCb (failed : Bool) (vdev_id : Nat) (next_action : NextAction)
  | setConcurrencyMode (mode : AdapterMode)
  | clearConcurrencyMode (mode : AdapterMode)

structure Step where
  op : Op
  wma : Wma

/-- The table after a step, and the status, if there is one. -/
def tableStep (c : Table) (e : Step) : Table × Option Bool :=
  match e.op with
  | .incrConnectionCount v =>
    let r := cds_incr_connection_count limit e.wma c v
    (r.1, some r.2)
  | .updateConnectionInfo v =>
    let r := cds_update_connection_info e.wma c v
    (r.1, some r.2)
  | .decrConnectionCount v =>
    let r := cds_decr_connection_count c v
    (r.1, some r.2)
  | .updateHwModeConnInfo m hw_mode => (cds_update_hw_mode_conn_info c m hw_mode, none)
  | .nssUpdateCb failed v next_action => (cds_nss_update_cb c failed v next_action, none)
  | .setConcurrencyMode _ | .clearConcurrencyMode _ => (c, none)

def step (s : State) (e : Step) : Option State :=
  some {
    conc_connection_list := (tableStep limit s.conc_connection_list e).1
    hdd :=
      match e.op with
      | .setConcurrencyMode mode => cds_set_concurrency_mode s.hdd mode
      | .clearConcurrencyMode mode => cds_clear_concurrency_mode s.hdd mode
      | _ => s.hdd }

def init : State where
  conc_connection_list := List.replicate MAX_NUMBER_OF_CONC_CONNECTIONS ⟨false, .zero⟩
  hdd := ⟨0, fun _ => 0⟩

end

open List

/-! What the table stands for, as long as no step shows a defect: an addition to a full table is
taken for a success, and entries that are moved do not take their bandwidth with them. -/

/-! ## What was recorded -/

abbrev Recorded := Nat → Option ConnInfo

def recordMac (hw_mode : HwModeParams) (m : Recorded) (x : VdevMacMap) : Recorded :=
  Function.update m x.vdev_id ((m x.vdev_id).map (assignMac hw_mode x.mac_id))

def record (m : Recorded) (e : Step) (status : Option Bool) : Recorded :=
  match e.op with
  | .incrConnectionCount v | .updateConnectionInfo v =>
    match wma_get_interface_by_vdev_id e.wma v with
    | some node => if status = some true then Function.update m v (some (connInfo node v)) else m
    | none => m
  | .decrConnectionCount v => Function.update m v none
  | .updateHwModeConnInfo vdev_mac_map hw_mode => vdev_mac_map.foldl (recordMac hw_mode) m
  | .nssUpdateCb failed v next_action =>
    if failed then m else Function.update m v ((m v).map (assignNss next_action))
  | .setConcurrencyMode _ | .clearConcurrencyMode _ => m

variable {limit : Nat} {c c' : Table} {m : Recorded} {l pre post : List ConnInfo} {a b : ConnInfo}
variable {v i : Nat} {wma : Wma} {s s' : State} {e : Step}

abbrev slots (l : List ConnInfo) : Table :=
  Slots.packed ConnInfo.zero MAX_NUMBER_OF_CONC_CONNECTIONS l

abbrev vdevs (l : List ConnInfo) : List Nat := l.map ConnInfo.vdev_id

/-- The table holds what is on record in its first slots, with one entry for each vdev. -/
structure Holds (c : Table) (l : List ConnInfo) (m : Recorded) : Prop where
  table : c = slots l
  room : l.length ≤ MAX_NUMBER_OF_CONC_CONNECTIONS
  nodup : (vdevs l).Nodup
  recorded : m = Keyed.lookup ConnInfo.vdev_id l

theorem Holds.count (h : Holds c l m) : cds_get_connection_count c = l.length := by
  unfold cds_get_connection_count
  rw [h.table, Slots.countP_packed]

theorem Holds.find (h : Holds c l m) : findVdev c v = l.findIdx? (fun a => a.vdev_id = v) := by
  unfold findVdev
  rw [h.table, Slots.findPrefix_packed]

theorem Holds.connection (h : Holds c l m) :
    cds_get_connection_for_vdev_id c v = l.findIdx? (fun a => a.vdev_id = v) := by
  unfold cds_get_connection_for_vdev_id
  rw [h.table, Slots.find_packed]

theorem split_of_find (h : l.findIdx? (fun a => decide (a.vdev_id = v)) = some i) :
    ∃ pre a post, l = pre ++ a :: post ∧ pre.length = i ∧ a.vdev_id = v := by
  obtain ⟨hi, hv, -⟩ := findIdx?_eq_some_iff_getElem.mp h
  refine ⟨l.take i, l[i], l.drop (i + 1), ?_, ?_, of_decide_eq_true hv⟩
  · rw [getElem_cons_drop, take_append_drop]
  · exact length_take_of_le (Nat.le_of_lt hi)

theorem Holds.unknown (h : Holds c l m) (hf : findVdev c v = none) : ∀ a ∈ l, a.vdev_id ≠ v := by
  rw [h.find, findIdx?_eq_none_iff] at hf
  intro a ha; exact of_decide_eq_false (hf a ha)

theorem Holds.no_record (h : Holds c l m) (hf : findVdev c v = none) : m v = none := by
  rw [h.recorded]; exact Keyed.lookup_eq_none.mpr (h.unknown hf)

theorem Holds.replace (h : Holds c (pre ++ a :: post) m) (hb : b.vdev_id = a.vdev_id) :
    Holds (slots (pre ++ b :: post)) (pre ++ b :: post) (Function.update m a.vdev_id (some b)) where
  table := rfl
  room := by
    have := h.room
    rw [length_append, length_cons] at this ⊢
    exact this
  nodup := by
    have := h.nodup
    unfold vdevs at this ⊢
    rw [map_append, map_cons] at this ⊢
    rw [hb]; exact this
  recorded := by rw [h.recorded, Keyed.lookup_replace h.nodup hb]

theorem Holds.lookup (h : Holds c (pre ++ a :: post) m) : m a.vdev_id = some a := by
  rw [h.recorded]; exact Keyed.lookup_self h.nodup

theorem Holds.modify (h : Holds c l m) (f : ConnInfo → ConnInfo)
    (hf : ∀ a, (f a).vdev_id = a.vdev_id) (hi : l.findIdx? (fun a => decide (a.vdev_id = v)) = some i) :
    ∃ l', Holds (c.modify i fun s => { s with content := f s.content }) l'
      (Function.update m v ((m v).map f)) := by
  obtain ⟨pre, a, post, rfl, rfl, rfl⟩ := split_of_find hi
  refine ⟨pre ++ f a :: post, ?_⟩
  have hr := h.replace (hf a)
  have hm := h.lookup
  have hroom := h.room
  rw [hm, Option.map_some]
  rw [h.table, Slots.modify_packed f hroom]; exact hr

theorem Holds.keep (h : Holds c l m) (f : ConnInfo → ConnInfo) (hf : findVdev c v = none) :
    ∃ l', Holds c l' (Function.update m v ((m v).map f)) := by
  refine ⟨l, ?_⟩
  have hm := h.no_record hf
  rw [hm, Option.map_none, ← hm, Function.update_eq_self]; exact h

/-! ## The steps -/

/-- An addition to a full table does not get as far as to write the entry. -/
def AddOk (limit : Nat) (wma : Wma) (c : Table) (v : Nat) : Prop :=
  cds_get_connection_count c < MAX_NUMBER_OF_CONC_CONNECTIONS ∨
    limit < cds_get_connection_count c ∨ wma_get_interface_by_vdev_id wma v = none
deriving Decidable

def RemoveOk (c : Table) (v : Nat) : Prop :=
  ∀ i, i ∈ findVdev c v → ∀ p, p ∈ (Slots.live c).drop i → ∀ q, q ∈ (Slots.live c).drop i →
    p.bw = q.bw
deriving Decidable

theorem Holds.incr (h : Holds c l m) (hnew : findVdev c v = none) (hok : AddOk limit wma c v) :
    ∃ l', Holds (cds_incr_connection_count limit wma c v).1 l'
      (record m ⟨.incrConnectionCount v, wma⟩ (some (cds_incr_connection_count limit wma c v).2)) ∧
      ((cds_incr_connection_count limit wma c v).2 = true ↔ ∃ a ∈ l', a.vdev_id = v) := by
  have hnone : ¬ ∃ a ∈ l, a.vdev_id = v := by rintro ⟨a, ha, hv⟩; exact h.unknown hnew a ha hv
  unfold cds_incr_connection_count record
  dsimp only
  by_cases hlim : limit < cds_get_connection_count c
  · rw [if_pos hlim]
    refine ⟨l, ?_, ?_⟩
    · cases wma_get_interface_by_vdev_id wma v with
      | none => exact h
      | some node => exact h
    · exact ⟨nofun, fun he => absurd he hnone⟩
  · rw [if_neg hlim]
    cases hw : wma_get_interface_by_vdev_id wma v with
    | none => exact ⟨l, h, nofun, fun he => absurd he hnone⟩
    | some node =>
      have hroom : l.length < MAX_NUMBER_OF_CONC_CONNECTIONS := by
        rcases hok with hlt | hlt | hno
        · rw [h.count] at hlt; exact hlt
        · exact absurd hlt hlim
        · rw [hw] at hno; exact absurd hno (by simp)
      have hnot : ∀ x ∈ l, x.vdev_id ≠ (connInfo node v).vdev_id := h.unknown hnew
      refine ⟨l ++ [connInfo node v], ⟨?_, ?_, ?_, ?_⟩, ?_⟩
      · dsimp only
        unfold cds_update_conc_list
        rw [h.count, if_neg (by omega), h.table, Slots.fill_packed_append hroom]
      · rw [length_append, length_singleton]; omega
      · unfold vdevs
        rw [map_append, nodup_append]
        refine ⟨h.nodup, nodup_singleton _, ?_⟩
        intro u hu w hw' he
        obtain ⟨x, hx, rfl⟩ := mem_map.mp hu
        rw [map_singleton, mem_singleton] at hw'; exact hnot x hx (he.trans hw')
      · dsimp only
        rw [if_pos rfl, Keyed.lookup_append_new hnot, h.recorded]; rfl
      · exact ⟨fun _ => ⟨_, mem_append_right _ (mem_singleton_self _), rfl⟩, fun _ => rfl⟩

theorem Holds.update (h : Holds c l m) :
    ∃ l', Holds (cds_update_connection_info wma c v).1 l'
      (record m ⟨.updateConnectionInfo v, wma⟩ (some (cds_update_connection_info wma c v).2)) := by
  unfold cds_update_connection_info record
  dsimp only
  cases hf : findVdev c v with
  | none =>
    refine ⟨l, ?_⟩
    cases wma_get_interface_by_vdev_id wma v with
    | none => exact h
    | some node => exact h
  | some i =>
    cases hw : wma_get_interface_by_vdev_id wma v with
    | none => exact ⟨l, h⟩
    | some node =>
      dsimp only
      rw [h.find] at hf
      obtain ⟨pre, a, post, rfl, rfl, rfl⟩ := split_of_find hf
      refine ⟨pre ++ connInfo node a.vdev_id :: post, ?_⟩
      have hroom := h.room
      rw [length_append, length_cons] at hroom
      unfold cds_update_conc_list
      rw [if_neg (by omega), h.table,
        Slots.fill_packed_set (by rw [length_append, length_cons]; omega),
        set_append_right _ _ (Nat.le_refl _), Nat.sub_self, set_cons_zero]
      exact @Holds.replace c m pre post a (connInfo node a.vdev_id) h rfl

theorem Holds.decr (h : Holds c l m) (hok : RemoveOk c v) :
    ∃ l', Holds (cds_decr_connection_count c v).1 l' (Function.update m v none) := by
  unfold cds_decr_connection_count
  cases hf : findVdev c v with
  | none =>
    refine ⟨l, ?_⟩
    have hm := h.no_record hf
    rw [← hm, Function.update_eq_self]; exact h
  | some i =>
    have hbw := hok i hf
    rw [h.table, Slots.live_packed] at hbw
    rw [h.find] at hf
    obtain ⟨pre, a, post, rfl, rfl, rfl⟩ := split_of_find hf
    rw [drop_left] at hbw
    have hsh : Slots.shifted copyNext a post = post := by
      apply Slots.shifted_eq
      intro b d hbd
      obtain ⟨hb, hd⟩ := of_mem_zip hbd
      unfold copyNext
      rw [hbw b hb d (mem_cons_of_mem _ hd)]
    refine ⟨pre ++ post, ?_, ?_, ?_, ?_⟩
    · dsimp only; rw [h.table, Slots.removeAt_packed h.room, hsh]
    · have := h.room
      rw [length_append, length_cons] at this
      rw [length_append]; omega
    · have hnd := h.nodup
      unfold vdevs at hnd ⊢
      rw [map_append, map_cons] at hnd
      rw [map_append]; exact (nodup_cons.mp (nodup_middle.mp hnd)).2
    · rw [h.recorded, Keyed.lookup_remove h.nodup]

theorem assignMac_vdev (hw_mode : HwModeParams) (mac_id : Nat) (a : ConnInfo) :
    (assignMac hw_mode mac_id a).vdev_id = a.vdev_id := by
  unfold assignMac
  split <;> rfl

theorem assignNss_vdev (next_action : NextAction) (a : ConnInfo) :
    (assignNss next_action a).vdev_id = a.vdev_id := by
  unfold assignNss
  split <;> rfl

theorem Holds.mac (h : Holds c l m) (hw_mode : HwModeParams) (x : VdevMacMap) :
    ∃ l', Holds (updateMac hw_mode c x) l' (recordMac hw_mode m x) := by
  unfold updateMac recordMac
  cases hf : findVdev c x.vdev_id with
  | none => exact h.keep _ hf
  | some i => rw [h.find] at hf; exact h.modify _ (assignMac_vdev hw_mode x.mac_id) hf

theorem Holds.hwMode (h : Holds c l m) (hw_mode : HwModeParams) (vdev_mac_map : List VdevMacMap) :
    ∃ l', Holds (cds_update_hw_mode_conn_info c vdev_mac_map hw_mode) l'
      (vdev_mac_map.foldl (recordMac hw_mode) m) := by
  induction vdev_mac_map generalizing c l m with
  | nil => exact ⟨l, h⟩
  | cons x xs ih => obtain ⟨l', h'⟩ := h.mac hw_mode x; exact ih h'

theorem Holds.nss (h : Holds c l m) (failed : Bool) (next_action : NextAction) :
    ∃ l', Holds (cds_nss_update_cb c failed v next_action) l'
      (if failed then m else Function.update m v ((m v).map (assignNss next_action))) := by
  unfold cds_nss_update_cb
  by_cases hfail : failed = true
  · rw [if_pos hfail, if_pos hfail]; exact ⟨l, h⟩
  · rw [if_neg hfail, if_neg hfail, h.connection]
    cases hf : l.findIdx? (fun a => decide (a.vdev_id = v)) with
    | none =>
      apply h.keep
      rw [h.find]; exact hf
    | some i => exact h.modify _ (assignNss_vdev next_action) hf

/-! ## The modes of the open sessions -/

structure Marked (h : Sessions) : Prop where
  bit : ∀ mode : AdapterMode,
    h.concurrency_mode.getLsbD mode.val = true ↔ 0 < h.no_of_open_sessions mode
  byte : ∀ mode, h.no_of_open_sessions mode < 256

theorem bit_getLsbD (mode k : AdapterMode) : mode.bit.getLsbD k.val = decide (k = mode) := by
  cases mode <;> cases k <;> rfl

theorem Marked.opened {h : Sessions} (hm : Marked h) (mode : AdapterMode)
    (hok : h.no_of_open_sessions mode ≠ 255) :
    Marked ⟨h.concurrency_mode ||| mode.bit,
      Function.update h.no_of_open_sessions mode ((h.no_of_open_sessions mode + 1) % 256)⟩ := by
  have hlt := hm.byte mode
  constructor
  · intro k
    dsimp only
    rw [BitVec.getLsbD_or, bit_getLsbD]
    by_cases hk : k = mode
    · subst hk
      rw [Function.update_self, decide_eq_true rfl, Bool.or_true]
      exact ⟨fun _ => by omega, fun _ => rfl⟩
    · rw [Function.update_of_ne hk, decide_eq_false hk, Bool.or_false]; exact hm.bit k
  · intro k
    dsimp only
    by_cases hk : k = mode
    · subst hk
      rw [Function.update_self]; omega
    · rw [Function.update_of_ne hk]; exact hm.byte k

theorem Marked.closed {h : Sessions} (hm : Marked h) (mode : AdapterMode)
    (hok : h.no_of_open_sessions mode ≠ 0) :
    Marked ⟨if (h.no_of_open_sessions mode + 255) % 256 = 0 then h.concurrency_mode &&& ~~~mode.bit
        else h.concurrency_mode,
      Function.update h.no_of_open_sessions mode ((h.no_of_open_sessions mode + 255) % 256)⟩ := by
  constructor
  · intro k
    dsimp only
    by_cases hk : k = mode
    · subst hk
      rw [Function.update_self]
      split
      · rename_i hz
        rw [BitVec.getLsbD_and, BitVec.getLsbD_not, bit_getLsbD, decide_eq_true rfl, hz]; simp
      · rw [hm.bit k]; omega
    · rw [Function.update_of_ne hk, ← hm.bit k]
      split
      · have hk32 : k.val < 32 := by cases k <;> decide
        rw [BitVec.getLsbD_and, BitVec.getLsbD_not, bit_getLsbD, decide_eq_false hk]
        simp [hk32]
      · rfl
  · intro k
    dsimp only
    by_cases hk : k = mode
    · subst hk
      rw [Function.update_self]; omega
    · rw [Function.update_of_ne hk]; exact hm.byte k

def CloseOk (h : Sessions) (mode : AdapterMode) : Prop :=
  mode ∈ [.STA, .SAP, .P2P_CLIENT, .P2P_GO] → h.no_of_open_sessions mode ≠ 0
deriving Decidable

theorem Marked.set {h : Sessions} (hm : Marked h) (mode : AdapterMode)
    (hok : h.no_of_open_sessions mode ≠ 255) : Marked (cds_set_concurrency_mode h mode) := by
  cases mode with
  | FTM | P2P_DEVICE | OCB | EPPING | QVIT => exact hm
  | STA | SAP | P2P_CLIENT | P2P_GO | IBSS => exact hm.opened _ hok

theorem Marked.clear {h : Sessions} (hm : Marked h) (mode : AdapterMode) (hok : CloseOk h mode) :
    Marked (cds_clear_concurrency_mode h mode) := by
  cases mode with
  | FTM | IBSS | P2P_DEVICE | OCB | EPPING | QVIT => exact hm
  | STA | SAP | P2P_CLIENT | P2P_GO => exact hm.closed _ (hok (by decide))

/-! ## Runs -/

/-- A vdev is added only when it is absent, and no step shows a defect of the code. -/
def Ok (limit : Nat) (s : State) (e : Step) : Prop :=
  match e.op with
  | .incrConnectionCount v =>
    findVdev s.conc_connection_list v = none ∧ AddOk limit e.wma s.conc_connection_list v
  | .decrConnectionCount v => RemoveOk s.conc_connection_list v
  | .setConcurrencyMode mode => s.hdd.no_of_open_sessions mode ≠ 255
  | .clearConcurrencyMode mode => CloseOk s.hdd mode
  | _ => True

instance (limit : Nat) (s : State) (e : Step) : Decidable (Ok limit s e) := by
  unfold Ok
  split <;> infer_instance

def recordedStep (limit : Nat) (p : State × Recorded) (e : Step) : Option (State × Recorded) :=
  (step limit p.1 e).map fun s =>
    (s, record p.2 e (tableStep limit p.1.conc_connection_list e).2)

structure Inv (p : State × Recorded) : Prop where
  holds : ∃ l, Holds p.1.conc_connection_list l p.2
  marked : Marked p.1.hdd

theorem init_inv : Inv (init, fun _ => none) := by
  refine ⟨⟨[], rfl, by decide, nodup_nil, rfl⟩, ?_, ?_⟩
  · intro mode
    cases mode <;> decide
  · exact fun _ => Nat.succ_pos 255

theorem Holds.step (h : Holds c l m) (hdd : Sessions) (hok : Ok limit ⟨c, hdd⟩ e) :
    ∃ l', Holds (tableStep limit c e).1 l' (record m e (tableStep limit c e).2) := by
  obtain ⟨op, wma⟩ := e
  cases op with
  | incrConnectionCount v => obtain ⟨l', hl', -⟩ := h.incr hok.1 hok.2; exact ⟨l', hl'⟩
  | updateConnectionInfo v => exact h.update
  | decrConnectionCount v => exact h.decr hok
  | updateHwModeConnInfo vdev_mac_map hw_mode => exact h.hwMode hw_mode vdev_mac_map
  | nssUpdateCb failed v next_action => exact h.nss failed next_action
  | setConcurrencyMode mode => exact ⟨l, h⟩
  | clearConcurrencyMode mode => exact ⟨l, h⟩

theorem Inv.step {p p' : State × Recorded} (h : Inv p) (hok : Ok limit p.1 e)
    (hs : recordedStep limit p e = some p') : Inv p' := by
  obtain ⟨l, hl⟩ := h.holds
  have hp := Option.some.inj hs
  rw [← hp]
  refine ⟨hl.step p.1.hdd hok, ?_⟩
  obtain ⟨op, wma⟩ := e
  cases op with
  | setConcurrencyMode mode => exact h.marked.set mode hok
  | clearConcurrencyMode mode => exact h.marked.clear mode hok
  | incrConnectionCount _ | updateConnectionInfo _ | decrConnectionCount _ => exact h.marked
  | updateHwModeConnInfo _ _ | nssUpdateCb _ _ _ => exact h.marked

/-- **The table of the connections.** While no connection is added to a full table and only entries
of one bandwidth are moved, the entries in use come first and each vdev has one of them at most,
which has what was last recorded of it; an addition succeeds exactly if there is an entry then; a
removal leaves the other entries as they are; and the bit of each mode says whether it has open
sessions. -/
theorem connections_run {es : List Step}
    (h : run (guarded (fun p => Ok limit p.1) (recordedStep limit)) (init, fun _ => none) es
      = some (s, m)) :
    (∃ l, s.conc_connection_list = slots l ∧ (vdevs l).Nodup ∧
      m = Keyed.lookup ConnInfo.vdev_id l) ∧
    (∀ v wma, Ok limit s ⟨.incrConnectionCount v, wma⟩ →
      let r := cds_incr_connection_count limit wma s.conc_connection_list v
      (r.2 = true ↔ ∃ a ∈ Slots.live r.1, a.vdev_id = v)) ∧
    (∀ v wma, Ok limit s ⟨.decrConnectionCount v, wma⟩ →
      let c := (cds_decr_connection_count s.conc_connection_list v).1
      (∀ u ≠ v, Keyed.lookup ConnInfo.vdev_id (Slots.live c) u = m u) ∧
      ∀ a ∈ Slots.live c, a.vdev_id ≠ v) ∧
    ∀ mode : AdapterMode, s.hdd.concurrency_mode.getLsbD mode.val = true
      ↔ 0 < s.hdd.no_of_open_sessions mode := by
  have hinv : Inv (s, m) :=
    guarded_run_invariant (fun _ _ _ hp hok hst => hp.step hok hst) init_inv h
  obtain ⟨l, hl⟩ := hinv.holds
  have hlive : ∀ {c l m}, Holds c l m → Slots.live c = l := by
    intro c l m hc
    rw [hc.table, Slots.live_packed]
  refine ⟨⟨l, hl.table, hl.nodup, hl.recorded⟩, ?_, ?_, hinv.marked.bit⟩
  · intro v wma hok
    obtain ⟨l', hl', hiff⟩ := hl.incr hok.1 hok.2
    dsimp only
    rw [hlive hl']; exact hiff
  · intro v wma hok
    obtain ⟨l', hl'⟩ := hl.decr hok
    dsimp only
    rw [hlive hl', ← hl'.recorded]
    constructor
    · intro u hu; exact Function.update_of_ne hu _ _
    · apply Keyed.lookup_eq_none.mp
      rw [← hl'.recorded]; exact Function.update_self _ _ _

/-- A STA that uses `chan_width`, SAPs of 20 MHz. -/
def wmaOf (chan_width : ChWidth) : Wma where
  max_bssid := 4
  interfaces v :=
    if v = 0 then ⟨WMI_VDEV_TYPE_STA, 0, 5180, chan_width, 0, 1, 2, 2, 2⟩
    else ⟨WMI_VDEV_TYPE_AP, 0, 2437, .CH_WIDTH_20MHZ, 0, 1, 2, 2, 2⟩

def start (chan_width : ChWidth) : List Step :=
  [Op.setConcurrencyMode .STA, .incrConnectionCount 0, .setConcurrencyMode .SAP,
    .incrConnectionCount 1].map fun o => ⟨o, wmaOf chan_width⟩

theorem connections_run_remove :
    ∃ s m, run (guarded (fun p => Ok 3 p.1) (recordedStep 3)) (init, fun _ => none)
      (start .CH_WIDTH_20MHZ) = some (s, m) ∧
    (∀ u ≠ 0, Keyed.lookup ConnInfo.vdev_id
      (Slots.live (cds_decr_connection_count s.conc_connection_list 0).1) u = m u) ∧
    m 1 = some ⟨.SAP, 6, .BW_20_MHZ, 0, 1, 2, 2, 2, 1⟩ := by
  refine ⟨_, _, rfl, ?_, rfl⟩
  exact ((@connections_run 3 _ _ (start .CH_WIDTH_20MHZ) rfl).2.2.1 0 (wmaOf .CH_WIDTH_20MHZ)
    (by decide)).1

/-- The SAP is left with the bandwidth of the STA; and a fourth connection is said to be added. -/
theorem bandwidth_of_removed :
    (∃ s m, run (recordedStep 3) (init, fun _ => none) (start .CH_WIDTH_80MHZ) = some (s, m) ∧
      (m 1).map ConnInfo.bw = some .BW_20_MHZ ∧
      (Slots.live (cds_decr_connection_count s.conc_connection_list 0).1).map
        (fun a => (a.vdev_id, a.bw)) = [(1, .BW_80_MHZ)]) ∧
    ∃ s m, run (recordedStep 3) (init, fun _ => none)
        (start .CH_WIDTH_20MHZ ++ [⟨.incrConnectionCount 2, wmaOf .CH_WIDTH_20MHZ⟩]) = some (s, m) ∧
      let r := cds_incr_connection_count 3 (wmaOf .CH_WIDTH_20MHZ) s.conc_connection_list 3
      r.2 = true ∧ vdevs (Slots.live r.1) = [0, 1, 2] := by
  constructor
  · exact ⟨_, _, rfl, rfl, rfl⟩
  · exact ⟨_, _, rfl, rfl, rfl⟩

end Qcacld.CdsConc
