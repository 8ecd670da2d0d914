/-
The temporary removal of a connection, and the decisions that look at the table:
`cds_concurrency.c`.

To find the preferred channels of a mode that is already connected, `cds_get_pcl_for_existing_conn`
and `cds_set_pcl_for_existing_combo` take an entry of this mode out, ask as if it was not there, and
put it back behind the others. What they ask does not change the table and is a parameter. The
contexts are not null, and `QCA_WIFI_3_0_EMU` is not defined. `CDS_P2P_CLI_SAP_SCC_24_1x1` and the
other row indices are a pair of modes and what is left of the name.
-/
import Qcacld.CdsRegChan

set_option autoImplicit false

namespace Qcacld.CdsTempRemove

open Lib
open CdsConc
open CdsRegChan

def CDS_ONE_ONE : Nat := 0

/-- What the decisions depend on beside the table: `wma_is_hw_dbs_capable`, the regulatory channels
and `cds_max_concurrent_connections_reached`. -/
structure Hw where
  dbs_capable : Bool
  reg_channels : RegChannels
  max_reached : Bool

def CDS_IS_DFS_CH (hw : Hw) (chan_num : Nat) : Bool :=
  cds_get_channel_state hw.reg_channels chan_num = .DFS

def CDS_IS_SAME_BAND_CHANNELS (chan_num1 chan_num2 : Nat) : Bool :=
  chan_num1 ≠ 0 && chan_num2 ≠ 0 && CDS_IS_CHANNEL_5GHZ chan_num1 == CDS_IS_CHANNEL_5GHZ chan_num2

def entry (c : Table) (conn_index : Nat) : ConnInfo := (c.getD conn_index ⟨false, .zero⟩).content

def mode_list (c : Table) (mode : ConMode) : List Nat :=
  (List.range MAX_NUMBER_OF_CONC_CONNECTIONS).filter fun conn_index =>
    (entry c conn_index).mode = mode && (c.getD conn_index ⟨false, .zero⟩).active

def cds_mode_specific_connection_count (c : Table) (mode : ConMode) : Nat :=
  (mode_list c mode).length

/-! ## The temporary removal -/

/-- What is saved, if there is an entry of the mode. -/
def cds_store_and_del_conn_info (c : Table) (mode : ConMode) : Option (ConnInfo × Table) :=
  (Slots.findPrefix (fun a => a.mode = mode) c).map fun conn_index =>
    let info := entry c conn_index
    (info, (cds_decr_connection_count c info.vdev_id).1)

def cds_restore_deleted_conn_info (c : Table) (info : ConnInfo) : Table :=
  let conn_index := cds_get_connection_count c
  if MAX_NUMBER_OF_CONC_CONNECTIONS ≤ conn_index then c else Slots.fill c conn_index info

/-- The table after it and what was found. -/
def cds_get_pcl_for_existing_conn {α : Type*} (cds_get_pcl : Table → α) (c : Table)
    (mode : ConMode) : Table × Option α :=
  if cds_mode_specific_connection_count c mode > 0 then
    match cds_store_and_del_conn_info c mode with
    | none => (c, none)
    | some (info, c) => (cds_restore_deleted_conn_info c info, some (cds_get_pcl c))
  else (c, none)

def cds_set_pcl_for_existing_combo {α : Type*} (cds_pdev_set_pcl : Table → α) (c : Table)
    (mode : ConMode) : Table × Option α :=
  if mode = .MAX_NUM_OF_MODE then (c, none)
  else if cds_mode_specific_connection_count c mode > 0 then
    match cds_store_and_del_conn_info c mode with
    | none => (c, none)
    | some (info, c) => (cds_restore_deleted_conn_info c info, some (cds_pdev_set_pcl c))
  else (c, none)

/-! ## Whether a connection is allowed -/

def cds_disallow_mcc (hw : Hw) (c : Table) (channel : Nat) : Bool :=
  (c.takeWhile Slot.active).any fun s =>
    if hw.dbs_capable = false then s.content.chan ≠ channel
    else CDS_IS_CHANNEL_5GHZ s.content.chan && s.content.chan ≠ channel

def cds_allow_new_home_channel (hw : Hw) (c : Table) (channel num_connections : Nat) : Bool :=
  let e0 := entry c 0
  let e1 := entry c 1
  if num_connections = 2 ∧ e0.chan ≠ e1.chan ∧ e0.mac = e1.mac then
    if hw.dbs_capable = false then !(channel ≠ e0.chan && channel ≠ e1.chan)
    else !((CDS_IS_CHANNEL_24GHZ channel && CDS_IS_CHANNEL_24GHZ e0.chan &&
        CDS_IS_CHANNEL_24GHZ e1.chan) ||
      (CDS_IS_CHANNEL_5GHZ channel && CDS_IS_CHANNEL_5GHZ e0.chan && CDS_IS_CHANNEL_5GHZ e1.chan))
  else true

def cds_vht160_conn_exist (c : Table) : Bool :=
  c.any fun s => s.active && (s.content.bw = .BW_80_PLUS_80_MHZ || s.content.bw = .BW_160_MHZ)

/-- "Don't allow MCC if SAP/GO on DFS channel". -/
def mcc_on_dfs (hw : Hw) (c : Table) (mode : ConMode) (channel : Nat) : Bool :=
  (mode_list c mode).any fun i =>
    CDS_IS_DFS_CH hw (entry c i).chan && CDS_IS_CHANNEL_5GHZ channel && channel ≠ (entry c i).chan

/-- The checks that are made for a channel. -/
def refuses_channel (hw : Hw) (c : Table) (mode : ConMode) (channel num_connections : Nat) : Bool :=
  !cds_allow_new_home_channel hw c channel num_connections ||
  (cds_mode_specific_connection_count c .STA > 0 && CDS_IS_DFS_CH hw channel) ||
  mcc_on_dfs hw c .P2P_GO channel ||
  mcc_on_dfs hw c .SAP channel ||
  ((mode = .P2P_GO || mode = .SAP) && CDS_IS_DFS_CH hw channel && cds_disallow_mcc hw c channel)

/-- The checks for a new IBSS connection. -/
def refuses_ibss (hw : Hw) (c : Table) (channel num_connections : Nat) : Bool :=
  let count := cds_mode_specific_connection_count c .STA
  (cds_mode_specific_connection_count c .IBSS > 0 && count > 0) ||
  (CDS_IS_DFS_CH hw channel && count > 0) ||
  (if hw.dbs_capable then
    num_connections > 1 || (entry c 0).mode ≠ .STA ||
      (channel ≠ 0 && (entry c 0).chan ≠ channel &&
        CDS_IS_SAME_BAND_CHANNELS (entry c 0).chan channel)
  else num_connections ≠ 0)

/-- The checks for a new STA connection beside an IBSS one. -/
def refuses_sta (hw : Hw) (c : Table) (channel num_connections : Nat) : Bool :=
  cds_mode_specific_connection_count c .IBSS > 0 &&
  (cds_mode_specific_connection_count c .STA > 0 ||
    (if hw.dbs_capable then
      num_connections > 1 ||
        (channel ≠ 0 && CDS_IS_DFS_CH hw (entry c 0).chan && CDS_IS_CHANNEL_5GHZ channel) ||
        ((entry c 0).chan ≠ channel && CDS_IS_SAME_BAND_CHANNELS (entry c 0).chan channel)
    else true))

/-- "Don't allow two P2P GO on same band". -/
def go_on_same_band (c : Table) (channel : Nat) : Bool :=
  (mode_list c .P2P_GO).any fun i => CDS_IS_SAME_BAND_CHANNELS channel (entry c i).chan

def cds_allow_concurrency (hw : Hw) (c : Table) (mode : ConMode) (channel : Nat)
    (bw : HwModeBandwidth) : Bool :=
  let num_connections := cds_get_connection_count c
  if hw.max_reached then false
  else if channel ≠ 0 && refuses_channel hw c mode channel num_connections then false
  else if mode = .IBSS && refuses_ibss hw c channel num_connections then false
  else if mode = .STA && refuses_sta hw c channel num_connections then false
  else if num_connections ≠ 0 && (bw = .BW_80_PLUS_80_MHZ || bw = .BW_160_MHZ) then false
  else if cds_vht160_conn_exist c then false
  else if channel ≠ 0 && mode = .P2P_GO && num_connections ≠ 0 && go_on_same_band c channel then
    false
  else true

/-! ## The row for a third connection -/

/-- The part of the name of a row before `_SCC`, `_MCC` or `_DBS`. -/
inductive ConnPair
  | P2P_CLI_SAP
  | STA_SAP
  | STA_P2P_GO
  | STA_P2P_CLI
  | P2P_GO_P2P_CLI
  | P2P_GO_SAP

inductive ConnKind
  | SCC_24_1x1
  | SCC_24_2x2
  | SCC_5_1x1
  | SCC_5_2x2
  | MCC_24_1x1
  | MCC_24_2x2
  | MCC_5_1x1
  | MCC_5_2x2
  | MCC_24_5_1x1
  | MCC_24_5_2x2
  | DBS_1x1

inductive TwoConnectionMode
  | of (pair : ConnPair) (kind : ConnKind)
  | CDS_MAX_TWO_CONNECTION_MODE

def conn_pair (mode0 mode1 : ConMode) : Option ConnPair :=
  let are (m n : ConMode) : Bool := (m = mode0 && n = mode1) || (n = mode0 && m = mode1)
  if are .P2P_CLIENT .SAP then some .P2P_CLI_SAP
  else if are .STA .SAP then some .STA_SAP
  else if are .STA .P2P_GO then some .STA_P2P_GO
  else if are .STA .P2P_CLIENT then some .STA_P2P_CLI
  else if are .P2P_GO .P2P_CLIENT then some .P2P_GO_P2P_CLI
  else if are .SAP .P2P_GO then some .P2P_GO_SAP
  else none

/-- The chain mask is that of entry 0. -/
def conn_kind (e0 e1 : ConnInfo) : ConnKind :=
  let chains (one two : ConnKind) : ConnKind := if CDS_ONE_ONE = e0.chain_mask then one else two
  if e0.chan = e1.chan then
    if CDS_IS_CHANNEL_24GHZ e0.chan then chains .SCC_24_1x1 .SCC_24_2x2
    else chains .SCC_5_1x1 .SCC_5_2x2
  else if e0.mac = e1.mac then
    if CDS_IS_CHANNEL_24GHZ e0.chan && CDS_IS_CHANNEL_24GHZ e1.chan then
      chains .MCC_24_1x1 .MCC_24_2x2
    else if CDS_IS_CHANNEL_5GHZ e0.chan && CDS_IS_CHANNEL_5GHZ e1.chan then
      chains .MCC_5_1x1 .MCC_5_2x2
    else chains .MCC_24_5_1x1 .MCC_24_5_2x2
  else .DBS_1x1

def cds_get_third_connection_pcl_table_index (c : Table) : TwoConnectionMode :=
  match conn_pair (entry c 0).mode (entry c 1).mode with
  | some pair => .of pair (conn_kind (entry c 0) (entry c 1))
  | none => .CDS_MAX_TWO_CONNECTION_MODE

/-! ## The upgrade when a connection has ended -/

/-- The bits of `mac` after the entry. -/
def mac_in_use (mac : Nat) (s : Slot ConnInfo) : Nat :=
  if s.content.mac = 0 && s.active then mac ||| 1
  else if s.content.mac = 1 && s.active then mac ||| 2
  else mac

def cds_need_opportunistic_upgrade (dbs_capable : Bool) (c : Table) : NextAction :=
  if dbs_capable = false then .NOP
  else if c.foldl mac_in_use 0 = 3 then .NOP
  else if c.any fun s => s.content.original_nss = 1 && s.active then .MCC_UPGRADE
  else .MCC

/-! ## Steps -/

/-- A step of the table, or the preferred channels of a mode that is connected are asked for. -/
inductive Event where
  | table (e : CdsConc.Step)
  | getPcl (mode : ConMode)
  | setPcl (mode : ConMode)

def step (limit : Nat) (c : Table) : Event → Option Table
  | .table e => some (tableStep limit c e).1
  | .getPcl mode => some (cds_get_pcl_for_existing_conn (fun _ => ()) c mode).1
  | .setPcl mode => some (cds_set_pcl_for_existing_combo (fun _ => ()) c mode).1

open List
open CdsConc (ConMode ConnInfo Table HwModeBandwidth MAX_NUMBER_OF_CONC_CONNECTIONS Holds slots
  vdevs copyNext connInfo findVdev cds_get_connection_count cds_decr_connection_count
  cds_incr_connection_count cds_update_connection_info cds_update_conc_list tableStep
  wma_get_interface_by_vdev_id)

/-! The entry that is taken out comes back at the end of the table, and the entries behind it have
then taken over the bandwidth of their slots. -/

variable {c c' : Table} {l l' pre post : List ConnInfo} {a b : ConnInfo} {mode : ConMode}
  {hw : Hw} {limit v : Nat}

/-! ## What is to hold -/

/-- The tables have the same entries and lead to the same decisions. `cds_get_pcl` asks for the row
of a third connection if there are two. -/
structure SameAnswers (c c' : Table) : Prop where
  entries : (Slots.live c).Perm (Slots.live c')
  allow : ∀ hw mode channel bw,
    cds_allow_concurrency hw c mode channel bw = cds_allow_concurrency hw c' mode channel bw
  third : cds_get_connection_count c = 2 →
    cds_get_third_connection_pcl_table_index c = cds_get_third_connection_pcl_table_index c'
  upgrade : ∀ dbs_capable,
    cds_need_opportunistic_upgrade dbs_capable c = cds_need_opportunistic_upgrade dbs_capable c'

/-- Whatever comes next, the same comes after both tables. -/
def SameFrom (limit : Nat) (c c' : Table) : Prop :=
  ∀ es t t', run (step limit) c es = some t → run (step limit) c' es = some t' → SameAnswers t t'

/-- `R` relates the table to what it is after the preferred channels were asked for. -/
structure Invisible (R : Table → Table → Prop) (c : Table) (mode : ConMode) : Prop where
  get_pcl : R c (cds_get_pcl_for_existing_conn (fun _ => ()) c mode).1
  set_pcl : R c (cds_set_pcl_for_existing_combo (fun _ => ()) c mode).1

/-- A vdev that is connected is not added again. -/
def AddsNew (c : Table) : Event → Prop
  | .table ⟨.incrConnectionCount vdev_id, _⟩ => findVdev c vdev_id = none
  | _ => True

instance (c : Table) (e : Event) : Decidable (AddsNew c e) := by
  unfold AddsNew
  split <;> infer_instance

structure Reachable (limit : Nat) where
  table : Table
  reached : ∃ es, run (guarded AddsNew (step limit)) CdsConc.init.conc_connection_list es = some table

/-! ## The condition -/

def NothingAfter (l : List ConnInfo) (mode : ConMode) : Prop :=
  ∀ pre a post, l = pre ++ a :: post → (∀ x ∈ pre, x.mode ≠ mode) → a.mode = mode → post = []

/-- The row for a third connection does not depend on which of the two comes first. -/
def EitherOrder (a b : ConnInfo) : Prop :=
  a.mode = b.mode ∨ a.mode = .IBSS ∨ b.mode = .IBSS ∨ a.mode = .MAX_NUM_OF_MODE ∨
    b.mode = .MAX_NUM_OF_MODE ∨ (a.chan ≠ b.chan ∧ a.mac ≠ b.mac) ∨
      (a.chain_mask = CDS_ONE_ONE ↔ b.chain_mask = CDS_ONE_ONE)

/-- The entries after the first one of the mode have its bandwidth, and if it is the first of two,
they can come in either order. -/
def CanBeLast (l : List ConnInfo) (mode : ConMode) : Prop :=
  ∀ pre a post, l = pre ++ a :: post → (∀ x ∈ pre, x.mode ≠ mode) → a.mode = mode →
    (∀ b ∈ post, b.bw = a.bw) ∧ ∀ b, pre = [] → post = [b] → EitherOrder a b

/-! ## Reachable tables -/

/-- The entries in use come first, one for each vdev. -/
structure Packed (c : Table) (l : List ConnInfo) : Prop where
  table : c = slots l
  room : l.length ≤ MAX_NUMBER_OF_CONC_CONNECTIONS
  nodup : (vdevs l).Nodup

theorem Packed.holds (h : Packed c l) : Holds c l (Keyed.lookup ConnInfo.vdev_id l) :=
  ⟨h.table, h.room, h.nodup, rfl⟩

theorem Packed.of_holds {m : CdsConc.Recorded} (h : Holds c l m) : Packed c l :=
  ⟨h.table, h.room, h.nodup⟩

theorem vdevs_shifted : vdevs (Slots.shifted copyNext a post) = vdevs post := by
  induction post generalizing a with
  | nil => rfl
  | cons b post ih => rw [Slots.shifted, vdevs, map_cons]; exact congrArg _ ih

theorem length_shifted : (Slots.shifted copyNext a post).length = post.length := by
  have h : (vdevs (Slots.shifted copyNext a post)).length = (vdevs post).length := by
    rw [vdevs_shifted]
  rwa [length_map, length_map] at h

theorem Packed.find (h : Packed c (pre ++ a :: post)) : findVdev c a.vdev_id = some pre.length := by
  rw [h.holds.find, findIdx?_append, findIdx?_eq_none_iff.mpr, findIdx?_cons]
  · simp
  · intro x hx
    have hnodup := h.nodup
    rw [vdevs, map_append, nodup_append] at hnodup
    exact decide_eq_false (hnodup.2.2 _ (mem_map_of_mem hx) _ (mem_map_of_mem (mem_cons_self)))

theorem Packed.decr (h : Packed c (pre ++ a :: post)) :
    Packed (cds_decr_connection_count c a.vdev_id).1 (pre ++ Slots.shifted copyNext a post) where
  table := by
    rw [cds_decr_connection_count, h.find]
    dsimp only
    rw [h.table, Slots.removeAt_packed h.room]
  room := by
    have hroom := h.room
    rw [length_append, length_cons] at hroom
    rw [length_append, length_shifted]; omega
  nodup := by
    have hnodup := h.nodup
    rw [vdevs, map_append, map_cons] at hnodup
    have hshifted : (Slots.shifted copyNext a post).map ConnInfo.vdev_id =
        post.map ConnInfo.vdev_id := vdevs_shifted
    rw [vdevs, map_append, hshifted]; exact (nodup_cons.mp (nodup_middle.mp hnodup)).2

theorem Packed.fill (h : Packed c l) (hlen : l.length < MAX_NUMBER_OF_CONC_CONNECTIONS)
    (hnew : ∀ x ∈ l, x.vdev_id ≠ a.vdev_id) :
    Packed (Slots.fill c (cds_get_connection_count c) a) (l ++ [a]) where
  table := by rw [h.holds.count, h.table, Slots.fill_packed_append hlen]
  room := by rw [length_append, length_singleton]; exact hlen
  nodup := by
    rw [vdevs, map_append, nodup_append]
    refine ⟨h.nodup, nodup_singleton _, ?_⟩
    intro u hu w hw he
    obtain ⟨x, hx, rfl⟩ := mem_map.mp hu
    rw [map_singleton, mem_singleton] at hw; exact hnew x hx (he.trans hw)

theorem vdev_of_mem (h : Packed c (pre ++ a :: post)) :
    ∀ x ∈ pre ++ Slots.shifted copyNext a post, x.vdev_id ≠ a.vdev_id := by
  intro x hx he
  have hnodup := h.nodup
  rw [vdevs, map_append, map_cons] at hnodup
  apply (nodup_cons.mp (nodup_middle.mp hnodup)).1
  have hmem : x.vdev_id ∈ vdevs (pre ++ Slots.shifted copyNext a post) := mem_map_of_mem hx
  have hshifted : (Slots.shifted copyNext a post).map ConnInfo.vdev_id =
      post.map ConnInfo.vdev_id := vdevs_shifted
  rwa [vdevs, map_append, hshifted, he] at hmem

/-! ## The entry comes back as the last one -/

theorem entry_packed (h : Packed c (pre ++ a :: post)) : entry c pre.length = a := by
  have hroom := h.room
  rw [entry, h.table, slots, Slots.packed_append_cons hroom, getD_eq_getElem?_getD,
    getElem?_append_right (by rw [length_map]), length_map, Nat.sub_self]
  rfl

theorem findMode_packed (h : Packed c (pre ++ a :: post)) (hpre : ∀ x ∈ pre, x.mode ≠ mode)
    (ha : a.mode = mode) : Slots.findPrefix (fun a => a.mode = mode) c = some pre.length := by
  rw [h.table, Slots.findPrefix_packed, findIdx?_append, findIdx?_eq_none_iff.mpr, findIdx?_cons]
  · simp [ha]
  · intro x hx; exact decide_eq_false (hpre x hx)

theorem restored (h : Packed c (pre ++ a :: post)) :
    Packed (cds_restore_deleted_conn_info (cds_decr_connection_count c a.vdev_id).1 a)
      (pre ++ Slots.shifted copyNext a post ++ [a]) := by
  have hlen : (pre ++ Slots.shifted copyNext a post).length < MAX_NUMBER_OF_CONC_CONNECTIONS := by
    have hroom := h.room
    rw [length_append, length_cons] at hroom
    rw [length_append, length_shifted]; omega
  rw [cds_restore_deleted_conn_info, if_neg (by rw [h.decr.holds.count]; omega)]
  exact h.decr.fill hlen (vdev_of_mem h)

/-! ## The entries of a mode -/

theorem Packed.length (h : Packed c l) : c.length = MAX_NUMBER_OF_CONC_CONNECTIONS := by
  have hroom := h.room
  rw [h.table, slots, Slots.packed, length_append, length_map, length_replicate]; omega

theorem map_range (hc : c.length = MAX_NUMBER_OF_CONC_CONNECTIONS) :
    (range MAX_NUMBER_OF_CONC_CONNECTIONS).map (fun i => c.getD i ⟨false, .zero⟩) = c := by
  obtain ⟨x, y, z, rfl⟩ := length_eq_three.mp hc
  rfl

theorem any_mode_list (hc : c.length = MAX_NUMBER_OF_CONC_CONNECTIONS) (p : ConnInfo → Bool) :
    (mode_list c mode).any (fun i => p (entry c i)) =
      c.any fun s => (decide (s.content.mode = mode) && s.active) && p s.content := by
  conv_rhs => rw [← map_range hc, any_map]
  rw [mode_list, any_filter]; rfl

theorem count_eq_countP (hc : c.length = MAX_NUMBER_OF_CONC_CONNECTIONS) :
    cds_mode_specific_connection_count c mode =
      c.countP fun s => decide (s.content.mode = mode) && s.active := by
  conv_rhs => rw [← map_range hc, countP_map]
  rw [cds_mode_specific_connection_count, mode_list, ← countP_eq_length_filter]; rfl

theorem count_pos (h : Packed c l) :
    cds_mode_specific_connection_count c mode > 0 ↔ ∃ a ∈ l, a.mode = mode := by
  have hlive : Slots.live c = l := by rw [h.table, Slots.live_packed]
  rw [count_eq_countP h.length, gt_iff_lt, countP_pos_iff]
  constructor
  · rintro ⟨⟨active, a⟩, hs, hmode⟩
    obtain ⟨hmode, rfl⟩ := (Bool.and_eq_true_iff.mp hmode)
    refine ⟨a, ?_, of_decide_eq_true hmode⟩
    rw [← hlive]; exact Slots.mem_live.mpr hs
  · rintro ⟨a, ha, hmode⟩
    rw [← hlive] at ha; exact ⟨⟨true, a⟩, Slots.mem_live.mp ha, by simp [hmode]⟩

/-! ## What the two functions do to the table -/

theorem get_pcl_none {α : Type*} (cds_get_pcl : Table → α) (h : Packed c l)
    (hl : ∀ x ∈ l, x.mode ≠ mode) : cds_get_pcl_for_existing_conn cds_get_pcl c mode = (c, none) := by
  rw [cds_get_pcl_for_existing_conn, if_neg]
  rw [count_pos h]
  rintro ⟨a, ha, hmode⟩; exact hl a ha hmode

theorem get_pcl_packed {α : Type*} (cds_get_pcl : Table → α) (h : Packed c (pre ++ a :: post))
    (hpre : ∀ x ∈ pre, x.mode ≠ mode) (ha : a.mode = mode) :
    Packed (cds_get_pcl_for_existing_conn cds_get_pcl c mode).1
      (pre ++ Slots.shifted copyNext a post ++ [a]) := by
  have hpos : cds_mode_specific_connection_count c mode > 0 :=
    (count_pos h).mpr ⟨a, mem_append_right _ mem_cons_self, ha⟩
  have hstored : cds_store_and_del_conn_info c mode =
      some (a, (cds_decr_connection_count c a.vdev_id).1) := by
    rw [cds_store_and_del_conn_info, findMode_packed h hpre ha, Option.map_some, entry_packed h]
  rw [cds_get_pcl_for_existing_conn, if_pos hpos, hstored]; exact restored h

theorem set_pcl_eq {α : Type*} (query : Table → α) (c : Table) (mode : ConMode) :
    cds_set_pcl_for_existing_combo query c mode =
      if mode = .MAX_NUM_OF_MODE then (c, none)
      else cds_get_pcl_for_existing_conn query c mode := rfl

theorem first_of_mode (l : List ConnInfo) (mode : ConMode) :
    (∀ x ∈ l, x.mode ≠ mode) ∨
      ∃ pre a post, l = pre ++ a :: post ∧ (∀ x ∈ pre, x.mode ≠ mode) ∧ a.mode = mode := by
  induction l with
  | nil => exact Or.inl nofun
  | cons b l ih =>
    by_cases hb : b.mode = mode
    · exact Or.inr ⟨[], b, l, rfl, nofun, hb⟩
    · rcases ih with hnone | ⟨pre, a, post, rfl, hpre, ha⟩
      · refine Or.inl fun x hx => ?_
        rcases mem_cons.mp hx with rfl | hx
        · exact hb
        · exact hnone x hx
      · refine Or.inr ⟨b :: pre, a, post, rfl, fun x hx => ?_, ha⟩
        rcases mem_cons.mp hx with rfl | hx
        · exact hb
        · exact hpre x hx

theorem Packed.get_pcl {α : Type*} (cds_get_pcl : Table → α) (h : Packed c l) :
    ∃ l', Packed (cds_get_pcl_for_existing_conn cds_get_pcl c mode).1 l' := by
  rcases first_of_mode l mode with hnone | ⟨pre, a, post, rfl, hpre, ha⟩
  · rw [get_pcl_none cds_get_pcl h hnone]; exact ⟨l, h⟩
  · exact ⟨_, get_pcl_packed cds_get_pcl h hpre ha⟩

/-! ## Runs -/

theorem Packed.incr (h : Packed c l) (hnew : findVdev c v = none) (wma : CdsConc.Wma) :
    ∃ l', Packed (cds_incr_connection_count limit wma c v).1 l' := by
  rw [cds_incr_connection_count]
  split
  · exact ⟨l, h⟩
  split
  · exact ⟨l, h⟩
  next node hnode =>
    rw [cds_update_conc_list]
    split
    · exact ⟨l, h⟩
    next hlen =>
      rw [h.holds.count] at hlen; exact ⟨_, h.fill (Nat.not_le.mp hlen) (h.holds.unknown hnew)⟩

theorem Packed.decr_any (h : Packed c l) (v : Nat) :
    ∃ l', Packed (cds_decr_connection_count c v).1 l' := by
  cases hfind : findVdev c v with
  | none => rw [cds_decr_connection_count, hfind]; exact ⟨l, h⟩
  | some i =>
    rw [h.holds.find] at hfind
    obtain ⟨pre, a, post, rfl, -, rfl⟩ := CdsConc.split_of_find hfind
    exact ⟨_, h.decr⟩

theorem Packed.tableStep (h : Packed c l) {e : CdsConc.Step} (hok : AddsNew c (.table e)) :
    ∃ l', Packed (tableStep limit c e).1 l' := by
  obtain ⟨op, wma⟩ := e
  cases op with
  | incrConnectionCount v => exact h.incr hok wma
  | updateConnectionInfo v =>
    obtain ⟨l', h'⟩ := @Holds.update c _ l v wma h.holds
    exact ⟨l', Packed.of_holds h'⟩
  | decrConnectionCount v => exact h.decr_any v
  | updateHwModeConnInfo vdev_mac_map hw_mode =>
    obtain ⟨l', h'⟩ := h.holds.hwMode hw_mode vdev_mac_map
    exact ⟨l', Packed.of_holds h'⟩
  | nssUpdateCb failed v next_action =>
    obtain ⟨l', h'⟩ := @Holds.nss c _ l v h.holds failed next_action
    exact ⟨l', Packed.of_holds h'⟩
  | setConcurrencyMode mode => exact ⟨l, h⟩
  | clearConcurrencyMode mode => exact ⟨l, h⟩

theorem Packed.step {e : Event} (h : Packed c l) (hok : AddsNew c e)
    (hs : step limit c e = some c') : ∃ l', Packed c' l' := by
  cases e with
  | table e => rw [← Option.some.inj hs]; exact h.tableStep hok
  | getPcl mode => rw [← Option.some.inj hs]; exact h.get_pcl _
  | setPcl mode =>
    rw [← Option.some.inj hs, set_pcl_eq]
    split
    · exact ⟨l, h⟩
    · exact h.get_pcl _

theorem Reachable.packed (r : Reachable limit) : ∃ l, Packed r.table l := by
  obtain ⟨es, hes⟩ := r.reached
  refine guarded_run_invariant (I := fun c => ∃ l, Packed c l) ?_ ?_ hes
  · rintro c e c' ⟨l, h⟩ hok hs; exact h.step hok hs
  · exact ⟨[], rfl, Nat.zero_le _, nodup_nil⟩

/-! ## What the order does not change -/

theorem slots_perm (h : l.Perm l') : (slots l).Perm (slots l') := by
  rw [slots, slots, Slots.packed, Slots.packed, h.length_eq]; exact (h.map _).append_right _

theorem any_perm (h : c.Perm c') (p : Slot ConnInfo → Bool) : c.any p = c'.any p := by
  rw [Bool.eq_iff_iff, any_eq_true, any_eq_true]
  constructor
  · rintro ⟨s, hs, hp⟩; exact ⟨s, h.subset hs, hp⟩
  · rintro ⟨s, hs, hp⟩; exact ⟨s, h.symm.subset hs, hp⟩

theorem mac_in_use_comm (mac : Nat) (s t : Slot ConnInfo) :
    mac_in_use (mac_in_use mac s) t = mac_in_use (mac_in_use mac t) s := by
  unfold mac_in_use
  split_ifs
  all_goals first
    | rfl
    | rw [Nat.or_assoc, Nat.or_assoc, Nat.or_comm 1 2]

theorem upgrade_perm (h : c.Perm c') (dbs_capable : Bool) :
    cds_need_opportunistic_upgrade dbs_capable c =
      cds_need_opportunistic_upgrade dbs_capable c' := by
  rw [cds_need_opportunistic_upgrade, cds_need_opportunistic_upgrade, any_perm h,
    h.foldl_eq' fun s _ t _ mac => mac_in_use_comm mac s t]

theorem new_home_channel_swap (a b : ConnInfo) (channel num_connections : Nat) :
    cds_allow_new_home_channel hw (slots [a, b]) channel num_connections =
      cds_allow_new_home_channel hw (slots [b, a]) channel num_connections := by
  change cds_allow_new_home_channel hw [⟨true, a⟩, ⟨true, b⟩, ⟨false, .zero⟩] channel _ =
    cds_allow_new_home_channel hw [⟨true, b⟩, ⟨true, a⟩, ⟨false, .zero⟩] channel _
  have ha : entry [⟨true, a⟩, ⟨true, b⟩, ⟨false, .zero⟩] 0 = a := rfl
  have hb : entry [⟨true, a⟩, ⟨true, b⟩, ⟨false, .zero⟩] 1 = b := rfl
  have hb' : entry [⟨true, b⟩, ⟨true, a⟩, ⟨false, .zero⟩] 0 = b := rfl
  have ha' : entry [⟨true, b⟩, ⟨true, a⟩, ⟨false, .zero⟩] 1 = a := rfl
  rw [cds_allow_new_home_channel, cds_allow_new_home_channel, ha, hb, ha', hb']
  have hcond : (num_connections = 2 ∧ a.chan ≠ b.chan ∧ a.mac = b.mac) ↔
      (num_connections = 2 ∧ b.chan ≠ a.chan ∧ b.mac = a.mac) := by
    rw [ne_comm, eq_comm (a := a.mac)]
  simp only [hcond]
  split
  · split
    · rw [Bool.and_comm]
    · rw [Bool.and_right_comm, Bool.and_right_comm (CDS_IS_CHANNEL_5GHZ channel)]
  · rfl

theorem disallow_mcc_perm (h : Packed c l) (h' : Packed c' l') (hperm : l.Perm l')
    (channel : Nat) : cds_disallow_mcc hw c channel = cds_disallow_mcc hw c' channel := by
  rw [cds_disallow_mcc, cds_disallow_mcc, h.table, h'.table, Slots.takeWhile_packed,
    Slots.takeWhile_packed]
  exact any_perm (hperm.map _) _

theorem allow_moved (h : Packed c (pre ++ a :: post)) (h' : Packed c' (pre ++ post ++ [a]))
    (hpost : post ≠ []) (channel : Nat) (bw : HwModeBandwidth) :
    cds_allow_concurrency hw c mode channel bw = cds_allow_concurrency hw c' mode channel bw := by
  have hperm : (pre ++ a :: post).Perm (pre ++ post ++ [a]) := by
    have hcomm : ([a] ++ post).Perm (post ++ [a]) := perm_append_comm
    rw [append_assoc]; exact hcomm.append_left pre
  have htable : c.Perm c' := by rw [h.table, h'.table]; exact slots_perm hperm
  have hcount : cds_get_connection_count c = cds_get_connection_count c' := by
    rw [h.holds.count, h'.holds.count, hperm.length_eq]
  have hmany : cds_get_connection_count c' > 1 := by
    have hlen := length_pos_iff.mpr hpost
    rw [h'.holds.count, length_append, length_append, length_singleton]; omega
  have hmode : ∀ m, cds_mode_specific_connection_count c m =
      cds_mode_specific_connection_count c' m := by
    intro m
    rw [count_eq_countP h.length, count_eq_countP h'.length, htable.countP_eq]
  have hany : ∀ m (p : ConnInfo → Bool), (mode_list c m).any (fun i => p (entry c i)) =
      (mode_list c' m).any (fun i => p (entry c' i)) := by
    intro m p
    rw [any_mode_list h.length, any_mode_list h'.length, any_perm htable]
  have hhome : cds_allow_new_home_channel hw c channel (cds_get_connection_count c') =
      cds_allow_new_home_channel hw c' channel (cds_get_connection_count c') := by
    by_cases htwo : cds_get_connection_count c' = 2
    · obtain ⟨b, hb⟩ : ∃ b, pre = [] ∧ post = [b] := by
        rw [h'.holds.count, length_append, length_append, length_singleton] at htwo
        have hlen := length_pos_iff.mpr hpost
        obtain ⟨b, hb⟩ := length_eq_one_iff.mp (by omega : post.length = 1)
        exact ⟨b, length_eq_zero_iff.mp (by omega), hb⟩
      rw [h.table, h'.table, hb.1, hb.2]; exact new_home_channel_swap a b channel _
    · rw [cds_allow_new_home_channel, cds_allow_new_home_channel, if_neg (fun h => htwo h.1),
        if_neg (fun h => htwo h.1)]
  have hdfs : ∀ m, mcc_on_dfs hw c m channel = mcc_on_dfs hw c' m channel := fun m =>
    hany m fun x => CDS_IS_DFS_CH hw x.chan && CDS_IS_CHANNEL_5GHZ channel && channel ≠ x.chan
  have hchannel : refuses_channel hw c mode channel (cds_get_connection_count c') =
      refuses_channel hw c' mode channel (cds_get_connection_count c') := by
    rw [refuses_channel, refuses_channel, hhome, hmode, hdfs, hdfs, disallow_mcc_perm h h' hperm]
  have hibss : refuses_ibss hw c channel (cds_get_connection_count c') =
      refuses_ibss hw c' channel (cds_get_connection_count c') := by
    rw [refuses_ibss, refuses_ibss, hmode, hmode, decide_eq_true hmany]; rfl
  have hsta : refuses_sta hw c channel (cds_get_connection_count c') =
      refuses_sta hw c' channel (cds_get_connection_count c') := by
    rw [refuses_sta, refuses_sta, hmode, hmode, decide_eq_true hmany]; rfl
  have hgo : go_on_same_band c channel = go_on_same_band c' channel :=
    hany .P2P_GO fun x => CDS_IS_SAME_BAND_CHANNELS channel x.chan
  have hvht : cds_vht160_conn_exist c = cds_vht160_conn_exist c' := any_perm htable _
  rw [cds_allow_concurrency, cds_allow_concurrency, hcount, hchannel, hibss, hsta, hvht, hgo]

/-! ## Directly after the call -/

theorem shifted_eq_iff : Slots.shifted copyNext a post = post ↔ ∀ b ∈ post, b.bw = a.bw := by
  induction post generalizing a with
  | nil => exact iff_of_true rfl nofun
  | cons d post ih =>
    rw [Slots.shifted, List.cons.injEq, ih]
    have hcopy : copyNext a d = d ↔ d.bw = a.bw := by
      constructor
      · intro h
        rw [← h]; rfl
      · intro h; rw [copyNext, ← h]
    rw [hcopy]
    constructor
    · rintro ⟨hd, hpost⟩ b hb
      rcases mem_cons.mp hb with rfl | hb
      · exact hd
      · exact (hpost b hb).trans hd
    · intro h
      have hd := h d mem_cons_self
      exact ⟨hd, fun b hb => (h b (mem_cons_of_mem _ hb)).trans hd.symm⟩

theorem eq_of_perm_of_vdevs (h : l.Perm l') (hvdevs : vdevs l = vdevs l') (hnodup : (vdevs l).Nodup) :
    l = l' := by
  apply ext_getElem h.length_eq
  intro i hi hi'
  have hmem : l'[i] ∈ l := h.symm.subset (getElem_mem hi')
  have hvdev : l[i].vdev_id = l'[i].vdev_id := by
    have hget := congrArg (fun v => v[i]?) hvdevs
    simp only [vdevs, getElem?_map, getElem?_eq_getElem hi, getElem?_eq_getElem hi',
      Option.map_some, Option.some.injEq] at hget
    exact hget
  exact inj_on_of_nodup_map hnodup (getElem_mem hi) hmem hvdev

theorem perm_iff (hnodup : (vdevs (pre ++ a :: post)).Nodup) :
    (pre ++ a :: post).Perm (pre ++ Slots.shifted copyNext a post ++ [a]) ↔
      ∀ b ∈ post, b.bw = a.bw := by
  have hlast : (Slots.shifted copyNext a post ++ [a]).Perm (a :: Slots.shifted copyNext a post) :=
    perm_append_singleton a _
  rw [← shifted_eq_iff, append_assoc, perm_append_left_iff]
  constructor
  · intro h
    have hpost := (perm_cons a).mp (h.trans hlast)
    refine (eq_of_perm_of_vdevs hpost vdevs_shifted.symm ?_).symm
    rw [vdevs, map_append, nodup_append] at hnodup; exact (nodup_cons.mp hnodup.2.1).2
  · intro h
    rw [h] at hlast ⊢
    exact hlast.symm

theorem conn_pair_comm (m n : ConMode) : conn_pair m n = conn_pair n m := by
  cases m <;> cases n <;> rfl

theorem conn_pair_eq_none {m n : ConMode} : conn_pair m n = none ↔
    m = n ∨ m = .IBSS ∨ n = .IBSS ∨ m = .MAX_NUM_OF_MODE ∨ n = .MAX_NUM_OF_MODE := by
  cases m <;> cases n <;> decide

theorem conn_kind_swap (a b : ConnInfo) : conn_kind a b = conn_kind b a ↔
    (a.chan ≠ b.chan ∧ a.mac ≠ b.mac) ∨
      (a.chain_mask = CDS_ONE_ONE ↔ b.chain_mask = CDS_ONE_ONE) := by
  have hchains : (a.chain_mask = CDS_ONE_ONE ↔ b.chain_mask = CDS_ONE_ONE) ↔
      (CDS_ONE_ONE = a.chain_mask ↔ CDS_ONE_ONE = b.chain_mask) := by
    rw [eq_comm, eq_comm (a := b.chain_mask)]
  rw [hchains, conn_kind, conn_kind]
  by_cases hchan : a.chan = b.chan
  · rw [if_pos hchan, if_pos hchan.symm, hchan]
    by_cases ha : CDS_ONE_ONE = a.chain_mask <;> by_cases hb : CDS_ONE_ONE = b.chain_mask <;>
      cases CDS_IS_CHANNEL_24GHZ b.chan <;> simp [ha, hb]
  · rw [if_neg hchan, if_neg (Ne.symm hchan)]
    by_cases hmac : a.mac = b.mac
    · by_cases ha : CDS_ONE_ONE = a.chain_mask <;> by_cases hb : CDS_ONE_ONE = b.chain_mask <;>
        cases CDS_IS_CHANNEL_24GHZ a.chan <;> cases CDS_IS_CHANNEL_24GHZ b.chan <;>
          cases CDS_IS_CHANNEL_5GHZ a.chan <;> cases CDS_IS_CHANNEL_5GHZ b.chan <;>
            simp [ha, hb, hmac]
    · rw [if_neg hmac, if_neg (Ne.symm hmac)]; exact iff_of_true rfl (Or.inl ⟨hchan, hmac⟩)

theorem third_swap (a b : ConnInfo) :
    cds_get_third_connection_pcl_table_index (slots [a, b]) =
      cds_get_third_connection_pcl_table_index (slots [b, a]) ↔ EitherOrder a b := by
  have hab : cds_get_third_connection_pcl_table_index (slots [a, b]) =
      match conn_pair a.mode b.mode with
      | some pair => .of pair (conn_kind a b)
      | none => .CDS_MAX_TWO_CONNECTION_MODE := rfl
  have hba : cds_get_third_connection_pcl_table_index (slots [b, a]) =
      match conn_pair b.mode a.mode with
      | some pair => .of pair (conn_kind b a)
      | none => .CDS_MAX_TWO_CONNECTION_MODE := rfl
  have hnone := conn_pair_eq_none (m := a.mode) (n := b.mode)
  rw [hab, hba, conn_pair_comm b.mode a.mode, EitherOrder]
  cases hpair : conn_pair a.mode b.mode with
  | none => rw [hpair] at hnone; exact iff_of_true rfl (by tauto)
  | some pair =>
    rw [hpair] at hnone
    simp only [TwoConnectionMode.of.injEq, true_and, conn_kind_swap]
    tauto

theorem SameAnswers.refl (c : Table) : SameAnswers c c :=
  ⟨Perm.refl _, fun _ _ _ _ => rfl, fun _ => rfl, fun _ => rfl⟩

theorem two_of_count (h : Packed c (pre ++ a :: post)) (hpost : post ≠ [])
    (htwo : cds_get_connection_count c = 2) : ∃ b, pre = [] ∧ post = [b] := by
  have hlen := length_pos_iff.mpr hpost
  rw [h.holds.count, length_append, length_cons] at htwo
  obtain ⟨b, hb⟩ := length_eq_one_iff.mp (by omega : post.length = 1)
  exact ⟨b, length_eq_zero_iff.mp (by omega), hb⟩

theorem same_answers_iff (h : Packed c (pre ++ a :: post))
    (h' : Packed c' (pre ++ Slots.shifted copyNext a post ++ [a])) :
    SameAnswers c c' ↔
      (∀ b ∈ post, b.bw = a.bw) ∧ ∀ b, pre = [] → post = [b] → EitherOrder a b := by
  have hlive : Slots.live c = pre ++ a :: post := by rw [h.table, Slots.live_packed]
  have hlive' : Slots.live c' = pre ++ Slots.shifted copyNext a post ++ [a] := by
    rw [h'.table, Slots.live_packed]
  constructor
  · intro hsame
    have hentries := hsame.entries
    rw [hlive, hlive', perm_iff h.nodup] at hentries
    refine ⟨hentries, ?_⟩
    rintro b rfl rfl
    have hthird := hsame.third (by rw [h.holds.count]; rfl)
    rw [h.table, h'.table, shifted_eq_iff.mpr hentries] at hthird
    exact (third_swap a b).mp hthird
  · rintro ⟨hbw, horder⟩
    have hperm := (perm_iff h.nodup).mpr hbw
    rw [shifted_eq_iff.mpr hbw] at h' hlive' hperm
    by_cases hpost : post = []
    · have hsame : c' = c := by rw [h'.table, h.table, hpost, append_nil]
      rw [hsame]; exact SameAnswers.refl c
    have htable : c.Perm c' := by rw [h.table, h'.table]; exact slots_perm hperm
    refine ⟨by rwa [hlive, hlive'], fun hw mode channel bw => allow_moved h h' hpost channel bw,
      fun htwo => ?_, fun dbs_capable => upgrade_perm htable dbs_capable⟩
    obtain ⟨b, hpre, hb⟩ := two_of_count h hpost htwo
    rw [h.table, h'.table, hpre, hb]; exact (third_swap a b).mpr (horder b hpre hb)

theorem first_unique {pre' post' : List ConnInfo} {a' : ConnInfo}
    (h : pre ++ a :: post = pre' ++ a' :: post') (hpre : ∀ x ∈ pre, x.mode ≠ mode)
    (hpre' : ∀ x ∈ pre', x.mode ≠ mode) (ha : a.mode = mode) (ha' : a'.mode = mode) :
    pre = pre' ∧ a = a' ∧ post = post' := by
  induction pre generalizing pre' with
  | nil =>
    cases pre' with
    | nil => obtain ⟨rfl, rfl⟩ := List.cons.inj h; exact ⟨rfl, rfl, rfl⟩
    | cons x pre' => obtain ⟨rfl, -⟩ := List.cons.inj h; exact absurd ha (hpre' a mem_cons_self)
  | cons x pre ih =>
    cases pre' with
    | nil => obtain ⟨rfl, -⟩ := List.cons.inj h; exact absurd ha' (hpre x mem_cons_self)
    | cons y pre' =>
      obtain ⟨rfl, htail⟩ := List.cons.inj h
      obtain ⟨rfl, rest⟩ := ih htail (fun z hz => hpre z (mem_cons_of_mem _ hz))
        (fun z hz => hpre' z (mem_cons_of_mem _ hz))
      exact ⟨rfl, rest⟩

theorem invisible_iff {R : Table → Table → Prop} (hrefl : R c c) : Invisible R c mode ↔
    R c (cds_get_pcl_for_existing_conn (fun _ => ()) c mode).1 := by
  constructor
  · exact fun h => h.get_pcl
  · intro h
    refine ⟨h, ?_⟩
    rw [set_pcl_eq]
    split
    · exact hrefl
    · exact h

theorem forall_first {P : List ConnInfo → ConnInfo → List ConnInfo → Prop}
    (hpre : ∀ x ∈ pre, x.mode ≠ mode) (ha : a.mode = mode) :
    (∀ pre' a' post', pre ++ a :: post = pre' ++ a' :: post' → (∀ x ∈ pre', x.mode ≠ mode) →
      a'.mode = mode → P pre' a' post') ↔ P pre a post := by
  constructor
  · exact fun h => h pre a post rfl hpre ha
  · intro h pre' a' post' hl hpre' ha'
    obtain ⟨rfl, rfl, rfl⟩ := first_unique hl hpre hpre' ha ha'
    exact h

theorem forall_first_of_none {P : List ConnInfo → ConnInfo → List ConnInfo → Prop}
    (hl : ∀ x ∈ l, x.mode ≠ mode) :
    ∀ pre' a' post', l = pre' ++ a' :: post' → (∀ x ∈ pre', x.mode ≠ mode) →
      a'.mode = mode → P pre' a' post' := by
  rintro pre' a' post' rfl - ha'; exact absurd ha' (hl a' (mem_append_right _ mem_cons_self))

theorem Packed.invisible_now_iff (h : Packed c l) :
    Invisible SameAnswers c mode ↔ CanBeLast l mode := by
  rw [invisible_iff (SameAnswers.refl c)]
  rcases first_of_mode l mode with hnone | ⟨pre, a, post, rfl, hpre, ha⟩
  · rw [get_pcl_none _ h hnone]
    exact iff_of_true (SameAnswers.refl c) (forall_first_of_none hnone)
  · rw [same_answers_iff h (get_pcl_packed _ h hpre ha), CanBeLast]
    exact (@forall_first pre post a mode (fun pre a post => (∀ b ∈ post, b.bw = a.bw) ∧
      ∀ b, pre = [] → post = [b] → EitherOrder a b) hpre ha).symm

/-! ## In the rest of the run -/

theorem SameFrom.refl (limit : Nat) (c : Table) : SameFrom limit c c := by
  intro es t t' ht ht'
  rw [ht] at ht'
  rw [Option.some.inj ht']; exact SameAnswers.refl t'

theorem SameFrom.run {es : List Event} {t t' : Table} (h : SameFrom limit c c')
    (ht : Lib.run (step limit) c es = some t) (ht' : Lib.run (step limit) c' es = some t') :
    SameFrom limit t t' := by
  intro fs u u' hu hu'; exact h (es ++ fs) u u' (run_append ht hu) (run_append ht' hu')

def nodeOf (type chain_mask : Nat) : CdsConc.WmaTxrxNode :=
  ⟨type, 0, 2412, .CH_WIDTH_20MHZ, 0, chain_mask, 1, 1, 1⟩

def updated (type chain_mask vdev_id : Nat) : Event :=
  .table ⟨.updateConnectionInfo vdev_id, ⟨256, fun _ => nodeOf type chain_mask⟩⟩

def removed (vdev_id : Nat) : Event := .table ⟨.decrConnectionCount vdev_id, ⟨0, fun _ => nodeOf 0 0⟩⟩

theorem exists_updated {type chain_mask : Nat} (h : Packed c (pre ++ a :: post)) :
    ∃ t, step limit c (updated type chain_mask a.vdev_id) = some t ∧
      Packed t (pre ++ connInfo (nodeOf type chain_mask) a.vdev_id :: post) := by
  have hroom := h.room
  have hlen := hroom
  rw [length_append, length_cons] at hlen
  have hnode : wma_get_interface_by_vdev_id ⟨256, fun _ => nodeOf type chain_mask⟩ a.vdev_id =
      some (nodeOf type chain_mask) :=
    if_neg (Nat.not_le.mpr (Nat.mod_lt _ (Nat.succ_pos 255)))
  refine ⟨_, rfl, ?_⟩
  change Packed (cds_update_connection_info _ c a.vdev_id).1 _
  rw [cds_update_connection_info, h.find]
  rw [hnode]
  dsimp only
  rw [cds_update_conc_list, if_neg (by omega), h.table,
    Slots.fill_packed_set (by rw [length_append, length_cons]; omega),
    set_append_right _ _ (Nat.le_refl _), Nat.sub_self, set_cons_zero]
  exact Packed.of_holds (@Holds.replace c _ pre post a (connInfo _ a.vdev_id) h.holds rfl)

theorem exists_removed (h : Packed c (pre ++ a :: post)) :
    ∃ t, step limit c (removed a.vdev_id) = some t ∧
      Packed t (pre ++ Slots.shifted copyNext a post) :=
  ⟨_, rfl, h.decr⟩

/-- Two entries in different orders are told apart once they are a STA with one chain and a SAP with
two on one channel. -/
theorem not_same_of_two {p p' q q' : ConnInfo} (h : Packed c [p, q]) (h' : Packed c' [q', p'])
    (hp : p'.vdev_id = p.vdev_id) (hq : q'.vdev_id = q.vdev_id) : ¬ SameFrom limit c c' := by
  intro hsame
  obtain ⟨t, ht, hpacked⟩ :=
    @exists_updated c [] [q] p limit CdsConc.WMI_VDEV_TYPE_STA 0 h
  obtain ⟨u, hu, hupacked⟩ :=
    @exists_updated t [connInfo _ p.vdev_id] [] q limit CdsConc.WMI_VDEV_TYPE_AP 1 hpacked
  obtain ⟨t', ht', hpacked'⟩ :=
    @exists_updated c' [q'] [] p' limit CdsConc.WMI_VDEV_TYPE_STA 0 h'
  obtain ⟨u', hu', hupacked'⟩ :=
    @exists_updated t' [] [connInfo _ p'.vdev_id] q' limit CdsConc.WMI_VDEV_TYPE_AP 1 hpacked'
  rw [hp] at ht'
  rw [hq] at hu'
  have hanswers := hsame [updated CdsConc.WMI_VDEV_TYPE_STA 0 p.vdev_id,
    updated CdsConc.WMI_VDEV_TYPE_AP 1 q.vdev_id] u u'
    (run_cons_eq_some.mpr ⟨t, ht, run_cons_eq_some.mpr ⟨u, hu, rfl⟩⟩)
    (run_cons_eq_some.mpr ⟨t', ht', run_cons_eq_some.mpr ⟨u', hu', rfl⟩⟩)
  have hthird := hanswers.third (by rw [hupacked.holds.count]; rfl)
  rw [hupacked.table, hupacked'.table] at hthird
  have hone : cds_get_third_connection_pcl_table_index
      (slots [connInfo (nodeOf CdsConc.WMI_VDEV_TYPE_STA 0) p.vdev_id,
        connInfo (nodeOf CdsConc.WMI_VDEV_TYPE_AP 1) q.vdev_id]) = .of .STA_SAP .SCC_24_1x1 := rfl
  have htwo : cds_get_third_connection_pcl_table_index
      (slots [connInfo (nodeOf CdsConc.WMI_VDEV_TYPE_AP 1) q'.vdev_id,
        connInfo (nodeOf CdsConc.WMI_VDEV_TYPE_STA 0) p'.vdev_id]) = .of .STA_SAP .SCC_24_2x2 := rfl
  have hkinds := hone.symm.trans (hthird.trans htwo)
  cases hkinds

theorem not_same_of_moved (h : Packed c (pre ++ a :: post))
    (h' : Packed c' (pre ++ Slots.shifted copyNext a post ++ [a])) (hpost : post ≠ []) :
    ¬ SameFrom limit c c' := by
  have hroom := h.room
  rw [length_append, length_cons, MAX_NUMBER_OF_CONC_CONNECTIONS] at hroom
  cases pre with
  | nil =>
    rcases post with - | ⟨b, - | ⟨x, - | ⟨y, post⟩⟩⟩
    · exact absurd rfl hpost
    · exact not_same_of_two h h' rfl rfl
    · intro hsame
      obtain ⟨t, ht, hpacked⟩ := @exists_removed c [a, b] [] x limit h
      obtain ⟨t', ht', hpacked'⟩ :=
        @exists_removed c' [copyNext a b] [a] (copyNext b x) limit h'
      exact not_same_of_two hpacked hpacked' rfl rfl
        (@SameFrom.run c c' limit [removed x.vdev_id] t t' hsame
          (run_cons_eq_some.mpr ⟨t, ht, rfl⟩) (run_cons_eq_some.mpr ⟨t', ht', rfl⟩))
    · simp only [length_nil, length_cons] at hroom; omega
  | cons x pre =>
    rcases pre with - | ⟨y, pre⟩ <;> rcases post with - | ⟨b, - | ⟨z, post⟩⟩
    case nil.cons.nil =>
      intro hsame
      obtain ⟨t, ht, hpacked⟩ := @exists_removed c [] [a, b] x limit h
      obtain ⟨t', ht', hpacked'⟩ := @exists_removed c' [] [copyNext a b, a] x limit h'
      exact not_same_of_two hpacked hpacked' rfl rfl
        (@SameFrom.run c c' limit [removed x.vdev_id] t t' hsame
          (run_cons_eq_some.mpr ⟨t, ht, rfl⟩) (run_cons_eq_some.mpr ⟨t', ht', rfl⟩))
    all_goals
      first
      | exact absurd rfl hpost
      | simp only [length_cons] at hroom
        omega

theorem Packed.invisible_iff (h : Packed c l) :
    Invisible (SameFrom limit) c mode ↔ NothingAfter l mode := by
  rw [CdsTempRemove.invisible_iff (SameFrom.refl limit c)]
  rcases first_of_mode l mode with hnone | ⟨pre, a, post, rfl, hpre, ha⟩
  · rw [get_pcl_none _ h hnone]
    exact iff_of_true (SameFrom.refl limit c) (forall_first_of_none hnone)
  · have hmoved := get_pcl_packed (fun _ => ()) h hpre ha
    rw [NothingAfter, forall_first (P := fun _ _ post => post = []) hpre ha]
    constructor
    · intro hsame
      by_contra hpost
      exact not_same_of_moved h hmoved hpost hsame
    · rintro rfl
      have hsame : (cds_get_pcl_for_existing_conn (fun _ => ()) c mode).1 = c := by
        rw [hmoved.table, h.table, Slots.shifted, append_nil]
      rw [hsame]; exact SameFrom.refl limit c

/-- **The temporary removal.** In every table that the driver can have, asking for the preferred
channels of a mode is never noticed exactly if the first entry of the mode, if there is one, is the
last one of all; and it is not noticed by what is asked next exactly if the entries behind it have
its bandwidth and, where there are two, the row for a third connection is the same in either order. -/
theorem temporary_removal_iff (r : Reachable limit) (mode : ConMode) :
    (Invisible (SameFrom limit) r.table mode ↔ NothingAfter (Slots.live r.table) mode) ∧
      (Invisible SameAnswers r.table mode ↔ CanBeLast (Slots.live r.table) mode) := by
  obtain ⟨l, hl⟩ := r.packed
  have hlive : Slots.live r.table = l := by rw [hl.table, Slots.live_packed]
  rw [hlive]; exact ⟨hl.invisible_iff, hl.invisible_now_iff⟩

def staThenSap : Reachable 3 where
  table := slots [⟨.STA, 36, .BW_80_MHZ, 0, 2, 2, 2, 2, 0⟩, ⟨.SAP, 6, .BW_20_MHZ, 0, 2, 2, 2, 2, 1⟩]
  reached := ⟨
    [.table ⟨.incrConnectionCount 0, ⟨4, fun _ =>
        ⟨CdsConc.WMI_VDEV_TYPE_STA, 0, 5180, .CH_WIDTH_80MHZ, 0, 2, 2, 2, 2⟩⟩⟩,
      .table ⟨.incrConnectionCount 1, ⟨4, fun _ =>
        ⟨CdsConc.WMI_VDEV_TYPE_AP, 0, 2437, .CH_WIDTH_20MHZ, 0, 2, 2, 2, 2⟩⟩⟩], rfl⟩

/-- The SAP has 80 MHz afterwards. -/
theorem sap_gets_80mhz : ¬ Invisible SameAnswers staThenSap.table .STA ∧
    ¬ Invisible (SameFrom 3) staThenSap.table .STA := by
  have hnow : ¬ Invisible SameAnswers staThenSap.table .STA := by
    intro h
    have hentries := h.get_pcl.entries
    revert hentries
    decide +kernel
  refine ⟨hnow, fun h => hnow ⟨?_, ?_⟩⟩
  · exact h.get_pcl [] _ _ rfl rfl
  · exact h.set_pcl [] _ _ rfl rfl

end Qcacld.CdsTempRemove
