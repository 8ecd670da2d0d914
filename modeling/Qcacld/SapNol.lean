/-
The non-occupancy list of a SoftAP: `sap_fsm.c`.

The handles are not null and the clock is monotonic, of less than 2^64 microseconds. The list is
given by all entries from its start on, also those behind it, which are other memory.
-/
import Mathlib.Algebra.Order.Ring.Int
import Qcacld.Lib.Run
import Qcacld.Lib.Quarantine

set_option autoImplicit false

namespace Qcacld.SapNol

open Lib Function

def SAP_DFS_NON_OCCUPANCY_PERIOD : Nat := 30 * 60 * 1000 * 1000
def NUM_5GHZ_CHANNELS : Nat := 40
def MAX_BONDED_CHANNELS : Nat := 8
def UINT_MAX : Nat := 2 ^ 32 - 1

inductive SapDfsChanStatus
  | USABLE
  | AVAILABLE
  | UNAVAILABLE
  deriving DecidableEq

structure SapDfsNolInfo where
  dfs_channel_number : UInt8
  radar_status_flag : SapDfsChanStatus
  radar_found_timestamp : Nat

/-- The list, of which the first `numCurrentRegDomainDfsChannels` entries are in use, and the time. -/
structure SapDfsInfo where
  numCurrentRegDomainDfsChannels : Nat
  sapDfsChannelNolList : Nat → SapDfsNolInfo
  boottime : Nat

inductive PhyChanBondState
  | SINGLE_CHANNEL_CENTERED
  | DOUBLE_CHANNEL_LOW_PRIMARY
  | DOUBLE_CHANNEL_HIGH_PRIMARY
  | QUADRUPLE_CHANNEL_20MHZ_LOW_40MHZ_CENTERED
  | QUADRUPLE_CHANNEL_20MHZ_CENTERED_40MHZ_CENTERED
  | QUADRUPLE_CHANNEL_20MHZ_HIGH_40MHZ_CENTERED
  | QUADRUPLE_CHANNEL_20MHZ_LOW_40MHZ_LOW
  | QUADRUPLE_CHANNEL_20MHZ_HIGH_40MHZ_LOW
  | QUADRUPLE_CHANNEL_20MHZ_LOW_40MHZ_HIGH
  | QUADRUPLE_CHANNEL_20MHZ_HIGH_40MHZ_HIGH
  | CHANNEL_BONDING_STATE_MAX

/-! ## Marking -/

def markEntry (channel : UInt8) (time : Nat) (nol : Nat → SapDfsNolInfo) (j : Nat) :
    Nat → SapDfsNolInfo :=
  if (nol j).dfs_channel_number ≠ channel then nol
  -- a channel that is in the list already is not updated
  else if (nol j).radar_status_flag = .UNAVAILABLE then nol
  else
    update nol j { nol j with radar_found_timestamp := time, radar_status_flag := .UNAVAILABLE }

/-- The inner loop has one step more than there are entries. -/
def sap_mark_dfs_channels (n : Nat) (channels : List UInt8) (time : Nat)
    (nol : Nat → SapDfsNolInfo) : Nat → SapDfsNolInfo :=
  channels.foldl (fun nol channel => (List.range (n + 1)).foldl (markEntry channel time) nol) nol

/-! ## Asking -/

def sap_get_bonding_channels (channel : UInt8) (size : Nat) (chanBondState : PhyChanBondState) :
    List UInt8 :=
  if size < MAX_BONDED_CHANNELS then []
  else match chanBondState with
    | .SINGLE_CHANNEL_CENTERED => [channel]
    | .DOUBLE_CHANNEL_HIGH_PRIMARY => [channel - 4, channel]
    | .DOUBLE_CHANNEL_LOW_PRIMARY => [channel, channel + 4]
    | .QUADRUPLE_CHANNEL_20MHZ_LOW_40MHZ_LOW => [channel, channel + 4, channel + 8, channel + 12]
    | .QUADRUPLE_CHANNEL_20MHZ_HIGH_40MHZ_LOW => [channel - 4, channel, channel + 4, channel + 8]
    | .QUADRUPLE_CHANNEL_20MHZ_LOW_40MHZ_HIGH => [channel - 8, channel - 4, channel, channel + 4]
    | .QUADRUPLE_CHANNEL_20MHZ_HIGH_40MHZ_HIGH =>
      [channel - 12, channel - 8, channel - 4, channel]
    | _ => [channel]

/-- Whether the channel is available, and the entry then. -/
def sap_dfs_check_if_channel_avaialable (current_time : Nat) (nol : SapDfsNolInfo) :
    Bool × SapDfsNolInfo :=
  match nol.radar_status_flag with
  | .USABLE | .AVAILABLE => (true, nol)
  | .UNAVAILABLE =>
    let time_when_radar_found := nol.radar_found_timestamp
    let time_since_last_radar :=
      if current_time < time_when_radar_found then
        -- the clock is taken for one of 32 bits that has wrapped
        (UINT_MAX * 1000 + 2 ^ 64 - time_when_radar_found + current_time) % 2 ^ 64
      else current_time - time_when_radar_found
    if time_since_last_radar ≥ SAP_DFS_NON_OCCUPANCY_PERIOD then
      (true, { nol with radar_status_flag := .AVAILABLE, radar_found_timestamp := 0 })
    else (false, nol)

/-- The inner loop: the first of the entries `is` that is for this channel and not available. -/
def scanEntries (current_time : Nat) (channel : UInt8) :
    List Nat → (Nat → SapDfsNolInfo) → (Nat → SapDfsNolInfo) × Option Nat
  | [], nol => (nol, none)
  | i :: is, nol =>
    if (nol i).dfs_channel_number ≠ channel then scanEntries current_time channel is nol
    else
      match sap_dfs_check_if_channel_avaialable current_time (nol i) with
      | (true, e) => scanEntries current_time channel is (update nol i e)
      | (false, _) => (nol, some i)

def scanChannels (current_time n : Nat) :
    List UInt8 → (Nat → SapDfsNolInfo) → (Nat → SapDfsNolInfo) × Option Nat
  | [], nol => (nol, none)
  | channel :: channels, nol =>
    match scanEntries current_time channel (List.range n) nol with
    | (nol', none) => scanChannels current_time n channels nol'
    | (nol', some i) => (nol', some i)

def sap_dfs_is_channel_in_nol_list (channel_number : UInt8) (chan_bondState : PhyChanBondState)
    (s : SapDfsInfo) : SapDfsInfo × Bool :=
  let n := s.numCurrentRegDomainDfsChannels
  if n = 0 ∨ n > NUM_5GHZ_CHANNELS then (s, false)
  else
    let channels := sap_get_bonding_channels channel_number MAX_BONDED_CHANNELS chan_bondState
    match scanChannels s.boottime n channels s.sapDfsChannelNolList with
    | (nol, none) => ({ s with sapDfsChannelNolList := nol }, false)
    | (nol, some i) =>
      ({ s with
          sapDfsChannelNolList :=
            sap_mark_dfs_channels n channels (nol i).radar_found_timestamp nol }, true)

/-! ## Runs -/

inductive Op
  /-- A radar is found on these channels. -/
  | mark (channels : List UInt8)
  | query (channel_number : UInt8) (chan_bondState : PhyChanBondState)
  | tick (d : Nat)

def step (s : SapDfsInfo) : Op → Option SapDfsInfo
  | .mark channels =>
    some
      { s with
        sapDfsChannelNolList := sap_mark_dfs_channels s.numCurrentRegDomainDfsChannels channels
          s.boottime s.sapDfsChannelNolList }
  | .query channel_number chan_bondState =>
    some (sap_dfs_is_channel_in_nol_list channel_number chan_bondState s).1
  | .tick d => if s.boottime + d < 2 ^ 64 then some { s with boottime := s.boottime + d } else none

open Lib.Quarantine List

/-! The list stands for a map from channels to the times since when they are not to be used, as in
`Lib.Quarantine`. -/

/-- Since when the channel of an entry is not to be used. -/
def SapDfsNolInfo.since (e : SapDfsNolInfo) : Option Nat :=
  if e.radar_status_flag = .UNAVAILABLE then some e.radar_found_timestamp else none

theorem SapDfsNolInfo.since_eq_none {e : SapDfsNolInfo} :
    e.since = none ↔ e.radar_status_flag ≠ .UNAVAILABLE := by
  rw [since]
  split
  next h => exact iff_of_false (nofun) fun hne => hne h
  next h => exact iff_of_true rfl h

/-! ## Marking -/

def markOne (time : Nat) (e : SapDfsNolInfo) (channel : UInt8) : SapDfsNolInfo :=
  if e.dfs_channel_number ≠ channel then e
  else if e.radar_status_flag = .UNAVAILABLE then e
  else { e with radar_found_timestamp := time, radar_status_flag := .UNAVAILABLE }

variable {n time : Nat} {nol : Nat → SapDfsNolInfo} {channel : UInt8} {channels : List UInt8}

theorem markEntry_eq (channel : UInt8) (time : Nat) (nol : Nat → SapDfsNolInfo) (j : Nat) :
    markEntry channel time nol j = update nol j (markOne time (nol j) channel) := by
  rw [markEntry, markOne]
  split
  · rw [update_eq_self]
  split
  · rw [update_eq_self]
  · rfl

theorem foldl_markEntry (k j : Nat) :
    (range k).foldl (markEntry channel time) nol j =
      if j < k then markOne time (nol j) channel else nol j := by
  induction k with
  | zero => rfl
  | succ k ih =>
    rw [range_succ, foldl_append, foldl_cons, foldl_nil, markEntry_eq]
    by_cases hjk : j = k
    · subst hjk
      rw [update_self, if_pos (Nat.lt_succ_self j)]
      congr 1
      -- no step before this one has come to `j`
      have hsame : ∀ m ≤ j, (range m).foldl (markEntry channel time) nol j = nol j := by
        intro m
        induction m with
        | zero => exact fun _ => rfl
        | succ m ih' =>
          intro hm
          rw [range_succ, foldl_append, foldl_cons, foldl_nil,
            markEntry_eq, update_of_ne (by omega), ih' (by omega)]
      exact hsame j (Nat.le_refl j)
    · rw [update_of_ne hjk, ih]
      by_cases hlt : j < k
      · rw [if_pos hlt, if_pos (Nat.lt_succ_of_lt hlt)]
      · rw [if_neg hlt, if_neg (by omega)]

theorem sap_mark_dfs_channels_eq (channels : List UInt8) (nol : Nat → SapDfsNolInfo) (j : Nat) :
    sap_mark_dfs_channels n channels time nol j =
      if j < n + 1 then channels.foldl (markOne time) (nol j) else nol j := by
  rw [sap_mark_dfs_channels]
  induction channels generalizing nol with
  | nil => exact (ite_self _).symm
  | cons c cs ih =>
    rw [foldl_cons, ih, foldl_markEntry]
    by_cases hlt : j < n + 1
    · rw [if_pos hlt, if_pos hlt, if_pos hlt, foldl_cons]
    · rw [if_neg hlt, if_neg hlt, if_neg hlt]

theorem markOne_number (e : SapDfsNolInfo) (channel : UInt8) :
    (markOne time e channel).dfs_channel_number = e.dfs_channel_number := by
  rw [markOne]
  split
  · rfl
  split <;> rfl

theorem foldl_markOne_number (channels : List UInt8) (e : SapDfsNolInfo) :
    (channels.foldl (markOne time) e).dfs_channel_number = e.dfs_channel_number := by
  induction channels generalizing e with
  | nil => rfl
  | cons c cs ih => rw [foldl_cons, ih, markOne_number]

theorem markOne_since (e : SapDfsNolInfo) (channel : UInt8) :
    (markOne time e channel).since =
      if e.since = none ∧ e.dfs_channel_number = channel then some time else e.since := by
  rw [markOne]
  by_cases hnum : e.dfs_channel_number = channel
  · rw [if_neg (not_not.mpr hnum)]
    by_cases hflag : e.radar_status_flag = .UNAVAILABLE
    · rw [if_pos hflag, if_neg fun hboth => SapDfsNolInfo.since_eq_none.mp hboth.1 hflag]
    · rw [if_neg hflag, if_pos ⟨SapDfsNolInfo.since_eq_none.mpr hflag, hnum⟩]; rfl
  · rw [if_pos hnum, if_neg fun hboth => hnum hboth.2]

theorem foldl_markOne_since (channels : List UInt8) (e : SapDfsNolInfo) :
    (channels.foldl (markOne time) e).since =
      if e.since = none ∧ e.dfs_channel_number ∈ channels then some time else e.since := by
  induction channels generalizing e with
  | nil => exact (if_neg fun hboth => nomatch hboth.2).symm
  | cons c cs ih =>
    rw [foldl_cons, ih, markOne_number, markOne_since]
    simp only [mem_cons]
    by_cases hnone : e.since = none
    · by_cases hc : e.dfs_channel_number = c
      · simp only [hnone, hc, and_self, true_or, if_true, reduceCtorEq, false_and, if_false]
      · simp only [hnone, hc, and_false, false_or, if_false]
    · simp only [hnone, false_and, if_false]

/-! ## The map of a list -/

/-- The entries have the channels `num`, and the first `n` of them stand for the map `m`. -/
structure Rep (num : Nat → UInt8) (n : Nat) (nol : Nat → SapDfsNolInfo) (m : UInt8 → Option Nat) :
    Prop where
  number : ∀ j, (nol j).dfs_channel_number = num j
  entry : ∀ i < n, m (num i) = (nol i).since
  other : ∀ c, (¬∃ i < n, num i = c) → m c = none

abbrev Dfs (num : Nat → UInt8) (n : Nat) (c : UInt8) : Prop := ∃ i < n, num i = c

variable {num : Nat → UInt8} {m : UInt8 → Option Nat} {now : Nat}

theorem Rep.mark (h : Rep num n nol m) (channels : List UInt8) (time : Nat) :
    Rep num n (sap_mark_dfs_channels n channels time nol) (put (Dfs num n) channels time m) where
  number := by
    intro j
    rw [sap_mark_dfs_channels_eq]
    split
    · rw [foldl_markOne_number, h.number]
    · exact h.number j
  entry := by
    intro i hi
    rw [sap_mark_dfs_channels_eq, if_pos (by omega), foldl_markOne_since, put, h.entry i hi,
      h.number i]
    have hdfs : Dfs num n (num i) := ⟨i, hi, rfl⟩
    by_cases hmem : num i ∈ channels
    · simp only [hmem, hdfs, and_true]
    · simp only [hmem, false_and, and_false]
  other := by
    intro c hc
    have hput : put (Dfs num n) channels time m c = m c := put_of_not hc
    rw [hput, h.other c hc]

/-! ## Asking -/

theorem scanEntries_skip {is : List Nat} (h : ∀ i ∈ is, (nol i).dfs_channel_number ≠ channel)
    (rest : List Nat) :
    scanEntries now channel (is ++ rest) nol = scanEntries now channel rest nol := by
  induction is with
  | nil => rfl
  | cons i is ih =>
    rw [cons_append, scanEntries, if_pos (h i mem_cons_self)]
    exact ih fun j hj => h j (mem_cons_of_mem i hj)

theorem check_available {e : SapDfsNolInfo} (hpast : ∀ t, e.since = some t → t ≤ now)
    (hover : ∀ t, e.since = some t → ¬now < t + SAP_DFS_NON_OCCUPANCY_PERIOD) :
    ∃ e', sap_dfs_check_if_channel_avaialable now e = (true, e') ∧ e'.since = none ∧
      e'.dfs_channel_number = e.dfs_channel_number := by
  rw [sap_dfs_check_if_channel_avaialable]
  have hsince : e.radar_status_flag = .UNAVAILABLE → e.since = some e.radar_found_timestamp :=
    fun hflag => if_pos hflag
  split
  next hflag =>
    exact ⟨e, rfl, SapDfsNolInfo.since_eq_none.mpr (by rw [hflag]; decide), rfl⟩
  next hflag =>
    exact ⟨e, rfl, SapDfsNolInfo.since_eq_none.mpr (by rw [hflag]; decide), rfl⟩
  next hflag =>
    have hle := hpast _ (hsince hflag)
    have hlt := hover _ (hsince hflag)
    dsimp only
    rw [if_neg (Nat.not_lt.mpr hle), if_pos (by omega)]; exact ⟨_, rfl, rfl, rfl⟩

theorem check_unavailable {e : SapDfsNolInfo} {t : Nat} (hsince : e.since = some t) (hpast : t ≤ now)
    (hlt : now < t + SAP_DFS_NON_OCCUPANCY_PERIOD) :
    sap_dfs_check_if_channel_avaialable now e = (false, e) := by
  have hflag : e.radar_status_flag = .UNAVAILABLE := by
    by_contra hne
    rw [SapDfsNolInfo.since_eq_none.mpr hne] at hsince; exact nomatch hsince
  rw [SapDfsNolInfo.since, if_pos hflag, Option.some.injEq] at hsince
  rw [sap_dfs_check_if_channel_avaialable, hflag]
  dsimp only
  rw [hsince, if_neg (Nat.not_lt.mpr hpast), if_neg (by omega)]

/-- The channels of the entries in use are different. -/
def Distinct (num : Nat → UInt8) (n : Nat) : Prop := ∀ i < n, ∀ j < n, num i = num j → i = j

theorem range_split {i : Nat} (hi : i < n) :
    ∃ pre post, range n = pre ++ i :: post ∧ (∀ j ∈ pre, j < n ∧ j ≠ i) ∧
      ∀ j ∈ post, j < n ∧ j ≠ i := by
  obtain ⟨pre, post, heq⟩ := append_of_mem (mem_range.mpr hi)
  have hnodup := @nodup_range n
  rw [heq] at hnodup
  have hlt : ∀ j ∈ pre ++ i :: post, j < n := fun j hj => mem_range.mp (heq ▸ hj)
  obtain ⟨-, hpost, hdisj⟩ := nodup_append.mp hnodup
  refine ⟨pre, post, heq, ?_, ?_⟩
  · intro j hj; exact ⟨hlt j (mem_append_left _ hj), hdisj j hj i mem_cons_self⟩
  · intro j hj
    refine ⟨hlt j (mem_append_right _ (mem_cons_of_mem i hj)), ?_⟩
    rintro rfl; exact (nodup_cons.mp hpost).1 hj

instance (num : Nat → UInt8) (n : Nat) : Decidable (Distinct num n) :=
  inferInstanceAs (Decidable (∀ i < n, ∀ j < n, num i = num j → i = j))

def Past (now : Nat) (m : UInt8 → Option Nat) : Prop := ∀ c t, m c = some t → t ≤ now

theorem Rep.scan (h : Rep num n nol m) (hdist : Distinct num n) (hpast : Past now m)
    (channel : UInt8) :
    (∃ i, i < n ∧ num i = channel ∧ scanEntries now channel (range n) nol = (nol, some i) ∧
        ∃ t, m channel = some t ∧ now < t + SAP_DFS_NON_OCCUPANCY_PERIOD) ∨
      (∃ nol', scanEntries now channel (range n) nol = (nol', none) ∧
        Rep num n nol' (update m channel none) ∧
        ∀ t, m channel = some t → ¬now < t + SAP_DFS_NON_OCCUPANCY_PERIOD) := by
  by_cases hdfs : Dfs num n channel
  · obtain ⟨i, hi, rfl⟩ := hdfs
    obtain ⟨pre, post, hrange, hpre, hpost⟩ := range_split hi
    have hskip : ∀ j, j < n ∧ j ≠ i → num j ≠ num i := fun j hj heq => hj.2 (hdist j hj.1 i hi heq)
    have hskip' : ∀ j ∈ pre, (nol j).dfs_channel_number ≠ num i := by
      intro j hj
      rw [h.number]; exact hskip j (hpre j hj)
    have hentry := h.entry i hi
    rw [hrange, scanEntries_skip hskip', scanEntries, if_neg (not_not.mpr (h.number i))]
    by_cases hheld : ∃ t, m (num i) = some t ∧ now < t + SAP_DFS_NON_OCCUPANCY_PERIOD
    · obtain ⟨t, ht, hlt⟩ := hheld
      rw [check_unavailable (hentry.symm.trans ht) (hpast _ t ht) hlt]
      exact .inl ⟨i, hi, rfl, rfl, t, ht, hlt⟩
    · have hover : ∀ t, m (num i) = some t → ¬now < t + SAP_DFS_NON_OCCUPANCY_PERIOD :=
        fun t ht hlt => hheld ⟨t, ht, hlt⟩
      rw [hentry] at hover
      obtain ⟨e', hcheck, hsince, hnumber⟩ := check_available
        (fun t ht => hpast _ t (hentry.trans ht)) hover
      rw [hcheck]
      dsimp only
      have hnumbers : ∀ j, (update nol i e' j).dfs_channel_number = num j := by
        intro j
        by_cases hji : j = i
        · subst hji; rw [update_self, hnumber, h.number]
        · rw [update_of_ne hji, h.number]
      have hskip'' : ∀ j ∈ post, (update nol i e' j).dfs_channel_number ≠ num i := by
        intro j hj
        rw [hnumbers]; exact hskip j (hpost j hj)
      rw [← append_nil post, scanEntries_skip hskip'', scanEntries]
      refine .inr ⟨_, rfl, ⟨hnumbers, ?_, ?_⟩, hentry ▸ hover⟩
      · intro j hj
        by_cases hji : j = i
        · subst hji; rw [update_self, update_self, hsince]
        · rw [update_of_ne (hskip j ⟨hj, hji⟩), update_of_ne hji, h.entry j hj]
      · intro c hc
        have hne : c ≠ num i := fun heq => hc ⟨i, hi, heq.symm⟩
        rw [update_of_ne hne, h.other c hc]
  · have hskip : ∀ i ∈ range n, (nol i).dfs_channel_number ≠ channel := by
      intro i hi heq; exact hdfs ⟨i, mem_range.mp hi, (h.number i).symm.trans heq⟩
    have hnone := h.other channel hdfs
    rw [← append_nil (range n), scanEntries_skip hskip, scanEntries]
    refine .inr ⟨nol, rfl, ?_, fun t ht => nomatch hnone.symm.trans ht⟩
    rwa [← hnone, update_eq_self]

theorem Past.free (h : Past now m) (c : UInt8) : Past now (update m c none) := by
  intro d t ht
  by_cases hdc : d = c
  · subst hdc
    rw [update_self] at ht; exact nomatch ht
  · rw [update_of_ne hdc] at ht; exact h d t ht

theorem Rep.look (h : Rep num n nol m) (hdist : Distinct num n) (hpast : Past now m)
    (channels : List UInt8) :
    ∃ nol' r, scanChannels now n channels nol = (nol', r) ∧
      Rep num n nol' (Quarantine.look SAP_DFS_NON_OCCUPANCY_PERIOD now channels m).1 ∧
      (Quarantine.look SAP_DFS_NON_OCCUPANCY_PERIOD now channels m).2 =
        r.map fun i => (nol' i).radar_found_timestamp := by
  induction channels generalizing nol m with
  | nil => exact ⟨nol, none, rfl, h, rfl⟩
  | cons c cs ih =>
    rw [scanChannels, Quarantine.look]
    rcases h.scan hdist hpast c with ⟨i, hi, rfl, hscan, t, ht, hlt⟩ | ⟨nol', hscan, hrep, hover⟩
    · rw [hscan, ht]
      dsimp only
      rw [if_pos hlt]
      refine ⟨nol, some i, rfl, h, ?_⟩
      have hsince := (h.entry i hi).symm.trans ht
      rw [SapDfsNolInfo.since] at hsince
      split at hsince
      · exact hsince.symm
      · cases hsince
    · rw [hscan]
      obtain ⟨nol'', r, hscan', hrep', hr⟩ := ih hrep (hpast.free c)
      rcases hc : m c with - | t
      · rw [← hc, update_eq_self] at hrep' hr; exact ⟨nol'', r, hscan', hrep', hr⟩
      · dsimp only
        rw [if_neg (hover t hc)]; exact ⟨nol'', r, hscan', hrep', hr⟩

/-! ## Steps and runs -/

def bonded (channel : UInt8) (state : PhyChanBondState) : List UInt8 :=
  sap_get_bonding_channels channel MAX_BONDED_CHANNELS state

/-- Since when channels are not to be used, and the time. -/
structure Spec where
  since : UInt8 → Option Nat
  now : Nat

def Spec.step (D : UInt8 → Prop) [DecidablePred D] (S : Spec) : Op → Spec
  | .mark channels => { S with since := put D channels S.now S.since }
  | .query c state =>
    { S with since := (ask SAP_DFS_NON_OCCUPANCY_PERIOD S.now D (bonded c state) S.since).1 }
  | .tick d => { S with now := S.now + d }

/-- The channels of the domain are different, at least one and not more than there are, and no time
is later than now. -/
structure SapDfsInfo.Valid (s : SapDfsInfo) : Prop where
  pos : 0 < s.numCurrentRegDomainDfsChannels
  le : s.numCurrentRegDomainDfsChannels ≤ NUM_5GHZ_CHANNELS
  distinct : Distinct (fun j => (s.sapDfsChannelNolList j).dfs_channel_number)
    s.numCurrentRegDomainDfsChannels
  past : ∀ i < s.numCurrentRegDomainDfsChannels, ∀ t,
    (s.sapDfsChannelNolList i).since = some t → t ≤ s.boottime

def SapDfsInfo.since (s : SapDfsInfo) (c : UInt8) : Option Nat :=
  ((range s.numCurrentRegDomainDfsChannels).find? fun i =>
    (s.sapDfsChannelNolList i).dfs_channel_number = c).bind fun i =>
      (s.sapDfsChannelNolList i).since

structure Sim (num : Nat → UInt8) (n : Nat) (s : SapDfsInfo) (S : Spec) : Prop where
  count : s.numCurrentRegDomainDfsChannels = n
  rep : Rep num n s.sapDfsChannelNolList S.since
  now : s.boottime = S.now
  past : Past S.now S.since

theorem SapDfsInfo.Valid.sim {s : SapDfsInfo} (h : s.Valid) :
    Sim (fun j => (s.sapDfsChannelNolList j).dfs_channel_number) s.numCurrentRegDomainDfsChannels s
      ⟨s.since, s.boottime⟩ := by
  have hentry : ∀ i < s.numCurrentRegDomainDfsChannels,
      s.since (s.sapDfsChannelNolList i).dfs_channel_number = (s.sapDfsChannelNolList i).since := by
    intro i hi
    rw [SapDfsInfo.since]
    rcases hfind : (range s.numCurrentRegDomainDfsChannels).find? (fun j =>
        (s.sapDfsChannelNolList j).dfs_channel_number =
          (s.sapDfsChannelNolList i).dfs_channel_number) with - | j
    · have hnone := find?_eq_none.mp hfind i (mem_range.mpr hi)
      exact absurd (decide_eq_true rfl) hnone
    · have hdec := find?_some hfind
      have heq := of_decide_eq_true hdec
      have hj := mem_range.mp (mem_of_find?_eq_some hfind)
      rw [h.distinct j hj i hi heq]; rfl
  have hother : ∀ c, (¬∃ i < s.numCurrentRegDomainDfsChannels,
      (s.sapDfsChannelNolList i).dfs_channel_number = c) → s.since c = none := by
    intro c hc
    rw [SapDfsInfo.since, find?_eq_none.mpr]
    · rfl
    · intro i hi hdec; exact hc ⟨i, mem_range.mp hi, of_decide_eq_true hdec⟩
  refine ⟨rfl, ⟨fun _ => rfl, hentry, hother⟩, rfl, ?_⟩
  intro c t ht
  by_cases hc : ∃ i < s.numCurrentRegDomainDfsChannels,
      (s.sapDfsChannelNolList i).dfs_channel_number = c
  · obtain ⟨i, hi, rfl⟩ := hc; exact h.past i hi t ((hentry i hi).symm.trans ht)
  · exact nomatch (hother c hc).symm.trans ht

variable {s s' : SapDfsInfo} {S : Spec}

theorem Sim.query (h : Sim num n s S) (hdist : Distinct num n) (hpos : 0 < n)
    (hle : n ≤ NUM_5GHZ_CHANNELS) (c : UInt8) (state : PhyChanBondState) :
    Sim num n (sap_dfs_is_channel_in_nol_list c state s).1 (S.step (Dfs num n) (.query c state)) ∧
      (sap_dfs_is_channel_in_nol_list c state s).2 =
        (ask SAP_DFS_NON_OCCUPANCY_PERIOD S.now (Dfs num n) (bonded c state) S.since).2 := by
  obtain ⟨nol, r, hscan, hrep, hr⟩ := h.rep.look hdist h.past (bonded c state)
  rw [sap_dfs_is_channel_in_nol_list]
  dsimp only
  rw [h.count, if_neg (by omega), h.now]
  change (scanChannels S.now n (sap_get_bonding_channels c MAX_BONDED_CHANNELS state)
    s.sapDfsChannelNolList) = _ at hscan
  rw [hscan, Spec.step, ask]
  -- times are those of before or the time of an entry, which was there before
  have hpast : Past S.now (ask SAP_DFS_NON_OCCUPANCY_PERIOD S.now (Dfs num n) (bonded c state)
      S.since).1 := by
    intro d t ht
    obtain ⟨d', hd'⟩ := ask_time ht
    exact h.past d' t hd'
  rw [ask] at hpast
  rcases hlook : Quarantine.look SAP_DFS_NON_OCCUPANCY_PERIOD S.now (bonded c state) S.since with
    ⟨m', - | t⟩
  · rw [hlook] at hrep hr hpast
    rcases r with - | i
    · exact ⟨⟨rfl, hrep, rfl, hpast⟩, rfl⟩
    · cases hr
  · rw [hlook] at hrep hr hpast
    rcases r with - | i
    · cases hr
    · cases hr; exact ⟨⟨rfl, hrep.mark _ _, rfl, hpast⟩, rfl⟩

theorem Sim.step (h : Sim num n s S) (hdist : Distinct num n) (hpos : 0 < n)
    (hle : n ≤ NUM_5GHZ_CHANNELS) {op : Op} (hstep : step s op = some s') :
    Sim num n s' (S.step (Dfs num n) op) := by
  match op with
  | .mark channels =>
    cases hstep
    rw [h.count, h.now]
    refine ⟨rfl, h.rep.mark channels S.now, rfl, ?_⟩
    intro c t ht
    rw [Spec.step] at ht
    dsimp only at ht
    rw [put] at ht
    split at ht
    · exact Nat.le_of_eq (Option.some.inj ht).symm
    · exact h.past c t ht
  | .query c state => cases hstep; exact (h.query hdist hpos hle c state).1
  | .tick d =>
    rw [SapNol.step] at hstep
    split at hstep
    · cases hstep
      refine ⟨h.count, h.rep, by rw [h.now]; rfl, ?_⟩
      exact fun c t ht => Nat.le_add_right_of_le (h.past c t ht)
    · cases hstep

theorem Sim.run (h : Sim num n s S) (hdist : Distinct num n) (hpos : 0 < n)
    (hle : n ≤ NUM_5GHZ_CHANNELS) {ops : List Op} (hrun : Lib.run SapNol.step s ops = some s') :
    Sim num n s' (ops.foldl (Spec.step (Dfs num n)) S) := by
  induction ops generalizing s S with
  | nil =>
    rw [run_nil, Option.some.injEq] at hrun
    subst hrun; exact h
  | cons op ops ih =>
    obtain ⟨t, ht, hrun⟩ := run_cons_eq_some.mp hrun
    exact ih (h.step hdist hpos hle ht) hrun

theorem Spec.step_held {D : UInt8 → Prop} [DecidablePred D] {op : Op} {c : UInt8} {t : Nat}
    (h : S.since c = some t) (hlt : S.now < t + SAP_DFS_NON_OCCUPANCY_PERIOD) :
    (S.step D op).since c = some t := by
  match op with
  | .mark channels => exact put_of_some h
  | .query c' state => exact ask_held h hlt
  | .tick d => exact h

theorem Spec.now_le (D : UInt8 → Prop) [DecidablePred D] (S : Spec) (ops : List Op) :
    S.now ≤ (ops.foldl (Spec.step D) S).now := by
  induction ops generalizing S with
  | nil => exact Nat.le_refl _
  | cons op ops ih =>
    apply Nat.le_trans _ (ih (S.step D op))
    match op with
    | .mark _ => exact Nat.le_refl _
    | .query _ _ => exact Nat.le_refl _
    | .tick d => exact Nat.le_add_right _ d

theorem Spec.run_held {D : UInt8 → Prop} [DecidablePred D] {ops : List Op} {c : UInt8} {t : Nat}
    (h : S.since c = some t)
    (hlt : (ops.foldl (Spec.step D) S).now < t + SAP_DFS_NON_OCCUPANCY_PERIOD) :
    (ops.foldl (Spec.step D) S).since c = some t := by
  induction ops generalizing S with
  | nil => exact h
  | cons op ops ih =>
    apply ih (Spec.step_held h _) hlt
    have hle := Spec.now_le D S (op :: ops)
    exact Nat.lt_of_le_of_lt hle hlt

def SapDfsInfo.remaining (s : SapDfsInfo) (i : Nat) : Nat :=
  match (s.sapDfsChannelNolList i).since with
  | some t => t + SAP_DFS_NON_OCCUPANCY_PERIOD - s.boottime
  | none => 0

theorem Sim.remaining_eq (h : Sim num n s S) {i : Nat} (hi : i < n) :
    s.remaining i = remaining SAP_DFS_NON_OCCUPANCY_PERIOD S.now S.since (num i) := by
  unfold SapDfsInfo.remaining remaining
  cases hsince : (s.sapDfsChannelNolList i).since <;> simp only [h.rep.entry i hi, h.now, hsince]

/-- **The non-occupancy list.** `Spec` says since when a channel is not to be used: since the
first marking after it was last free. In every run a query is true if and only if this is less
than a period ago for one of the channels that are bonded; all of them that are DFS channels are
then unavailable. -/
theorem nol_run (s₀ s : SapDfsInfo) (ops : List Op) (hs₀ : s₀.Valid)
    (hrun : Lib.run step s₀ ops = some s) :
    let n := s₀.numCurrentRegDomainDfsChannels
    let num := fun j => (s₀.sapDfsChannelNolList j).dfs_channel_number
    let S := ops.foldl (Spec.step (Dfs num n)) ⟨s₀.since, s₀.boottime⟩
    s.boottime = S.now ∧ s.numCurrentRegDomainDfsChannels = n ∧
      (∀ j, (s.sapDfsChannelNolList j).dfs_channel_number = num j) ∧
      (∀ c state, (sap_dfs_is_channel_in_nol_list c state s).2 = true ↔
        ∃ d ∈ bonded c state, Dfs num n d ∧
          ∃ t, S.since d = some t ∧ S.now - t < SAP_DFS_NON_OCCUPANCY_PERIOD) ∧
      (∀ c state, (sap_dfs_is_channel_in_nol_list c state s).2 = true → ∀ i < n,
        num i ∈ bonded c state →
          ((sap_dfs_is_channel_in_nol_list c state s).1.sapDfsChannelNolList i).radar_status_flag =
            .UNAVAILABLE) ∧
      (∀ op s', step s op = some s' → ∀ i < n,
        s.remaining i ≤ s'.remaining i + (s'.boottime - s.boottime)) ∧
      ∀ channels, ∀ d ∈ channels, Dfs num n d → S.since d = none → ∀ ops' s',
        Lib.run step s (.mark channels :: ops') = some s' →
          s'.boottime < s.boottime + SAP_DFS_NON_OCCUPANCY_PERIOD → ∀ c state,
            d ∈ bonded c state → (sap_dfs_is_channel_in_nol_list c state s').2 = true := by
  intro n num S
  have hsim : Sim num n s S := hs₀.sim.run hs₀.distinct hs₀.pos hs₀.le hrun
  have hheld : ∀ {S : Spec}, Past S.now S.since → ∀ d,
      Held SAP_DFS_NON_OCCUPANCY_PERIOD S.now S.since d ↔
        ∃ t, S.since d = some t ∧ S.now - t < SAP_DFS_NON_OCCUPANCY_PERIOD := by
    intro S hpast d
    apply exists_congr
    intro t
    apply and_congr_right
    intro ht
    have hle := hpast d t ht
    omega
  have hquery : ∀ {s : SapDfsInfo} {S : Spec}, Sim num n s S → ∀ c state,
      (sap_dfs_is_channel_in_nol_list c state s).2 = true ↔
        ∃ d ∈ bonded c state, Held SAP_DFS_NON_OCCUPANCY_PERIOD S.now S.since d := by
    intro s S hsim c state
    rw [(hsim.query hs₀.distinct hs₀.pos hs₀.le c state).2]; exact ask_eq_true
  refine ⟨hsim.now, hsim.count, hsim.rep.number, ?_, ?_, ?_, ?_⟩
  · intro c state
    rw [hquery hsim]
    apply exists_congr
    intro d
    apply and_congr_right
    intro _
    rw [hheld hsim.past]
    apply Iff.symm
    apply and_iff_right_of_imp
    rintro ⟨t, ht, -⟩
    by_contra hno
    exact nomatch (hsim.rep.other d hno).symm.trans ht
  · intro c state htrue i hi hmem
    obtain ⟨hsim', hans⟩ := hsim.query hs₀.distinct hs₀.pos hs₀.le c state
    rw [hans] at htrue
    have hsome := ask_isSome htrue hmem ⟨i, hi, rfl⟩
    have hentry := hsim'.rep.entry i hi
    by_contra hne
    rw [SapDfsNolInfo.since_eq_none.mpr hne] at hentry
    rw [Spec.step] at hentry
    dsimp only at hentry
    rw [hentry] at hsome; exact Bool.false_ne_true hsome
  · intro op s' hstep i hi
    have hsim' := hsim.step hs₀.distinct hs₀.pos hs₀.le hstep
    rw [hsim.remaining_eq hi, hsim'.remaining_eq hi, hsim.now, hsim'.now]
    have hkeep := @remaining_le _ SAP_DFS_NON_OCCUPANCY_PERIOD S.now S.since (num i)
      (S.step (Dfs num n) op).since fun t ht hlt => Spec.step_held ht hlt
    apply Nat.le_trans hkeep
    rw [remaining, remaining]
    rcases (S.step (Dfs num n) op).since (num i) with - | t
    · exact Nat.zero_le _
    · dsimp only; omega
  · intro channels d hd hdfs hfree ops' s' hrun' hlt c state hmem
    have hsim' := hsim.run hs₀.distinct hs₀.pos hs₀.le hrun'
    apply (hquery hsim' c state).mpr
    have hmark : (S.step (Dfs num n) (.mark channels)).since d = some S.now :=
      if_pos ⟨hfree, hd, hdfs⟩
    have hnow : (ops'.foldl (Spec.step (Dfs num n)) (S.step (Dfs num n) (.mark channels))).now <
        S.now + SAP_DFS_NON_OCCUPANCY_PERIOD := by rw [← hsim.now]; exact hsim'.now ▸ hlt
    have hkept := Spec.run_held hmark hnow
    exact ⟨d, hmem, S.now, hkept, hnow⟩

def twoChannels : SapDfsInfo where
  numCurrentRegDomainDfsChannels := 2
  sapDfsChannelNolList := fun j => ⟨if j = 0 then 52 else if j = 1 then 56 else 0, .USABLE, 0⟩
  boottime := 1000

theorem twoChannels_valid : twoChannels.Valid where
  pos := by decide
  le := by decide
  distinct := by decide
  past := by intro i hi t ht; exact nomatch ht

/-- A radar on channel 56, and a query of the two channels together. -/
theorem nol_run_two : ∃ s, Lib.run step twoChannels
      [.mark [56], .tick 7, .query 52 .DOUBLE_CHANNEL_LOW_PRIMARY] = some s ∧
    s.numCurrentRegDomainDfsChannels = 2 ∧ (s.sapDfsChannelNolList 0).since = some 1000 := by
  obtain ⟨s, hs, hsince⟩ : ∃ s, Lib.run step twoChannels
      [.mark [56], .tick 7, .query 52 .DOUBLE_CHANNEL_LOW_PRIMARY] = some s ∧
        (s.sapDfsChannelNolList 0).since = some 1000 :=
    ⟨_, rfl, by decide +kernel⟩
  exact ⟨s, hs, (nol_run twoChannels s _ twoChannels_valid hs).2.1, hsince⟩

/-- Channel 52 is marked, and marked again 20 minutes later. After 15 more minutes it is not found
in the list. -/
theorem marked_again : (Lib.run step twoChannels
    [.mark [52], .tick (20 * 60 * 1000 * 1000), .mark [52], .tick (15 * 60 * 1000 * 1000)]).map
      (fun s => (sap_dfs_is_channel_in_nol_list 52 .SINGLE_CHANNEL_CENTERED s).2) = some false := by
  decide +kernel

end Qcacld.SapNol
