/-
The table of TSPECs: `lim_admit_control.c`.

An admitted traffic stream has an entry, which is known by the association, the direction and the
TSID. Left out are the schedule that `lim_admit_control_add_ts` fills in for its caller, and the
service interval, which is not stored.
-/
import Mathlib.Algebra.Order.Ring.Int
import Qcacld.Lib.Run
import Qcacld.Lib.Slots

set_option autoImplicit false

namespace Qcacld.LimTspec

open Lib

section

def LIM_NUM_TSPEC_MAX : Nat := 15

def SIR_MAC_ACCESSPOLICY_EDCA : Nat := 1

def LIM_TOTAL_BW_11A : Nat := 54000000
def LIM_TOTAL_BW_11B : Nat := 11000000
def LIM_TOTAL_BW_11G : Nat := LIM_TOTAL_BW_11A

def WNI_CFG_PHY_MODE_11A : Nat := 0
def WNI_CFG_PHY_MODE_11B : Nat := 1

def WNI_CFG_ADMIT_POLICY_ADMIT_ALL : Nat := 0
def WNI_CFG_ADMIT_POLICY_REJECT_ALL : Nat := 1
def WNI_CFG_ADMIT_POLICY_BW_FACTOR : Nat := 2

/-- `tSirMacTSInfo`, with the bits that are only compared in `rest`. -/
structure TSInfo where
  tsid : Nat
  direction : Nat
  accessPolicy : Nat
  rest : Nat
  deriving DecidableEq

structure TspecIE where
  type : Nat
  length : Nat
  tsinfo : TSInfo
  nomMsduSz : Nat
  maxMsduSz : Nat
  minSvcInterval : Nat
  maxSvcInterval : Nat
  inactInterval : Nat
  suspendInterval : Nat
  svcStartTime : Nat
  minDataRate : Nat
  meanDataRate : Nat
  peakDataRate : Nat
  maxBurstSz : Nat
  delayBound : Nat
  minPhyRate : Nat
  surplusBw : Nat
  mediumTime : Nat
  deriving DecidableEq

/-- `tLimTspecInfo` but for `inuse`, which is the mark of its slot. -/
structure TspecInfo where
  idx : Nat
  staAddr : Nat
  assocId : Nat
  tspec : TspecIE

abbrev Table := List (Slot TspecInfo)

structure DphHashNode where
  valid : Bool
  wmeEnabled : Bool
  lleEnabled : Bool

/-- What the decision whether to admit a stream depends on. -/
structure Env where
  phyMode : Nat
  policyType : Nat
  bw_factor : Nat
  dph_get_hash_entry : Nat → Option DphHashNode

-- `lim.maxStation`
variable (maxStation : Nat)

/-! ## The table -/

def lim_find_tspec (c : Table) (assocId : Nat) (tsInfo : TSInfo) : Option Nat :=
  Slots.find (fun a => a.assocId = assocId ∧ a.tspec.tsinfo.direction = tsInfo.direction ∧
    a.tspec.tsinfo.tsid = tsInfo.tsid) c

def lim_tspec_find_by_assoc_id (c : Table) (assocId : Nat) (tspec : TspecIE) : Option Nat :=
  Slots.find (fun a => a.assocId = assocId ∧ a.tspec = tspec) c

def lim_tspec_find_by_sta_addr (c : Table) (addr : Nat) (tspec : TspecIE) : Option Nat :=
  Slots.find (fun a => a.staAddr = addr ∧ a.tspec = tspec) c

/-- The slot that `lim_tspec_add` writes, with its new index recorded. -/
def slotToWrite (c : Table) (assocId : Nat) (tspec : TspecIE) : Option (Table × Nat) :=
  match lim_find_tspec c assocId tspec.tsinfo with
  | some _ => some (c, 0)
  | none =>
    match Slots.free c with
    | none => none
    | some k =>
      some (c.modify k fun s => { s with content := { s.content with idx := k } }, k)

/-- Returns the slot of the entry. -/
def lim_tspec_add (c : Table) (addr assocId : Nat) (tspec : TspecIE) : Table × Option Nat :=
  if assocId ≥ maxStation then (c, none)
  else
    match slotToWrite c assocId tspec with
    | none => (c, none)
    | some (c, k) =>
      (c.modify k fun s =>
        ⟨true, { s.content with tspec := tspec, assocId := assocId, staAddr := addr }⟩, some k)

def lim_tspec_delete (c : Table) (k : Nat) : Table := Slots.clear c k

def lim_admit_control_delete_ts (c : Table) (assocId : Nat) (tsInfo : TSInfo) : Table :=
  match lim_find_tspec c assocId tsInfo with
  | none => c
  | some k => lim_tspec_delete c k

/-- Also the entries that are not in use are marked as such. -/
def lim_admit_control_delete_sta (c : Table) (assocId : Nat) : Table :=
  c.map fun s => if s.content.assocId = assocId then { s with active := false } else s

/-! ## Admission -/

def lim_get_available_bw (phyMode bw_factor : Nat) : Nat :=
  (if phyMode = WNI_CFG_PHY_MODE_11B then LIM_TOTAL_BW_11B
    else if phyMode = WNI_CFG_PHY_MODE_11A then LIM_TOTAL_BW_11A
    else LIM_TOTAL_BW_11G) * bw_factor % 2 ^ 32

def lim_validate_tspec_edca (e : Env) (t : TspecIE) : Bool :=
  t.nomMsduSz ≠ 0 ∧ t.meanDataRate ≠ 0 ∧ t.surplusBw ≠ 0 ∧ t.minPhyRate ≠ 0 ∧
    t.minPhyRate ≤ lim_get_available_bw e.phyMode 1

def lim_validate_tspec (e : Env) (t : TspecIE) : Bool :=
  t.tsinfo.accessPolicy = SIR_MAC_ACCESSPOLICY_EDCA ∧ lim_validate_tspec_edca e t

def LIM_CONVERT_SIZE_BITS (numBytes : Nat) : Nat := numBytes * 8

def LIM_CONVERT_RATE_MBPS (rate : Nat) : Nat := rate / 1000000

def msduSz (t : TspecIE) : Option Nat :=
  if t.nomMsduSz ≠ 0 then some (t.nomMsduSz &&& 0x7fff)
  else if t.maxMsduSz ≠ 0 then some t.maxMsduSz
  else none

def dataRate (t : TspecIE) : Option Nat :=
  if t.meanDataRate ≠ 0 then some t.meanDataRate
  else if t.peakDataRate ≠ 0 then some t.peakDataRate
  else if t.minDataRate ≠ 0 then some t.minDataRate
  else none

/-- `true` for `eSIR_SUCCESS`, and the interval; `none` is a division by zero. -/
def lim_calculate_svc_int (t : TspecIE) : Option (Bool × Nat) :=
  if t.minSvcInterval ≠ 0 ∨ t.maxSvcInterval ≠ 0 then
    some (true, if t.maxSvcInterval ≠ 0 then t.maxSvcInterval else t.minSvcInterval)
  else
    match msduSz t with
    | none => some (false, 0)
    | some size =>
      match dataRate t with
      | none => some (false, 0)
      | some rate =>
        if LIM_CONVERT_RATE_MBPS rate = 0 then none
        else some (false, LIM_CONVERT_SIZE_BITS size / LIM_CONVERT_RATE_MBPS rate)

def lim_compute_mean_bw_used (e : Env) (c : Table) : Nat :=
  c.foldl (fun bw s =>
    if s.active ∧ (e.dph_get_hash_entry s.content.assocId).isSome then
      (bw + s.content.tspec.meanDataRate) % 2 ^ 32
    else bw) 0

def lim_admit_policy_oversubscription (e : Env) (c : Table) (t : TspecIE) : Bool :=
  let usedbw := lim_compute_mean_bw_used e c
  let totalbw := lim_get_available_bw e.phyMode e.bw_factor
  usedbw ≤ totalbw ∧ t.meanDataRate ≤ totalbw - usedbw

def lim_admit_policy (e : Env) (c : Table) (t : TspecIE) : Bool :=
  if e.policyType = WNI_CFG_ADMIT_POLICY_ADMIT_ALL then true
  else if e.policyType = WNI_CFG_ADMIT_POLICY_BW_FACTOR then
    lim_admit_policy_oversubscription e c t
  else if e.policyType = WNI_CFG_ADMIT_POLICY_REJECT_ALL then false
  else true

def lim_validate_access_policy (e : Env) (accessPolicy assocId : Nat) : Bool :=
  match e.dph_get_hash_entry assocId with
  | none => false
  | some sta =>
    sta.valid ∧ accessPolicy = SIR_MAC_ACCESSPOLICY_EDCA ∧ (sta.wmeEnabled ∨ sta.lleEnabled)

/-- Returns the status, and the slot of the entry if one was asked for; no result where the code
divides by zero. -/
def lim_admit_control_add_ts (e : Env) (c : Table) (addr : Nat) (tspec : TspecIE) (assocId : Nat)
    (alloc : Bool) : Option (Table × Bool × Option Nat) :=
  let dup :=
    if alloc then lim_tspec_find_by_assoc_id c assocId tspec
    else lim_tspec_find_by_sta_addr c addr tspec
  if dup.isSome then some (c, false, none)
  else if lim_validate_tspec e tspec = false then some (c, false, none)
  else
    match lim_calculate_svc_int tspec with
    | none => none
    | some (false, _) => some (c, false, none)
    | some (true, _) =>
      if lim_admit_policy e c tspec = false then some (c, false, none)
      else if alloc = false then some (c, true, none)
      else if lim_validate_access_policy e tspec.tsinfo.accessPolicy assocId = false then
        some (c, false, none)
      else
        match lim_tspec_add maxStation c addr assocId tspec with
        | (c, none) => some (c, false, none)
        | (c, some k) => some (c, true, some k)

/-! ## Runs -/

inductive Op
  | admitControlAddTs (addr : Nat) (tspec : TspecIE) (assocId : Nat) (alloc : Bool)
  | tspecAdd (addr assocId : Nat) (tspec : TspecIE)
  | admitControlDeleteTs (assocId : Nat) (tsInfo : TSInfo)
  | admitControlDeleteSta (assocId : Nat)

structure Step where
  op : Op
  env : Env

def step (c : Table) (e : Step) : Option Table :=
  match e.op with
  | .admitControlAddTs addr tspec assocId alloc =>
    (lim_admit_control_add_ts maxStation e.env c addr tspec assocId alloc).map Prod.fst
  | .tspecAdd addr assocId tspec => some (lim_tspec_add maxStation c addr assocId tspec).1
  | .admitControlDeleteTs assocId tsInfo => some (lim_admit_control_delete_ts c assocId tsInfo)
  | .admitControlDeleteSta assocId => some (lim_admit_control_delete_sta c assocId)

def TspecIE.zero : TspecIE := ⟨0, 0, ⟨0, 0, 0, 0⟩, 0, 0, 0, 0, 0, 0, 0, 0, 0, 0, 0, 0, 0, 0, 0⟩

def lim_admit_control_init : Table :=
  List.replicate LIM_NUM_TSPEC_MAX ⟨false, ⟨0, 0, 0, TspecIE.zero⟩⟩

end

open List

/-! What holds in every state of a run. -/

variable {maxStation : Nat} {c c' : Table} {i j k assocId addr : Nat} {tspec : TspecIE}
variable {a b : TspecInfo} {e : Env} {tsInfo : TSInfo}

def key (a : TspecInfo) : Nat × Nat × Nat :=
  (a.assocId, a.tspec.tsinfo.direction, a.tspec.tsinfo.tsid)

def Used (t : Table) (k : Nat) (a : TspecInfo) : Prop := t[k]? = some ⟨true, a⟩

def Unique (c : Table) : Prop := ∀ i j a b, Used c i a → Used c j b → key a = key b → i = j

theorem Unique.sub (h : Unique c) (hsub : ∀ k a, Used c' k a → Used c k a) : Unique c' :=
  fun i j a b hi hj hk => h i j a b (hsub i a hi) (hsub j b hj) hk

/-! ## Searching -/

theorem find_some (h : lim_find_tspec c assocId tsInfo = some k) :
    ∃ a, Used c k a ∧ key a = (assocId, tsInfo.direction, tsInfo.tsid) := by
  obtain ⟨a, ha, hp⟩ := Slots.find_getElem? h
  refine ⟨a, ha, ?_⟩
  obtain ⟨h1, h2, h3⟩ := of_decide_eq_true hp
  unfold key
  rw [h1, h2, h3]

theorem find_none (h : lim_find_tspec c assocId tsInfo = none) (hk : Used c k a) :
    key a ≠ (assocId, tsInfo.direction, tsInfo.tsid) := by
  intro he
  have ha : a ∈ Slots.live c := Slots.mem_live.mpr (mem_of_getElem? hk)
  have hp := Slots.find_eq_none.mp h a ha
  simp only [key, Prod.mk.injEq] at he
  exact of_decide_eq_false hp he

theorem find_of_used (h : Unique c) (hk : Used c k a)
    (hkey : key a = (assocId, tsInfo.direction, tsInfo.tsid)) :
    lim_find_tspec c assocId tsInfo = some k := by
  cases hf : lim_find_tspec c assocId tsInfo with
  | none => exact absurd hkey (find_none hf hk)
  | some j => obtain ⟨b, hb, hkb⟩ := find_some hf; rw [h j k b a hb hk (hkb.trans hkey.symm)]

theorem free_none (h : Slots.free c = none) : ∀ s ∈ c, s.active = true := by
  intro s hs
  have := findIdx?_eq_none_iff.mp h s hs
  simpa using this

/-! ## Adding and updating -/

def AddOk (maxStation : Nat) (c : Table) (assocId : Nat) (tspec : TspecIE) : Prop :=
  assocId < maxStation → ∀ k, k ∈ lim_find_tspec c assocId tspec.tsinfo → k = 0
deriving Decidable

def entry (addr assocId : Nat) (tspec : TspecIE) (idx : Nat) : TspecInfo :=
  ⟨idx, addr, assocId, tspec⟩

theorem key_entry (addr assocId idx : Nat) (tspec : TspecIE) :
    key (entry addr assocId tspec idx)
      = (assocId, tspec.tsinfo.direction, tspec.tsinfo.tsid) := rfl

/-- One slot has the new entry, and what was in it was free or of the same stream. -/
structure Written (t t' : Table) (k addr assocId : Nat) (tspec : TspecIE) : Prop where
  new : ∃ idx, Used t' k (entry addr assocId tspec idx)
  other : ∀ j, j ≠ k → t'[j]? = t[j]?
  old : ∀ a, Used t k a → key a = (assocId, tspec.tsinfo.direction, tspec.tsinfo.tsid)
  /-- The stream has no entry elsewhere. -/
  only : ∀ j a, j ≠ k → Used t j a →
    key a ≠ (assocId, tspec.tsinfo.direction, tspec.tsinfo.tsid)

theorem Written.used_iff (h : Written c c' k addr assocId tspec)
    (hkey : key a ≠ (assocId, tspec.tsinfo.direction, tspec.tsinfo.tsid)) :
    Used c' j a ↔ Used c j a := by
  unfold Used
  by_cases hj : j = k
  · obtain ⟨idx, hnew⟩ := h.new
    constructor
    · intro hu
      rw [hj] at hu
      have he : a = entry addr assocId tspec idx := by
        have := hu.symm.trans hnew
        simpa using this
      rw [he] at hkey; exact absurd (key_entry addr assocId idx tspec) hkey
    · intro hu
      rw [hj] at hu; exact absurd (h.old a hu) hkey
  · rw [h.other j hj]

theorem Written.unique (h : Written c c' k addr assocId tspec) (hc : Unique c) : Unique c' := by
  obtain ⟨idx, hnew⟩ := h.new
  -- an entry in another slot is an old one, of another stream
  have hother : ∀ {j a}, Used c' j a → j ≠ k →
      Used c j a ∧ key a ≠ (assocId, tspec.tsinfo.direction, tspec.tsinfo.tsid) := by
    intro j a hu hj
    have hu' : Used c j a := by
      unfold Used
      rw [← h.other j hj]; exact hu
    exact ⟨hu', h.only j a hj hu'⟩
  have hself : ∀ {a}, Used c' k a →
      key a = (assocId, tspec.tsinfo.direction, tspec.tsinfo.tsid) := by
    intro a hu
    have he : a = entry addr assocId tspec idx := by
      have := hu.symm.trans hnew
      simpa using this
    rw [he, key_entry]
  intro i j a b hi hj hkey
  by_cases hik : i = k
  · by_cases hjk : j = k
    · rw [hik, hjk]
    · subst hik; exact absurd (hkey.symm.trans (hself hi)) (hother hj hjk).2
  · by_cases hjk : j = k
    · subst hjk; exact absurd (hkey.trans (hself hj)) (hother hi hik).2
    · exact hc i j a b (hother hi hik).1 (hother hj hjk).1 hkey

theorem Written.found (h : Written c c' k addr assocId tspec) (hc : Unique c) :
    ∃ k' a, lim_find_tspec c' assocId tspec.tsinfo = some k' ∧ Used c' k' a ∧ a.tspec = tspec := by
  obtain ⟨idx, hnew⟩ := h.new
  exact ⟨k, _, find_of_used (h.unique hc) hnew (key_entry addr assocId idx tspec), hnew, rfl⟩

/-- An entry is written, or nothing is done since the association is not valid or no slot is
free. -/
theorem add_cases (hc : Unique c) (hok : AddOk maxStation c assocId tspec) :
    (∃ k, (lim_tspec_add maxStation c addr assocId tspec).2 = some k ∧
      Written c (lim_tspec_add maxStation c addr assocId tspec).1 k addr assocId tspec) ∨
    lim_tspec_add maxStation c addr assocId tspec = (c, none) ∧
      (assocId ≥ maxStation ∨ ∀ s ∈ c, s.active = true) := by
  unfold lim_tspec_add
  by_cases hid : assocId ≥ maxStation
  · rw [if_pos hid]; exact Or.inr ⟨rfl, Or.inl hid⟩
  · rw [if_neg hid]
    unfold slotToWrite
    cases hf : lim_find_tspec c assocId tspec.tsinfo with
    | some j =>
      have hj : j = 0 := hok (by omega) j hf
      subst hj
      obtain ⟨a, ha, hkey⟩ := find_some hf
      refine Or.inl ⟨0, rfl, ?_, ?_, ?_, ?_⟩
      · refine ⟨a.idx, ?_⟩
        unfold Used at ha ⊢
        rw [getElem?_modify_eq, ha]; rfl
      · intro j hj; exact getElem?_modify_ne _ _ (Ne.symm hj)
      · intro b hb
        have hab : b = a := by have := hb.symm.trans ha; simpa using this
        rw [hab]; exact hkey
      · intro j b hj hb he; exact hj (hc j 0 b a hb ha (he.trans hkey.symm))
    | none =>
      cases hfree : Slots.free c with
      | none => exact Or.inr ⟨rfl, Or.inr (free_none hfree)⟩
      | some k =>
        obtain ⟨s, hs, hact⟩ := Slots.free_getElem? hfree
        refine Or.inl ⟨k, rfl, ?_, ?_, ?_, ?_⟩
        · refine ⟨k, ?_⟩
          unfold Used
          rw [getElem?_modify_eq, getElem?_modify_eq, hs]; rfl
        · intro j hj
          rw [getElem?_modify_ne _ _ (Ne.symm hj), getElem?_modify_ne _ _ (Ne.symm hj)]
        · intro b hb
          unfold Used at hb
          rw [hs, Option.some.injEq] at hb
          rw [hb] at hact; exact absurd hact (by simp)
        · exact fun j b _ hb => find_none hf hb

theorem add_not_unique (hno : ¬ AddOk maxStation c assocId tspec) :
    ¬ Unique (lim_tspec_add maxStation c addr assocId tspec).1 := by
  unfold AddOk at hno
  push Not at hno
  obtain ⟨hid, k, hf, hk⟩ := hno
  obtain ⟨a, ha, hkey⟩ := find_some hf
  have hlen : 0 < c.length := by have := (List.getElem?_eq_some_iff.mp ha).1; omega
  have hnew : (lim_tspec_add maxStation c addr assocId tspec).1
      = c.modify 0 fun s =>
        ⟨true, { s.content with tspec := tspec, assocId := assocId, staAddr := addr }⟩ := by
    unfold lim_tspec_add slotToWrite
    rw [if_neg (by omega), hf]
  rw [hnew]
  intro hu
  apply hk
  refine hu k 0 a (entry addr assocId tspec (c.get ⟨0, hlen⟩).content.idx) ?_ ?_
    (hkey.trans (key_entry _ _ _ _).symm)
  · unfold Used
    rw [getElem?_modify_ne _ _ (Ne.symm hk)]; exact ha
  · unfold Used
    rw [getElem?_modify_eq, getElem?_eq_getElem hlen]; rfl

/-! ## Deleting -/

theorem delete_unique (hc : Unique c) (assocId : Nat) (tsInfo : TSInfo) :
    Unique (lim_admit_control_delete_ts c assocId tsInfo) := by
  unfold lim_admit_control_delete_ts
  split
  · exact hc
  · rename_i k _
    apply hc.sub
    intro j a hj
    unfold lim_tspec_delete Slots.clear Used at hj
    by_cases hjk : j = k
    · subst hjk; simp at hj
    · rw [getElem?_modify_ne _ _ (Ne.symm hjk)] at hj; exact hj

theorem delete_sta_unique (hc : Unique c) (assocId : Nat) :
    Unique (lim_admit_control_delete_sta c assocId) := by
  apply hc.sub
  intro j a hj
  unfold lim_admit_control_delete_sta Used at hj
  rw [getElem?_map, Option.map_eq_some_iff] at hj
  obtain ⟨s, hs, he⟩ := hj
  unfold Used
  rw [hs]
  by_cases hid : s.content.assocId = assocId
  · rw [if_pos hid] at he; simp at he
  · rw [if_neg hid] at he; rw [he]

/-! ## Admission -/

def admitted (e : Env) (c : Table) (tspec : TspecIE) (assocId : Nat) : Bool :=
  (lim_tspec_find_by_assoc_id c assocId tspec).isNone && lim_validate_tspec e tspec &&
    (lim_calculate_svc_int tspec).any Prod.fst && lim_admit_policy e c tspec &&
    lim_validate_access_policy e tspec.tsinfo.accessPolicy assocId

theorem add_ts_check {r : Table × Bool × Option Nat}
    (h : lim_admit_control_add_ts maxStation e c addr tspec assocId false = some r) : r.1 = c := by
  unfold lim_admit_control_add_ts at h
  dsimp only at h
  repeat' split at h
  all_goals first
    | contradiction
    | exact congrArg Prod.fst (Option.some.inj h).symm

theorem add_ts_alloc {r : Table × Bool × Option Nat}
    (h : lim_admit_control_add_ts maxStation e c addr tspec assocId true = some r) :
    (admitted e c tspec assocId = true ∧
      r = ((lim_tspec_add maxStation c addr assocId tspec).1,
        (lim_tspec_add maxStation c addr assocId tspec).2.isSome,
        (lim_tspec_add maxStation c addr assocId tspec).2)) ∨
    (admitted e c tspec assocId = false ∧ r = (c, false, none)) := by
  revert h
  unfold lim_admit_control_add_ts admitted
  cases lim_tspec_find_by_assoc_id c assocId tspec with
  | some _ => exact fun h => Or.inr ⟨rfl, (Option.some.inj h).symm⟩
  | none =>
    cases lim_validate_tspec e tspec with
    | false => exact fun h => Or.inr ⟨rfl, (Option.some.inj h).symm⟩
    | true =>
      rcases lim_calculate_svc_int tspec with _ | ⟨_ | _, _⟩
      · exact nofun
      · exact fun h => Or.inr ⟨rfl, (Option.some.inj h).symm⟩
      · cases lim_admit_policy e c tspec with
        | false => exact fun h => Or.inr ⟨rfl, (Option.some.inj h).symm⟩
        | true =>
          cases lim_validate_access_policy e tspec.tsinfo.accessPolicy assocId with
          | false => exact fun h => Or.inr ⟨rfl, (Option.some.inj h).symm⟩
          | true =>
            rcases lim_tspec_add maxStation c addr assocId tspec with ⟨c', _ | k⟩
            all_goals exact fun h => Or.inl ⟨rfl, (Option.some.inj h).symm⟩

/-! ## Runs -/

/-- A step that makes an entry may only update the first one. -/
def Ok (maxStation : Nat) (c : Table) (e : Step) : Prop :=
  match e.op with
  | .tspecAdd _ assocId tspec => AddOk maxStation c assocId tspec
  | .admitControlAddTs _ tspec assocId alloc =>
    alloc = true → admitted e.env c tspec assocId = true → AddOk maxStation c assocId tspec
  | _ => True

instance (maxStation : Nat) (c : Table) (e : Step) : Decidable (Ok maxStation c e) := by
  unfold Ok
  split <;> infer_instance

/-- What an addition of a stream, that returns `r`, promises. -/
structure Adds (c c' : Table) (r : Bool) (assocId : Nat) (tspec : TspecIE) : Prop where
  found : r = true → ∃ k a, lim_find_tspec c' assocId tspec.tsinfo = some k ∧ Used c' k a ∧
    a.tspec = tspec
  others : ∀ j a, key a ≠ (assocId, tspec.tsinfo.direction, tspec.tsinfo.tsid) →
    (Used c' j a ↔ Used c j a)
  failed : r = false → c' = c

theorem Adds.refl (c : Table) (assocId : Nat) (tspec : TspecIE) : Adds c c false assocId tspec :=
  ⟨fun h => absurd h (by decide), fun _ _ _ => Iff.rfl, fun _ => rfl⟩

theorem add_adds (hc : Unique c) (hok : AddOk maxStation c assocId tspec) :
    Adds c (lim_tspec_add maxStation c addr assocId tspec).1
      (lim_tspec_add maxStation c addr assocId tspec).2.isSome assocId tspec := by
  rcases @add_cases maxStation c assocId addr tspec hc hok with ⟨k, hk, hw⟩ | ⟨he, -⟩
  · refine ⟨fun _ => hw.found hc, fun j a hne => hw.used_iff hne, fun h => ?_⟩
    rw [hk] at h; exact absurd h (by simp)
  · rw [he]; exact Adds.refl c assocId tspec

theorem add_failed (hc : Unique c) (hok : AddOk maxStation c assocId tspec)
    (h : (lim_tspec_add maxStation c addr assocId tspec).2 = none) :
    assocId ≥ maxStation ∨ ∀ s ∈ c, s.active = true := by
  rcases @add_cases maxStation c assocId addr tspec hc hok with ⟨k, hk, -⟩ | ⟨-, hwhy⟩
  · rw [h] at hk; exact absurd hk (by simp)
  · exact hwhy

theorem add_unique (hc : Unique c) :
    Unique (lim_tspec_add maxStation c addr assocId tspec).1
      ↔ AddOk maxStation c assocId tspec := by
  constructor
  · intro h
    by_contra hno
    exact add_not_unique hno h
  · intro hok
    rcases @add_cases maxStation c assocId addr tspec hc hok with ⟨k, -, hw⟩ | ⟨he, -⟩
    · exact hw.unique hc
    · rw [he]; exact hc

theorem Unique.step {e : Step} (hc : Unique c) (hok : Ok maxStation c e)
    (h : step maxStation c e = some c') : Unique c' := by
  obtain ⟨op, env⟩ := e
  cases op with
  | tspecAdd addr assocId tspec => rw [← Option.some.inj h]; exact (add_unique hc).mpr hok
  | admitControlAddTs addr tspec assocId alloc =>
    obtain ⟨r, hr, rfl⟩ := Option.map_eq_some_iff.mp h
    cases alloc with
    | false => rw [add_ts_check hr]; exact hc
    | true =>
      rcases add_ts_alloc hr with ⟨had, rfl⟩ | ⟨-, rfl⟩
      · exact (add_unique hc).mpr (hok rfl had)
      · exact hc
  | admitControlDeleteTs assocId tsInfo =>
    rw [← Option.some.inj h]; exact delete_unique hc assocId tsInfo
  | admitControlDeleteSta assocId =>
    rw [← Option.some.inj h]; exact delete_sta_unique hc assocId

theorem init_unique : Unique lim_admit_control_init := by
  intro i j a b hi _ _
  have := mem_of_getElem? hi
  simp [lim_admit_control_init] at this

/-- **The table of TSPECs.** While only the stream in the first slot is updated, a stream has one
entry at most, an addition that succeeds leaves an entry with the TSPEC given, which a search for
the stream finds, it does not touch the entries of the other streams, and if it fails nothing is
changed, and the association is not valid or no slot is free. An update of any other stream gives
it a second entry. -/
theorem tspec_run {es : List Step}
    (h : run (guarded (Ok maxStation) (step maxStation)) lim_admit_control_init es = some c) :
    Unique c ∧
    (∀ addr assocId tspec, AddOk maxStation c assocId tspec →
      Adds c (lim_tspec_add maxStation c addr assocId tspec).1
        (lim_tspec_add maxStation c addr assocId tspec).2.isSome assocId tspec ∧
      ((lim_tspec_add maxStation c addr assocId tspec).2 = none →
        assocId ≥ maxStation ∨ ∀ s ∈ c, s.active = true)) ∧
    (∀ env addr tspec assocId alloc,
      Ok maxStation c ⟨.admitControlAddTs addr tspec assocId alloc, env⟩ →
      ∀ r, lim_admit_control_add_ts maxStation env c addr tspec assocId alloc = some r →
      (alloc = false → r.1 = c) ∧
      (alloc = true → Adds c r.1 r.2.1 assocId tspec ∧
        (r.2.1 = false → admitted env c tspec assocId = false ∨ assocId ≥ maxStation ∨
          ∀ s ∈ c, s.active = true))) ∧
    ∀ addr assocId tspec, Unique (lim_tspec_add maxStation c addr assocId tspec).1
      ↔ AddOk maxStation c assocId tspec := by
  have hc : Unique c :=
    guarded_run_invariant (fun _ _ _ hs hok hst => hs.step hok hst) init_unique h
  refine ⟨hc, ?_, ?_, fun _ _ _ => add_unique hc⟩
  · exact fun _ _ _ hok => ⟨add_adds hc hok, add_failed hc hok⟩
  · intro env addr tspec assocId alloc hok r hr
    constructor
    · rintro rfl; exact add_ts_check hr
    · rintro rfl
      rcases add_ts_alloc hr with ⟨had, rfl⟩ | ⟨had, rfl⟩
      · refine ⟨add_adds hc (hok rfl had), fun hr => Or.inr ?_⟩
        exact add_failed hc (hok rfl had) (by simpa using hr)
      · exact ⟨Adds.refl c assocId tspec, fun _ => Or.inl had⟩

def voice (tsid meanDataRate : Nat) : TspecIE :=
  { TspecIE.zero with
    tsinfo := ⟨tsid, 0, SIR_MAC_ACCESSPOLICY_EDCA, 0⟩, nomMsduSz := 208, minSvcInterval := 20,
    meanDataRate := meanDataRate, minPhyRate := 6000000, surplusBw := 9000 }

def anyEnv : Env := ⟨WNI_CFG_PHY_MODE_11A, WNI_CFG_ADMIT_POLICY_ADMIT_ALL, 20, fun _ => none⟩

def add (assocId tsid rate : Nat) : Step := ⟨.tspecAdd 1 assocId (voice tsid rate), anyEnv⟩

/-- The stream in the first slot is updated while there is a second one. -/
theorem tspec_run_update :
    ∃ c, run (guarded (Ok 8) (step 8)) lim_admit_control_init
      [add 1 6 83200, add 1 7 83200, add 1 6 64000] = some c ∧
    Unique c ∧
    Adds c (lim_tspec_add 8 c 1 1 (voice 6 5000)).1 true 1 (voice 6 5000) := by
  refine ⟨_, rfl, ?_, ?_⟩
  · exact (@tspec_run 8 _ [add 1 6 83200, add 1 7 83200, add 1 6 64000] rfl).1
  · exact ((@tspec_run 8 _ [add 1 6 83200, add 1 7 83200, add 1 6 64000] rfl).2.1 1 1 (voice 6 5000)
      (by decide)).1

/-- An update of the second stream takes the entry of the first one, and the old entry stays. -/
theorem second_stream :
    ∃ c c', run (step 8) lim_admit_control_init [add 1 6 83200, add 1 7 83200] = some c ∧
    step 8 c (add 1 7 64000) = some c' ∧
    lim_find_tspec c (1 : Nat) (voice 6 83200).tsinfo = some 0 ∧
    lim_find_tspec c' (1 : Nat) (voice 6 83200).tsinfo = none ∧
    (c'[0]?).map (fun s => (s.active, s.content.tspec)) = some (true, voice 7 64000) ∧
    (c'[1]?).map (fun s => (s.active, s.content.tspec)) = some (true, voice 7 83200) :=
  ⟨_, _, rfl, rfl, rfl, rfl, rfl, rfl⟩

end Qcacld.LimTspec
