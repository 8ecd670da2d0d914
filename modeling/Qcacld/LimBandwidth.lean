/-
The arithmetic of admission control: `lim_admit_control.c`.

The product of bandwidth and factor wraps, from a factor of 80 on for 54 Mbps, and streams are
turned away for which there is room.
-/
import Mathlib.Data.List.Induction
import Qcacld.LimTspec

set_option autoImplicit false

namespace Qcacld.LimBandwidth

open Lib LimTspec List

/-! ## The service interval -/

def NeedsInterval (t : TspecIE) : Prop :=
  t.minSvcInterval = 0 ∧ t.maxSvcInterval = 0 ∧ (t.nomMsduSz ≠ 0 ∨ t.maxMsduSz ≠ 0) ∧
    (t.meanDataRate ≠ 0 ∨ t.peakDataRate ≠ 0 ∨ t.minDataRate ≠ 0)

def IntervalRight (t : TspecIE) : Prop :=
  lim_calculate_svc_int t ≠ none ∧
    ∀ size rate, NeedsInterval t → msduSz t = some size → dataRate t = some rate →
      lim_calculate_svc_int t =
        some (true, LIM_CONVERT_SIZE_BITS size / LIM_CONVERT_RATE_MBPS rate)

theorem msduSz_isSome (t : TspecIE) :
    (∃ size, msduSz t = some size) ↔ t.nomMsduSz ≠ 0 ∨ t.maxMsduSz ≠ 0 := by
  unfold msduSz
  split
  · rename_i h; exact ⟨fun _ => Or.inl h, fun _ => ⟨_, rfl⟩⟩
  · rename_i hnom
    rw [or_iff_right hnom]
    split
    · rename_i hmax; exact ⟨fun _ => hmax, fun _ => ⟨_, rfl⟩⟩
    · rename_i hmax; exact ⟨fun ⟨_, h⟩ => (nomatch h), fun h => absurd h hmax⟩

theorem dataRate_isSome (t : TspecIE) :
    (∃ rate, dataRate t = some rate) ↔
      t.meanDataRate ≠ 0 ∨ t.peakDataRate ≠ 0 ∨ t.minDataRate ≠ 0 := by
  unfold dataRate
  split
  · rename_i h; exact ⟨fun _ => Or.inl h, fun _ => ⟨_, rfl⟩⟩
  · rename_i hmean
    rw [or_iff_right hmean]
    split
    · rename_i h; exact ⟨fun _ => Or.inl h, fun _ => ⟨_, rfl⟩⟩
    · rename_i hpeak
      rw [or_iff_right hpeak]
      split
      · rename_i h; exact ⟨fun _ => h, fun _ => ⟨_, rfl⟩⟩
      · rename_i hmin; exact ⟨fun ⟨_, h⟩ => (nomatch h), fun h => absurd h hmin⟩

theorem calculate_of_needs {t : TspecIE} (h : NeedsInterval t) :
    ∃ size rate, msduSz t = some size ∧ dataRate t = some rate ∧
      lim_calculate_svc_int t =
        if LIM_CONVERT_RATE_MBPS rate = 0 then none
        else some (false, LIM_CONVERT_SIZE_BITS size / LIM_CONVERT_RATE_MBPS rate) := by
  obtain ⟨hmin, hmax, hsize, hrate⟩ := h
  obtain ⟨size, hsize⟩ := (msduSz_isSome t).mpr hsize
  obtain ⟨rate, hrate⟩ := (dataRate_isSome t).mpr hrate
  refine ⟨size, rate, hsize, hrate, ?_⟩
  unfold lim_calculate_svc_int
  rw [if_neg (fun h => h.elim (absurd hmin) (absurd hmax)), hsize]
  rw [hrate]

theorem calculate_of_not_needs {t : TspecIE} (h : ¬ NeedsInterval t) :
    lim_calculate_svc_int t ≠ none := by
  unfold lim_calculate_svc_int
  split
  · exact Option.some_ne_none _
  · rename_i hno
    push Not at hno
    split
    · exact Option.some_ne_none _
    · rename_i size hsize
      split
      · exact Option.some_ne_none _
      · rename_i rate hrate
        refine absurd ⟨hno.1, hno.2, ?_, ?_⟩ h
        · exact (msduSz_isSome t).mp ⟨size, hsize⟩
        · exact (dataRate_isSome t).mp ⟨rate, hrate⟩

theorem intervalRight_iff (t : TspecIE) : IntervalRight t ↔ ¬ NeedsInterval t := by
  constructor
  · intro hright hneeds
    obtain ⟨size, rate, hsize, hrate, hcalc⟩ := calculate_of_needs hneeds
    rw [hright.2 size rate hneeds hsize hrate] at hcalc
    split at hcalc
    · cases hcalc
    · cases hcalc
  · intro hnot; exact ⟨calculate_of_not_needs hnot, fun _ _ hneeds => absurd hneeds hnot⟩

/-! ## The bandwidth -/

def phyBandwidth (phyMode : Nat) : Nat :=
  if phyMode = WNI_CFG_PHY_MODE_11B then LIM_TOTAL_BW_11B
  else if phyMode = WNI_CFG_PHY_MODE_11A then LIM_TOTAL_BW_11A
  else LIM_TOTAL_BW_11G

def oversubscription (phyMode bw_factor : Nat) (dph : Nat → Option DphHashNode) : Env :=
  ⟨phyMode, WNI_CFG_ADMIT_POLICY_BW_FACTOR, bw_factor, dph⟩

variable {e : Env} {c : Table}

def slotRate (e : Env) (s : Slot TspecInfo) : Nat :=
  if s.active ∧ (e.dph_get_hash_entry s.content.assocId).isSome then s.content.tspec.meanDataRate
  else 0

def admittedRate (e : Env) (c : Table) : Nat := (c.map (slotRate e)).sum

theorem lim_compute_mean_bw_used_eq (e : Env) (c : Table) :
    lim_compute_mean_bw_used e c = admittedRate e c % 2 ^ 32 := by
  have hfold : ∀ (c : Table) (bw : Nat), bw < 2 ^ 32 →
      c.foldl (fun bw s =>
        if s.active ∧ (e.dph_get_hash_entry s.content.assocId).isSome then
          (bw + s.content.tspec.meanDataRate) % 2 ^ 32
        else bw) bw = (bw + admittedRate e c) % 2 ^ 32 := by
    intro c
    induction c with
    | nil => intro bw hbw; exact (Nat.mod_eq_of_lt hbw).symm
    | cons s c ih =>
      intro bw hbw
      rw [foldl_cons]
      have hsum : admittedRate e (s :: c) = slotRate e s + admittedRate e c := by
        unfold admittedRate
        rw [map_cons, sum_cons]
      rw [hsum]
      unfold slotRate
      split
      · rw [ih _ (Nat.mod_lt _ (Nat.two_pow_pos 32)), Nat.mod_add_mod, Nat.add_assoc]
      · rw [ih bw hbw, Nat.zero_add]
  have h := hfold c 0 (Nat.two_pow_pos 32)
  rwa [Nat.zero_add] at h

theorem sum_modify_le {f : Slot TspecInfo → Slot TspecInfo} {r : Nat}
    (h : ∀ s, slotRate e (f s) ≤ slotRate e s + r) (c : Table) (k : Nat) :
    admittedRate e (c.modify k f) ≤ admittedRate e c + r := by
  induction c generalizing k with
  | nil => rw [modify_nil]; exact Nat.le_add_right _ _
  | cons s c ih =>
    unfold admittedRate at ih ⊢
    cases k with
    | zero =>
      rw [modify_zero_cons, map_cons, map_cons, sum_cons, sum_cons]
      have hs := h s
      omega
    | succ k =>
      rw [modify_succ_cons, map_cons, map_cons, sum_cons, sum_cons]
      have hk := ih k
      omega

theorem admittedRate_add (maxStation : Nat) (e : Env) (c : Table) (addr assocId : Nat)
    (t : TspecIE) :
    admittedRate e (lim_tspec_add maxStation c addr assocId t).1 ≤
      admittedRate e c + t.meanDataRate := by
  have hwrite : ∀ s : Slot TspecInfo, slotRate e
      ⟨true, { s.content with tspec := t, assocId := assocId, staAddr := addr }⟩ ≤
        slotRate e s + t.meanDataRate := by
    intro s
    unfold slotRate
    dsimp only
    split <;> omega
  unfold lim_tspec_add slotToWrite
  split
  · exact Nat.le_add_right _ _
  · cases lim_find_tspec c assocId t.tsinfo with
    | some k => exact sum_modify_le hwrite c 0
    | none =>
      cases Slots.free c with
      | none => exact Nat.le_add_right _ _
      | some k =>
        apply Nat.le_trans (sum_modify_le hwrite _ k)
        apply Nat.add_le_add_right
        have hidx : ∀ s : Slot TspecInfo,
            slotRate e { s with content := { s.content with idx := k } } ≤ slotRate e s + 0 :=
          fun s => Nat.le_refl _
        exact sum_modify_le hidx c k

theorem admittedRate_clear (e : Env) (c : Table) (k : Nat) :
    admittedRate e (Slots.clear c k) ≤ admittedRate e c := by
  apply sum_modify_le (r := 0)
  intro s; exact Nat.zero_le _

theorem admittedRate_delete_sta (e : Env) (c : Table) (assocId : Nat) :
    admittedRate e (lim_admit_control_delete_sta c assocId) ≤ admittedRate e c := by
  induction c with
  | nil => exact Nat.le_refl _
  | cons s c ih =>
    unfold admittedRate lim_admit_control_delete_sta at ih ⊢
    rw [map_cons, map_cons, map_cons, sum_cons, sum_cons]
    apply Nat.add_le_add _ ih
    split
    · exact Nat.zero_le _
    · exact Nat.le_refl _

/-! ## Decisions -/

def totalbw (e : Env) : Nat := lim_get_available_bw e.phyMode e.bw_factor

theorem totalbw_eq (e : Env) : totalbw e = phyBandwidth e.phyMode * e.bw_factor % 2 ^ 32 := rfl

def Fits (e : Env) (c : Table) : Prop := admittedRate e c ≤ totalbw e

theorem Fits.used (h : Fits e c) : lim_compute_mean_bw_used e c = admittedRate e c := by
  rw [lim_compute_mean_bw_used_eq]
  apply Nat.mod_eq_of_lt
  apply Nat.lt_of_le_of_lt h
  exact Nat.mod_lt _ (Nat.two_pow_pos 32)

theorem Fits.policy_iff (h : Fits e c) (t : TspecIE) :
    lim_admit_policy_oversubscription e c t = true ↔
      admittedRate e c + t.meanDataRate ≤ totalbw e := by
  unfold lim_admit_policy_oversubscription
  rw [h.used]
  show decide (_ ≤ totalbw e ∧ _ ≤ totalbw e - _) = true ↔ _
  rw [decide_eq_true_iff]; omega

def DecidedRight (e : Env) (c : Table) (t : TspecIE) : Prop :=
  lim_admit_policy_oversubscription e c t = true ↔
    admittedRate e c + t.meanDataRate ≤ phyBandwidth e.phyMode * e.bw_factor

theorem Fits.decidedRight_iff (h : Fits e c) (t : TspecIE) :
    DecidedRight e c t ↔
      ¬ (phyBandwidth e.phyMode * e.bw_factor % 2 ^ 32 < admittedRate e c + t.meanDataRate ∧
        admittedRate e c + t.meanDataRate ≤ phyBandwidth e.phyMode * e.bw_factor) := by
  unfold DecidedRight
  rw [h.policy_iff, totalbw_eq]; omega

/-! ## Runs -/

inductive Request where
  | addTs (addr : Nat) (tspec : TspecIE) (assocId : Nat) (alloc : Bool)
  | deleteTs (assocId : Nat) (tsInfo : TSInfo)
  | deleteSta (assocId : Nat)

/-- A request on which the code divides by zero is left out of the run. -/
def step (maxStation : Nat) (e : Env) (c : Table) : Request → Table
  | .addTs addr tspec assocId alloc =>
    ((lim_admit_control_add_ts maxStation e c addr tspec assocId alloc).map Prod.fst).getD c
  | .deleteTs assocId tsInfo => lim_admit_control_delete_ts c assocId tsInfo
  | .deleteSta assocId => lim_admit_control_delete_sta c assocId

def run (maxStation : Nat) (e : Env) (requests : List Request) : Table :=
  requests.foldl (step maxStation e) lim_admit_control_init

theorem add_ts_cases (maxStation : Nat) (e : Env) (c : Table) (addr : Nat) (t : TspecIE)
    (assocId : Nat) (alloc : Bool) :
    step maxStation e c (.addTs addr t assocId alloc) = c ∨
      lim_admit_policy e c t = true ∧
        step maxStation e c (.addTs addr t assocId alloc) =
          (lim_tspec_add maxStation c addr assocId t).1 := by
  unfold step
  dsimp only
  cases hr : lim_admit_control_add_ts maxStation e c addr t assocId alloc with
  | none => exact Or.inl rfl
  | some r =>
    cases alloc with
    | false => exact Or.inl (add_ts_check hr)
    | true =>
      rcases add_ts_alloc hr with ⟨hadmitted, he⟩ | ⟨-, he⟩
      · unfold admitted at hadmitted
        rw [Bool.and_eq_true, Bool.and_eq_true] at hadmitted
        exact Or.inr ⟨hadmitted.1.2, congrArg Prod.fst he⟩
      · exact Or.inl (congrArg Prod.fst he)

theorem Fits.step {phyMode bw_factor : Nat} {dph : Nat → Option DphHashNode}
    (h : Fits (oversubscription phyMode bw_factor dph) c) (maxStation : Nat) (r : Request) :
    Fits (oversubscription phyMode bw_factor dph)
      (step maxStation (oversubscription phyMode bw_factor dph) c r) := by
  cases r with
  | addTs addr t assocId alloc =>
    rcases add_ts_cases maxStation (oversubscription phyMode bw_factor dph) c addr t assocId alloc
      with hsame | ⟨hpolicy, hadd⟩
    · rw [hsame]; exact h
    · rw [hadd]
      apply Nat.le_trans (admittedRate_add maxStation _ c addr assocId t)
      exact (h.policy_iff t).mp hpolicy
  | deleteTs assocId tsInfo =>
    unfold LimBandwidth.step lim_admit_control_delete_ts
    dsimp only
    split
    · exact h
    · exact Nat.le_trans (admittedRate_clear _ c _) h
  | deleteSta assocId => exact Nat.le_trans (admittedRate_delete_sta _ c assocId) h

theorem fits_init (e : Env) : Fits e lim_admit_control_init := by
  have hslot : ∀ a : TspecInfo, slotRate e ⟨false, a⟩ = 0 := fun a =>
    if_neg fun h => absurd h.1 Bool.false_ne_true
  unfold Fits admittedRate lim_admit_control_init; exact Nat.zero_le _

theorem fits_run (maxStation phyMode bw_factor : Nat) (dph : Nat → Option DphHashNode)
    (requests : List Request) :
    Fits (oversubscription phyMode bw_factor dph)
      (run maxStation (oversubscription phyMode bw_factor dph) requests) := by
  unfold run
  induction requests using List.reverseRecOn with
  | nil => exact fits_init _
  | append_singleton requests r ih => rw [foldl_append]; exact ih.step maxStation r

/-- After any requests, the rates of the streams that have been admitted add up to no more than the
bandwidth times the factor. The next request is decided as it should be, and its service interval
calculated, exactly if it does not fall between the product and what is left of it in 32 bits, and
does not come without an interval but with a size and a rate. -/
theorem admission_run (maxStation phyMode bw_factor : Nat) (dph : Nat → Option DphHashNode)
    (requests : List Request) :
    let e := oversubscription phyMode bw_factor dph
    let c := run maxStation e requests
    admittedRate e c ≤ phyBandwidth phyMode * bw_factor ∧
      ∀ t, DecidedRight e c t ∧ IntervalRight t ↔
        ¬ (phyBandwidth phyMode * bw_factor % 2 ^ 32 < admittedRate e c + t.meanDataRate ∧
          admittedRate e c + t.meanDataRate ≤ phyBandwidth phyMode * bw_factor) ∧
        ¬ NeedsInterval t := by
  intro e c
  have hfits := fits_run maxStation phyMode bw_factor dph requests
  refine ⟨Nat.le_trans hfits (Nat.mod_le _ _), fun t => ?_⟩
  rw [intervalRight_iff]; exact and_congr_left fun _ => hfits.decidedRight_iff t

def edca (minSvcInterval meanDataRate : Nat) : TspecIE :=
  { TspecIE.zero with
    tsinfo := ⟨0, 0, SIR_MAC_ACCESSPOLICY_EDCA, 0⟩
    nomMsduSz := 100
    minSvcInterval := minSvcInterval
    meanDataRate := meanDataRate
    minPhyRate := 6000000
    surplusBw := 0x2000 }

def slow : TspecIE := edca 0 500000

def fast : TspecIE := edca 20 54000000

/-- The calculation for a slow stream divides by zero; and with a factor of 80, a fast one is turned
away although nothing has been admitted. -/
theorem slow_and_fast :
    lim_calculate_svc_int slow = none ∧ ¬ IntervalRight slow ∧
      ¬ DecidedRight (oversubscription WNI_CFG_PHY_MODE_11A 80 fun _ => none)
        (run 10 (oversubscription WNI_CFG_PHY_MODE_11A 80 fun _ => none) []) fast := by
  refine ⟨by decide, ?_, ?_⟩
  · intro hright; exact hright.1 (by decide)
  · unfold DecidedRight; decide

end Qcacld.LimBandwidth
