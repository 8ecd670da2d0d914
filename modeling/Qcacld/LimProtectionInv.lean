/-
The protection counters track the stations, where they do.

`Tracks` says it for the five kinds of stations that a session protects from: the counter of a kind
is the number of associated stations of that kind and the number of cache entries that stand for
them, and the beacon says so exactly if there is one.
-/
import Qcacld.LimProtection

set_option autoImplicit false

namespace Qcacld.LimProtection

open Lib DphTable LimPeerIdx List

/-! # What the counters are to track -/

inductive Kind where
  | llB
  | llG
  | ht20
  | nonGf
  | noLsig
  deriving DecidableEq

def counter (p : Prot) : Kind → UInt8
  | .llB => p.gLim11bParams.numSta
  | .llG => p.gLim11gParams.numSta
  | .ht20 => p.gLimHt20Params.numSta
  | .nonGf => p.gLimNonGfParams.numSta
  | .noLsig => p.gLimLsigTxopParams.numSta

/-- Whether the beacon asks for protection. That LSIG TXOP protection is not fully supported is
the absence of a flag. -/
def beacon (p : Prot) : Kind → Bool
  | .llB => p.llbCoexist
  | .llG => p.llgCoexist
  | .ht20 => p.ht20Coexist
  | .nonGf => p.llnNonGFCoexist
  | .noLsig => !p.fLsigTXOPProtectionFullSupport

section Kinds

variable (cfg : Cfg)

def configured : Kind → Bool
  | .llB => cfg.cfgProtection.fromllb
  | .llG => cfg.cfgProtection.fromllg
  | .ht20 => cfg.cfgProtection.ht20
  | .nonGf => cfg.cfgProtection.nonGf
  | .noLsig => cfg.cfgProtection.lsigTxop

def startsOn : Kind → Bool
  | .noLsig => !cfg.lsigTXOPProtectionFullSupport
  | _ => false

/-- The kinds that `t` is of, as a station of this session. An HT session takes no station with
HT capability for an 11b station, and an IBSS only looks for those. -/
def isKind (k : Kind) (t : Sta) : Bool :=
  decide (cfg.gLimProtectionControl ≠ .DISABLE) &&
  match cfg.limSystemRole, k with
  | .eLIM_AP_ROLE, .llB =>
    decide (cfg.limRFBand = .SIR_BAND_2_4_GHZ) && !t.erpEnabled &&
      (if cfg.htCapability then !t.htCapability
        else decide (cfg.gLimPhyMode = .WNI_CFG_PHY_MODE_11G))
  | .eLIM_AP_ROLE, .llG =>
    decide (cfg.limRFBand = .SIR_BAND_2_4_GHZ) && cfg.htCapability && t.erpEnabled &&
      !t.htCapability
  | .eLIM_AP_ROLE, .ht20 =>
    cfg.htCapability && t.htCapability &&
      decide (t.htSupportedChannelWidthSet = .eHT_CHANNEL_WIDTH_20MHZ) &&
      decide (cfg.htSupportedChannelWidthSet ≠ .eHT_CHANNEL_WIDTH_20MHZ)
  | .eLIM_AP_ROLE, .nonGf => cfg.htCapability && t.htCapability && !t.htGreenfield
  | .eLIM_AP_ROLE, .noLsig => cfg.htCapability && t.htCapability && !t.htLsigTXOPProtection
  | .eLIM_STA_IN_IBSS_ROLE, .llB =>
    decide (cfg.limRFBand = .SIR_BAND_2_4_GHZ) && !t.erpEnabled && !t.htCapability &&
      (decide (cfg.gLimPhyMode = .WNI_CFG_PHY_MODE_11G) || cfg.htCapability)
  | .eLIM_STA_IN_IBSS_ROLE, _ => false

def tracked (t : Sta) : Bool :=
  isKind cfg .llB t || isKind cfg .llG t || isKind cfg .ht20 t || isKind cfg .nonGf t ||
    isKind cfg .noLsig t

def cacheType (t : Sta) : ProtStaCacheType :=
  if isKind cfg .llB t then .llB
  else if isKind cfg .llG t then .llG
  else if isKind cfg .ht20 t then .HT20
  else .INVALID

def tag (t : Sta) : CacheTag := ⟨t.staAddr, cacheType cfg t⟩

/-- The entries that stand for a kind: those of its type, or for the kinds without a type
those of an associated station of that kind. -/
def entries (k : Kind) (s : Session) : Nat :=
  (Slots.live s.prot.protStaCache).countP fun e =>
    match k with
    | .llB => decide (e.protStaCacheType = .llB)
    | .llG => decide (e.protStaCacheType = .llG)
    | .ht20 => decide (e.protStaCacheType = .HT20)
    | _ => s.stations.any fun t => t.hasAddr e.addr && isKind cfg k t

structure Tracks (s : Session) : Prop where
  counted : ∀ k, (counter s.prot k).toNat = s.stations.countP (isKind cfg k)
  cached : ∀ k, (counter s.prot k).toNat = entries cfg k s
  enabled : ∀ k, beacon s.prot k =
    (startsOn cfg k || configured cfg k && s.stations.any (isKind cfg k))

def Cached (a : MacAddr) (p : Prot) : Prop :=
  (Slots.find (CacheTag.hasAddr a) p.protStaCache).isSome
deriving Decidable

/-- The stations that leave an AP with what they count for: not one without greenfield or LSIG
TXOP protection, an HT20 station only if that protection is configured, and an HT station
without ERP only if it has no entry. -/
def ApLeaves (t : Sta) (p : Prot) : Prop :=
  isKind cfg .nonGf t = false ∧ isKind cfg .noLsig t = false ∧
    (isKind cfg .ht20 t = true → configured cfg .ht20 = true) ∧
    (cfg.limRFBand = .SIR_BAND_2_4_GHZ ∧ cfg.htCapability = true ∧ t.htCapability = true ∧
      t.erpEnabled = false → ¬ Cached t.staAddr p)
deriving Decidable

/-- The stations that leave an IBSS with what they count for: not the last 11b station if
protection from them is configured, and another station without ERP (one with HT) only if it
has no entry. -/
def IbssLeaves (t : Sta) (p : Prot) : Prop :=
  (isKind cfg .llB t = true → configured cfg .llB = true → counter p .llB ≠ 1) ∧
    (cfg.limRFBand = .SIR_BAND_2_4_GHZ ∧
        (cfg.gLimPhyMode = .WNI_CFG_PHY_MODE_11G ∨ cfg.htCapability = true) ∧
        t.erpEnabled = false ∧ isKind cfg .llB t = false →
      ¬ Cached t.staAddr p)
deriving Decidable

/-- A station that protection is needed from finds no entry of its address and a free slot. -/
def Joins (t : Sta) (p : Prot) : Prop :=
  tracked cfg t = true → ¬ Cached t.staAddr p ∧ (Slots.free p.protStaCache).isSome
deriving Decidable

def Leaves (t : Sta) (p : Prot) : Prop :=
  match cfg.limSystemRole with
  | .eLIM_AP_ROLE => ApLeaves cfg t p
  | .eLIM_STA_IN_IBSS_ROLE => IbssLeaves cfg t p

def Ok (s : Session) : Op → Prop
  | .add t => Joins cfg t s.prot
  | .respond _ => True
  | .delete addr => ∀ t ∈ s.stations.find? (Sta.hasAddr addr), Leaves cfg t s.prot

instance (t : Sta) (p : Prot) : Decidable (Leaves cfg t p) := by
  unfold Leaves
  split <;> infer_instance

instance (s : Session) (op : Op) : Decidable (Ok cfg s op) := by
  unfold Ok
  split <;> infer_instance

end Kinds

variable {cfg : Cfg} {s : Session} {t : Sta} {k : Kind}

/-! # One protection is enabled or disabled -/

def HtOper.Quiet (h : HtOper) : Prop :=
  h.gLimOlbcParams = false ∧ h.gLimOverlap11gParams = false

theorem HtOper.Quiet.rifs {h : HtOper} (hq : h.Quiet) (e : Bool) :
    (lim_enable_ht_rifs_protection cfg e h).Quiet := by
  unfold lim_enable_ht_rifs_protection
  repeat' split
  all_goals exact hq

theorem HtOper.Quiet.obss {h : HtOper} (hq : h.Quiet) (e : Bool) :
    (lim_enable_ht_obss_protection cfg e h).Quiet := by
  unfold lim_enable_ht_obss_protection
  repeat' split
  · exact hq
  · exact hq
  · exact ⟨hq.1, rfl⟩

theorem HtOper.Quiet.mixed {h : HtOper} (hq : h.Quiet) : (ht_oper_mode_mixed cfg h).Quiet := by
  unfold ht_oper_mode_mixed
  split
  · apply Quiet.obss
    apply Quiet.rifs
    exact hq
  · exact hq

theorem HtOper.Quiet.no_legacy {h : HtOper} (hq : h.Quiet) (f : HtOper → Bool)
    (m : HTOperatingMode) (b : Bool) : (ht_oper_mode_no_legacy cfg f m b h).Quiet := by
  have ho : (lim_enable_ht_obss_protection cfg false h).Quiet := hq.obss false
  unfold ht_oper_mode_no_legacy
  dsimp only
  repeat' split
  all_goals
    apply Quiet.rifs
    exact ho

/-- The last station of one legacy kind has left, and `b` says whether the other kind is
protected from. -/
theorem HtOper.Quiet.unless_legacy {h : HtOper} (hq : h.Quiet) (cfg : Cfg) (b b' : Bool) :
    (if !b then ht_oper_mode_no_legacy cfg HtOper.overlapLegacy .eSIR_HT_OP_MODE_PURE b' h
      else h).Quiet := by
  split
  · exact hq.no_legacy _ _ _
  · exact hq

/-- The flags become `f`, and nothing else that the counters have to do with changes. -/
structure Flagged (f : Kind → Bool) (s s' : Session) : Prop where
  stations : s'.stations = s.stations
  cache : s'.prot.protStaCache = s.prot.protStaCache
  counter : ∀ j, counter s'.prot j = counter s.prot j
  quiet : s'.ht.Quiet
  beacon : ∀ j, beacon s'.prot j = f j

theorem Flagged.refl {f : Kind → Bool} (hq : s.ht.Quiet)
    (h : ∀ j, LimProtection.beacon s.prot j = f j) : Flagged f s s :=
  ⟨rfl, rfl, fun _ => rfl, hq, h⟩

/-- The flag of `k` becomes `e` if `k` is configured. -/
abbrev Sets (cfg : Cfg) (k : Kind) (e : Bool) (s : Session) : Session → Prop :=
  Flagged (fun j => if j = k ∧ configured cfg k = true then e else beacon s.prot j) s

theorem Sets.gated {e : Bool} {s₁ : Session} (hq : s.ht.Quiet)
    (h : configured cfg k = true → Sets cfg k e s s₁) :
    Sets cfg k e s (if !configured cfg k then s else s₁) := by
  split
  next hc => exact Flagged.refl hq fun j => (if_neg fun hj => by simp [hj.2] at hc).symm
  next hc => exact h (by simpa using hc)

/-- The functions for HT begin with a test of the session. -/
theorem Sets.gated_ht {e : Bool} {s₁ : Session} (hq : s.ht.Quiet)
    (hht : cfg.htCapability = true) (h : configured cfg k = true → Sets cfg k e s s₁) :
    Sets cfg k e s (if !cfg.htCapability then s else if !configured cfg k then s else s₁) := by
  rw [if_neg (by simp [hht])]; exact Sets.gated hq h

theorem Sets.refl_of_eq {e : Bool} (hq : s.ht.Quiet) (h : beacon s.prot k = e) :
    Sets cfg k e s s := by
  refine Flagged.refl hq fun j => ?_
  split
  next hj => rw [hj.1, h]
  next => rfl

theorem sets_11g_enable (hq : s.ht.Quiet) :
    Sets cfg .llB true s (lim_enable11g_protection cfg true s) := by
  refine Sets.gated hq fun hc => ?_
  rw [if_pos rfl]
  unfold lim_handle_enable11g_protection_enabled
  refine ⟨rfl, rfl, fun j => by cases j <;> rfl, ?_, fun j => ?_⟩
  · split
    · exact hq.mixed
    · exact hq
  · cases j <;> simp [beacon, hc]

theorem sets_11g_disable (hq : s.ht.Quiet) :
    Sets cfg .llB false s (lim_enable11g_protection cfg false s) := by
  refine Sets.gated hq fun hc => ?_
  rw [if_neg Bool.false_ne_true]
  split
  next hllb =>
    have hq' := hq.unless_legacy cfg s.prot.gLim11gParams.protectionEnabled
      s.prot.gLimHt20Params.protectionEnabled
    unfold lim_handle_11g_protection_for_11bcoexist
    rw [if_pos (by rw [hq'.1]; rfl)]
    refine ⟨rfl, rfl, fun j => by cases j <;> rfl, hq', fun j => ?_⟩
    cases j <;> simp [beacon, hc]
  next hllb => exact Sets.refl_of_eq hq (by simpa [beacon] using hllb)

theorem sets_from11g_enable (hq : s.ht.Quiet) (hht : cfg.htCapability = true) :
    Sets cfg .llG true s (lim_enable_ht_protection_from11g cfg true s) := by
  refine Sets.gated_ht hq hht fun hc => ?_
  refine ⟨rfl, rfl, fun j => by cases j <;> rfl, hq.mixed, fun j => ?_⟩
  cases j <;> simp [beacon, hc]

theorem sets_from11g_disable (hq : s.ht.Quiet) (hht : cfg.htCapability = true) :
    Sets cfg .llG false s (lim_enable_ht_protection_from11g cfg false s) := by
  refine Sets.gated_ht hq hht fun hc => ?_
  rw [if_neg Bool.false_ne_true]
  split
  next hllg =>
    have hq' := hq.unless_legacy cfg s.prot.gLim11bParams.protectionEnabled
      s.prot.gLimHt20Params.protectionEnabled
    rw [if_pos (by rw [hq'.2]; rfl)]
    refine ⟨rfl, rfl, fun j => by cases j <;> rfl, hq', fun j => ?_⟩
    cases j <;> simp [beacon, hc]
  next hllg => exact Sets.refl_of_eq hq (by simpa [beacon] using hllg)

theorem sets_ht20 (hq : s.ht.Quiet) (hht : cfg.htCapability = true) (e : Bool) :
    Sets cfg .ht20 e s (lim_enable_ht20_protection cfg e s) := by
  refine Sets.gated_ht hq hht fun hc => ?_
  cases e with
  | true =>
    rw [if_pos rfl]
    unfold lim_handle_ht20protection_enabled
    refine ⟨rfl, rfl, fun j => by cases j <;> rfl, ?_, fun j => ?_⟩
    · split
      · apply HtOper.Quiet.obss
        apply HtOper.Quiet.rifs
        split <;> exact hq
      · exact hq
    · cases j <;> simp [beacon, hc]
  | false =>
    rw [if_neg Bool.false_ne_true]
    split
    · unfold lim_handle_ht20coexist_ht20protection
      refine ⟨rfl, rfl, fun j => by cases j <;> rfl, ?_, fun j => ?_⟩
      · split
        · apply HtOper.Quiet.obss
          apply HtOper.Quiet.rifs
          exact hq
        · exact hq
      · cases j <;> simp [beacon, hc]
    next h20 => exact Sets.refl_of_eq hq (by simpa [beacon] using h20)

theorem sets_non_gf (hq : s.ht.Quiet) (hht : cfg.htCapability = true) (e : Bool) :
    Sets cfg .nonGf e s (lim_enable_ht_non_gf_protection cfg e s) := by
  refine Sets.gated_ht hq hht fun hc => ?_
  refine ⟨rfl, rfl, fun j => by cases j <;> rfl, hq, fun j => ?_⟩
  cases j <;> simp [beacon, hc]

theorem sets_lsig_txop (hq : s.ht.Quiet) (hht : cfg.htCapability = true) (e : Bool) :
    Sets cfg .noLsig (!e) s (lim_enable_ht_lsig_txop_protection cfg e s) := by
  refine Sets.gated_ht hq hht fun hc => ?_
  refine ⟨rfl, rfl, fun j => by cases j <;> rfl, hq, fun j => ?_⟩
  cases j <;> simp [beacon, hc]

theorem update_11a_keeps (cfg : Cfg) (hq : s.ht.Quiet) (e : Bool) :
    let s' := lim_update_11a_protection cfg e s
    s'.stations = s.stations ∧ s'.prot.protStaCache = s.prot.protStaCache ∧
      counter s'.prot = counter s.prot ∧ s'.ht.Quiet ∧ beacon s'.prot = beacon s.prot := by
  unfold lim_update_11a_protection lim_enable_11a_protection lim_disable_11a_protection
  dsimp only
  repeat' split
  all_goals
    refine ⟨rfl, rfl, ?_, ?_, ?_⟩
    · funext j; cases j <;> rfl
    · first | exact hq | exact hq.mixed | exact hq.no_legacy _ _ _
    · funext j; cases j <;> rfl

/-! # The kinds of a station -/

theorem isKind_tracked (h : isKind cfg k t = true) : tracked cfg t = true := by
  unfold tracked
  cases k <;> simp [h]

theorem isKind_of_untracked (h : tracked cfg t = false) (k : Kind) : isKind cfg k t = false := by
  rw [← Bool.not_eq_true]
  intro hk
  rw [isKind_tracked hk] at h
  cases h

theorem not_llG_of_llB (h : isKind cfg .llB t = true) : isKind cfg .llG t = false := by
  cases hr : cfg.limSystemRole <;> cases he : t.erpEnabled <;> simp_all [isKind]

theorem not_ht20_of_llB (h : isKind cfg .llB t = true) : isKind cfg .ht20 t = false := by
  cases hr : cfg.limSystemRole <;> cases hc : cfg.htCapability <;> simp_all [isKind]

theorem not_ht20_of_llG (h : isKind cfg .llG t = true) : isKind cfg .ht20 t = false := by
  cases hr : cfg.limSystemRole <;> simp_all [isKind]

theorem cacheType_eq_llB : cacheType cfg t = .llB ↔ isKind cfg .llB t = true := by
  unfold cacheType
  repeat' split
  all_goals simp_all

theorem cacheType_eq_llG : cacheType cfg t = .llG ↔ isKind cfg .llG t = true := by
  unfold cacheType
  split
  next h => simp [not_llG_of_llB h]
  next =>
    repeat' split
    all_goals simp_all

theorem cacheType_eq_HT20 : cacheType cfg t = .HT20 ↔ isKind cfg .ht20 t = true := by
  unfold cacheType
  split
  next h => simp [not_ht20_of_llB h]
  next =>
    split
    next h => simp [not_ht20_of_llG h]
    next => split <;> simp_all

/-! # The invariant -/

/-- The cache and the counters against the stations `l`. An entry is that of a station that
is protected from, or it has no type; the latter are also what stations left behind. -/
structure Base (cfg : Cfg) (l : List Sta) (p : Prot) : Prop where
  size : p.protStaCache.length = cfg.cacheSize
  addrs : (l.map Sta.staAddr).Nodup
  liveAddrs : ((Slots.live p.protStaCache).map CacheTag.addr).Nodup
  cached : ∃ rest,
    (Slots.live p.protStaCache).Perm ((l.filter (tracked cfg)).map (tag cfg) ++ rest) ∧
      ∀ e ∈ rest, e.protStaCacheType = .INVALID
  counted : ∀ k, (counter p k).toNat = l.countP (isKind cfg k)

def Flags (cfg : Cfg) (l : List Sta) (p : Prot) : Prop :=
  ∀ k, beacon p k = (startsOn cfg k || configured cfg k && l.any (isKind cfg k))

structure Inv (cfg : Cfg) (l : List Sta) (s : Session) : Prop where
  base : Base cfg l s.prot
  flags : Flags cfg l s.prot
  quiet : s.ht.Quiet

variable {l : List Sta} {p p' : Prot}

theorem Base.congr (h : Base cfg l p) (hc : p'.protStaCache = p.protStaCache)
    (hn : ∀ k, counter p' k = counter p k) : Base cfg l p' := by
  refine ⟨by rw [hc, h.size], h.addrs, by rw [hc]; exact h.liveAddrs, by rw [hc]; exact h.cached, ?_⟩
  intro k
  rw [hn, h.counted]

theorem Base.eq_of_addr (h : Base cfg l p) {t t' : Sta} (ht : t ∈ l) (ht' : t' ∈ l)
    (ha : t.staAddr = t'.staAddr) : t = t' :=
  inj_on_of_nodup_map h.addrs ht ht' ha

theorem Base.tag_mem (h : Base cfg l p) (ht : t ∈ l) (hk : tracked cfg t = true) :
    tag cfg t ∈ Slots.live p.protStaCache := by
  obtain ⟨rest, hperm, -⟩ := h.cached
  refine hperm.mem_iff.mpr (mem_append_left rest ?_)
  exact mem_map.mpr ⟨t, mem_filter.mpr ⟨ht, hk⟩, rfl⟩

theorem Base.isCached (h : Base cfg l p) (ht : t ∈ l) (hk : tracked cfg t = true) :
    Cached t.staAddr p := by
  rw [Cached, Option.isSome_iff_ne_none]
  intro hnone
  have hf := Slots.find_eq_none.mp hnone _ (h.tag_mem ht hk)
  simp [CacheTag.hasAddr, tag] at hf

theorem not_cached_iff {a : MacAddr} :
    ¬ Cached a p ↔ ∀ e ∈ Slots.live p.protStaCache, e.addr ≠ a := by
  rw [Cached, Option.not_isSome_iff_eq_none, Slots.find_eq_none]; simp [CacheTag.hasAddr]

theorem countP_lt {rest : List CacheTag} (hsize : p.protStaCache.length = cfg.cacheSize)
    (hperm : (Slots.live p.protStaCache).Perm ((l.filter (tracked cfg)).map (tag cfg) ++ rest))
    (k : Kind) : l.countP (isKind cfg k) < 256 := by
  have hlen := hperm.length_eq
  rw [length_append, length_map, ← countP_eq_length_filter] at hlen
  have hle : l.countP (isKind cfg k) ≤ l.countP (tracked cfg) :=
    countP_mono_left fun t _ hk => isKind_tracked hk
  have hlive := Slots.live_length_le p.protStaCache
  have hcfg := cfg.cacheSize_lt
  omega

/-! # What the invariant says of the counters -/

theorem Base.countP_tagged (h : Base cfg l p) {q : CacheTag → Bool}
    (hq : ∀ e, e.protStaCacheType = .INVALID → q e = false)
    (hk : ∀ t, q (tag cfg t) = isKind cfg k t) :
    (Slots.live p.protStaCache).countP q = l.countP (isKind cfg k) := by
  obtain ⟨rest, hperm, hrest⟩ := h.cached
  have hzero : rest.countP q = 0 := by
    rw [countP_eq_zero]
    intro e he
    rw [hq e (hrest e he)]; exact Bool.false_ne_true
  have hmap : ((l.filter (tracked cfg)).map (tag cfg)).countP q =
      (l.filter (tracked cfg)).countP (isKind cfg k) := by
    rw [countP_map]; exact countP_congr fun t _ => by rw [Function.comp_apply, hk]
  rw [hperm.countP_eq, countP_append, hzero, Nat.add_zero, hmap, countP_filter]
  refine countP_congr fun t _ => ?_
  rw [Bool.and_eq_true_iff]; exact ⟨fun h => h.1, fun h => ⟨h, isKind_tracked h⟩⟩

theorem Base.countP_owned (h : Base cfg l p) (k : Kind) :
    (Slots.live p.protStaCache).countP
        (fun e => l.any fun t => t.hasAddr e.addr && isKind cfg k t) =
      l.countP (isKind cfg k) := by
  obtain ⟨rest, hperm, -⟩ := h.cached
  have hnodup := (hperm.map CacheTag.addr).nodup_iff.mp h.liveAddrs
  rw [map_append, nodup_append] at hnodup
  have hzero : rest.countP (fun e => l.any fun t => t.hasAddr e.addr && isKind cfg k t) = 0 := by
    rw [countP_eq_zero]
    intro e he hany
    obtain ⟨t, ht, hte⟩ := any_eq_true.mp hany
    obtain ⟨ha, hkt⟩ := Bool.and_eq_true_iff.mp hte
    have hmem : tag cfg t ∈ (l.filter (tracked cfg)).map (tag cfg) :=
      mem_map.mpr ⟨t, mem_filter.mpr ⟨ht, isKind_tracked hkt⟩, rfl⟩
    refine hnodup.2.2 _ (mem_map_of_mem hmem) _ (mem_map_of_mem he) ?_
    exact beq_iff_eq.mp ha
  rw [hperm.countP_eq, countP_append, hzero, Nat.add_zero, countP_map, countP_filter]
  refine countP_congr fun t ht => ?_
  rw [Bool.and_eq_true_iff, Function.comp_apply, any_eq_true]
  constructor
  · rintro ⟨⟨t', ht', hte⟩, -⟩
    obtain ⟨ha, hkt⟩ := Bool.and_eq_true_iff.mp hte
    rwa [h.eq_of_addr ht ht' (beq_iff_eq.mp ha).symm]
  · intro hkt; exact ⟨⟨t, ht, by simp [Sta.hasAddr, tag, hkt]⟩, isKind_tracked hkt⟩

theorem Inv.tracks (h : Inv cfg s.stations s) : Tracks cfg s := by
  refine ⟨h.base.counted, fun k => ?_, h.flags⟩
  rw [h.base.counted, entries]
  symm
  cases k with
  | llB =>
    refine h.base.countP_tagged (fun e he => by simp [he]) fun t => ?_
    rw [Bool.eq_iff_iff, decide_eq_true_iff]; exact cacheType_eq_llB
  | llG =>
    refine h.base.countP_tagged (fun e he => by simp [he]) fun t => ?_
    rw [Bool.eq_iff_iff, decide_eq_true_iff]; exact cacheType_eq_llG
  | ht20 =>
    refine h.base.countP_tagged (fun e he => by simp [he]) fun t => ?_
    rw [Bool.eq_iff_iff, decide_eq_true_iff]; exact cacheType_eq_HT20
  | nonGf => exact h.base.countP_owned _
  | noLsig => exact h.base.countP_owned _

/-! # A station joins -/

/-- Protection from the kinds of `K` is enabled, as far as they are configured. -/
abbrev Enables (cfg : Cfg) (K : Kind → Bool) (s : Session) : Session → Prop :=
  Flagged (fun j => beacon s.prot j || configured cfg j && K j) s

variable {s₁ s₂ : Session} {K K' : Kind → Bool}

theorem Enables.refl (hq : s.ht.Quiet) (hK : ∀ j, K j = false) : Enables cfg K s s :=
  Flagged.refl hq fun j => by rw [hK, Bool.and_false, Bool.or_false]

theorem Sets.enables (h : Sets cfg k true s s₁) (hK : ∀ j, K j = decide (j = k)) :
    Enables cfg K s s₁ := by
  refine ⟨h.stations, h.cache, h.counter, h.quiet, fun j => ?_⟩
  rw [h.beacon, hK]
  by_cases hj : j = k
  · subst hj
    cases hc : configured cfg j <;> simp
  · simp [hj]

/-- The step that a station of kind `k` asks for. -/
theorem Sets.of_kind (hq : s.ht.Quiet) (h : Sets cfg k true s s₁) :
    Enables cfg (fun j => decide (j = k) && isKind cfg j t) s
      (if isKind cfg k t = true then s₁ else s) := by
  split
  next hk =>
    refine Sets.enables h fun j => ?_
    by_cases hj : j = k <;> simp [hj, hk]
  next hk =>
    refine Enables.refl hq fun j => ?_
    by_cases hj : j = k <;> simp [hj, hk]

theorem Enables.trans (h : Enables cfg K s s₁) (h' : Enables cfg K' s₁ s₂) :
    Enables cfg (fun j => K j || K' j) s s₂ := by
  refine ⟨h'.stations.trans h.stations, h'.cache.trans h.cache,
    fun j => (h'.counter j).trans (h.counter j), h'.quiet, fun j => ?_⟩
  rw [h'.beacon, h.beacon, Bool.and_or_distrib_left, Bool.or_assoc]

theorem Enables.congr (h : Enables cfg K s s₁) (hK : ∀ j, K' j = K j) : Enables cfg K' s s₁ := by
  rwa [show K' = K from funext hK]

theorem decide_2_4 (hq : s.ht.Quiet) (hr : cfg.limSystemRole = .eLIM_AP_ROLE)
    (hc : cfg.gLimProtectionControl ≠ .DISABLE) (hb : cfg.limRFBand = .SIR_BAND_2_4_GHZ) :
    Enables cfg (fun j => (decide (j = .llB) || decide (j = .llG)) && isKind cfg j t) s
        (lim_decide_ap_protection_2_4 cfg t s).2 ∧
      (lim_decide_ap_protection_2_4 cfg t s).1 =
        if isKind cfg .llB t then .llB else if isKind cfg .llG t then .llG else .INVALID := by
  have hB : isKind cfg .llB t = (!t.erpEnabled && (if cfg.htCapability then !t.htCapability
      else decide (cfg.gLimPhyMode = .WNI_CFG_PHY_MODE_11G))) := by simp [isKind, hr, hc, hb]
  have hG : isKind cfg .llG t = (cfg.htCapability && t.erpEnabled && !t.htCapability) := by
    simp [isKind, hr, hc, hb]
  unfold lim_decide_ap_protection_2_4
  by_cases hht : cfg.htCapability = true
  · rw [if_neg (by simp [hht])]
    dsimp only
    rw [if_pos hht]
    cases hth : t.htCapability with
    | true =>
      rw [if_neg (by simp), if_neg (by simp)]
      refine ⟨Enables.refl hq fun j => ?_, ?_⟩
      · cases j <;> simp [hB, hG, hht, hth]
      · simp [hB, hG, hht, hth]
    | false =>
      cases he : t.erpEnabled with
      | false =>
        refine ⟨(sets_11g_enable hq).enables fun j => ?_, ?_⟩
        · cases j <;> simp [hB, hG, hht, hth, he]
        · simp [hB, hht, hth, he]
      | true =>
        refine ⟨(sets_from11g_enable hq hht).enables fun j => ?_, ?_⟩
        · cases j <;> simp [hB, hG, hht, hth, he]
        · simp [hB, hG, hht, hth, he]
  · rw [Bool.not_eq_true] at hht
    by_cases hp : cfg.gLimPhyMode = .WNI_CFG_PHY_MODE_11G
    · rw [if_pos ⟨hp, hht⟩]
      cases he : t.erpEnabled with
      | false =>
        dsimp only
        rw [if_neg (by simp [hht])]
        refine ⟨(sets_11g_enable hq).enables fun j => ?_, ?_⟩
        · cases j <;> simp [hB, hG, hht, he, hp]
        · simp [hB, hht, he, hp]
      | true =>
        dsimp only
        rw [if_neg (by simp [hht])]
        refine ⟨Enables.refl hq fun j => ?_, ?_⟩
        · cases j <;> simp [hB, hG, hht, he]
        · simp [hB, hG, hht, he]
    · rw [if_neg fun h => hp h.1]
      dsimp only
      rw [if_neg (by simp [hht])]
      refine ⟨Enables.refl hq fun j => ?_, ?_⟩
      · cases j <;> simp [hB, hG, hht, hp]
      · simp [hB, hG, hht, hp]

theorem decide_ht (hq : s.ht.Quiet) (hr : cfg.limSystemRole = .eLIM_AP_ROLE)
    (hc : cfg.gLimProtectionControl ≠ .DISABLE) (hht : cfg.htCapability = true)
    (hth : t.htCapability = true) (ty : ProtStaCacheType) :
    Enables cfg (fun j => (decide (j = .ht20) || decide (j = .nonGf) || decide (j = .noLsig)) &&
          isKind cfg j t) s (lim_decide_ap_protection_ht cfg t ty s).2 ∧
      (lim_decide_ap_protection_ht cfg t ty s).1 = if isKind cfg .ht20 t then .HT20 else ty := by
  have hgf : isKind cfg .nonGf t = !t.htGreenfield := by simp [isKind, hr, hc, hht, hth]
  have hls : isKind cfg .noLsig t = !t.htLsigTXOPProtection := by simp [isKind, hr, hc, hht, hth]
  have h20 : isKind cfg .ht20 t = true ↔
      t.htSupportedChannelWidthSet = .eHT_CHANNEL_WIDTH_20MHZ ∧
        cfg.htSupportedChannelWidthSet ≠ .eHT_CHANNEL_WIDTH_20MHZ := by
    simp [isKind, hr, hc, hht, hth]
  -- the three decisions one after the other
  have e₁ := Sets.of_kind (t := t) hq (sets_non_gf hq hht true)
  rw [hgf] at e₁
  generalize hs₁ : (if (!t.htGreenfield) = true then lim_enable_ht_non_gf_protection cfg true s
    else s) = s₁ at e₁
  have e₂ := Sets.of_kind (t := t) e₁.quiet (sets_ht20 e₁.quiet hht true)
  generalize hs₂ : (if isKind cfg .ht20 t = true then lim_enable_ht20_protection cfg true s₁
    else s₁) = s₂ at e₂
  have e₃ := Sets.of_kind (t := t) e₂.quiet (sets_lsig_txop e₂.quiet hht false)
  rw [hls] at e₃
  have hres : lim_decide_ap_protection_ht cfg t ty s =
      (if isKind cfg .ht20 t = true then .HT20 else ty,
        if (!t.htLsigTXOPProtection) = true then lim_enable_ht_lsig_txop_protection cfg false s₂
        else s₂) := by
    unfold lim_decide_ap_protection_ht
    rw [hs₁]
    dsimp only
    by_cases h : isKind cfg .ht20 t = true
    · rw [if_pos (h20.mp h)]
      rw [if_pos h] at hs₂; simp only [h, if_true, hs₂]
    · rw [if_neg fun h' => h (h20.mpr h')]
      rw [if_neg h] at hs₂
      simp only [h, hs₂]
      rfl
  rw [hres]
  refine ⟨((Enables.trans e₁ e₂).trans e₃).congr fun j => ?_, rfl⟩
  cases j <;> simp

/-- The kinds that `lim_update_prot_sta_params` counts. -/
def counts (ty : ProtStaCacheType) (gf lsig : Bool) : Kind → Bool
  | .llB => decide (ty = .llB)
  | .llG => decide (ty = .llG)
  | .ht20 => decide (ty = .HT20)
  | .nonGf => !gf
  | .noLsig => !lsig

/-- What becomes of the cache and of the counters when `e` is to be entered: nothing, because
the address has an entry or there is no slot; or `e` is entered and the kinds `K` are counted. -/
def Enters (e : CacheTag) (K : Kind → Bool) (p p' : Prot) : Prop :=
  (p' = p ∧ (Cached e.addr p ∨ Slots.free p.protStaCache = none)) ∨
    (¬ Cached e.addr p ∧ p'.protStaCache.length = p.protStaCache.length ∧
      (Slots.live p'.protStaCache).Perm (e :: Slots.live p.protStaCache) ∧
      beacon p' = beacon p ∧ ∀ k, counter p' k = counter p k + if K k then 1 else 0)

theorem update_enters (a : MacAddr) (ty : ProtStaCacheType) (gf lsig : Bool) (p : Prot) :
    Enters ⟨a, ty⟩ (counts ty gf lsig) p (lim_update_prot_sta_params a ty gf lsig p) := by
  unfold lim_update_prot_sta_params
  cases hf : Slots.find (CacheTag.hasAddr a) p.protStaCache with
  | some i => exact Or.inl ⟨rfl, Or.inl (by rw [Cached, hf]; rfl)⟩
  | none =>
    cases hfree : Slots.free p.protStaCache with
    | none => exact Or.inl ⟨rfl, Or.inr hfree⟩
    | some i =>
      refine Or.inr ⟨by rw [Cached, hf]; simp, ?_, ?_, ?_, fun k => ?_⟩
      · cases ty <;> cases gf <;> cases lsig <;> exact Slots.length_fill ..
      · cases ty <;> cases gf <;> cases lsig <;> exact Slots.fill_free hfree _
      · funext k
        cases ty <;> cases gf <;> cases lsig <;> cases k <;> rfl
      · cases ty <;> cases gf <;> cases lsig <;> cases k <;>
          simp [counts, counter, Prot.incType, ProtStaParams.inc]

theorem ibss_update_eq (a : MacAddr) {ty : ProtStaCacheType} (hty : ty ≠ .HT20) (p : Prot) :
    lim_ibss_update_protection_params a ty p = lim_update_prot_sta_params a ty true true p := by
  cases ty with
  | HT20 => exact absurd rfl hty
  | INVALID => rfl
  | llB => rfl
  | llG => rfl

structure Decides (cfg : Cfg) (t : Sta) (s s' : Session) : Prop where
  stations : s'.stations = s.stations
  quiet : s'.ht.Quiet
  beacon : ∀ k, beacon s'.prot k = (beacon s.prot k || configured cfg k && isKind cfg k t)
  cache :
    (s'.prot.protStaCache = s.prot.protStaCache ∧ (∀ k, counter s'.prot k = counter s.prot k) ∧
      (tracked cfg t = true → Cached t.staAddr s.prot ∨ Slots.free s.prot.protStaCache = none)) ∨
    (¬ Cached t.staAddr s.prot ∧ s'.prot.protStaCache.length = s.prot.protStaCache.length ∧
      (Slots.live s'.prot.protStaCache).Perm (tag cfg t :: Slots.live s.prot.protStaCache) ∧
      ∀ k, counter s'.prot k = counter s.prot k + if isKind cfg k t then 1 else 0)

theorem Enables.decides (h : Enables cfg (fun j => isKind cfg j t) s s₁)
    (he : Enters (tag cfg t) (fun j => isKind cfg j t) s₁.prot p') :
    Decides cfg t s { s₁ with prot := p' } := by
  have hcached : Cached t.staAddr s₁.prot ↔ Cached t.staAddr s.prot := by
    rw [Cached, Cached, h.cache]
  rcases he with ⟨rfl, hbusy⟩ | ⟨hnew, hlen, hperm, hbeacon, hcount⟩
  · refine ⟨h.stations, h.quiet, h.beacon, Or.inl ⟨h.cache, h.counter, fun _ => ?_⟩⟩
    rw [h.cache] at hbusy; exact hbusy.imp_left hcached.mp
  · refine ⟨h.stations, h.quiet, fun k => ?_, Or.inr ⟨fun hc => hnew (hcached.mpr hc), ?_, ?_, ?_⟩⟩
    · rw [← h.beacon k]; exact congrFun hbeacon k
    · rw [← h.cache]; exact hlen
    · rw [← h.cache]; exact hperm
    · intro k
      rw [← h.counter k]; exact hcount k

theorem counts_eq (cfg : Cfg) (t : Sta) :
    counts (cacheType cfg t) (!isKind cfg .nonGf t) (!isKind cfg .noLsig t) =
      fun j => isKind cfg j t := by
  funext j
  cases j with
  | llB => exact Bool.eq_iff_iff.mpr (decide_eq_true_iff.trans cacheType_eq_llB)
  | llG => exact Bool.eq_iff_iff.mpr (decide_eq_true_iff.trans cacheType_eq_llG)
  | ht20 => exact Bool.eq_iff_iff.mpr (decide_eq_true_iff.trans cacheType_eq_HT20)
  | nonGf => exact Bool.not_not _
  | noLsig => exact Bool.not_not _

theorem ap_decides (hq : s.ht.Quiet) (hr : cfg.limSystemRole = .eLIM_AP_ROLE)
    (hc : cfg.gLimProtectionControl ≠ .DISABLE)
    (ht : s.stations.find? (Sta.hasAddr t.staAddr) = some t) :
    Decides cfg t s (lim_decide_ap_protection cfg t.staAddr s) := by
  unfold lim_decide_ap_protection
  rw [ht]
  dsimp only
  by_cases h5 : cfg.limRFBand = .SIR_BAND_5_GHZ ∧ cfg.htCapability = true ∧ t.htCapability = false
  · -- an 11a station is none of the kinds
    rw [if_pos h5]
    have hnone : ∀ k, isKind cfg k t = false := by
      intro k
      cases k <;> simp [isKind, hr, h5]
    obtain ⟨hst, hcache, hcount, hq', hbeacon⟩ := update_11a_keeps cfg hq true
    refine ⟨hst, hq', fun k => ?_, Or.inl ⟨hcache, congrFun hcount, fun htr => ?_⟩⟩
    · rw [hbeacon, hnone, Bool.and_false, Bool.or_false]
    · rw [tracked] at htr; simp [hnone] at htr
  · rw [if_neg h5]
    -- the legacy kinds
    have h₁ : Enables cfg (fun j => (decide (j = .llB) || decide (j = .llG)) && isKind cfg j t) s
          (if cfg.limRFBand = .SIR_BAND_2_4_GHZ then lim_decide_ap_protection_2_4 cfg t s
            else (.INVALID, s)).2 ∧
        (if cfg.limRFBand = .SIR_BAND_2_4_GHZ then lim_decide_ap_protection_2_4 cfg t s
          else (.INVALID, s)).1 =
          if isKind cfg .llB t then .llB else if isKind cfg .llG t then .llG else .INVALID := by
      split
      next hb => exact decide_2_4 hq hr hc hb
      next hb =>
        refine ⟨Enables.refl hq fun j => ?_, ?_⟩
        · cases j <;> simp [isKind, hr, hb]
        · simp [isKind, hr, hb]
    generalize (if cfg.limRFBand = .SIR_BAND_2_4_GHZ then lim_decide_ap_protection_2_4 cfg t s
      else (.INVALID, s)) = r₁ at h₁ ⊢
    obtain ⟨ty, s₁⟩ := r₁
    obtain ⟨e₁, hty⟩ := h₁
    dsimp only at e₁ hty ⊢
    by_cases hht : (cfg.htCapability && t.htCapability) = true
    · rw [if_pos hht]
      obtain ⟨hh, hth⟩ := Bool.and_eq_true_iff.mp hht
      obtain ⟨e₂, hty'⟩ := decide_ht (t := t) e₁.quiet hr hc hh hth ty
      generalize lim_decide_ap_protection_ht cfg t ty s₁ = r₂ at e₂ hty' ⊢
      obtain ⟨ty', s₂⟩ := r₂
      dsimp only at e₂ hty' ⊢
      have hB : isKind cfg .llB t = false := by simp [isKind, hr, hh, hth]
      have hG : isKind cfg .llG t = false := by simp [isKind, hr, hh, hth]
      have htype : ty' = cacheType cfg t := by simp [hty', hty, cacheType, hB, hG]
      have hgf : t.htGreenfield = !isKind cfg .nonGf t := by simp [isKind, hr, hc, hh, hth]
      have hls : t.htLsigTXOPProtection = !isKind cfg .noLsig t := by
        simp [isKind, hr, hc, hh, hth]
      have he := update_enters t.staAddr (cacheType cfg t) (!isKind cfg .nonGf t)
        (!isKind cfg .noLsig t) s₂.prot
      rw [counts_eq] at he
      rw [htype, hgf, hls]
      refine Enables.decides ((e₁.trans e₂).congr fun j => ?_) he
      cases j <;> simp
    · rw [if_neg hht]
      have h20 : isKind cfg .ht20 t = false := by simp [isKind, hr, hht]
      have hgf : isKind cfg .nonGf t = false := by simp [isKind, hr, hht]
      have hls : isKind cfg .noLsig t = false := by simp [isKind, hr, hht]
      have htype : ty = cacheType cfg t := by simp [hty, cacheType, h20]
      have he := update_enters t.staAddr (cacheType cfg t) (!isKind cfg .nonGf t)
        (!isKind cfg .noLsig t) s₁.prot
      rw [counts_eq, hgf, hls] at he
      rw [htype]
      refine Enables.decides (e₁.congr fun j => ?_) he
      cases j <;> simp [h20, hgf, hls]

theorem sets_ibss (hq : s.ht.Quiet) (e : Bool) :
    Sets cfg .llB e s { s with prot := lim_ibss_set_protection cfg e s.prot } := by
  unfold lim_ibss_set_protection
  rw [apply_ite fun p : Prot => ({ s with prot := p } : Session)]
  refine Sets.gated hq fun hc => ?_
  cases e with
  | true =>
    refine ⟨rfl, rfl, fun j => by cases j <;> rfl, hq, fun j => ?_⟩
    cases j <;> simp [beacon, hc]
  | false =>
    rw [if_neg Bool.false_ne_true]
    split
    · refine ⟨rfl, rfl, fun j => by cases j <;> rfl, hq, fun j => ?_⟩
      cases j <;> simp [beacon, hc]
    next hllb => exact Sets.refl_of_eq hq (by simpa [beacon] using hllb)

theorem isKind_ibss (hr : cfg.limSystemRole = .eLIM_STA_IN_IBSS_ROLE) (hk : k ≠ .llB) :
    isKind cfg k t = false := by
  cases k <;> simp_all [isKind]

theorem ibss_decides (hq : s.ht.Quiet) (hr : cfg.limSystemRole = .eLIM_STA_IN_IBSS_ROLE)
    (hc : cfg.gLimProtectionControl ≠ .DISABLE) :
    Decides cfg t s { s with prot := lim_ibss_decide_protection cfg t s.prot } := by
  have hB : isKind cfg .llB t = true ↔ cfg.limRFBand = .SIR_BAND_2_4_GHZ ∧
      (cfg.gLimPhyMode = .WNI_CFG_PHY_MODE_11G ∨ cfg.htCapability = true) ∧
      t.erpEnabled = false ∧ t.htCapability = false := by
    simp [isKind, hr, hc]
    tauto
  have hG : isKind cfg .llG t = false := isKind_ibss hr (by decide)
  have h20 : isKind cfg .ht20 t = false := isKind_ibss hr (by decide)
  have hgf : isKind cfg .nonGf t = false := isKind_ibss hr (by decide)
  have hls : isKind cfg .noLsig t = false := isKind_ibss hr (by decide)
  have hcount : counts (cacheType cfg t) true true = fun j => isKind cfg j t := by
    have h := counts_eq cfg t
    rwa [hgf, hls] at h
  unfold lim_ibss_decide_protection
  by_cases hk : isKind cfg .llB t = true
  · rw [if_pos (hB.mp hk), ibss_update_eq _ (by decide), ← cacheType_eq_llB.mpr hk]
    have he := update_enters t.staAddr (cacheType cfg t) true true
      (lim_ibss_set_protection cfg true s.prot)
    rw [hcount] at he
    have hen : Enables cfg (fun j => isKind cfg j t) s
        { s with prot := lim_ibss_set_protection cfg true s.prot } := by
      refine (sets_ibss hq true).enables fun j => ?_
      cases j <;> simp [hk, hG, h20, hgf, hls]
    exact hen.decides he
  · have htype : cacheType cfg t = .INVALID := by simp [cacheType, hk, hG, h20]
    rw [if_neg fun h => hk (hB.mpr h), ibss_update_eq _ (by decide), ← htype]
    have he := update_enters t.staAddr (cacheType cfg t) true true s.prot
    rw [hcount] at he
    refine Enables.decides (Enables.refl hq fun j => ?_) he
    cases j <;> simp [hk, hG, h20, hgf, hls]

/-! ## The invariant, when a station joins -/

theorem tag_type_of_untracked (h : tracked cfg t = false) :
    (tag cfg t).protStaCacheType = .INVALID := by simp [tag, cacheType, isKind_of_untracked h]

theorem Flags.join (h : Flags cfg l s.prot) (hd : Decides cfg t s s₁) :
    Flags cfg (t :: l) s₁.prot := by
  intro k
  rw [hd.beacon, h k, any_cons, Bool.and_or_distrib_left, Bool.or_assoc, Bool.or_comm
    (configured cfg k && isKind cfg k t)]

theorem Base.enter_untracked (h : Base cfg l p) (hu : tracked cfg t = false)
    (hnew : ¬ Cached t.staAddr p) (hlen : p'.protStaCache.length = p.protStaCache.length)
    (hperm : (Slots.live p'.protStaCache).Perm (tag cfg t :: Slots.live p.protStaCache))
    (hcount : ∀ k, counter p' k = counter p k + if isKind cfg k t then 1 else 0) :
    Base cfg l p' := by
  obtain ⟨rest, hrest, htype⟩ := h.cached
  refine ⟨hlen.trans h.size, h.addrs, ?_, ⟨tag cfg t :: rest, ?_, ?_⟩, fun k => ?_⟩
  · rw [(hperm.map CacheTag.addr).nodup_iff, map_cons, nodup_cons]
    refine ⟨fun hmem => ?_, h.liveAddrs⟩
    obtain ⟨e, he, hea⟩ := mem_map.mp hmem
    exact not_cached_iff.mp hnew e he hea
  · exact hperm.trans ((hrest.cons _).trans perm_middle.symm)
  · intro e he
    rcases mem_cons.mp he with rfl | he
    · exact tag_type_of_untracked hu
    · exact htype e he
  · rw [hcount, isKind_of_untracked hu, if_neg Bool.false_ne_true, UInt8.add_zero, h.counted]

theorem Base.add_untracked (h : Base cfg l p) (hu : tracked cfg t = false)
    (hnew : t.staAddr ∉ l.map Sta.staAddr) : Base cfg (t :: l) p := by
  refine ⟨h.size, ?_, h.liveAddrs, ?_, fun k => ?_⟩
  · exact nodup_cons.mpr ⟨hnew, h.addrs⟩
  · rw [filter_cons_of_neg (by simp [hu])]; exact h.cached
  · rw [countP_cons_of_neg (by simp [isKind_of_untracked hu]), h.counted]

theorem Base.enter_tracked (h : Base cfg l p) (ht : tracked cfg t = true)
    (hfresh : t.staAddr ∉ l.map Sta.staAddr)
    (hnew : ¬ Cached t.staAddr p) (hlen : p'.protStaCache.length = p.protStaCache.length)
    (hperm : (Slots.live p'.protStaCache).Perm (tag cfg t :: Slots.live p.protStaCache))
    (hcount : ∀ k, counter p' k = counter p k + if isKind cfg k t then 1 else 0) :
    Base cfg (t :: l) p' := by
  obtain ⟨rest, hrest, htype⟩ := h.cached
  have hperm' : (Slots.live p'.protStaCache).Perm
      (((t :: l).filter (tracked cfg)).map (tag cfg) ++ rest) := by
    rw [filter_cons_of_pos ht, map_cons, cons_append]; exact hperm.trans (hrest.cons _)
  refine ⟨hlen.trans h.size, ?_, ?_, ⟨rest, hperm', htype⟩, fun k => ?_⟩
  · exact nodup_cons.mpr ⟨hfresh, h.addrs⟩
  · rw [(hperm.map CacheTag.addr).nodup_iff, map_cons, nodup_cons]
    refine ⟨fun hmem => ?_, h.liveAddrs⟩
    obtain ⟨e, he, hea⟩ := mem_map.mp hmem
    exact not_cached_iff.mp hnew e he hea
  · have hlt : (t :: l).countP (isKind cfg k) < 256 := countP_lt (hlen.trans h.size) hperm' k
    have hone : (if isKind cfg k t = true then (1 : UInt8) else 0).toNat =
        if isKind cfg k t = true then 1 else 0 := by
      split <;> rfl
    rw [countP_cons] at hlt ⊢
    rw [hcount, UInt8.toNat_add, h.counted, hone]; exact Nat.mod_eq_of_lt hlt

theorem Inv.join (h : Inv cfg l s) (hd : Decides cfg t s s₁)
    (hfresh : t.staAddr ∉ l.map Sta.staAddr) (hok : Joins cfg t s.prot) : Inv cfg (t :: l) s₁ := by
  refine ⟨?_, h.flags.join hd, hd.quiet⟩
  rcases hd.cache with ⟨hcache, hcount, hbusy⟩ | ⟨hnew, hlen, hperm, hcount⟩
  · have hu : tracked cfg t = false := by
      rw [← Bool.not_eq_true]
      intro ht
      obtain ⟨hnot, hfree⟩ := hok ht
      rcases hbusy ht with hc | hnone
      · exact hnot hc
      · rw [hnone] at hfree; cases hfree
    exact (h.base.congr hcache hcount).add_untracked hu hfresh
  · cases ht : tracked cfg t with
    | true => exact h.base.enter_tracked ht hfresh hnew hlen hperm hcount
    | false => exact (h.base.enter_untracked ht hnew hlen hperm hcount).add_untracked ht hfresh

theorem Inv.again (h : Inv cfg l s) (hd : Decides cfg t s s₁) (ht : t ∈ l) : Inv cfg l s₁ := by
  refine ⟨?_, fun k => ?_, hd.quiet⟩
  · rcases hd.cache with ⟨hcache, hcount, -⟩ | ⟨hnew, hlen, hperm, hcount⟩
    · exact h.base.congr hcache hcount
    · have hu : tracked cfg t = false := by
        rw [← Bool.not_eq_true]
        intro htr; exact hnew (h.base.isCached ht htr)
      exact h.base.enter_untracked hu hnew hlen hperm hcount
  · rw [hd.beacon, h.flags k]
    cases hk : isKind cfg k t with
    | false => rw [Bool.and_false, Bool.or_false]
    | true =>
      have hany : l.any (isKind cfg k) = true := any_eq_true.mpr ⟨t, ht, hk⟩
      rw [hany, Bool.or_assoc, Bool.or_self]

/-! # A station leaves -/

theorem cache_delete_of_not_cached {a : MacAddr} (h : ¬ Cached a p) (f : Prot → Prot) :
    cache_delete a f p = p := by
  unfold cache_delete
  rw [Cached, Option.not_isSome_iff_eq_none] at h
  rw [h]

theorem cache_delete_cached {a : MacAddr} (h : Cached a p) (f : Prot → Prot) :
    ∃ e, e.addr = a ∧
      (Slots.live p.protStaCache).Perm (e :: Slots.live (cache_delete a f p).protStaCache) ∧
      (cache_delete a f p).protStaCache.length = p.protStaCache.length ∧
      counter (cache_delete a f p) = counter (f p) ∧
      beacon (cache_delete a f p) = beacon (f p) := by
  unfold cache_delete
  obtain ⟨i, hi⟩ := Option.isSome_iff_exists.mp h
  rw [hi]
  obtain ⟨e, he, hperm⟩ := Slots.clear_find hi
  refine ⟨e, beq_iff_eq.mp he, hperm, Slots.length_clear .., ?_, ?_⟩
  · funext k
    cases k <;> rfl
  · funext k
    cases k <;> rfl

theorem beacon_cache_delete {f : Prot → Prot} (a : MacAddr) (hf : beacon (f p) = beacon p) :
    beacon (cache_delete a f p) = beacon p := by
  by_cases hc : Cached a p
  · obtain ⟨-, -, -, -, -, hb⟩ := cache_delete_cached hc f; rw [hb, hf]
  · rw [cache_delete_of_not_cached hc]

theorem Base.not_cached_delete (h : Base cfg l p) (a : MacAddr) (f : Prot → Prot) :
    ¬ Cached a (cache_delete a f p) := by
  by_cases hc : Cached a p
  · obtain ⟨e, rfl, hperm, -, -, -⟩ := cache_delete_cached hc f
    have hnodup := (hperm.map CacheTag.addr).nodup_iff.mp h.liveAddrs
    rw [map_cons, nodup_cons] at hnodup
    exact not_cached_iff.mpr fun e' he' hea => hnodup.1 (mem_map.mpr ⟨e', he', hea⟩)
  · rw [cache_delete_of_not_cached hc]; exact hc

theorem countP_erase_add (ht : t ∈ l) (q : Sta → Bool) :
    l.countP q = (l.erase t).countP q + if q t then 1 else 0 := by
  rw [(perm_cons_erase ht).countP_eq, countP_cons]

theorem Base.delete_tracked (h : Base cfg l p) (ht : t ∈ l) (htr : tracked cfg t = true)
    {f : Prot → Prot} (hf : ∀ k, counter (f p) k = counter p k - if isKind cfg k t then 1 else 0) :
    Base cfg (l.erase t) (cache_delete t.staAddr f p) := by
  obtain ⟨e, hea, hperm, hlen, hcount, -⟩ := cache_delete_cached (h.isCached ht htr) f
  obtain ⟨rest, hrest, htype⟩ := h.cached
  have hl := perm_cons_erase ht
  have het : e = tag cfg t := by
    refine inj_on_of_nodup_map h.liveAddrs ?_ (h.tag_mem ht htr) hea
    exact hperm.mem_iff.mpr mem_cons_self
  subst het
  refine ⟨hlen.trans h.size, h.addrs.sublist (erase_sublist.map _), ?_, ⟨rest, ?_, htype⟩,
    fun k => ?_⟩
  · have hnodup := (hperm.map CacheTag.addr).nodup_iff.mp h.liveAddrs
    rw [map_cons, nodup_cons] at hnodup; exact hnodup.2
  · have hfilter := ((hl.filter (tracked cfg)).map (tag cfg)).append_right rest
    rw [filter_cons_of_pos htr, map_cons, cons_append] at hfilter
    exact List.Perm.cons_inv (hperm.symm.trans (hrest.trans hfilter))
  · have hk := h.counted k
    rw [countP_erase_add ht] at hk
    rw [hcount, hf]
    split at hk
    next hkt =>
      rw [if_pos hkt, UInt8.toNat_sub_of_le]
      · rw [hk]; rfl
      · rw [UInt8.le_iff_toNat_le, hk]; exact Nat.le_add_left _ _
    next hkt => rw [if_neg hkt, UInt8.sub_zero, hk, Nat.add_zero]

theorem Base.delete_untracked (h : Base cfg l p) (ht : t ∈ l) (hu : tracked cfg t = false) :
    Base cfg l (cache_delete t.staAddr id p) := by
  by_cases hc : Cached t.staAddr p
  · obtain ⟨e, hea, hperm, hlen, hcount, -⟩ := cache_delete_cached hc id
    obtain ⟨rest, hrest, htype⟩ := h.cached
    have he : e ∈ rest := by
      have hmem := hrest.mem_iff.mp (hperm.mem_iff.mpr mem_cons_self)
      rcases mem_append.mp hmem with hmem | hmem
      · obtain ⟨t', ht', rfl⟩ := mem_map.mp hmem
        obtain ⟨hl', htr'⟩ := mem_filter.mp ht'
        rw [h.eq_of_addr hl' ht hea, hu] at htr'
        cases htr'
      · exact hmem
    refine ⟨hlen.trans h.size, h.addrs, ?_, ⟨rest.erase e, ?_, fun e' he' => ?_⟩, fun k => ?_⟩
    · have hnodup := (hperm.map CacheTag.addr).nodup_iff.mp h.liveAddrs
      rw [map_cons, nodup_cons] at hnodup; exact hnodup.2
    · have hmiddle := (perm_cons_erase he).append_left ((l.filter (tracked cfg)).map (tag cfg))
      exact List.Perm.cons_inv (hperm.symm.trans (hrest.trans (hmiddle.trans perm_middle)))
    · exact htype e' (mem_of_mem_erase he')
    · rw [hcount]; exact h.counted k
  · rw [cache_delete_of_not_cached hc]; exact h

theorem Base.erase_untracked (h : Base cfg l p) (ht : t ∈ l) (hu : tracked cfg t = false) :
    Base cfg (l.erase t) p := by
  refine ⟨h.size, h.addrs.sublist (erase_sublist.map _), h.liveAddrs, ?_, fun k => ?_⟩
  · obtain ⟨rest, hrest, htype⟩ := h.cached
    refine ⟨rest, hrest.trans ?_, htype⟩
    have hfilter := (perm_cons_erase ht).filter (tracked cfg)
    rw [filter_cons_of_neg (by simp [hu])] at hfilter; exact (hfilter.map _).append_right rest
  · rw [h.counted, countP_erase_add ht, isKind_of_untracked hu, if_neg Bool.false_ne_true,
      Nat.add_zero]

theorem any_erase_of_not_kind (ht : t ∈ l) (hk : isKind cfg k t = false) :
    (l.erase t).any (isKind cfg k) = l.any (isKind cfg k) := by
  rw [(perm_cons_erase ht).any_eq, any_cons, hk, Bool.false_or]

theorem any_eq_of_countP {q : Sta → Bool} {n : Nat} (h : n = l.countP q) :
    l.any q = decide (n ≠ 0) := by
  rw [Bool.eq_iff_iff, decide_eq_true_iff, h, ← Nat.pos_iff_ne_zero, countP_pos_iff, any_eq_true]

theorem Inv.erase_untracked (h : Inv cfg l s) (ht : t ∈ l) (hu : tracked cfg t = false) :
    Inv cfg (l.erase t) s := by
  refine ⟨h.base.erase_untracked ht hu, fun k => ?_, h.quiet⟩
  rw [any_erase_of_not_kind ht (isKind_of_untracked hu k)]; exact h.flags k

theorem Inv.off (h : Inv cfg l s) (hstart : startsOn cfg k = false)
    (hzero : counter s.prot k = 0) (hs : Sets cfg k false s s₁) : Inv cfg l s₁ := by
  refine ⟨h.base.congr hs.cache hs.counter, fun j => ?_, hs.quiet⟩
  have hcount := h.base.counted k
  rw [hzero] at hcount
  rw [hs.beacon, h.flags]
  split
  next hj => rw [hj.1, hstart, any_eq_of_countP hcount]; simp
  next => rfl

/-- The state after a part of the deletion: `l` is what is still counted. -/
def Counts (cfg : Cfg) (l : List Sta) (s s₁ : Session) : Prop :=
  Inv cfg l s₁ ∧ s₁.stations = s.stations

/-- **A station of one kind leaves**: its entry is given up, the counter is taken down, and the
protection ends with the last one. -/
theorem Inv.delete_entry (f : Prot → Prot) (off : Session → Session) (h : Inv cfg l s)
    (ht : t ∈ l) (hk : ∀ j, isKind cfg j t = decide (j = k)) (hstart : startsOn cfg k = false)
    (hcount : ∀ j, counter (f s.prot) j = counter s.prot j - if decide (j = k) then 1 else 0)
    (hbeacon : beacon (f s.prot) = beacon s.prot)
    (hoff : ∀ s, s.ht.Quiet → Sets cfg k false s (off s)) :
    Counts cfg (l.erase t) s (delete_entry t.staAddr f (fun p => counter p k) off s) := by
  have htr : tracked cfg t = true := isKind_tracked (k := k) (by simp [hk])
  have hb : Base cfg (l.erase t) (cache_delete t.staAddr f s.prot) := by
    refine h.base.delete_tracked ht htr fun j => ?_
    rw [hcount, hk]
  have hflag : ∀ j, beacon (cache_delete t.staAddr f s.prot) j =
      (startsOn cfg j || configured cfg j && l.any (isKind cfg j)) := by
    intro j
    rw [beacon_cache_delete _ hbeacon]; exact h.flags j
  have hothers : ∀ j, j ≠ k → (l.erase t).any (isKind cfg j) = l.any (isKind cfg j) :=
    fun j hj => any_erase_of_not_kind ht (by simp [hk, hj])
  have hany := any_eq_of_countP (hb.counted k)
  unfold LimProtection.delete_entry
  dsimp only
  split
  next hzero =>
    have hs := hoff { s with prot := cache_delete t.staAddr f s.prot } h.quiet
    refine ⟨⟨hb.congr hs.cache hs.counter, fun j => ?_, hs.quiet⟩, hs.stations⟩
    rw [hs.beacon]
    split
    next hj => rw [hj.1, hany, hstart, hzero]; simp
    next hj =>
      rw [hflag]
      by_cases hjk : j = k
      · have hc : configured cfg j = false := by simpa [hjk] using hj
        rw [hc, Bool.false_and, Bool.false_and]
      · rw [hothers j hjk]
  next hpos =>
    refine ⟨⟨hb, fun j => ?_, h.quiet⟩, rfl⟩
    rw [hflag]
    by_cases hjk : j = k
    · subst hjk
      have hne : (counter (cache_delete t.staAddr f s.prot) j).toNat ≠ 0 :=
        fun hz => hpos (UInt8.toNat_inj.mp hz)
      have hl : l.any (isKind cfg j) = true := any_eq_true.mpr ⟨t, ht, by simp [hk]⟩
      rw [hany, hl, decide_eq_true hne]
    · rw [hothers j hjk]

/-- The address has no entry: a branch can only switch a protection off that no station asks
for. -/
theorem Counts.delete_none {f : Prot → Prot} {off : Session → Session} {a : MacAddr}
    (h : Counts cfg l s s₁) (hnone : ¬ Cached a s₁.prot) (hstart : startsOn cfg k = false)
    (hoff : ∀ s, s.ht.Quiet → Sets cfg k false s (off s)) :
    Counts cfg l s (delete_entry a f (fun p => counter p k) off s₁) := by
  unfold LimProtection.delete_entry
  rw [cache_delete_of_not_cached hnone]
  dsimp only
  split
  next hzero =>
    have hs := hoff s₁ h.1.quiet
    exact ⟨h.1.off hstart hzero hs, hs.stations.trans h.2⟩
  next => exact h

theorem Inv.not_cached_delete_entry (f : Prot → Prot) (num : Prot → UInt8)
    (off : Session → Session) (h : Inv cfg l s) (a : MacAddr)
    (hoff : ∀ s, s.ht.Quiet → Sets cfg k false s (off s)) :
    ¬ Cached a (LimProtection.delete_entry a f num off s).prot := by
  have hnone := h.base.not_cached_delete a f
  unfold LimProtection.delete_entry
  dsimp only
  split
  · rw [Cached, (hoff { s with prot := cache_delete a f s.prot } h.quiet).cache]; exact hnone
  · exact hnone

/-! ## An AP -/

theorem only_llB (h : isKind cfg .llB t = true) (j : Kind) :
    isKind cfg j t = decide (j = .llB) := by
  cases hr : cfg.limSystemRole with
  | eLIM_AP_ROLE =>
    cases hht : cfg.htCapability <;> cases j <;> simp_all [isKind]
  | eLIM_STA_IN_IBSS_ROLE => cases j <;> simp_all [isKind]

theorem only_llG (h : isKind cfg .llG t = true) (j : Kind) :
    isKind cfg j t = decide (j = .llG) := by
  cases hr : cfg.limSystemRole with
  | eLIM_AP_ROLE => cases j <;> simp_all [isKind]
  | eLIM_STA_IN_IBSS_ROLE => simp_all [isKind]

theorem only_ht20 (h : isKind cfg .ht20 t = true) (hgf : isKind cfg .nonGf t = false)
    (hls : isKind cfg .noLsig t = false) (j : Kind) : isKind cfg j t = decide (j = .ht20) := by
  cases j with
  | llB => exact Bool.eq_false_iff.mpr fun hB => by simp [not_ht20_of_llB hB] at h
  | llG => exact Bool.eq_false_iff.mpr fun hG => by simp [not_ht20_of_llG hG] at h
  | ht20 => exact h
  | nonGf => exact hgf
  | noLsig => exact hls

/-- What is taken off the counters of a legacy station. -/
def dec11b (p : Prot) : Prot := { p with gLim11bParams := p.gLim11bParams.dec }

def dec11g (p : Prot) : Prot := { p with gLim11gParams := p.gLim11gParams.dec }

section Ap

variable (hr : cfg.limSystemRole = .eLIM_AP_ROLE)
include hr

/-- An 11b station leaves in the branch for 11b stations; the branch for 11g stations finds no
entry any more. -/
theorem on_delete_llB (h : Inv cfg s.stations s) (ht : t ∈ s.stations)
    (hk : isKind cfg .llB t = true) :
    Counts cfg (s.stations.erase t) s (lim_decide_ap_protection_on_delete cfg t s) := by
  have hband : cfg.limRFBand = .SIR_BAND_2_4_GHZ := by simp [isKind, hr] at hk; exact hk.2.1.1
  have herp : t.erpEnabled = false := by simp [isKind, hr] at hk; exact hk.2.1.2
  have hmode : cfg.gLimPhyMode = .WNI_CFG_PHY_MODE_11G ∨ cfg.htCapability = true := by
    cases hht : cfg.htCapability
    · simp [isKind, hr, hht] at hk; exact Or.inl hk.2.2
    · exact Or.inr rfl
  have hht : (cfg.htCapability && t.htCapability) = false := by
    cases hht : cfg.htCapability
    · rfl
    · simp [isKind, hr, hht] at hk; simp [hk]
  have h5 : on_delete_11a cfg t s = s := if_neg (by simp [hband])
  have hb : on_delete_11b cfg t s = delete_entry t.staAddr dec11b (fun p => counter p .llB)
      (lim_enable11g_protection cfg false) s := if_pos ⟨hband, hmode, herp⟩
  have hdel := h.delete_entry dec11b (lim_enable11g_protection cfg false) ht (only_llB hk) rfl
    (fun j => by cases j <;> simp [counter, dec11b, ProtStaParams.dec])
    (by funext j; cases j <;> rfl) fun s hq => sets_11g_disable hq
  have hnone := h.not_cached_delete_entry dec11b (fun p => counter p .llB)
    (lim_enable11g_protection cfg false) t.staAddr fun s hq => sets_11g_disable hq
  rw [← hb] at hdel hnone
  unfold lim_decide_ap_protection_on_delete
  rw [h5, hht]
  unfold on_delete_11g
  split
  next hg => exact hdel.delete_none (k := .llG) hnone rfl fun s hq => sets_from11g_disable hq hg.2.1
  next => exact hdel

theorem on_delete_llG (h : Inv cfg s.stations s) (ht : t ∈ s.stations)
    (hk : isKind cfg .llG t = true) :
    Counts cfg (s.stations.erase t) s (lim_decide_ap_protection_on_delete cfg t s) := by
  obtain ⟨-, ⟨⟨hband, hht⟩, herp⟩, hth⟩ :
      cfg.gLimProtectionControl ≠ .DISABLE ∧ ((cfg.limRFBand = .SIR_BAND_2_4_GHZ ∧
        cfg.htCapability = true) ∧ t.erpEnabled = true) ∧ t.htCapability = false := by
    simpa [isKind, hr] using hk
  have h5 : on_delete_11a cfg t s = s := if_neg (by simp [hband])
  have hb : on_delete_11b cfg t s = s := if_neg (by simp [herp])
  have hg : on_delete_11g cfg t s = delete_entry t.staAddr dec11g (fun p => counter p .llG)
      (lim_enable_ht_protection_from11g cfg false) s := if_pos ⟨hband, hht, hth⟩
  have hdel := h.delete_entry dec11g (lim_enable_ht_protection_from11g cfg false) ht (only_llG hk)
    rfl (fun j => by cases j <;> simp [counter, dec11g, ProtStaParams.dec])
    (by funext j; cases j <;> rfl) fun s hq => sets_from11g_disable hq hht
  unfold lim_decide_ap_protection_on_delete
  rw [h5, hb, hg, hth, Bool.and_false]; exact hdel

omit hr in
theorem on_delete_ht (hth : t.htCapability = true) (hht : cfg.htCapability = true)
    (hgf : t.htGreenfield = true) (hls : t.htLsigTXOPProtection = true)
    (hb : on_delete_11b cfg t s = s₁) :
    lim_decide_ap_protection_on_delete cfg t s = on_delete_ht20 cfg t s₁ := by
  have h5 : on_delete_11a cfg t s = s := if_neg (by simp [hth])
  have hg : on_delete_11g cfg t s₁ = s₁ := if_neg (by simp [hth])
  have hn : on_delete_non_gf cfg t s₁ = s₁ := if_neg (by simp [hgf])
  unfold lim_decide_ap_protection_on_delete
  rw [h5, hb, hg]
  rw [if_pos (by simp [hht, hth]), hn]; exact if_neg (by simp [hls])

theorem ApLeaves.caps (hok : ApLeaves cfg t p) (hc : cfg.gLimProtectionControl ≠ .DISABLE)
    (hht : cfg.htCapability = true) (hth : t.htCapability = true) :
    t.htGreenfield = true ∧ t.htLsigTXOPProtection = true := by
  obtain ⟨hgf, hls, -, -⟩ := hok
  simp [isKind, hr, hc, hht, hth] at hgf hls
  exact ⟨hgf, hls⟩

theorem on_delete_kind_ht20 (h : Inv cfg s.stations s) (ht : t ∈ s.stations)
    (hk : isKind cfg .ht20 t = true) (hok : ApLeaves cfg t s.prot) :
    Counts cfg (s.stations.erase t) s (lim_decide_ap_protection_on_delete cfg t s) := by
  obtain ⟨hc, ⟨⟨hht, hth⟩, hw⟩, -⟩ :
      cfg.gLimProtectionControl ≠ .DISABLE ∧ ((cfg.htCapability = true ∧ t.htCapability = true) ∧
        t.htSupportedChannelWidthSet = .eHT_CHANNEL_WIDTH_20MHZ) ∧
        cfg.htSupportedChannelWidthSet ≠ .eHT_CHANNEL_WIDTH_20MHZ := by
    simpa [isKind, hr] using hk
  obtain ⟨hgf, hls⟩ := hok.caps hr hc hht hth
  -- the branch for 11b stations would take the entry
  have hb : on_delete_11b cfg t s = s := by
    refine if_neg fun hcond => hok.2.2.2 ⟨hcond.1, hht, hth, hcond.2.2⟩ ?_
    exact h.base.isCached ht (isKind_tracked hk)
  rw [on_delete_ht hth hht hgf hls hb]
  have hflag : s.prot.ht20Coexist = true := by
    have hany : s.stations.any (isKind cfg .ht20) = true := any_eq_true.mpr ⟨t, ht, hk⟩
    have hfl := h.flags .ht20
    rw [hok.2.2.1 hk, hany] at hfl; exact hfl
  have hpos : s.prot.gLimHt20Params.numSta > 0 := by
    have hcount := h.base.counted .ht20
    have hone : 0 < s.stations.countP (isKind cfg .ht20) := countP_pos_iff.mpr ⟨t, ht, hk⟩
    show 0 < (counter s.prot .ht20).toNat
    omega
  have hdel := h.delete_entry (fun p => { p with gLimHt20Params := p.gLimHt20Params.dec })
    (lim_enable_ht20_protection cfg false) ht (only_ht20 hk hok.1 hok.2.1) rfl
    (fun j => by cases j <;> simp [counter, ProtStaParams.dec])
    (by funext j; cases j <;> rfl) fun s hq => sets_ht20 hq hht false
  unfold on_delete_ht20
  rw [if_pos ⟨hflag, hw⟩]
  unfold lim_decide_ap_protection_on_ht20_delete
  rw [if_pos hpos]; exact hdel

theorem on_delete_untracked (hc : cfg.gLimProtectionControl ≠ .DISABLE)
    (h : Inv cfg s.stations s) (ht : t ∈ s.stations) (hu : tracked cfg t = false)
    (hok : ApLeaves cfg t s.prot) :
    Counts cfg (s.stations.erase t) s (lim_decide_ap_protection_on_delete cfg t s) := by
  have hkind := isKind_of_untracked hu
  suffices hsame : Counts cfg s.stations s (lim_decide_ap_protection_on_delete cfg t s) from
    ⟨hsame.1.erase_untracked ht hu, hsame.2⟩
  have hB := hkind .llB
  have hG := hkind .llG
  simp [isKind, hr, hc] at hB hG
  by_cases hhth : cfg.htCapability = true ∧ t.htCapability = true
  · obtain ⟨hht, hth⟩ := hhth
    obtain ⟨hgf, hls⟩ := hok.caps hr hc hht hth
    have hb : Counts cfg s.stations s (on_delete_11b cfg t s) := by
      unfold on_delete_11b
      split
      next hcond =>
        have hnone := hok.2.2.2 ⟨hcond.1, hht, hth, hcond.2.2⟩
        exact Counts.delete_none (k := .llB) ⟨h, rfl⟩ hnone rfl fun s hq => sets_11g_disable hq
      next => exact ⟨h, rfl⟩
    rw [on_delete_ht hth hht hgf hls rfl]
    -- a session of 20 MHz has no stations to protect from for being so
    have hskip : on_delete_ht20 cfg t (on_delete_11b cfg t s) = on_delete_11b cfg t s := by
      refine if_neg fun hcond => ?_
      have h20 := hkind .ht20
      have hw : cfg.htSupportedChannelWidthSet = .eHT_CHANNEL_WIDTH_20MHZ := by
        simpa [isKind, hr, hc, hht, hth, hcond.2] using h20
      have hflag := hb.1.flags .ht20
      rw [show beacon (on_delete_11b cfg t s).prot .ht20 = true from hcond.1] at hflag
      simp [startsOn, isKind, hr, hw] at hflag
    rw [hskip]; exact hb
  · have hret : (cfg.htCapability && t.htCapability) = false := by
      rw [← Bool.not_eq_true, Bool.and_eq_true_iff]; exact hhth
    have ha : Counts cfg s.stations s (on_delete_11a cfg t s) := by
      unfold on_delete_11a
      split
      next hcond =>
        have hdel : Inv cfg s.stations { s with prot := cache_delete t.staAddr id s.prot } := by
          refine ⟨h.base.delete_untracked ht hu, fun k => ?_, h.quiet⟩
          rw [beacon_cache_delete _ rfl]; exact h.flags k
        unfold delete_entry
        dsimp only
        split
        · obtain ⟨hst, hcache, hcount, hq, hbeacon⟩ := update_11a_keeps cfg
            (s := { s with prot := cache_delete t.staAddr id s.prot }) h.quiet false
          refine ⟨⟨hdel.base.congr hcache (congrFun hcount), fun k => ?_, hq⟩, hst⟩
          rw [hbeacon]; exact hdel.flags k
        · exact ⟨hdel, rfl⟩
      next => exact ⟨h, rfl⟩
    have hb : on_delete_11b cfg t (on_delete_11a cfg t s) = on_delete_11a cfg t s := by
      refine if_neg fun hcond => ?_
      cases hht : cfg.htCapability with
      | true => simp_all
      | false => simp_all
    have hg : on_delete_11g cfg t (on_delete_11a cfg t s) = on_delete_11a cfg t s := by
      refine if_neg fun hcond => ?_
      cases he : t.erpEnabled with
      | true => simp_all
      | false => simp_all
    unfold lim_decide_ap_protection_on_delete
    rw [hb, hg, hret]; exact ha

theorem ap_leaves (hc : cfg.gLimProtectionControl ≠ .DISABLE) (h : Inv cfg s.stations s)
    (ht : t ∈ s.stations) (hok : ApLeaves cfg t s.prot) :
    Counts cfg (s.stations.erase t) s (lim_decide_ap_protection_on_delete cfg t s) := by
  by_cases hB : isKind cfg .llB t = true
  · exact on_delete_llB hr h ht hB
  by_cases hG : isKind cfg .llG t = true
  · exact on_delete_llG hr h ht hG
  by_cases h20 : isKind cfg .ht20 t = true
  · exact on_delete_kind_ht20 hr h ht h20 hok
  refine on_delete_untracked hr hc h ht ?_ hok
  simp [tracked, hB, hG, h20, hok.1, hok.2.1]

end Ap

/-! ## An IBSS -/

theorem isKind_llB_ibss (hr : cfg.limSystemRole = .eLIM_STA_IN_IBSS_ROLE)
    (hk : isKind cfg .llB t = true) :
    cfg.limRFBand = .SIR_BAND_2_4_GHZ ∧
      (cfg.gLimPhyMode = .WNI_CFG_PHY_MODE_11G ∨ cfg.htCapability = true) ∧
      t.erpEnabled = false := by simp [isKind, hr] at hk; exact ⟨hk.2.1.1.1, hk.2.2, hk.2.1.1.2⟩

theorem ibss_untracked (hr : cfg.limSystemRole = .eLIM_STA_IN_IBSS_ROLE)
    (hk : isKind cfg .llB t = false) : tracked cfg t = false := by
  have hother : ∀ j, isKind cfg j t = false := by
    intro j
    by_cases hj : j = .llB
    · rw [hj, hk]
    · exact isKind_ibss hr hj
  simp [tracked, hother]

theorem ibss_leaves (hr : cfg.limSystemRole = .eLIM_STA_IN_IBSS_ROLE)
    (h : Inv cfg s.stations s) (ht : t ∈ s.stations) (hok : IbssLeaves cfg t s.prot) :
    Inv cfg (s.stations.erase t)
      { s with prot := lim_ibss_decide_protection_on_delete cfg t s.prot } := by
  unfold lim_ibss_decide_protection_on_delete
  by_cases hk : isKind cfg .llB t = true
  · obtain ⟨hband, hmode, herp⟩ := isKind_llB_ibss hr hk
    have htr := isKind_tracked hk
    have hcount := h.base.counted .llB
    rw [countP_erase_add ht, if_pos hk] at hcount
    have hpos : ¬ s.prot.gLim11bParams.numSta = 0 := by
      intro hz
      rw [show counter s.prot .llB = 0 from hz] at hcount; exact absurd hcount (by simp)
    rw [if_neg (by simp [hband]), if_pos ⟨hmode, herp⟩, if_neg hpos]
    refine ⟨h.base.delete_tracked (f := dec11b) ht htr fun j => ?_, fun j => ?_, h.quiet⟩
    · rw [only_llB hk]
      cases j <;> simp [counter, dec11b, ProtStaParams.dec]
    · rw [beacon_cache_delete _ (by funext j; cases j <;> rfl), h.flags]
      by_cases hj : j = .llB
      · subst hj
        cases hcfg : configured cfg .llB with
        | false => rw [Bool.false_and, Bool.false_and]
        | true =>
          -- the counter says that one stays
          have hstay : (s.stations.erase t).any (isKind cfg .llB) = true := by
            rw [any_eq_of_countP rfl, decide_eq_true_iff]
            intro hz
            apply hok.1 hk hcfg
            rw [← UInt8.toNat_inj, hcount, hz]; rfl
          have hall : s.stations.any (isKind cfg .llB) = true :=
            any_eq_true.mpr ⟨t, ht, hk⟩
          rw [hstay, hall]
      · rw [any_erase_of_not_kind ht (isKind_ibss hr hj)]
  · rw [Bool.not_eq_true] at hk
    have hu := ibss_untracked hr hk
    by_cases hband : cfg.limRFBand = .SIR_BAND_2_4_GHZ
    · rw [if_neg (not_not.mpr hband)]
      split
      next hcond =>
        have hnone := hok.2 ⟨hband, hcond.1, hcond.2, hk⟩
        refine Inv.erase_untracked ?_ ht hu
        by_cases hzero : s.prot.gLim11bParams.numSta = 0
        · rw [if_pos hzero]
          have hs : Sets cfg .llB false s _ := sets_ibss h.quiet false
          have hcache : ¬ Cached t.staAddr (lim_ibss_set_protection cfg false s.prot) := by
            rw [Cached, hs.cache]; exact hnone
          rw [cache_delete_of_not_cached hcache]; exact h.off (k := .llB) rfl hzero hs
        · rw [if_neg hzero, cache_delete_of_not_cached hnone]; exact h
      next => exact h.erase_untracked ht hu
    · rw [if_pos hband]; exact h.erase_untracked ht hu

/-! # Runs -/

theorem Inv.init : Inv cfg [] (init cfg) := by
  have hlive : Slots.live (LimProtection.init cfg).prot.protStaCache = [] := by
    simp [Slots.live, LimProtection.init]
  refine ⟨⟨length_replicate, nodup_nil, ?_, ⟨[], ?_, ?_⟩, fun k => ?_⟩, fun k => ?_, rfl, rfl⟩
  · rw [hlive]; exact nodup_nil
  · rw [hlive]; exact Perm.refl _
  · intro e he; cases he
  · cases k <;> rfl
  · cases k <;> simp [LimProtection.init, beacon, startsOn]

theorem find?_hasAddr {a : MacAddr} (h : l.find? (Sta.hasAddr a) = some t) :
    t ∈ l ∧ t.staAddr = a := by
  have ha : Sta.hasAddr a t = true := find?_some h
  exact ⟨mem_of_find?_eq_some h, beq_iff_eq.mp ha⟩

theorem untracked_of_disable (hc : cfg.gLimProtectionControl = .DISABLE) :
    tracked cfg t = false := by simp [tracked, isKind, hc]

theorem Inv.decide_on_join (h : Inv cfg l s) (ht : s.stations.find? (Sta.hasAddr t.staAddr) = some t)
    (hc : cfg.gLimProtectionControl ≠ .DISABLE) :
    (decide_on_join cfg t s).stations = s.stations ∧
      (t ∈ l → Inv cfg l (LimProtection.decide_on_join cfg t s)) ∧
      (t.staAddr ∉ l.map Sta.staAddr → Joins cfg t s.prot →
        Inv cfg (t :: l) (LimProtection.decide_on_join cfg t s)) := by
  unfold LimProtection.decide_on_join
  rw [if_neg hc]
  cases hr : cfg.limSystemRole with
  | eLIM_AP_ROLE =>
    have hd := ap_decides h.quiet hr hc ht
    exact ⟨hd.stations, fun hmem => h.again hd hmem, fun hnew hok => h.join hd hnew hok⟩
  | eLIM_STA_IN_IBSS_ROLE =>
    -- the second decision finds the station counted
    have hd := ibss_decides (t := t) h.quiet hr hc
    refine ⟨rfl, fun hmem => ?_, fun hnew hok => ?_⟩
    · have h₁ := h.again hd hmem; exact h₁.again (ibss_decides h₁.quiet hr hc) hmem
    · have h₁ := h.join hd hnew hok; exact h₁.again (ibss_decides h₁.quiet hr hc) mem_cons_self

theorem Inv.with_stations (h : Inv cfg l s) (l' : List Sta) :
    Inv cfg l { s with stations := l' } := ⟨h.base, h.flags, h.quiet⟩

theorem Inv.step {op : Op} (h : Inv cfg s.stations s)
    (hs : guarded (Ok cfg) (step cfg) s op = some s₁) : Inv cfg s₁.stations s₁ := by
  obtain ⟨hok, hs⟩ := Option.ite_none_right_eq_some.mp hs
  cases op with
  | add t =>
    unfold LimProtection.step at hs
    dsimp only at hs
    split at hs
    next => cases hs
    next hnew =>
      rw [Option.some.injEq] at hs
      rw [← hs]
      have hnew' : t.staAddr ∉ s.stations.map Sta.staAddr := by
        intro hmem
        obtain ⟨t', ht', ha⟩ := mem_map.mp hmem
        apply hnew
        rw [find?_isSome]; exact ⟨t', ht', by simp [Sta.hasAddr, ha]⟩
      have hl := h.with_stations (t :: s.stations)
      by_cases hc : cfg.gLimProtectionControl = .DISABLE
      · unfold LimProtection.decide_on_join
        rw [if_pos hc]
        refine ⟨h.base.add_untracked (untracked_of_disable hc) hnew', fun k => ?_, h.quiet⟩
        rw [h.flags, any_cons, isKind_of_untracked (untracked_of_disable hc), Bool.false_or]
      · obtain ⟨hst, -, hjoin⟩ := hl.decide_on_join (t := t) (by simp [Sta.hasAddr]) hc
        rw [hst]; exact hjoin hnew' hok
  | respond addr =>
    unfold LimProtection.step at hs
    dsimp only at hs
    split at hs
    next hr =>
      obtain ⟨t, ht, hs⟩ := Option.map_eq_some_iff.mp hs
      rw [← hs]
      obtain ⟨hmem, rfl⟩ := find?_hasAddr ht
      by_cases hc : cfg.gLimProtectionControl = .DISABLE
      · unfold LimProtection.decide_on_join
        rw [if_pos hc]; exact h
      · obtain ⟨hst, hagain, -⟩ := h.decide_on_join ht hc
        rw [hst]; exact hagain hmem
    next => cases hs
  | delete addr =>
    obtain ⟨t, ht, hs⟩ := Option.map_eq_some_iff.mp hs
    rw [← hs]
    obtain ⟨hmem, rfl⟩ := find?_hasAddr ht
    have hleaves : Leaves cfg t s.prot := hok t ht
    have hcounts : Counts cfg (s.stations.erase t) s (decide_on_leave cfg t s) := by
      unfold decide_on_leave
      unfold Leaves at hleaves
      cases hr : cfg.limSystemRole with
      | eLIM_AP_ROLE =>
        rw [hr] at hleaves
        dsimp only
        split
        next hc => exact ⟨h.erase_untracked hmem (untracked_of_disable hc), rfl⟩
        next hc => exact ap_leaves hr hc h hmem hleaves
      | eLIM_STA_IN_IBSS_ROLE => rw [hr] at hleaves; exact ⟨ibss_leaves hr h hmem hleaves, rfl⟩
    dsimp only
    rw [hcounts.2]; exact hcounts.1.with_stations _

/-- **The protection counters track the stations**, in every run of steps that they follow. -/
theorem protection_counters_track (cfg : Cfg) (ops : List Op) (s : Session)
    (h : run (guarded (Ok cfg) (step cfg)) (init cfg) ops = some s) : Tracks cfg s := by
  have hinv : Inv cfg s.stations s := by
    refine run_invariant (I := fun s => Inv cfg s.stations s) ?_ ?_ h
    · intro s op s' hs hstep; exact hs.step hstep
    · exact Inv.init
  exact hinv.tracks

def htSession (role : LimSystemRole) : Cfg where
  limSystemRole := role
  limRFBand := .SIR_BAND_2_4_GHZ
  gLimPhyMode := .WNI_CFG_PHY_MODE_11G
  htCapability := true
  htSupportedChannelWidthSet := .eHT_CHANNEL_WIDTH_40MHZ
  gLimProtectionControl := .AUTO
  cfgProtection := ⟨true, true, true, true, true, true, true, true⟩
  lsigTXOPProtectionFullSupport := true
  cacheSize := 32
  cacheSize_lt := by decide

def macA : MacAddr := #v[0, 1, 2, 3, 4, 5]

def macB : MacAddr := #v[0, 1, 2, 3, 4, 6]

def macC : MacAddr := #v[0, 1, 2, 3, 4, 7]

def sta11b (a : MacAddr) : Sta where
  staAddr := a
  erpEnabled := false
  htCapability := false
  htGreenfield := false
  htSupportedChannelWidthSet := .eHT_CHANNEL_WIDTH_20MHZ
  htLsigTXOPProtection := false

def staHt (a : MacAddr) : Sta where
  staAddr := a
  erpEnabled := true
  htCapability := true
  htGreenfield := true
  htSupportedChannelWidthSet := .eHT_CHANNEL_WIDTH_40MHZ
  htLsigTXOPProtection := true

/-- An 11b station, an HT20 station and one without greenfield join, the first two leave. -/
theorem protection_counters_track_three :
    ∃ s, run (guarded (Ok (htSession .eLIM_AP_ROLE)) (step (htSession .eLIM_AP_ROLE)))
      (init (htSession .eLIM_AP_ROLE)) [.add (sta11b macA),
        .add { staHt macB with htSupportedChannelWidthSet := .eHT_CHANNEL_WIDTH_20MHZ },
        .add { staHt macC with htGreenfield := false }, .respond macC, .delete macA,
        .delete macB] = some s ∧
      s.prot.llbCoexist = false ∧ counter s.prot .nonGf = 1 ∧ s.prot.llnNonGFCoexist = true ∧
      Tracks (htSession .eLIM_AP_ROLE) s := by
  exact exists_of_tested (fun s => _ ∧ _ ∧ _) (by decide +kernel) fun s hs ⟨hb, hn, hgf⟩ =>
    ⟨hb, hn, hgf, protection_counters_track _ _ s hs⟩

/-- A run that ends with a wrong counter of stations `k`, or without any and yet the beacon asks
for protection from them. -/
theorem not_tracks_of {cfg : Cfg} {ops : List Op} (k : Kind)
    (h : (run (step cfg) (init cfg) ops).map (fun s =>
      decide ((counter s.prot k).toNat ≠ s.stations.countP (isKind cfg k) ∨
        beacon s.prot k ≠
          (startsOn cfg k || configured cfg k && s.stations.any (isKind cfg k)))) = some true) :
    ∃ s, run (step cfg) (init cfg) ops = some s ∧ ¬ Tracks cfg s := by
  refine exists_of_tested _ h fun s _ hall ht => ?_
  rcases hall with hcount | hflag
  · exact hcount (ht.counted k)
  · exact hflag (ht.enabled k)

/-- What is not followed: on an AP a station without greenfield, one without LSIG TXOP
protection, an HT station without ERP and, if its protection is not configured, an HT20 station
that leave, and a station that comes back as another kind; in an IBSS the last 11b station
that leaves. -/
theorem protection_counters_not_tracked :
    (∃ s, run (step (htSession .eLIM_AP_ROLE)) (init (htSession .eLIM_AP_ROLE))
      [.add { staHt macA with htGreenfield := false }, .delete macA] = some s ∧
      ¬ Tracks (htSession .eLIM_AP_ROLE) s) ∧
    (∃ s, run (step (htSession .eLIM_AP_ROLE)) (init (htSession .eLIM_AP_ROLE))
      [.add { staHt macA with htLsigTXOPProtection := false }, .delete macA] = some s ∧
      ¬ Tracks (htSession .eLIM_AP_ROLE) s) ∧
    (∃ s, run (step (htSession .eLIM_AP_ROLE)) (init (htSession .eLIM_AP_ROLE))
      [.add { staHt macA with erpEnabled := false }, .delete macA] = some s ∧
      ¬ Tracks (htSession .eLIM_AP_ROLE) s) ∧
    (∃ s, run (step { htSession .eLIM_AP_ROLE with
        cfgProtection := ⟨true, true, true, false, true, true, true, true⟩ })
      (init { htSession .eLIM_AP_ROLE with
        cfgProtection := ⟨true, true, true, false, true, true, true, true⟩ })
      [.add { staHt macA with htSupportedChannelWidthSet := .eHT_CHANNEL_WIDTH_20MHZ },
        .delete macA] = some s ∧
      ¬ Tracks { htSession .eLIM_AP_ROLE with
        cfgProtection := ⟨true, true, true, false, true, true, true, true⟩ } s) ∧
    (∃ s, run (step (htSession .eLIM_AP_ROLE)) (init (htSession .eLIM_AP_ROLE))
      [.add (staHt macA), .delete macA, .add (sta11b macA)] = some s ∧
      ¬ Tracks (htSession .eLIM_AP_ROLE) s) ∧
    ∃ s, run (step (htSession .eLIM_STA_IN_IBSS_ROLE)) (init (htSession .eLIM_STA_IN_IBSS_ROLE))
      [.add (sta11b macA), .delete macA] = some s ∧
      ¬ Tracks (htSession .eLIM_STA_IN_IBSS_ROLE) s := by
  refine ⟨?_, ?_, ?_, ?_, ?_, ?_⟩
  · exact not_tracks_of .nonGf (by decide +kernel)
  · exact not_tracks_of .noLsig (by decide +kernel)
  · exact not_tracks_of .llB (by decide +kernel)
  · exact not_tracks_of .ht20 (by decide +kernel)
  · exact not_tracks_of .llB (by decide +kernel)
  · exact not_tracks_of .llB (by decide +kernel)

end Qcacld.LimProtection
