/-
Protection from legacy and less capable stations: `lim_decide_ap_protection`,
`lim_decide_ap_protection_on_delete` and what they call, and the same for an IBSS.

`stations` is the content of the station table: the stations that have an entry, with what the entry
says of their capabilities. Left out are the `tUpdateBeaconParams` that tell the firmware what
changed, and `pMac->lim.gHTOperMode`, which only the code for overlapping BSSs reads.
-/
import Qcacld.Lib.Slots
import Qcacld.LimPeerIdx

set_option autoImplicit false

namespace Qcacld.LimProtection

open Lib DphTable LimPeerIdx

inductive RFBand where
  | SIR_BAND_UNKNOWN
  | SIR_BAND_2_4_GHZ
  | SIR_BAND_5_GHZ
  deriving DecidableEq

inductive PhyMode where
  | WNI_CFG_PHY_MODE_11A
  | WNI_CFG_PHY_MODE_11B
  | WNI_CFG_PHY_MODE_11G
  | WNI_CFG_PHY_MODE_NONE
  deriving DecidableEq

inductive ForcePolicyProtection where
  | DISABLE
  | CTS
  | RTS
  | DUAL_CTS
  | RTS_ALWAYS
  | AUTO
  deriving DecidableEq

inductive HTChannelWidth where
  | eHT_CHANNEL_WIDTH_20MHZ
  | eHT_CHANNEL_WIDTH_40MHZ
  deriving DecidableEq

inductive HTOperatingMode where
  | eSIR_HT_OP_MODE_PURE
  | eSIR_HT_OP_MODE_OVERLAP_LEGACY
  | eSIR_HT_OP_MODE_NO_LEGACY_20MHZ_HT
  | eSIR_HT_OP_MODE_MIXED
  deriving DecidableEq

inductive ProtStaCacheType where
  | INVALID
  | llB
  | llG
  | HT20
  deriving DecidableEq

structure CacheTag where
  addr : MacAddr
  protStaCacheType : ProtStaCacheType
  deriving DecidableEq

abbrev CacheParams := Slot CacheTag

structure CfgProtection where
  fromlla : Bool
  fromllb : Bool
  fromllg : Bool
  ht20 : Bool
  nonGf : Bool
  lsigTxop : Bool
  rifs : Bool
  obss : Bool

/-- What a session is started with. `gLimProtectionControl` and `cfgProtection` are those of the
session for an AP and those of `pMac->lim` for an IBSS. `cacheSize` is `LIM_PROT_STA_CACHE_SIZE`;
the counters have 8 bits. -/
structure Cfg where
  limSystemRole : LimSystemRole
  limRFBand : RFBand
  gLimPhyMode : PhyMode
  htCapability : Bool
  htSupportedChannelWidthSet : HTChannelWidth
  gLimProtectionControl : ForcePolicyProtection
  cfgProtection : CfgProtection
  lsigTXOPProtectionFullSupport : Bool
  cacheSize : Nat
  cacheSize_lt : cacheSize < 256

structure ProtStaParams where
  numSta : UInt8
  protectionEnabled : Bool

structure Sta where
  staAddr : MacAddr
  erpEnabled : Bool
  htCapability : Bool
  htGreenfield : Bool
  htSupportedChannelWidthSet : HTChannelWidth
  htLsigTXOPProtection : Bool
  deriving DecidableEq

/-- The cache, the counters and the coexistence flags of `beaconParams`. -/
structure Prot where
  protStaCache : List CacheParams
  gLim11aParams : ProtStaParams
  gLim11bParams : ProtStaParams
  gLim11gParams : ProtStaParams
  gLimHt20Params : ProtStaParams
  gLimNonGfParams : ProtStaParams
  gLimLsigTxopParams : ProtStaParams
  llaCoexist : Bool
  llbCoexist : Bool
  llgCoexist : Bool
  ht20Coexist : Bool
  llnNonGFCoexist : Bool
  fLsigTXOPProtectionFullSupport : Bool

/-- The HT operating mode with the two flags of `beaconParams` that go with it, and which
protections from overlapping BSSs are enabled. The last three are those of `pMac->lim`. -/
structure HtOper where
  htOperMode : HTOperatingMode
  fRIFSMode : Bool
  gHTObssMode : Bool
  gLimOlbcParams : Bool
  gLimOverlap11gParams : Bool
  gLimOverlapHt20Params : Bool
  gLimOverlapNonGfParams : Bool
  limOverlap11aParams : Bool
  limOverlapHt20Params : Bool
  limOverlapNonGfParams : Bool

structure Session where
  prot : Prot
  ht : HtOper
  stations : List Sta

variable (cfg : Cfg)

/-! # HT operating mode -/

def lim_enable_ht_rifs_protection (enable : Bool) (h : HtOper) : HtOper :=
  if !cfg.htCapability || !cfg.cfgProtection.rifs then h
  -- disabling the protection means to enable the RIFS mode of operation
  else if !enable && !h.fRIFSMode then { h with fRIFSMode := true }
  else if enable && h.fRIFSMode then { h with fRIFSMode := false }
  else h

def lim_enable_ht_obss_protection (enable : Bool) (h : HtOper) : HtOper :=
  if !cfg.htCapability || !cfg.cfgProtection.obss then h
  else if enable then { h with gHTObssMode := true }
  else { h with gHTObssMode := false, gLimOverlap11gParams := false }

def ht_oper_mode_mixed (h : HtOper) : HtOper :=
  if h.htOperMode ≠ .eSIR_HT_OP_MODE_MIXED then
    lim_enable_ht_obss_protection cfg true
      (lim_enable_ht_rifs_protection cfg true { h with htOperMode := .eSIR_HT_OP_MODE_MIXED })
  else h

/-- The last legacy station has left, and `legacyOverlap` says whether an overlapping BSS still
asks for protection. -/
def ht_oper_mode_no_legacy (legacyOverlap : HtOper → Bool) (ht20 : HTOperatingMode)
    (ht20Protection : Bool) (h : HtOper) : HtOper :=
  let h := lim_enable_ht_obss_protection cfg false h
  if legacyOverlap h then
    lim_enable_ht_rifs_protection cfg true { h with htOperMode := .eSIR_HT_OP_MODE_OVERLAP_LEGACY }
  else if ht20Protection then
    lim_enable_ht_rifs_protection cfg false { h with htOperMode := ht20 }
  else lim_enable_ht_rifs_protection cfg false { h with htOperMode := .eSIR_HT_OP_MODE_PURE }

def HtOper.overlapLegacy (h : HtOper) : Bool :=
  h.gLimOlbcParams || h.gLimOverlap11gParams || h.gLimOverlapHt20Params || h.gLimOverlapNonGfParams

def HtOper.overlap11a (h : HtOper) : Bool :=
  h.limOverlap11aParams || h.limOverlapHt20Params || h.limOverlapNonGfParams

/-! # Enabling and disabling one protection -/

def lim_enable_11a_protection (s : Session) : Session :=
  let s :=
    if cfg.htCapability then
      { s with
        prot := { s.prot with
          gLim11aParams := { s.prot.gLim11aParams with protectionEnabled := true } }
        ht := ht_oper_mode_mixed cfg s.ht }
    else s
  { s with prot := { s.prot with llaCoexist := true } }

def lim_disable_11a_protection (s : Session) : Session :=
  if !s.prot.llaCoexist then s
  else
    let s :=
      { s with
        prot := { s.prot with
          gLim11aParams := { s.prot.gLim11aParams with protectionEnabled := false } }
        ht := ht_oper_mode_no_legacy cfg HtOper.overlap11a .eSIR_HT_OP_MODE_NO_LEGACY_20MHZ_HT
          s.prot.gLimHt20Params.protectionEnabled s.ht }
    if !s.ht.limOverlap11aParams && !s.prot.gLim11aParams.protectionEnabled then
      { s with prot := { s.prot with llaCoexist := false } }
    else s

def lim_update_11a_protection (enable : Bool) (s : Session) : Session :=
  if !cfg.cfgProtection.fromlla then s
  else if enable then lim_enable_11a_protection cfg s
  else lim_disable_11a_protection cfg s

def lim_handle_enable11g_protection_enabled (s : Session) : Session :=
  { s with
    prot := { s.prot with
      gLim11bParams := { s.prot.gLim11bParams with protectionEnabled := true }
      llbCoexist := true }
    ht := if cfg.htCapability then ht_oper_mode_mixed cfg s.ht else s.ht }

def lim_handle_11g_protection_for_11bcoexist (s : Session) : Session :=
  let s :=
    { s with
      prot := { s.prot with
        gLim11bParams := { s.prot.gLim11bParams with protectionEnabled := false } }
      ht :=
        if !s.prot.gLim11gParams.protectionEnabled then
          ht_oper_mode_no_legacy cfg HtOper.overlapLegacy .eSIR_HT_OP_MODE_PURE
            s.prot.gLimHt20Params.protectionEnabled s.ht
        else s.ht }
  if !s.ht.gLimOlbcParams && !s.prot.gLim11bParams.protectionEnabled then
    { s with prot := { s.prot with llbCoexist := false } }
  else s

def lim_enable11g_protection (enable : Bool) (s : Session) : Session :=
  if !cfg.cfgProtection.fromllb then s
  else if enable then lim_handle_enable11g_protection_enabled cfg s
  else if s.prot.llbCoexist then lim_handle_11g_protection_for_11bcoexist cfg s
  else s

def lim_enable_ht_protection_from11g (enable : Bool) (s : Session) : Session :=
  if !cfg.htCapability then s
  else if !cfg.cfgProtection.fromllg then s
  else if enable then
    { s with
      prot := { s.prot with
        gLim11gParams := { s.prot.gLim11gParams with protectionEnabled := true }
        llgCoexist := true }
      ht := ht_oper_mode_mixed cfg s.ht }
  else if s.prot.llgCoexist then
    let s :=
      { s with
        prot := { s.prot with
          gLim11gParams := { s.prot.gLim11gParams with protectionEnabled := false } }
        ht :=
          if !s.prot.gLim11bParams.protectionEnabled then
            ht_oper_mode_no_legacy cfg HtOper.overlapLegacy .eSIR_HT_OP_MODE_PURE
              s.prot.gLimHt20Params.protectionEnabled s.ht
          else s.ht }
    if !s.ht.gLimOverlap11gParams && !s.prot.gLim11gParams.protectionEnabled then
      { s with prot := { s.prot with llgCoexist := false } }
    else s
  else s

def lim_handle_ht20protection_enabled (s : Session) : Session :=
  { s with
    prot := { s.prot with
      gLimHt20Params := { s.prot.gLimHt20Params with protectionEnabled := true }
      ht20Coexist := true }
    ht :=
      if s.ht.htOperMode = .eSIR_HT_OP_MODE_PURE then
        let h :=
          if cfg.htSupportedChannelWidthSet ≠ .eHT_CHANNEL_WIDTH_20MHZ then
            { s.ht with htOperMode := .eSIR_HT_OP_MODE_NO_LEGACY_20MHZ_HT }
          else s.ht
        lim_enable_ht_obss_protection cfg false (lim_enable_ht_rifs_protection cfg false h)
      else s.ht }

def lim_handle_ht20coexist_ht20protection (s : Session) : Session :=
  { s with
    prot := { s.prot with
      gLimHt20Params := { s.prot.gLimHt20Params with protectionEnabled := false }
      ht20Coexist := false }
    ht :=
      if s.ht.htOperMode = .eSIR_HT_OP_MODE_NO_LEGACY_20MHZ_HT then
        lim_enable_ht_obss_protection cfg false
          (lim_enable_ht_rifs_protection cfg false
            { s.ht with htOperMode := .eSIR_HT_OP_MODE_PURE })
      else s.ht }

def lim_enable_ht20_protection (enable : Bool) (s : Session) : Session :=
  if !cfg.htCapability then s
  else if !cfg.cfgProtection.ht20 then s
  else if enable then lim_handle_ht20protection_enabled cfg s
  else if s.prot.ht20Coexist then lim_handle_ht20coexist_ht20protection cfg s
  else s

def lim_enable_ht_non_gf_protection (enable : Bool) (s : Session) : Session :=
  if !cfg.htCapability then s
  else if !cfg.cfgProtection.nonGf then s
  else { s with prot := { s.prot with llnNonGFCoexist := enable } }

def lim_enable_ht_lsig_txop_protection (enable : Bool) (s : Session) : Session :=
  if !cfg.htCapability then s
  else if !cfg.cfgProtection.lsigTxop then s
  else { s with prot := { s.prot with fLsigTXOPProtectionFullSupport := enable } }

/-! # The cache -/

def Sta.hasAddr (a : MacAddr) (t : Sta) : Bool := t.staAddr == a

def CacheTag.hasAddr (a : MacAddr) (e : CacheTag) : Bool := e.addr == a

/-- `if (!gfSupported) numSta++` and the like. -/
def ProtStaParams.inc (p : ProtStaParams) : ProtStaParams := { p with numSta := p.numSta + 1 }

def ProtStaParams.dec (p : ProtStaParams) : ProtStaParams := { p with numSta := p.numSta - 1 }

def Prot.incType (ty : ProtStaCacheType) (p : Prot) : Prot :=
  match ty with
  | .llB => { p with gLim11bParams := p.gLim11bParams.inc }
  | .llG => { p with gLim11gParams := p.gLim11gParams.inc }
  | .HT20 => { p with gLimHt20Params := p.gLimHt20Params.inc }
  | .INVALID => p

def lim_update_prot_sta_params (peerMacAddr : MacAddr) (ty : ProtStaCacheType)
    (gfSupported lsigTxopSupported : Bool) (p : Prot) : Prot :=
  match Slots.find (CacheTag.hasAddr peerMacAddr) p.protStaCache with
  | some _ => p
  | none =>
    match Slots.free p.protStaCache with
    | none => p
    | some i =>
      let p := { p with protStaCache := Slots.fill p.protStaCache i ⟨peerMacAddr, ty⟩ }
      let p := p.incType ty
      let p :=
        if !gfSupported then { p with gLimNonGfParams := p.gLimNonGfParams.inc } else p
      if !lsigTxopSupported then { p with gLimLsigTxopParams := p.gLimLsigTxopParams.inc }
      else p

/-- The same for the cache of `pMac->lim`, where a type is one of 11b, 11g and none. -/
def lim_ibss_update_protection_params (peerMacAddr : MacAddr) (ty : ProtStaCacheType)
    (p : Prot) : Prot :=
  match Slots.find (CacheTag.hasAddr peerMacAddr) p.protStaCache with
  | some _ => p
  | none =>
    match Slots.free p.protStaCache with
    | none => p
    | some i =>
      let p := { p with protStaCache := Slots.fill p.protStaCache i ⟨peerMacAddr, ty⟩ }
      if ty = .llB then { p with gLim11bParams := p.gLim11bParams.inc }
      else if ty = .llG then { p with gLim11gParams := p.gLim11gParams.inc }
      else p

/-- The loops of the functions for deletion: the first entry in use of the address is given up,
and `count` is done with the counters. -/
def cache_delete (addr : MacAddr) (count : Prot → Prot) (p : Prot) : Prot :=
  match Slots.find (CacheTag.hasAddr addr) p.protStaCache with
  | some i => { count p with protStaCache := Slots.clear p.protStaCache i }
  | none => p

/-! # A station joins -/

def lim_decide_ap_protection_2_4 (t : Sta) (s : Session) : ProtStaCacheType × Session :=
  -- we are 11G
  let (ty, s) :=
    if cfg.gLimPhyMode = .WNI_CFG_PHY_MODE_11G ∧ cfg.htCapability = false then
      if t.erpEnabled = false then (ProtStaCacheType.llB, lim_enable11g_protection cfg true s)
      else (.INVALID, s)
    else (.INVALID, s)
  if cfg.htCapability then
    if t.erpEnabled = false ∧ t.htCapability = false then
      (.llB, lim_enable11g_protection cfg true s)
    else if t.htCapability = false then
      (.llG, lim_enable_ht_protection_from11g cfg true s)
    else (ty, s)
  else (ty, s)

/-- The part that both bands have in common: we are HT and an HT station joins. -/
def lim_decide_ap_protection_ht (t : Sta) (ty : ProtStaCacheType) (s : Session) :
    ProtStaCacheType × Session :=
  let s := if !t.htGreenfield then lim_enable_ht_non_gf_protection cfg true s else s
  let (ty, s) :=
    if t.htSupportedChannelWidthSet = .eHT_CHANNEL_WIDTH_20MHZ ∧
        cfg.htSupportedChannelWidthSet ≠ .eHT_CHANNEL_WIDTH_20MHZ then
      (ProtStaCacheType.HT20, lim_enable_ht20_protection cfg true s)
    else (ty, s)
  let s := if !t.htLsigTXOPProtection then lim_enable_ht_lsig_txop_protection cfg false s else s
  (ty, s)

def lim_decide_ap_protection (peerMacAddr : MacAddr) (s : Session) : Session :=
  match s.stations.find? (Sta.hasAddr peerMacAddr) with
  | none => s
  | some t =>
    if cfg.limRFBand = .SIR_BAND_5_GHZ ∧ cfg.htCapability = true ∧ t.htCapability = false then
      lim_update_11a_protection cfg true s
    else
      let (ty, s) :=
        if cfg.limRFBand = .SIR_BAND_2_4_GHZ then lim_decide_ap_protection_2_4 cfg t s
        else (.INVALID, s)
      let (ty, gf, lsig, s) :=
        if cfg.htCapability && t.htCapability then
          let (ty, s) := lim_decide_ap_protection_ht cfg t ty s
          (ty, t.htGreenfield, t.htLsigTXOPProtection, s)
        else (ty, true, true, s)
      { s with prot := lim_update_prot_sta_params peerMacAddr ty gf lsig s.prot }

def lim_ibss_set_protection (enable : Bool) (p : Prot) : Prot :=
  if !cfg.cfgProtection.fromllb then p
  else if enable then
    { p with
      gLim11bParams := { p.gLim11bParams with protectionEnabled := true }
      llbCoexist := true }
  else if p.llbCoexist then
    { p with
      gLim11bParams := { p.gLim11bParams with protectionEnabled := false }
      llbCoexist := false }
  else p

def lim_ibss_decide_protection (t : Sta) (p : Prot) : Prot :=
  if cfg.limRFBand = .SIR_BAND_2_4_GHZ ∧
      (cfg.gLimPhyMode = .WNI_CFG_PHY_MODE_11G ∨ cfg.htCapability = true) ∧
      t.erpEnabled = false ∧ t.htCapability = false then
    lim_ibss_update_protection_params t.staAddr .llB (lim_ibss_set_protection cfg true p)
  else lim_ibss_update_protection_params t.staAddr .INVALID p

/-! # A station leaves -/

/-- What the branches for deletion do: the entry is given up, and if the counter says that there
is no such station any more, protection is switched `off`. -/
def delete_entry (addr : MacAddr) (count : Prot → Prot) (numSta : Prot → UInt8)
    (off : Session → Session) (s : Session) : Session :=
  let s := { s with prot := cache_delete addr count s.prot }
  if numSta s.prot = 0 then off s else s

/-- An 11a station leaves. Nothing counts in `gLim11aParams`. -/
def on_delete_11a (t : Sta) (s : Session) : Session :=
  if cfg.limRFBand = .SIR_BAND_5_GHZ ∧ cfg.htCapability = true ∧ s.prot.llaCoexist = true ∧
      t.htCapability = false then
    delete_entry t.staAddr id (fun p => p.gLim11aParams.numSta)
      (lim_update_11a_protection cfg false) s
  else s

/-- We are HT or 11G and a station without ERP leaves. -/
def on_delete_11b (t : Sta) (s : Session) : Session :=
  if cfg.limRFBand = .SIR_BAND_2_4_GHZ ∧
      (cfg.gLimPhyMode = .WNI_CFG_PHY_MODE_11G ∨ cfg.htCapability = true) ∧
      t.erpEnabled = false then
    delete_entry t.staAddr (fun p => { p with gLim11bParams := p.gLim11bParams.dec })
      (fun p => p.gLim11bParams.numSta) (lim_enable11g_protection cfg false) s
  else s

/-- We are HT and a station that is not leaves. -/
def on_delete_11g (t : Sta) (s : Session) : Session :=
  if cfg.limRFBand = .SIR_BAND_2_4_GHZ ∧ cfg.htCapability = true ∧ t.htCapability = false then
    delete_entry t.staAddr (fun p => { p with gLim11gParams := p.gLim11gParams.dec })
      (fun p => p.gLim11gParams.numSta) (lim_enable_ht_protection_from11g cfg false) s
  else s

/-- An HT station without greenfield leaves. The entry is given up, `numSta` is not changed. -/
def on_delete_non_gf (t : Sta) (s : Session) : Session :=
  if !t.htGreenfield then
    delete_entry t.staAddr id (fun p => p.gLimNonGfParams.numSta)
      (lim_enable_ht_non_gf_protection cfg false) s
  else s

/-- Here the entry is only looked for if the counter is not zero. -/
def lim_decide_ap_protection_on_ht20_delete (t : Sta) (s : Session) : Session :=
  let s :=
    if s.prot.gLimHt20Params.numSta > 0 then
      { s with
        prot := cache_delete t.staAddr
          (fun p => { p with gLimHt20Params := p.gLimHt20Params.dec }) s.prot }
    else s
  if s.prot.gLimHt20Params.numSta = 0 then lim_enable_ht20_protection cfg false s else s

def on_delete_ht20 (t : Sta) (s : Session) : Session :=
  if s.prot.ht20Coexist = true ∧ t.htSupportedChannelWidthSet = .eHT_CHANNEL_WIDTH_20MHZ then
    lim_decide_ap_protection_on_ht20_delete cfg t s
  else s

/-- An HT station without LSIG TXOP protection leaves. The entry is given up, `numSta` is not
changed. -/
def on_delete_lsig_txop (t : Sta) (s : Session) : Session :=
  if s.prot.fLsigTXOPProtectionFullSupport = false ∧ t.htLsigTXOPProtection = false then
    delete_entry t.staAddr id (fun p => p.gLimLsigTxopParams.numSta)
      (lim_enable_ht_lsig_txop_protection cfg true) s
  else s

def lim_decide_ap_protection_on_delete (t : Sta) (s : Session) : Session :=
  let s := on_delete_11g cfg t (on_delete_11b cfg t (on_delete_11a cfg t s))
  if cfg.htCapability && t.htCapability then
    on_delete_lsig_txop cfg t (on_delete_ht20 cfg t (on_delete_non_gf cfg t s))
  else s

def lim_ibss_decide_protection_on_delete (t : Sta) (p : Prot) : Prot :=
  if cfg.limRFBand ≠ .SIR_BAND_2_4_GHZ then p
  else if (cfg.gLimPhyMode = .WNI_CFG_PHY_MODE_11G ∨ cfg.htCapability = true) ∧
      t.erpEnabled = false then
    -- the count is looked at before the station that leaves is taken off
    let p := if p.gLim11bParams.numSta = 0 then lim_ibss_set_protection cfg false p else p
    cache_delete t.staAddr (fun p => { p with gLim11bParams := p.gLim11bParams.dec }) p
  else p

/-! # The session -/

/-- `lim_send_assoc_rsp_mgmt_frame` on an AP; `lim_ibss_sta_add` and `lim_ibss_coalesce`, which
both decide, for a new peer of an IBSS. -/
def decide_on_join (t : Sta) (s : Session) : Session :=
  if cfg.gLimProtectionControl = .DISABLE then s
  else
    match cfg.limSystemRole with
    | .eLIM_AP_ROLE => lim_decide_ap_protection cfg t.staAddr s
    | .eLIM_STA_IN_IBSS_ROLE =>
      { s with
        prot := lim_ibss_decide_protection cfg t (lim_ibss_decide_protection cfg t s.prot) }

def decide_on_leave (t : Sta) (s : Session) : Session :=
  match cfg.limSystemRole with
  | .eLIM_AP_ROLE =>
    if cfg.gLimProtectionControl = .DISABLE then s
    else lim_decide_ap_protection_on_delete cfg t s
  | .eLIM_STA_IN_IBSS_ROLE =>
    { s with prot := lim_ibss_decide_protection_on_delete cfg t s.prot }

/-- What happens to the stations of a session: one that has no entry is added, an AP sends its
response again to one that has, and one is deleted. -/
inductive Op where
  | add (t : Sta)
  | respond (addr : MacAddr)
  | delete (addr : MacAddr)

def step (s : Session) : Op → Option Session
  | .add t =>
    if (s.stations.find? (Sta.hasAddr t.staAddr)).isSome then none
    else some (decide_on_join cfg t { s with stations := t :: s.stations })
  | .respond addr =>
    if cfg.limSystemRole = .eLIM_AP_ROLE then
      (s.stations.find? (Sta.hasAddr addr)).map fun t => decide_on_join cfg t s
    else none
  | .delete addr =>
    (s.stations.find? (Sta.hasAddr addr)).map fun t =>
      let s := decide_on_leave cfg t s
      { s with stations := s.stations.erase t }

def noProtection : ProtStaParams where
  numSta := 0
  protectionEnabled := false

/-- `pe_create_session`, `pe_init_beacon_params`; the flag of LSIG TXOP protection is taken from
`WNI_CFG_HT_INFO_FIELD3`. -/
def init : Session where
  prot :=
    { protStaCache := List.replicate cfg.cacheSize ⟨false, ⟨zeroMacAddr, .INVALID⟩⟩
      gLim11aParams := noProtection
      gLim11bParams := noProtection
      gLim11gParams := noProtection
      gLimHt20Params := noProtection
      gLimNonGfParams := noProtection
      gLimLsigTxopParams := noProtection
      llaCoexist := false
      llbCoexist := false
      llgCoexist := false
      ht20Coexist := false
      llnNonGFCoexist := false
      fLsigTXOPProtectionFullSupport := cfg.lsigTXOPProtectionFullSupport }
  ht :=
    { htOperMode := .eSIR_HT_OP_MODE_PURE
      fRIFSMode := false
      gHTObssMode := false
      gLimOlbcParams := false
      gLimOverlap11gParams := false
      gLimOverlapHt20Params := false
      gLimOverlapNonGfParams := false
      limOverlap11aParams := false
      limOverlapHt20Params := false
      limOverlapNonGfParams := false }
  stations := []

end Qcacld.LimProtection
