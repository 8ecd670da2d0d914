/-
Short preamble and short slot time: `lim_update_short_preamble`, `lim_update_short_slot_time`,
`lim_decide_short_preamble` and `lim_decide_short_slot`.

There are two sets of caches and counters, one in the session for an AP and one in `pMac->lim` for
an IBSS, and the functions choose by the role of the session; not everywhere, as the model shows.
Left out are the `tUpdateBeaconParams` for the firmware.
-/
import Mathlib.Data.UInt
import Qcacld.LimProtection

set_option autoImplicit false

namespace Qcacld.LimShort

open Lib DphTable LimPeerIdx
open LimProtection (PhyMode)

section

/-- What a session is started with. The last three are `WNI_CFG_SHORT_PREAMBLE`,
`WNI_CFG_11G_SHORT_PREAMBLE_ENABLED` and `WNI_CFG_11G_SHORT_SLOT_TIME_ENABLED`; `cacheSize` is
`LIM_PROT_STA_CACHE_SIZE`, and the counters have 8 bits. -/
structure Cfg where
  limSystemRole : LimSystemRole
  gLimPhyMode : PhyMode
  cacheSize : Nat
  cacheSize_lt : cacheSize < 256
  shortPreamble : Bool
  shortPreambleEnabled11g : Bool
  shortSlotTimeEnabled11g : Bool

/-- The fields of a `tDphHashNode` that are read. -/
structure Sta where
  staAddr : MacAddr
  shortPreambleEnabled : Bool
  shortSlotTimeEnabled : Bool
  deriving DecidableEq

/-- `tLimNoShortParams` and `tLimNoShortSlotParams`. -/
structure NoShort where
  numSta : UInt8
  cache : List (Slot MacAddr)

/-- A table in the session and the one in `pMac->lim`. -/
structure Tables where
  session : NoShort
  lim : NoShort

structure Session where
  gLimNoShortParams : Tables
  gLimNoShortSlotParams : Tables
  fShortPreamble : Bool
  shortSlotTimeSupported : Bool
  stations : List Sta

variable (cfg : Cfg)

def isAp : Bool := decide (cfg.limSystemRole = .eLIM_AP_ROLE)

/-- The table that belongs to the role. -/
def Tables.own (tb : Tables) : NoShort := if isAp cfg then tb.session else tb.lim

def Tables.setOwn (tb : Tables) (p : NoShort) : Tables :=
  if isAp cfg then { tb with session := p } else { tb with lim := p }

def sameAddr (a b : MacAddr) : Bool := b == a

/-- The loop that looks for a slot. -/
def search_free (tb : Tables) : Option Nat :=
  (tb.session.cache.zip tb.lim.cache).findIdx? fun e =>
    (isAp cfg && !e.1.active) || !e.2.active

/-- The two loops of the functions for joining: `none` if the address has an entry or no slot is
found. -/
def enter_cache (addr : MacAddr) (tb : Tables) : Option Tables :=
  match Slots.find (sameAddr addr) (tb.own cfg).cache with
  | some _ => none
  | none =>
    match search_free cfg tb with
    | none => none
    | some i =>
      let p := tb.own cfg
      some (tb.setOwn cfg { numSta := p.numSta + 1, cache := Slots.fill p.cache i addr })

def lim_enable_short_preamble (enable : Bool) (s : Session) : Session :=
  if !cfg.shortPreamble then s
  else if !cfg.shortPreambleEnabled11g then s
  else if isAp cfg then { s with fShortPreamble := enable }
  else s

def lim_update_short_preamble (peerMacAddr : MacAddr) (s : Session) : Session :=
  match s.stations.find? (fun t => t.staAddr == peerMacAddr) with
  | none => s
  | some t =>
    if cfg.gLimPhyMode ≠ .WNI_CFG_PHY_MODE_11G then s
    else if t.shortPreambleEnabled then s
    else
      match enter_cache cfg peerMacAddr s.gLimNoShortParams with
      | none => s
      | some tb => lim_enable_short_preamble cfg false { s with gLimNoShortParams := tb }

def lim_update_short_slot_time (peerMacAddr : MacAddr) (s : Session) : Session :=
  match s.stations.find? (fun t => t.staAddr == peerMacAddr) with
  | none => s
  | some t =>
    if cfg.gLimPhyMode ≠ .WNI_CFG_PHY_MODE_11G then s
    else if t.shortSlotTimeEnabled then s
    else
      match enter_cache cfg peerMacAddr s.gLimNoShortSlotParams with
      | none => s
      | some tb =>
        let s := { s with gLimNoShortSlotParams := tb }
        if cfg.shortSlotTimeEnabled11g && decide ((tb.own cfg).numSta ≠ 0) &&
            s.shortSlotTimeSupported then
          { s with shortSlotTimeSupported := false }
        else s

def emptyTable : NoShort where
  numSta := 0
  cache := List.replicate cfg.cacheSize ⟨false, zeroMacAddr⟩

def preamble_loop (addr : MacAddr) (p : NoShort) : NoShort :=
  match Slots.find (sameAddr addr) p.cache with
  | some i => { numSta := p.numSta - 1, cache := Slots.clear p.cache i }
  | none => p

/-- The table of the session is looked through in both roles. -/
def lim_decide_short_preamble (t : Sta) (s : Session) : Session :=
  if t.shortPreambleEnabled then s
  else
    let p := preamble_loop t.staAddr s.gLimNoShortParams.session
    if p.numSta ≠ 0 then
      { s with gLimNoShortParams := { s.gLimNoShortParams with session := p } }
    else
      lim_enable_short_preamble cfg true
        { s with gLimNoShortParams := { s.gLimNoShortParams with session := emptyTable cfg } }

/-- The loop of `lim_decide_short_slot`: the count (in 32 bits) and the cache. -/
def slot_loop (addr : MacAddr) (p : NoShort) : UInt32 × List (Slot MacAddr) :=
  match Slots.find (sameAddr addr) p.cache with
  | some i => (p.numSta.toUInt32 - 1, Slots.clear p.cache i)
  | none => (p.numSta.toUInt32, p.cache)

def slot_table (addr : MacAddr) (p : NoShort) : NoShort :=
  let (count, cache) := slot_loop addr p
  if count = 0 ∧ cfg.shortSlotTimeEnabled11g = true then
    { emptyTable cfg with numSta := count.toUInt8 }
  else { numSta := count.toUInt8, cache }

/-- Only an AP advertises the short slot time again: the branch for the other roles asks for
the role of an AP. -/
def lim_decide_short_slot (t : Sta) (s : Session) : Session :=
  if t.shortSlotTimeEnabled then s
  else
    let p := s.gLimNoShortSlotParams.own cfg
    { s with
      gLimNoShortSlotParams := s.gLimNoShortSlotParams.setOwn cfg (slot_table cfg t.staAddr p)
      shortSlotTimeSupported :=
        if (slot_loop t.staAddr p).1 = 0 ∧ cfg.shortSlotTimeEnabled11g = true ∧
          isAp cfg = true then true else s.shortSlotTimeSupported }

/-! # The session -/

/-- What happens to the stations of a session: one joins, a response is sent again, a peer of
an IBSS is added, one leaves. -/
inductive Op where
  | join (t : Sta)
  | respond (addr : MacAddr)
  | enter (t : Sta)
  | leave (addr : MacAddr)

def update_on_join (addr : MacAddr) (s : Session) : Session :=
  lim_update_short_slot_time cfg addr (lim_update_short_preamble cfg addr s)

def decide_on_leave (t : Sta) (s : Session) : Session :=
  lim_decide_short_slot cfg t (lim_decide_short_preamble cfg t s)

def Session.lookup (s : Session) (addr : MacAddr) : Option Sta :=
  s.stations.find? fun t => t.staAddr == addr

def step (s : Session) : Op → Option Session
  | .join t =>
    if (s.lookup t.staAddr).isSome then none
    else some (update_on_join cfg t.staAddr { s with stations := t :: s.stations })
  | .respond addr =>
    if isAp cfg then (s.lookup addr).map fun _ => update_on_join cfg addr s else none
  | .enter t =>
    if isAp cfg || (s.lookup t.staAddr).isSome then none
    else some { s with stations := t :: s.stations }
  | .leave addr =>
    (s.lookup addr).map fun t =>
      let s := decide_on_leave cfg t s
      { s with stations := s.stations.erase t }

/-- `pe_create_session`, `lim_update_config` and `lim_get_short_slot_from_phy_mode`. -/
def init : Session where
  gLimNoShortParams := ⟨emptyTable cfg, emptyTable cfg⟩
  gLimNoShortSlotParams := ⟨emptyTable cfg, emptyTable cfg⟩
  fShortPreamble := cfg.shortPreamble
  shortSlotTimeSupported := decide (cfg.gLimPhyMode = .WNI_CFG_PHY_MODE_11G)
  stations := []

end

open List Option
open LimProtection (PhyMode)

/-! The entries in use of the table of the role are the addresses of the associated stations that
lack the capability, one entry each, and the counter is their number (`Remembers`). -/

/-! # What is to be remembered -/

inductive Feature where
  | preamble
  | slot
  deriving DecidableEq

def Session.tables (s : Session) : Feature → Tables
  | .preamble => s.gLimNoShortParams
  | .slot => s.gLimNoShortSlotParams

def Sta.has (t : Sta) : Feature → Bool
  | .preamble => t.shortPreambleEnabled
  | .slot => t.shortSlotTimeEnabled

section Spec

variable (cfg : Cfg)

def lacks (f : Feature) (t : Sta) : Bool :=
  decide (cfg.gLimPhyMode = .WNI_CFG_PHY_MODE_11G) && !t.has f

def advertised (n : UInt8) : Feature → Bool
  | .preamble => cfg.shortPreamble && !(cfg.shortPreambleEnabled11g && decide (n ≠ 0))
  | .slot =>
    decide (cfg.gLimPhyMode = .WNI_CFG_PHY_MODE_11G) &&
      !(cfg.shortSlotTimeEnabled11g && decide (n ≠ 0))

def Session.advertises (s : Session) : Feature → Bool
  | .preamble => s.fShortPreamble
  | .slot => s.shortSlotTimeSupported

structure Remembers (s : Session) : Prop where
  entries : ∀ f, (Slots.live ((s.tables f).own cfg).cache).Perm
    ((s.stations.filter (lacks cfg f)).map Sta.staAddr)
  once : ∀ f, (Slots.live ((s.tables f).own cfg).cache).Nodup
  counter : ∀ f, ((s.tables f).own cfg).numSta.toNat =
    (Slots.live ((s.tables f).own cfg).cache).length
  beacon : ∀ f, s.advertises f = advertised cfg ((s.tables f).own cfg).numSta f

/-- The slot that the search finds is not in use in the table of the role. -/
def FindsFree (tb : Tables) : Prop :=
  ((search_free cfg tb).any fun i => ((tb.own cfg).cache[i]?).any fun e => !e.active) = true
deriving Decidable

def Ok (s : Session) : Op → Prop
  | .join t =>
    (∀ f ∈ [Feature.preamble, .slot], lacks cfg f t = true → FindsFree cfg (s.tables f)) ∧
      (isAp cfg = false → lacks cfg .preamble t = true →
        ¬ (cfg.shortPreamble = true ∧ cfg.shortPreambleEnabled11g = true))
  | .respond _ => True
  | .enter t => lacks cfg .preamble t = false ∧ lacks cfg .slot t = false
  | .leave addr => ∀ t ∈ s.lookup addr,
      (isAp cfg = true → t.has .slot = false → cfg.shortSlotTimeEnabled11g = true →
        cfg.gLimPhyMode = .WNI_CFG_PHY_MODE_11G) ∧
      (isAp cfg = false → lacks cfg .preamble t = false ∧
        (lacks cfg .slot t = true → cfg.shortSlotTimeEnabled11g = true →
          ((s.tables .slot).own cfg).numSta ≠ 1))

instance (s : Session) (op : Op) : Decidable (Ok cfg s op) := by
  unfold Ok
  split <;> infer_instance

end Spec

variable {cfg : Cfg} {s s₁ : Session} {t : Sta} {f : Feature} {n : UInt8}

/-! # One table -/

/-- The table `p` remembers the stations of `l` that satisfy `q`. -/
structure Exact (cfg : Cfg) (l : List Sta) (q : Sta → Bool) (p : NoShort) : Prop where
  size : p.cache.length = cfg.cacheSize
  entries : (Slots.live p.cache).Perm ((l.filter q).map Sta.staAddr)
  counter : p.numSta.toNat = (l.filter q).length

variable {l : List Sta} {q : Sta → Bool} {p : NoShort}

theorem Exact.empty (h : l.filter q = []) : Exact cfg l q (emptyTable cfg) := by
  refine ⟨length_replicate, ?_, ?_⟩
  · rw [h]; simp [emptyTable, Slots.live]
  · rw [h]; rfl

theorem Exact.filter_eq_nil (h : Exact cfg l q p) (hz : p.numSta = 0) : l.filter q = [] := by
  have hc := h.counter
  rw [hz] at hc; exact length_eq_zero_iff.mp hc.symm

theorem Exact.skip (h : Exact cfg l q p) (ht : q t = false) : Exact cfg (t :: l) q p := by
  have hfilter : (t :: l).filter q = l.filter q := filter_cons_of_neg (by simp [ht])
  refine ⟨h.size, ?_, ?_⟩
  · rw [hfilter]; exact h.entries
  · rw [hfilter]; exact h.counter

theorem Exact.erase_other (h : Exact cfg l q p) (hmem : t ∈ l) (ht : q t = false) :
    Exact cfg (l.erase t) q p := by
  have hfilter := (perm_cons_erase hmem).filter q
  rw [filter_cons_of_neg (by simp [ht])] at hfilter
  exact ⟨h.size, h.entries.trans (hfilter.map _), by rw [h.counter, hfilter.length_eq]⟩

theorem Exact.enter {i : Nat} {e : Slot MacAddr} (h : Exact cfg l q p) (ht : q t = true)
    (hi : p.cache[i]? = some e) (he : e.active = false) :
    Exact cfg (t :: l) q { numSta := p.numSta + 1, cache := Slots.fill p.cache i t.staAddr } := by
  have hfilter : (t :: l).filter q = t :: l.filter q := filter_cons_of_pos ht
  have hsize : (Slots.fill p.cache i t.staAddr).length = cfg.cacheSize := by
    rw [Slots.length_fill, h.size]
  have hperm : (Slots.live (Slots.fill p.cache i t.staAddr)).Perm
      (((t :: l).filter q).map Sta.staAddr) := by
    rw [hfilter]; exact (Slots.fill_unused hi he _).trans (h.entries.cons _)
  have hlen := hperm.length_eq
  rw [length_map, hfilter, length_cons] at hlen
  have hlive := Slots.live_length_le (Slots.fill p.cache i t.staAddr)
  have hcfg := cfg.cacheSize_lt
  refine ⟨hsize, hperm, ?_⟩
  rw [UInt8.toNat_add, h.counter, hfilter, length_cons]
  exact Nat.mod_eq_of_lt (by show (l.filter q).length + 1 < 256; omega)

theorem Exact.delete (h : Exact cfg l q p) (hmem : t ∈ l) (ht : q t = true) :
    ∃ i, Slots.find (sameAddr t.staAddr) p.cache = some i ∧
      Exact cfg (l.erase t) q { numSta := p.numSta - 1, cache := Slots.clear p.cache i } := by
  have hfilter := (perm_cons_erase hmem).filter q
  rw [filter_cons_of_pos ht] at hfilter
  have hlive : t.staAddr ∈ Slots.live p.cache := by
    refine h.entries.mem_iff.mpr ?_
    exact mem_map_of_mem (mem_filter.mpr ⟨hmem, ht⟩)
  have hsome : (Slots.find (sameAddr t.staAddr) p.cache).isSome := by
    rw [isSome_iff_ne_none]
    intro hnone
    have hne := Slots.find_eq_none.mp hnone _ hlive
    simp [sameAddr] at hne
  obtain ⟨i, hi⟩ := isSome_iff_exists.mp hsome
  obtain ⟨a, ha, hperm⟩ := Slots.clear_find hi
  rw [beq_iff_eq.mp ha] at hperm
  refine ⟨i, hi, ?_, ?_, ?_⟩
  · rw [Slots.length_clear, h.size]
  · have hmap := hfilter.map Sta.staAddr
    exact List.Perm.cons_inv (hperm.symm.trans (h.entries.trans hmap))
  · have hlen := hfilter.length_eq
    rw [← h.counter, length_cons] at hlen
    rw [UInt8.toNat_sub_of_le]
    · rw [hlen]; rfl
    · rw [UInt8.le_iff_toNat_le, hlen]; exact Nat.le_add_left _ _

theorem Exact.find_eq_none (h : Exact cfg l q p) {a : MacAddr}
    (ha : ∀ t ∈ l, q t = true → t.staAddr ≠ a) : Slots.find (sameAddr a) p.cache = none := by
  refine Slots.find_eq_none.mpr fun b hb => ?_
  obtain ⟨t, ht, rfl⟩ := mem_map.mp (h.entries.mem_iff.mp hb)
  obtain ⟨hl, hq⟩ := mem_filter.mp ht
  exact beq_eq_false_iff_ne.mpr (ha t hl hq)

@[simp] theorem own_setOwn (tb : Tables) (p : NoShort) : (tb.setOwn cfg p).own cfg = p := by
  unfold Tables.setOwn Tables.own
  split <;> rfl

theorem own_of_ap (tb : Tables) (h : isAp cfg = true) : tb.own cfg = tb.session := if_pos h

theorem own_of_ibss (tb : Tables) (h : isAp cfg = false) : tb.own cfg = tb.lim :=
  if_neg (by simp [h])

theorem enter_cache_known {tb : Tables} (h : Exact cfg l q (tb.own cfg)) (hmem : t ∈ l)
    (ht : q t = true) : enter_cache cfg t.staAddr tb = none := by
  obtain ⟨i, hi, -⟩ := h.delete hmem ht
  unfold enter_cache
  rw [hi]

theorem enter_cache_new {tb : Tables} (h : Exact cfg l q (tb.own cfg)) (ht : q t = true)
    (hnew : t.staAddr ∉ l.map Sta.staAddr) (hfree : FindsFree cfg tb) :
    ∃ tb', enter_cache cfg t.staAddr tb = some tb' ∧ Exact cfg (t :: l) q (tb'.own cfg) := by
  have hnone : Slots.find (sameAddr t.staAddr) (tb.own cfg).cache = none :=
    h.find_eq_none fun t' ht' _ ha => hnew (mem_map.mpr ⟨t', ht', ha⟩)
  obtain ⟨i, hi, he⟩ := (any_eq_true _ _).mp hfree
  obtain ⟨e, hei, hact⟩ := (any_eq_true _ _).mp he
  refine ⟨tb.setOwn cfg ⟨(tb.own cfg).numSta + 1, Slots.fill (tb.own cfg).cache i t.staAddr⟩,
    ?_, ?_⟩
  · unfold enter_cache; rw [hnone, hi]
  · rw [own_setOwn]; exact h.enter ht hei (by simpa using hact)

/-! # A station joins -/

/-- The table of `f` and what is advertised of it follow the stations `l`. -/
def Follows (cfg : Cfg) (l : List Sta) (f : Feature) (s : Session) : Prop :=
  Exact cfg l (lacks cfg f) ((s.tables f).own cfg) ∧
    s.advertises f = advertised cfg ((s.tables f).own cfg).numSta f

theorem Follows.congr (h : Follows cfg l f s) (ht : s₁.tables f = s.tables f)
    (ha : s₁.advertises f = s.advertises f) : Follows cfg l f s₁ := by
  unfold Follows
  rw [ht, ha]; exact h

theorem Follows.skip (h : Follows cfg l f s) (ht : lacks cfg f t = false) :
    Follows cfg (t :: l) f s := ⟨h.1.skip ht, h.2⟩

theorem Exact.numSta_ne_zero (h : Exact cfg l q p) (hmem : t ∈ l) (ht : q t = true) :
    p.numSta ≠ 0 := by
  intro hz
  have hnil := h.filter_eq_nil hz
  have hin : t ∈ l.filter q := mem_filter.mpr ⟨hmem, ht⟩
  rw [hnil] at hin
  cases hin

/-- What a function for one feature leaves alone: the other feature and the stations. -/
structure Keeps (f : Feature) (s s₁ : Session) : Prop where
  tables : s₁.tables f = s.tables f
  advertises : s₁.advertises f = s.advertises f
  stations : s₁.stations = s.stations

theorem enable_short_preamble_tables (cfg : Cfg) (e : Bool) (s : Session) :
    (lim_enable_short_preamble cfg e s).tables = s.tables := by
  unfold lim_enable_short_preamble
  repeat' split
  all_goals exact funext fun f => by cases f <;> rfl

theorem enable_short_preamble_keeps (cfg : Cfg) (e : Bool) (s : Session) (tb : Tables) :
    Keeps .slot s (lim_enable_short_preamble cfg e { s with gLimNoShortParams := tb }) := by
  unfold lim_enable_short_preamble
  repeat' split
  all_goals exact ⟨rfl, rfl, rfl⟩

theorem update_short_preamble_keeps (cfg : Cfg) (a : MacAddr) (s : Session) :
    Keeps .slot s (lim_update_short_preamble cfg a s) := by
  unfold lim_update_short_preamble
  repeat' split
  all_goals first
    | exact ⟨rfl, rfl, rfl⟩
    | exact enable_short_preamble_keeps ..

theorem update_short_slot_keeps (cfg : Cfg) (a : MacAddr) (s : Session) :
    Keeps .preamble s (lim_update_short_slot_time cfg a s) := by
  unfold lim_update_short_slot_time
  dsimp only
  repeat' split
  all_goals exact ⟨rfl, rfl, rfl⟩

theorem lacks_iff : lacks cfg f t = true ↔
    cfg.gLimPhyMode = .WNI_CFG_PHY_MODE_11G ∧ t.has f = false := by simp [lacks]

def update (cfg : Cfg) : Feature → MacAddr → Session → Session
  | .preamble => lim_update_short_preamble cfg
  | .slot => lim_update_short_slot_time cfg

/-- The end of the two functions, when the address has been entered. -/
def entered (cfg : Cfg) (tb : Tables) (s : Session) : Feature → Session
  | .preamble => lim_enable_short_preamble cfg false { s with gLimNoShortParams := tb }
  | .slot =>
    if cfg.shortSlotTimeEnabled11g && decide ((tb.own cfg).numSta ≠ 0) &&
        s.shortSlotTimeSupported then
      { s with gLimNoShortSlotParams := tb, shortSlotTimeSupported := false }
    else { s with gLimNoShortSlotParams := tb }

theorem update_eq (hs : s.lookup t.staAddr = some t) : update cfg f t.staAddr s =
    if lacks cfg f t then
      (enter_cache cfg t.staAddr (s.tables f)).elim s fun tb => entered cfg tb s f
    else s := by
  have hfind : s.stations.find? (fun t' => t'.staAddr == t.staAddr) = some t := hs
  have hhas : ∀ b, t.has f = b → lacks cfg f t =
      (decide (cfg.gLimPhyMode = .WNI_CFG_PHY_MODE_11G) && !b) := by rintro b rfl; rfl
  cases f with
  | preamble =>
    rw [update, lim_update_short_preamble, hfind, hhas _ rfl, Sta.has]
    dsimp only
    split
    next hphy => simp [hphy]
    next hphy =>
      rw [not_not.mp hphy]
      cases t.shortPreambleEnabled with
      | true => simp
      | false =>
        simp only [Session.tables]
        cases enter_cache cfg t.staAddr s.gLimNoShortParams <;> rfl
  | slot =>
    rw [update, lim_update_short_slot_time, hfind, hhas _ rfl, Sta.has]
    dsimp only
    split
    next hphy => simp [hphy]
    next hphy =>
      rw [not_not.mp hphy]
      cases t.shortSlotTimeEnabled with
      | true => simp
      | false =>
        simp only [Session.tables]
        cases enter_cache cfg t.staAddr s.gLimNoShortSlotParams <;> rfl

theorem Follows.join (h : Follows cfg l f s) (hs : s.lookup t.staAddr = some t)
    (hnew : t.staAddr ∉ l.map Sta.staAddr)
    (hfree : lacks cfg f t = true → FindsFree cfg (s.tables f))
    (hentered : lacks cfg f t = true → ∀ tb, (tb.own cfg).numSta ≠ 0 →
      (entered cfg tb s f).tables f = tb ∧
        (entered cfg tb s f).advertises f = advertised cfg (tb.own cfg).numSta f) :
    Follows cfg (t :: l) f (update cfg f t.staAddr s) := by
  rw [update_eq hs]
  split
  next ht =>
    obtain ⟨tb, htb, hex⟩ := enter_cache_new h.1 ht hnew (hfree ht)
    obtain ⟨htables, hadv⟩ := hentered ht tb (hex.numSta_ne_zero mem_cons_self ht)
    rw [htb, elim_some, Follows, htables]; exact ⟨hex, hadv⟩
  next ht => exact h.skip (Bool.not_eq_true _ ▸ ht)

theorem entered_preamble {tb : Tables} (hne : (tb.own cfg).numSta ≠ 0)
    (hold : s.fShortPreamble = advertised cfg n .preamble)
    (hibss : isAp cfg = false → ¬ (cfg.shortPreamble = true ∧ cfg.shortPreambleEnabled11g = true)) :
    (entered cfg tb s .preamble).advertises .preamble =
      advertised cfg (tb.own cfg).numSta .preamble := by
  rw [entered, lim_enable_short_preamble]
  cases hsp : cfg.shortPreamble with
  | false => simpa [advertised, Session.advertises, hsp] using hold
  | true =>
    cases hen : cfg.shortPreambleEnabled11g with
    | false => simpa [advertised, Session.advertises, hen, hsp] using hold
    | true =>
      have hap : isAp cfg = true := by
        rw [← Bool.not_eq_false]; exact fun hap => hibss hap ⟨hsp, hen⟩
      simp [advertised, Session.advertises, hap, hen, hne]

theorem entered_slot {tb : Tables} (hne : (tb.own cfg).numSta ≠ 0)
    (hold : s.shortSlotTimeSupported = advertised cfg n .slot) :
    (entered cfg tb s .slot).advertises .slot = advertised cfg (tb.own cfg).numSta .slot := by
  rw [entered]
  cases hen : cfg.shortSlotTimeEnabled11g with
  | false => simpa [advertised, Session.advertises, hen] using hold
  | true =>
    cases s.shortSlotTimeSupported <;> simp [advertised, Session.advertises, hen, hne]

theorem update_again (h : Follows cfg l f s) (hs : s.lookup t.staAddr = some t) (hmem : t ∈ l) :
    update cfg f t.staAddr s = s := by
  rw [update_eq hs]
  split
  next ht => rw [enter_cache_known h.1 hmem ht, elim_none]
  next => rfl

/-! # A station leaves -/

theorem Follows.erase_other (h : Follows cfg l f s) (hmem : t ∈ l) (ht : lacks cfg f t = false) :
    Follows cfg (l.erase t) f s := ⟨h.1.erase_other hmem ht, h.2⟩

theorem Exact.reset (h : Exact cfg l q p) (hz : p.numSta = 0) :
    Exact cfg l q (emptyTable cfg) := Exact.empty (h.filter_eq_nil hz)

theorem enable_short_preamble_ap (hap : isAp cfg = true) {s : Session} {n : UInt8}
    (h : s.fShortPreamble = advertised cfg n .preamble) :
    (lim_enable_short_preamble cfg true s).fShortPreamble = advertised cfg 0 .preamble := by
  unfold lim_enable_short_preamble
  cases hsp : cfg.shortPreamble with
  | false => simpa [advertised, hsp] using h
  | true =>
    cases hen : cfg.shortPreambleEnabled11g with
    | false => simpa [advertised, hsp, hen] using h
    | true => rw [if_neg (by simp), if_neg (by simp), if_pos hap]; simp [advertised, hsp]

theorem Exact.loop (h : Exact cfg l q p) (hmem : t ∈ l)
    (haddr : ∀ t' ∈ l, t'.staAddr = t.staAddr → t' = t) :
    Exact cfg (l.erase t) q (preamble_loop t.staAddr p) ∧
      ((preamble_loop t.staAddr p).numSta ≠ 0 → p.numSta ≠ 0) := by
  unfold preamble_loop
  cases ht : q t with
  | true =>
    obtain ⟨i, hi, hdel⟩ := h.delete hmem ht
    rw [hi]; exact ⟨hdel, fun _ => h.numSta_ne_zero hmem ht⟩
  | false =>
    have hnone : Slots.find (sameAddr t.staAddr) p.cache = none :=
      h.find_eq_none fun t' ht' hq ha => by rw [haddr t' ht' ha, ht] at hq; cases hq
    rw [hnone]; exact ⟨h.erase_other hmem ht, fun hne => hne⟩

theorem Follows.leave_preamble_ap (h : Follows cfg l .preamble s) (hap : isAp cfg = true)
    (hmem : t ∈ l) (haddr : ∀ t' ∈ l, t'.staAddr = t.staAddr → t' = t) :
    Follows cfg (l.erase t) .preamble (lim_decide_short_preamble cfg t s) := by
  unfold lim_decide_short_preamble
  by_cases hhas : t.shortPreambleEnabled = true
  · rw [if_pos hhas]; exact h.erase_other hmem (by simp [lacks, Sta.has, hhas])
  rw [if_neg hhas]
  obtain ⟨hex, hfl⟩ := h
  rw [show (s.tables .preamble).own cfg = s.gLimNoShortParams.session from own_of_ap _ hap]
    at hex hfl
  obtain ⟨hloop, hpos⟩ := hex.loop hmem haddr
  -- the table of an AP is the one that the function rewrites
  have hown : ∀ p, (({ s with gLimNoShortParams := { s.gLimNoShortParams with session := p } } :
      Session).tables .preamble).own cfg = p := fun p => own_of_ap _ hap
  generalize preamble_loop t.staAddr s.gLimNoShortParams.session = p at hloop hpos ⊢
  by_cases hz : p.numSta = 0
  · rw [if_neg (not_not.mpr hz)]
    unfold Follows
    rw [enable_short_preamble_tables, hown]
    exact ⟨hloop.reset hz, enable_short_preamble_ap hap hfl⟩
  · rw [if_pos hz]
    unfold Follows
    rw [hown]
    refine ⟨hloop, ?_⟩
    have hsame : advertised cfg p.numSta .preamble =
        advertised cfg s.gLimNoShortParams.session.numSta .preamble := by
      simp [advertised, hz, hpos hz]
    exact hfl.trans hsame.symm

theorem Follows.leave_preamble_ibss (h : Follows cfg l .preamble s) (hap : isAp cfg = false)
    (hmem : t ∈ l) (ht : lacks cfg .preamble t = false) :
    Follows cfg (l.erase t) .preamble (lim_decide_short_preamble cfg t s) := by
  have hh := h.erase_other hmem ht
  have hown : ∀ p, (({ s with gLimNoShortParams := { s.gLimNoShortParams with session := p } } :
      Session).tables .preamble).own cfg = (s.tables .preamble).own cfg := by
    intro p
    rw [own_of_ibss _ hap, own_of_ibss _ hap]; rfl
  have hsame : ∀ s', lim_enable_short_preamble cfg true s' = s' := by
    intro s'
    unfold lim_enable_short_preamble; simp [hap]
  unfold lim_decide_short_preamble
  dsimp only
  repeat' split
  · exact hh
  · unfold Follows
    rw [hown]; exact hh
  · rw [hsame]
    unfold Follows
    rw [hown]; exact hh

theorem decide_short_preamble_keeps (cfg : Cfg) (t : Sta) (s : Session) :
    Keeps .slot s (lim_decide_short_preamble cfg t s) := by
  unfold lim_decide_short_preamble
  dsimp only
  repeat' split
  · exact ⟨rfl, rfl, rfl⟩
  · exact ⟨rfl, rfl, rfl⟩
  · exact enable_short_preamble_keeps ..

/-! ## The slot time -/

theorem toUInt32_sub_one {n : UInt8} (h : n ≠ 0) : n.toUInt32 - 1 = (n - 1).toUInt32 := by
  have hpos : 1 ≤ n.toNat := by
    rw [Nat.one_le_iff_ne_zero]; exact fun hz => h (UInt8.toNat_inj.mp hz)
  rw [← UInt32.toNat_inj, UInt8.toNat_toUInt32, UInt32.toNat_sub_of_le, UInt8.toNat_sub_of_le,
    UInt8.toNat_toUInt32]
  · rfl
  · exact hpos
  · exact hpos

theorem slot_loop_eq (h : Exact cfg l q p) (hmem : t ∈ l)
    (haddr : ∀ t' ∈ l, t'.staAddr = t.staAddr → t' = t) :
    (slot_loop t.staAddr p).1 = (preamble_loop t.staAddr p).numSta.toUInt32 ∧
      (slot_loop t.staAddr p).2 = (preamble_loop t.staAddr p).cache := by
  unfold slot_loop preamble_loop
  cases ht : q t with
  | true =>
    obtain ⟨i, hi, -⟩ := h.delete hmem ht
    rw [hi]
    refine ⟨?_, rfl⟩
    exact toUInt32_sub_one (h.numSta_ne_zero hmem ht)
  | false =>
    have hnone : Slots.find (sameAddr t.staAddr) p.cache = none :=
      h.find_eq_none fun t' ht' hq ha => by rw [haddr t' ht' ha, ht] at hq; cases hq
    rw [hnone]; exact ⟨rfl, rfl⟩

theorem toUInt32_eq_zero {n : UInt8} : n.toUInt32 = 0 ↔ n = 0 := by
  rw [← UInt32.toNat_inj, ← UInt8.toNat_inj, UInt8.toNat_toUInt32]; rfl

theorem slot_table_eq (h : Exact cfg l q p) (hmem : t ∈ l)
    (haddr : ∀ t' ∈ l, t'.staAddr = t.staAddr → t' = t) :
    slot_table cfg t.staAddr p =
      if (preamble_loop t.staAddr p).numSta = 0 ∧ cfg.shortSlotTimeEnabled11g = true then
        emptyTable cfg
      else preamble_loop t.staAddr p := by
  obtain ⟨hcount, hcache⟩ := slot_loop_eq h hmem haddr
  unfold slot_table
  dsimp only
  rw [hcount, hcache, UInt8.toUInt8_toUInt32]
  simp only [toUInt32_eq_zero]
  split
  next hz => rw [hz.1]; rfl
  next => rfl

theorem Follows.leave_slot (h : Follows cfg l .slot s) (hmem : t ∈ l)
    (haddr : ∀ t' ∈ l, t'.staAddr = t.staAddr → t' = t)
    (hap : isAp cfg = true → t.has .slot = false → cfg.shortSlotTimeEnabled11g = true →
      cfg.gLimPhyMode = .WNI_CFG_PHY_MODE_11G)
    (hibss : isAp cfg = false → lacks cfg .slot t = true → cfg.shortSlotTimeEnabled11g = true →
      ((s.tables .slot).own cfg).numSta ≠ 1) :
    Follows cfg (l.erase t) .slot (lim_decide_short_slot cfg t s) := by
  unfold lim_decide_short_slot
  by_cases hhas : t.shortSlotTimeEnabled = true
  · rw [if_pos hhas]; exact h.erase_other hmem (by simp [lacks, Sta.has, hhas])
  rw [if_neg hhas]
  rw [Bool.not_eq_true] at hhas
  obtain ⟨hex, hfl⟩ := h
  change Exact cfg l (lacks cfg .slot) (s.gLimNoShortSlotParams.own cfg) at hex
  change s.shortSlotTimeSupported =
    advertised cfg (s.gLimNoShortSlotParams.own cfg).numSta .slot at hfl
  change isAp cfg = false → lacks cfg .slot t = true → cfg.shortSlotTimeEnabled11g = true →
    (s.gLimNoShortSlotParams.own cfg).numSta ≠ 1 at hibss
  generalize hp : s.gLimNoShortSlotParams.own cfg = p at hex hfl hibss ⊢
  obtain ⟨hloop, hpos⟩ := hex.loop hmem haddr
  unfold Follows
  dsimp only [Session.tables, Session.advertises]
  rw [own_setOwn, slot_table_eq hex hmem haddr, (slot_loop_eq hex hmem haddr).1]
  simp only [toUInt32_eq_zero]
  by_cases hz : (preamble_loop t.staAddr p).numSta = 0
  · cases hen : cfg.shortSlotTimeEnabled11g with
    | true =>
      rw [if_pos ⟨hz, rfl⟩]
      refine ⟨hloop.reset hz, ?_⟩
      cases hr : isAp cfg with
      | true => rw [if_pos ⟨hz, rfl, rfl⟩]; simp [advertised, hap hr hhas hen, emptyTable]
      | false =>
        -- the flag is only right because the session is not in 11g mode
        have hphy : cfg.gLimPhyMode ≠ .WNI_CFG_PHY_MODE_11G := by
          intro hphy
          have hl : lacks cfg .slot t = true := lacks_iff.mpr ⟨hphy, hhas⟩
          apply hibss hr hl hen
          obtain ⟨i, hi, -⟩ := hex.delete hmem hl
          unfold preamble_loop at hz
          rw [hi] at hz
          rw [← UInt8.sub_add_cancel p.numSta 1, show p.numSta - 1 = 0 from hz]; rfl
        rw [hfl]; simp [advertised, hphy]
    | false =>
      rw [if_neg (by simp), if_neg (by simp)]
      refine ⟨hloop, hfl.trans ?_⟩
      simp [advertised, hen]
  · rw [if_neg fun hc => hz hc.1, if_neg fun hc => hz hc.1]
    refine ⟨hloop, hfl.trans ?_⟩
    simp [advertised, hz, hpos hz]

theorem decide_short_slot_keeps (cfg : Cfg) (t : Sta) (s : Session) :
    Keeps .preamble s (lim_decide_short_slot cfg t s) := by
  unfold lim_decide_short_slot
  split <;> exact ⟨rfl, rfl, rfl⟩

/-! # Runs -/

/-- Both tables follow the stations `l`. -/
structure Inv (cfg : Cfg) (l : List Sta) (s : Session) : Prop where
  addrs : (l.map Sta.staAddr).Nodup
  follows : ∀ f, Follows cfg l f s

theorem Inv.remembers (h : Inv cfg s.stations s) : Remembers cfg s := by
  refine ⟨fun f => (h.follows f).1.entries, fun f => ?_, fun f => ?_, fun f => (h.follows f).2⟩
  · rw [(h.follows f).1.entries.nodup_iff]; exact h.addrs.sublist (filter_sublist.map _)
  · rw [(h.follows f).1.counter, (h.follows f).1.entries.length_eq, length_map]

theorem Inv.init : Inv cfg [] (init cfg) := by
  refine ⟨nodup_nil, fun f => ?_⟩
  have hown : ((LimShort.init cfg).tables f).own cfg = emptyTable cfg := by
    cases f <;> (unfold Tables.own; split <;> rfl)
  refine ⟨?_, ?_⟩
  · rw [hown]; exact Exact.empty rfl
  · rw [hown]
    cases f <;> simp [LimShort.init, Session.advertises, advertised, emptyTable]

theorem lookup_eq_some {a : MacAddr} (h : s.lookup a = some t) :
    t ∈ s.stations ∧ t.staAddr = a := by
  have ha : (t.staAddr == a) = true := 
    find?_some (p := fun t : Sta => t.staAddr == a) h
  exact ⟨mem_of_find?_eq_some h, beq_iff_eq.mp ha⟩

theorem not_mem_of_lookup {a : MacAddr} (h : ¬ (s.lookup a).isSome) :
    a ∉ s.stations.map Sta.staAddr := by
  intro hmem
  obtain ⟨t, ht, rfl⟩ := mem_map.mp hmem
  apply h
  rw [Session.lookup, find?_isSome]; exact ⟨t, ht, beq_self_eq_true _⟩

theorem Inv.join (h : Inv cfg l s) (hs : s.lookup t.staAddr = some t)
    (hnew : t.staAddr ∉ l.map Sta.staAddr) (hok : Ok cfg s (.join t)) :
    Inv cfg (t :: l) (update_on_join cfg t.staAddr s) ∧
      (update_on_join cfg t.staAddr s).stations = s.stations := by
  obtain ⟨hfree, hibss⟩ := hok
  obtain ⟨ht, ha, hst⟩ := update_short_preamble_keeps cfg t.staAddr s
  obtain ⟨ht', ha', hst'⟩ := update_short_slot_keeps cfg t.staAddr
    (lim_update_short_preamble cfg t.staAddr s)
  have hpre := (h.follows .preamble).join hs hnew (hfree .preamble (by decide)) fun hl tb hne =>
    ⟨congrFun (enable_short_preamble_tables ..) _,
      entered_preamble hne (h.follows .preamble).2 fun hap => hibss hap hl⟩
  have hslot : Follows cfg l .slot (lim_update_short_preamble cfg t.staAddr s) :=
    (h.follows .slot).congr ht ha
  have hs' : (lim_update_short_preamble cfg t.staAddr s).lookup t.staAddr = some t := by
    rw [Session.lookup, hst]; exact hs
  refine ⟨⟨?_, fun f => ?_⟩, hst'.trans hst⟩
  · exact nodup_cons.mpr ⟨hnew, h.addrs⟩
  · cases f with
    | preamble => exact hpre.congr ht' ha'
    | slot =>
      refine hslot.join hs' hnew (fun hl => ?_) fun _ tb hne => ⟨?_, entered_slot hne hslot.2⟩
      · rw [ht]; exact hfree .slot (by decide) hl
      · rw [entered]
        split <;> rfl

theorem Inv.leave (h : Inv cfg s.stations s) (hs : s.lookup t.staAddr = some t)
    (hok : Ok cfg s (.leave t.staAddr)) :
    Inv cfg (s.stations.erase t) (decide_on_leave cfg t s) ∧
      (decide_on_leave cfg t s).stations = s.stations := by
  obtain ⟨hslotAp, hibss⟩ := hok t hs
  obtain ⟨hmem, -⟩ := lookup_eq_some hs
  have haddr : ∀ t' ∈ s.stations, t'.staAddr = t.staAddr → t' = t :=
    fun t' ht' ha => inj_on_of_nodup_map h.addrs ht' hmem ha
  obtain ⟨ht, ha, hst⟩ := decide_short_preamble_keeps cfg t s
  obtain ⟨ht', ha', hst'⟩ := decide_short_slot_keeps cfg t (lim_decide_short_preamble cfg t s)
  have hpre : Follows cfg (s.stations.erase t) .preamble (lim_decide_short_preamble cfg t s) := by
    cases hap : isAp cfg with
    | true => exact (h.follows .preamble).leave_preamble_ap hap hmem haddr
    | false => exact (h.follows .preamble).leave_preamble_ibss hap hmem (hibss hap).1
  have hslot : Follows cfg s.stations .slot (lim_decide_short_preamble cfg t s) :=
    (h.follows .slot).congr ht ha
  refine ⟨⟨h.addrs.sublist (erase_sublist.map _), fun f => ?_⟩, hst'.trans hst⟩
  cases f with
  | preamble => exact hpre.congr ht' ha'
  | slot =>
    refine hslot.leave_slot hmem haddr hslotAp fun hap hl hen => ?_
    rw [ht]; exact (hibss hap).2 hl hen

theorem Inv.with_stations (h : Inv cfg l s) (l' : List Sta) :
    Inv cfg l { s with stations := l' } :=
  ⟨h.addrs, fun f => (h.follows f).congr (by cases f <;> rfl) (by cases f <;> rfl)⟩

theorem Inv.step {op : Op} (h : Inv cfg s.stations s)
    (hs : guarded (Ok cfg) (step cfg) s op = some s₁) : Inv cfg s₁.stations s₁ := by
  obtain ⟨hok, hs⟩ := ite_none_right_eq_some.mp hs
  cases op with
  | join t =>
    obtain ⟨hnew, hs⟩ := ite_none_left_eq_some.mp hs
    rw [← some.inj hs]
    obtain ⟨hinv, hst⟩ := (h.with_stations (t :: s.stations)).join (t := t)
      (by simp [Session.lookup]) (not_mem_of_lookup hnew) hok
    rw [hst]; exact hinv
  | respond addr =>
    obtain ⟨hap, hs⟩ := ite_none_right_eq_some.mp hs
    obtain ⟨t, ht, rfl⟩ := map_eq_some_iff.mp hs
    obtain ⟨hmem, rfl⟩ := lookup_eq_some ht
    have hpre : lim_update_short_preamble cfg t.staAddr s = s :=
      update_again (h.follows .preamble) ht hmem
    have hslot : lim_update_short_slot_time cfg t.staAddr s = s :=
      update_again (h.follows .slot) ht hmem
    rw [update_on_join, hpre, hslot]; exact h
  | enter t =>
    obtain ⟨hnew, hs⟩ := ite_none_left_eq_some.mp hs
    rw [← some.inj hs]
    have hnew' : ¬ (s.lookup t.staAddr).isSome := by intro hsome; simp [hsome] at hnew
    refine Inv.with_stations ⟨?_, fun f => (h.follows f).skip ?_⟩ _
    · exact nodup_cons.mpr ⟨not_mem_of_lookup hnew', h.addrs⟩
    · cases f with
      | preamble => exact hok.1
      | slot => exact hok.2
  | leave addr =>
    obtain ⟨t, ht, rfl⟩ := map_eq_some_iff.mp hs
    obtain ⟨hmem, rfl⟩ := lookup_eq_some ht
    obtain ⟨hinv, hst⟩ := h.leave ht hok
    dsimp only
    rw [hst]; exact hinv.with_stations _

/-- **The caches are exact** in every run of steps that they follow. -/
theorem no_short_remembered (cfg : Cfg) (ops : List Op) (s : Session)
    (h : run (guarded (Ok cfg) (step cfg)) (init cfg) ops = some s) : Remembers cfg s := by
  have hinv : Inv cfg s.stations s := by
    refine run_invariant (I := fun s => Inv cfg s.stations s) ?_ ?_ h
    · intro s op s' hs hstep; exact hs.step hstep
    · exact Inv.init
  exact hinv.remembers

def session11g (role : LimSystemRole) : Cfg where
  limSystemRole := role
  gLimPhyMode := .WNI_CFG_PHY_MODE_11G
  cacheSize := 16
  cacheSize_lt := by decide
  shortPreamble := true
  shortPreambleEnabled11g := true
  shortSlotTimeEnabled11g := true

def macA : MacAddr := #v[2, 0, 0, 0, 0, 4]

def macB : MacAddr := #v[2, 0, 0, 0, 0, 5]

/-- A station without both capabilities joins and leaves, and another one follows. -/
theorem no_short_remembered_two :
    ∃ s, run (guarded (Ok (session11g .eLIM_AP_ROLE)) (step (session11g .eLIM_AP_ROLE)))
      (init (session11g .eLIM_AP_ROLE))
      [.join ⟨macA, false, false⟩, .respond macA, .leave macA, .join ⟨macB, true, false⟩] =
        some s ∧
      s.fShortPreamble = true ∧ s.shortSlotTimeSupported = false ∧
      Remembers (session11g .eLIM_AP_ROLE) s := by
  exact exists_of_tested (fun s => _ ∧ _) (by decide +kernel) fun s hs ⟨hp, hslot⟩ =>
    ⟨hp, hslot, no_short_remembered _ _ s hs⟩

/-- A run that ends with a counter that is not the number of entries, or that of the stations,
or with a flag that does not go with it. -/
theorem not_remembers_of {cfg : Cfg} {ops : List Op} (f : Feature)
    (h : (run (step cfg) (init cfg) ops).map (fun s =>
      decide (((s.tables f).own cfg).numSta.toNat ≠
          (Slots.live ((s.tables f).own cfg).cache).length ∨
        (Slots.live ((s.tables f).own cfg).cache).length ≠
          (s.stations.filter (lacks cfg f)).length ∨
        s.advertises f ≠ advertised cfg ((s.tables f).own cfg).numSta f)) = some true) :
    ∃ s, run (step cfg) (init cfg) ops = some s ∧ ¬ Remembers cfg s := by
  refine exists_of_tested _ h fun s _ hall hr => ?_
  rcases hall with hcount | hlen | hflag
  · exact hcount (hr.counter f)
  · have hperm := (hr.entries f).length_eq
    rw [length_map] at hperm; exact hlen hperm
  · exact hflag (hr.beacon f)

/-- On an AP the entry of the first station is overwritten by that of the second one. In an IBSS
the entry of a station without short preamble stays, the short slot time is not advertised again,
and a peer that is added is not entered. -/
theorem no_short_not_remembered :
    (∃ s, run (step (session11g .eLIM_AP_ROLE)) (init (session11g .eLIM_AP_ROLE))
      [.join ⟨macA, true, false⟩, .join ⟨macB, true, false⟩] = some s ∧
      ¬ Remembers (session11g .eLIM_AP_ROLE) s) ∧
    (∃ s, run (step (session11g .eLIM_AP_ROLE)) (init (session11g .eLIM_AP_ROLE))
      [.join ⟨macA, false, true⟩, .join ⟨macB, false, true⟩] = some s ∧
      ¬ Remembers (session11g .eLIM_AP_ROLE) s) ∧
    (∃ s, run (step (session11g .eLIM_STA_IN_IBSS_ROLE)) (init (session11g .eLIM_STA_IN_IBSS_ROLE))
      [.join ⟨macA, false, true⟩, .leave macA] = some s ∧
      ¬ Remembers (session11g .eLIM_STA_IN_IBSS_ROLE) s) ∧
    (∃ s, run (step (session11g .eLIM_STA_IN_IBSS_ROLE)) (init (session11g .eLIM_STA_IN_IBSS_ROLE))
      [.join ⟨macA, true, false⟩, .leave macA] = some s ∧
      ¬ Remembers (session11g .eLIM_STA_IN_IBSS_ROLE) s) ∧
    (∃ s, run (step (session11g .eLIM_STA_IN_IBSS_ROLE)) (init (session11g .eLIM_STA_IN_IBSS_ROLE))
      [.enter ⟨macA, true, false⟩] = some s ∧
      ¬ Remembers (session11g .eLIM_STA_IN_IBSS_ROLE) s) ∧
    ∃ s, run (step { session11g .eLIM_AP_ROLE with gLimPhyMode := .WNI_CFG_PHY_MODE_11B })
      (init { session11g .eLIM_AP_ROLE with gLimPhyMode := .WNI_CFG_PHY_MODE_11B })
      [.join ⟨macA, true, false⟩, .leave macA] = some s ∧
      ¬ Remembers { session11g .eLIM_AP_ROLE with gLimPhyMode := .WNI_CFG_PHY_MODE_11B } s := by
  refine ⟨?_, ?_, ?_, ?_, ?_, ?_⟩
  · exact not_remembers_of .slot (by decide +kernel)
  · exact not_remembers_of .preamble (by decide +kernel)
  · exact not_remembers_of .preamble (by decide +kernel)
  · exact not_remembers_of .slot (by decide +kernel)
  · exact not_remembers_of .slot (by decide +kernel)
  · exact not_remembers_of .slot (by decide +kernel)

end Qcacld.LimShort
