/-
The SA Query procedure of an AP: `lim_process_assoc_req_sta_ctx` of `lim_process_assoc_req_frame.c`,
`__lim_process_sa_query_response_action_frame` of `lim_process_action_frame.c` and
`lim_pmf_sa_query_timer_handler` of `lim_utils.c`.

An answer is compared with the sum of the first id and the number of the retry, which is not reduced
to 16 bits: after the ids have wrapped, the station's answer is taken for that of somebody else, and
the procedure can expire although the station has answered (`answer_after_wrap`). The events are
those of one station of an AP session. The timer may fire at any time, also when a handler is late.
-/
import Mathlib.Data.UInt
import Mathlib.Data.List.Range
import Qcacld.Lib.Run

set_option autoImplicit false

namespace Qcacld.LimSaQuery

open Lib

/-! ## Data -/

def WNI_CFG_PMF_SA_QUERY_MAX_RETRIES_STAMAX : Nat := 20
def eSIR_MAC_TRY_AGAIN_LATER : Nat := 30
def eSIR_MAC_DISASSOC_DUE_TO_INACTIVITY_REASON : Nat := 4

/-- The configured number of retries, of which `cfg_set_int` checks the range. -/
structure Cfg where
  maxRetries : Nat
  maxRetries_le : maxRetries ≤ WNI_CFG_PMF_SA_QUERY_MAX_RETRIES_STAMAX

/-- The states of the peer's MLM that are told apart here. -/
inductive MlmState where
  | OFFLINE
  | LINK_ESTABLISHED
  | WT_DEL_STA_RSP
  | WT_DEL_BSS_RSP
  | other (state : Nat)
deriving DecidableEq

/-- `pmfSaQueryState`; `cleared` is the value of zeroed memory, which has no name in the source. -/
inductive SaQueryState where
  | cleared
  | NOT_IN_PROGRESS
  | IN_PROGRESS
  | TIMED_OUT
deriving DecidableEq

inductive SubType where
  | LIM_ASSOC
  | LIM_REASSOC
deriving DecidableEq

inductive CleanupTrigger where
  | none
  | LINK_MONITORING_DISASSOC

/-- The DPH context of the station, less what belongs to the SA Query. -/
structure Ctx where
  mlmState : MlmState
  authType : Nat
  capabilityInfo : UInt16
  disassocReason : Nat
  cleanupTrigger : CleanupTrigger
  rmfEnabled : Bool

structure Sta where
  ctx : Ctx
  pmfSaQueryState : SaQueryState
  pmfSaQueryRetryCount : UInt8
  pmfSaQueryCurrentTransId : UInt16
  pmfSaQueryStartTransId : UInt16
  /-- Whether the last call for `pmfSaQueryTimer` was to activate it. -/
  pmfSaQueryTimer : Bool

structure PreAuthNode where
  authenticated : Bool
  authType : Nat
deriving DecidableEq

structure State where
  sta : Sta
  /-- The pre-auth node of the station's address. -/
  pre_auth : Option PreAuthNode

inductive Frame where
  | assoc_rsp (statusCode aid : Nat) (subType : SubType) (withSta : Bool)
  | sa_query_request (transId : UInt16)
  | disassoc (reason : Nat)
  | sme_disassoc_ind

/-! ## A (re)association request -/

/-- All of the node is cleared; it is that of the station, so that its index is in the table. -/
def dph_init_sta_state (_sta : Sta) : Sta where
  ctx := ⟨.OFFLINE, 0, 0, 0, .none, false⟩
  pmfSaQueryState := .cleared
  pmfSaQueryRetryCount := 0
  pmfSaQueryCurrentTransId := 0
  pmfSaQueryStartTransId := 0
  pmfSaQueryTimer := false

/-- The return value, and `*auth_type` and `*update_ctx` where they are written. -/
structure AssocResult where
  state : State
  frames : List Frame
  ret : Bool
  auth_type : Option Nat
  update_ctx : Bool

def AssocResult.no (s : State) (frames : List Frame) : AssocResult :=
  ⟨s, frames, false, none, false⟩

def startSaQuery (s : State) (sub_type : SubType) (timer : Bool) : AssocResult :=
  let frames := [.assoc_rsp eSIR_MAC_TRY_AGAIN_LATER 1 sub_type true,
    .sa_query_request s.sta.pmfSaQueryCurrentTransId]
  let sta : Sta :=
    { s.sta with
      pmfSaQueryRetryCount := 0
      pmfSaQueryStartTransId := s.sta.pmfSaQueryCurrentTransId
      pmfSaQueryCurrentTransId := s.sta.pmfSaQueryCurrentTransId + 1 }
  if timer then
    .no { s with sta := { sta with pmfSaQueryTimer := true, pmfSaQueryState := .IN_PROGRESS } }
      frames
  else .no { s with sta := sta } frames

def acceptRequest (s : State) (sub_type : SubType) (capabilityInfo : UInt16) : AssocResult :=
  if sub_type = .LIM_ASSOC ∧ s.sta.ctx.capabilityInfo = capabilityInfo then .no s []
  else
    let sta : Sta := { s.sta with ctx := { s.sta.ctx with capabilityInfo := capabilityInfo } }
    let authenticated := s.pre_auth.any PreAuthNode.authenticated
    { state :=
        { sta := dph_init_sta_state sta, pre_auth := if authenticated then none else s.pre_auth }
      frames := []
      ret := true
      auth_type :=
        if authenticated then s.pre_auth.map PreAuthNode.authType else some sta.ctx.authType
      update_ctx := true }

def lim_process_assoc_req_sta_ctx (s : State) (sub_type : SubType) (capabilityInfo : UInt16)
    (timer : Bool) : AssocResult :=
  if s.sta.ctx.mlmState ≠ .LINK_ESTABLISHED then .no s []
  else if s.sta.ctx.rmfEnabled then
    match s.sta.pmfSaQueryState with
    | .NOT_IN_PROGRESS => startSaQuery s sub_type timer
    | .IN_PROGRESS => .no s [.assoc_rsp eSIR_MAC_TRY_AGAIN_LATER 1 sub_type false]
    | .TIMED_OUT =>
      acceptRequest { s with sta := { s.sta with pmfSaQueryState := .NOT_IN_PROGRESS } } sub_type
        capabilityInfo
    | .cleared => acceptRequest s sub_type capabilityInfo
  else acceptRequest s sub_type capabilityInfo

/-! ## A response and an expiry -/

def matchesQuery (sta : Sta) (transId : UInt16) : Bool :=
  (List.range (sta.pmfSaQueryRetryCount.toNat + 1)).any fun retryNum =>
    transId.toNat = sta.pmfSaQueryStartTransId.toNat + retryNum

/-- `wep` is the bit of the frame that says that it is protected. -/
def lim_process_sa_query_response_action_frame (s : State) (wep : Bool) (transId : UInt16) :
    State :=
  if wep = false then s
  else if s.sta.pmfSaQueryState ≠ .IN_PROGRESS then s
  else if matchesQuery s.sta transId then
    { s with sta := { s.sta with pmfSaQueryTimer := false, pmfSaQueryState := .NOT_IN_PROGRESS } }
  else s

def lim_trigger_sta_deletion (sta : Sta) : Sta × List Frame :=
  if sta.ctx.mlmState = .WT_DEL_STA_RSP ∨ sta.ctx.mlmState = .WT_DEL_BSS_RSP then (sta, [])
  else
    ({ sta with
        ctx :=
          { sta.ctx with
            disassocReason := eSIR_MAC_DISASSOC_DUE_TO_INACTIVITY_REASON
            cleanupTrigger := .LINK_MONITORING_DISASSOC } },
      [.sme_disassoc_ind])

variable (cfg : Cfg)

/-- `get` says whether the configuration can be read. -/
def lim_pmf_sa_query_timer_handler (s : State) (get timer : Bool) : State × List Frame :=
  if s.sta.pmfSaQueryState ≠ .IN_PROGRESS then (s, [])
  else if get = false then
    ({ s with sta := { s.sta with pmfSaQueryState := .NOT_IN_PROGRESS } }, [])
  else
    let sta : Sta := { s.sta with pmfSaQueryRetryCount := s.sta.pmfSaQueryRetryCount + 1 }
    if sta.pmfSaQueryRetryCount.toNat ≥ cfg.maxRetries then
      let r := lim_trigger_sta_deletion sta
      ({ s with sta := { r.1 with pmfSaQueryState := .TIMED_OUT } },
        .disassoc eSIR_MAC_DISASSOC_DUE_TO_INACTIVITY_REASON :: r.2)
    else
      let frames := [.sa_query_request sta.pmfSaQueryCurrentTransId]
      let sta : Sta := { sta with pmfSaQueryCurrentTransId := sta.pmfSaQueryCurrentTransId + 1 }
      if timer then ({ s with sta := { sta with pmfSaQueryTimer := true } }, frames)
      else ({ s with sta := { sta with pmfSaQueryState := .NOT_IN_PROGRESS } }, frames)

/-! ## Runs -/

inductive Event where
  | request (sub_type : SubType) (capabilityInfo : UInt16) (timer : Bool)
  | response (wep : Bool) (transId : UInt16)
  | expiry (get timer : Bool)

def step (s : State) : Event → State × List Frame
  | .request sub_type capabilityInfo timer =>
    let r := lim_process_assoc_req_sta_ctx s sub_type capabilityInfo timer
    (r.state, r.frames)
  | .response wep transId => (lim_process_sa_query_response_action_frame s wep transId, [])
  | .expiry get timer => lim_pmf_sa_query_timer_handler cfg s get timer

/-- The SA Query procedure that was started last: the ids of its queries, how often the timer has
fired in it, and whether a protected response to one of the queries has come. -/
structure Proc where
  queries : List UInt16
  fired : Nat
  answered : Bool

def queriesOf (frames : List Frame) : List UInt16 :=
  frames.filterMap fun
    | .sa_query_request transId => some transId
    | _ => none

/-- What a step adds to the procedure. A query that is sent upon a request starts a new one. -/
def track (s : State) (frames : List Frame) (p : Proc) : Event → Proc
  | .request _ _ _ =>
    match queriesOf frames with
    | [] => p
    | queries => ⟨queries, 0, false⟩
  | .response wep transId =>
    if wep = true ∧ s.sta.pmfSaQueryState = .IN_PROGRESS ∧ transId ∈ p.queries then
      { p with answered := true }
    else p
  | .expiry _ _ =>
    if s.sta.pmfSaQueryState = .IN_PROGRESS then
      ⟨p.queries ++ queriesOf frames, p.fired + 1, p.answered⟩
    else p

def trackedStep (r : State × Proc) (e : Event) : Option (State × Proc) :=
  let next := step cfg r.1 e
  some (next.1, track r.1 next.2 r.2 e)

/-- The event is not a protected response to a query whose id came after the ids had wrapped. -/
def stepOk (s : State) : Event → Bool
  | .response wep transId =>
    !(wep && decide (s.sta.pmfSaQueryState = .IN_PROGRESS) &&
      (List.range (s.sta.pmfSaQueryRetryCount.toNat + 1)).any fun retryNum =>
        decide (2 ^ 16 ≤ s.sta.pmfSaQueryStartTransId.toNat + retryNum) &&
          decide (transId = s.sta.pmfSaQueryStartTransId + UInt16.ofNat retryNum))
  | _ => true

/-! ## Ids -/

variable {cfg} {s s' : State} {p p' : Proc} {e : Event} {transId start : UInt16} {n : Nat}

def idsFrom (start : UInt16) (n : Nat) : List UInt16 :=
  (List.range n).map fun k => start + UInt16.ofNat k

theorem length_idsFrom : (idsFrom start n).length = n := by
  rw [idsFrom, List.length_map, List.length_range]

theorem idsFrom_succ : idsFrom start (n + 1) = idsFrom start n ++ [start + UInt16.ofNat n] := by
  rw [idsFrom, List.range_succ, List.map_append, List.map_singleton]; rfl

theorem toNat_add_ofNat (start : UInt16) (k : Nat) :
    (start + UInt16.ofNat k).toNat = (start.toNat + k) % 2 ^ 16 := by
  rw [UInt16.toNat_add, UInt16.toNat_ofNat']; omega

theorem nodup_idsFrom (h : n ≤ 2 ^ 16) : (idsFrom start n).Nodup := by
  refine List.Nodup.map_on (fun a ha b hb hab => ?_) List.nodup_range
  rw [List.mem_range] at ha hb
  have heq := congrArg UInt16.toNat hab
  rw [toNat_add_ofNat, toNat_add_ofNat] at heq; omega

theorem matches_iff (sta : Sta) (transId : UInt16) :
    (matchesQuery sta transId = true ↔
        transId ∈ idsFrom sta.pmfSaQueryStartTransId (sta.pmfSaQueryRetryCount.toNat + 1)) ↔
      ¬ ∃ k ≤ sta.pmfSaQueryRetryCount.toNat, 2 ^ 16 ≤ sta.pmfSaQueryStartTransId.toNat + k ∧
        transId = sta.pmfSaQueryStartTransId + UInt16.ofNat k := by
  have ht := transId.toNat_lt
  have hcount := sta.pmfSaQueryRetryCount.toNat_lt
  have hmatch : matchesQuery sta transId = true ↔ ∃ k ≤ sta.pmfSaQueryRetryCount.toNat,
      transId.toNat = sta.pmfSaQueryStartTransId.toNat + k := by
    simp only [← Nat.lt_add_one_iff]
    simp [matchesQuery]
  have hmem : transId ∈ idsFrom sta.pmfSaQueryStartTransId (sta.pmfSaQueryRetryCount.toNat + 1) ↔
      ∃ k ≤ sta.pmfSaQueryRetryCount.toNat,
        transId.toNat = (sta.pmfSaQueryStartTransId.toNat + k) % 2 ^ 16 := by
    rw [idsFrom, List.mem_map]
    refine exists_congr fun k => and_congr (by rw [List.mem_range, Nat.lt_succ_iff]) ?_
    rw [← toNat_add_ofNat, UInt16.toNat_inj]; exact eq_comm
  rw [hmatch, hmem]
  constructor
  · rintro hiff ⟨k, hk, hwrap, heq⟩
    have htk : transId.toNat = (sta.pmfSaQueryStartTransId.toNat + k) % 2 ^ 16 := by
      rw [heq, toNat_add_ofNat]
    -- the sum of the loop is never this id: the retries are too few
    obtain ⟨k', hk', heq'⟩ := hiff.mpr ⟨k, hk, htk⟩
    omega
  · intro hno
    constructor
    · rintro ⟨k, hk, heq⟩; exact ⟨k, hk, by omega⟩
    · rintro ⟨k, hk, heq⟩
      refine ⟨k, hk, ?_⟩
      by_contra hne
      refine hno ⟨k, hk, by omega, ?_⟩
      rw [← UInt16.toNat_inj, toNat_add_ofNat]; exact heq

theorem stepOk_response (s : State) (transId : UInt16) (h : s.sta.pmfSaQueryState = .IN_PROGRESS) :
    stepOk s (.response true transId) = true ↔
      ¬ ∃ k ≤ s.sta.pmfSaQueryRetryCount.toNat, 2 ^ 16 ≤ s.sta.pmfSaQueryStartTransId.toNat + k ∧
        transId = s.sta.pmfSaQueryStartTransId + UInt16.ofNat k := by
  simp only [← Nat.lt_add_one_iff (n := s.sta.pmfSaQueryRetryCount.toNat)]
  simp [stepOk, h]

/-! ## The invariant -/

/-- How often the timer fires in a procedure that expires, and how many queries it may have. -/
def Cfg.limit (cfg : Cfg) : Nat := max 1 cfg.maxRetries

/-- The station and the procedure that was started last: what is in progress has sent one query more
than the timer has fired, and what has timed out has had its time without an answer. -/
structure Inv (cfg : Cfg) (r : State × Proc) : Prop where
  rmf : r.1.sta.ctx.mlmState = .LINK_ESTABLISHED → r.1.sta.ctx.rmfEnabled = true
  state : r.1.sta.ctx.mlmState = .LINK_ESTABLISHED → r.1.sta.pmfSaQueryState ≠ .cleared
  listed : ∃ start n, r.2.queries = idsFrom start n ∧ n ≤ cfg.limit
  progress : r.1.sta.pmfSaQueryState = .IN_PROGRESS →
    r.2.queries = idsFrom r.1.sta.pmfSaQueryStartTransId (r.1.sta.pmfSaQueryRetryCount.toNat + 1) ∧
      r.1.sta.pmfSaQueryCurrentTransId = r.1.sta.pmfSaQueryStartTransId +
        UInt16.ofNat (r.1.sta.pmfSaQueryRetryCount.toNat + 1) ∧
      r.2.fired = r.1.sta.pmfSaQueryRetryCount.toNat ∧ r.2.answered = false ∧
      r.1.sta.pmfSaQueryRetryCount.toNat < cfg.limit
  timedOut : r.1.sta.pmfSaQueryState = .TIMED_OUT →
    r.2.queries ≠ [] ∧ r.2.fired = cfg.limit ∧ r.2.answered = false

theorem one_le_limit (cfg : Cfg) : 1 ≤ cfg.limit := le_max_left _ _

theorem limit_le (cfg : Cfg) : cfg.limit ≤ 20 := by
  have h : cfg.maxRetries ≤ 20 := cfg.maxRetries_le
  exact max_le (by decide) h

theorem Inv.idle (h : Inv cfg (s, p)) {q : Proc}
    (hq : ∃ start n, q.queries = idsFrom start n ∧ n ≤ cfg.limit)
    (hctx : s'.sta.ctx = s.sta.ctx) (hs : s'.sta.pmfSaQueryState = .NOT_IN_PROGRESS) :
    Inv cfg (s', q) := by
  refine ⟨fun hm => ?_, fun _ => ?_, hq, fun hp => ?_, fun ht => ?_⟩
  · rw [hctx] at hm ⊢
    exact h.rmf hm
  · rw [hs]; simp
  · exact absurd (hs.symm.trans hp) (by simp)
  · exact absurd (hs.symm.trans ht) (by simp)

theorem Inv.cleared (h : Inv cfg (s, p)) (hs : s'.sta = dph_init_sta_state s.sta) :
    Inv cfg (s', p) := by
  refine ⟨fun hm => ?_, fun hm => ?_, h.listed, fun hp => ?_, fun ht => ?_⟩
  · rw [hs] at hm; exact absurd hm (by simp [dph_init_sta_state])
  · rw [hs] at hm; exact absurd hm (by simp [dph_init_sta_state])
  · rw [hs] at hp; exact absurd hp (by simp [dph_init_sta_state])
  · rw [hs] at ht; exact absurd ht (by simp [dph_init_sta_state])

theorem Inv.accept (h : Inv cfg (s, p)) (sub_type : SubType) (capabilityInfo : UInt16) :
    Inv cfg ((acceptRequest s sub_type capabilityInfo).state, p) ∧
      (acceptRequest s sub_type capabilityInfo).frames = [] := by
  unfold acceptRequest
  split
  · exact ⟨h, rfl⟩
  · exact ⟨h.cleared rfl, rfl⟩

theorem Inv.started (h : Inv cfg (s, p)) (sub_type : SubType) (timer : Bool)
    (hs : s.sta.pmfSaQueryState = .NOT_IN_PROGRESS) :
    Inv cfg ((startSaQuery s sub_type timer).state,
      ⟨[s.sta.pmfSaQueryCurrentTransId], 0, false⟩) := by
  have hone : [s.sta.pmfSaQueryCurrentTransId] = idsFrom s.sta.pmfSaQueryCurrentTransId 1 := by
    simp [idsFrom]
  have hlist : ∃ start n, [s.sta.pmfSaQueryCurrentTransId] = idsFrom start n ∧ n ≤ cfg.limit :=
    ⟨_, 1, hone, one_le_limit cfg⟩
  unfold startSaQuery
  split
  · refine ⟨h.rmf, fun _ => ?_, hlist, fun _ => ⟨hone, rfl, rfl, rfl, one_le_limit cfg⟩,
      fun ht => ?_⟩
    · simp [AssocResult.no]
    · exact absurd ht (by simp [AssocResult.no])
  · exact h.idle hlist rfl hs

theorem Inv.request (h : Inv cfg (s, p)) (sub_type : SubType) (capabilityInfo : UInt16)
    (timer : Bool) :
    Inv cfg ((step cfg s (.request sub_type capabilityInfo timer)).1,
      track s (step cfg s (.request sub_type capabilityInfo timer)).2 p
        (.request sub_type capabilityInfo timer)) := by
  unfold step lim_process_assoc_req_sta_ctx
  dsimp only
  split
  · exact h
  · next hm =>
    have hm : s.sta.ctx.mlmState = .LINK_ESTABLISHED := not_not.mp hm
    have hrmf := h.rmf hm
    have hcleared := h.state hm
    rw [if_pos hrmf]
    cases hq : s.sta.pmfSaQueryState with
    | cleared => exact absurd hq hcleared
    | NOT_IN_PROGRESS =>
      have hframes : queriesOf (startSaQuery s sub_type timer).frames =
          [s.sta.pmfSaQueryCurrentTransId] := by
        unfold startSaQuery
        split <;> rfl
      dsimp only [track]
      rw [hframes]; exact h.started sub_type timer hq
    | IN_PROGRESS => exact h
    | TIMED_OUT =>
      have hidle : Inv cfg
          ({ s with sta := { s.sta with pmfSaQueryState := .NOT_IN_PROGRESS } }, p) :=
        h.idle h.listed rfl rfl
      obtain ⟨hinv, hframes⟩ := hidle.accept sub_type capabilityInfo
      rw [hframes]; exact hinv

theorem Inv.response (h : Inv cfg (s, p)) (wep : Bool) (transId : UInt16)
    (hok : stepOk s (.response wep transId) = true) :
    Inv cfg ((step cfg s (.response wep transId)).1,
      track s (step cfg s (.response wep transId)).2 p (.response wep transId)) := by
  unfold step lim_process_sa_query_response_action_frame
  dsimp only [track]
  cases wep with
  | false => exact h
  | true =>
    rw [if_neg (by simp)]
    split
    · next hq => rw [if_neg (by simp [hq])]; exact h
    · next hq =>
      have hq : s.sta.pmfSaQueryState = .IN_PROGRESS := not_not.mp hq
      have hqueries := (h.progress hq).1
      have hmatch := (matches_iff s.sta transId).mpr ((stepOk_response s transId hq).mp hok)
      rw [← hqueries] at hmatch
      split
      · refine h.idle ?_ rfl rfl
        split
        · exact h.listed
        · exact h.listed
      · next hno => rw [if_neg (fun hand => hno (hmatch.mpr hand.2.2))]; exact h

theorem Inv.expiry (h : Inv cfg (s, p)) (get timer : Bool) :
    Inv cfg ((step cfg s (.expiry get timer)).1,
      track s (step cfg s (.expiry get timer)).2 p (.expiry get timer)) := by
  unfold step lim_pmf_sa_query_timer_handler
  dsimp only [track]
  split
  · exact h
  · next hq =>
    have hq : s.sta.pmfSaQueryState = .IN_PROGRESS := not_not.mp hq
    obtain ⟨hqueries, hcurrent, hfired, hanswered, hlt⟩ := h.progress hq
    have hle := limit_le cfg
    have hcount : (s.sta.pmfSaQueryRetryCount + 1).toNat =
        s.sta.pmfSaQueryRetryCount.toNat + 1 := by
      rw [UInt8.toNat_add]
      dsimp only at hlt
      have hone : (1 : UInt8).toNat = 1 := rfl
      omega
    dsimp only at hqueries hcurrent hfired hanswered hlt
    split
    · -- the configuration is not read, and the procedure is given up
      refine h.idle ?_ rfl rfl
      rw [queriesOf, List.filterMap_nil, List.append_nil]; exact h.listed
    · split
      · next hmax =>
        -- the last expiry
        have hnone : queriesOf (.disassoc eSIR_MAC_DISASSOC_DUE_TO_INACTIVITY_REASON ::
            (lim_trigger_sta_deletion
              { s.sta with pmfSaQueryRetryCount := s.sta.pmfSaQueryRetryCount + 1 }).2) = [] := by
          unfold lim_trigger_sta_deletion
          split <;> rfl
        have hmlm : (lim_trigger_sta_deletion
            { s.sta with pmfSaQueryRetryCount := s.sta.pmfSaQueryRetryCount + 1 }).1.ctx.mlmState =
              s.sta.ctx.mlmState ∧ (lim_trigger_sta_deletion
            { s.sta with
              pmfSaQueryRetryCount := s.sta.pmfSaQueryRetryCount + 1 }).1.ctx.rmfEnabled =
              s.sta.ctx.rmfEnabled := by
          unfold lim_trigger_sta_deletion
          split <;> exact ⟨rfl, rfl⟩
        rw [hnone, List.append_nil]
        refine ⟨fun hm => ?_, fun _ => by simp, h.listed, fun hp => absurd hp (by simp),
          fun _ => ?_⟩
        · rw [hmlm.1] at hm
          rw [hmlm.2]; exact h.rmf hm
        · refine ⟨?_, ?_, hanswered⟩
          · rw [hqueries, idsFrom_succ]; simp
          · dsimp only at hmax ⊢
            have hlimit : cfg.limit = max 1 cfg.maxRetries := rfl
            omega
      · next hmax =>
        -- one more query
        have hlimit : cfg.limit = max 1 cfg.maxRetries := rfl
        have hlist : p.queries ++ [s.sta.pmfSaQueryCurrentTransId] =
            idsFrom s.sta.pmfSaQueryStartTransId (s.sta.pmfSaQueryRetryCount.toNat + 1 + 1) := by
          rw [idsFrom_succ (n := s.sta.pmfSaQueryRetryCount.toNat + 1), ← hqueries, hcurrent]
        have hlisted : ∃ start n, p.queries ++ [s.sta.pmfSaQueryCurrentTransId] = idsFrom start n ∧
            n ≤ cfg.limit := ⟨_, _, hlist, by omega⟩
        split
        · refine ⟨h.rmf, h.state, hlisted, fun _ => ⟨?_, ?_, ?_, hanswered, ?_⟩, fun ht => ?_⟩
          · rw [hcount]; exact hlist
          · show s.sta.pmfSaQueryCurrentTransId + 1 = s.sta.pmfSaQueryStartTransId +
              UInt16.ofNat ((s.sta.pmfSaQueryRetryCount + 1).toNat + 1)
            rw [hcount, hcurrent]
            rw [← UInt16.toNat_inj, UInt16.toNat_add, toNat_add_ofNat, toNat_add_ofNat]
            have hone : (1 : UInt16).toNat = 1 := rfl
            omega
          · rw [hcount, hfired]
          · rw [hcount]; omega
          · exact absurd (hq.symm.trans ht) (by simp)
        · exact h.idle hlisted rfl rfl

theorem Inv.tracked {r r' : State × Proc} (h : Inv cfg r) (hok : stepOk r.1 e = true)
    (hs : trackedStep cfg r e = some r') : Inv cfg r' := by
  cases hs
  cases e with
  | request sub_type capabilityInfo timer => exact h.request sub_type capabilityInfo timer
  | response wep transId => exact h.response wep transId hok
  | expiry get timer => exact h.expiry get timer

/-! ## What the procedure is for -/

/-- In a state with the procedure `p`: only a request that comes after `p` has expired without an
answer changes the context of the station or takes its pre-auth node. A response that is not
protected, or not one to a query of `p`, changes nothing. The ids of the queries are consecutive
modulo 2^16 and different, and there are no more than there may be. -/
structure Protects (cfg : Cfg) (s : State) (p : Proc) : Prop where
  expired : ∀ sub_type capabilityInfo timer,
    (step cfg s (.request sub_type capabilityInfo timer)).1.sta.ctx ≠ s.sta.ctx ∨
        (step cfg s (.request sub_type capabilityInfo timer)).1.pre_auth ≠ s.pre_auth →
      p.queries ≠ [] ∧ p.fired = max 1 cfg.maxRetries ∧ p.answered = false
  ignored : ∀ wep transId,
    ¬ (wep = true ∧ s.sta.pmfSaQueryState = .IN_PROGRESS ∧ transId ∈ p.queries) →
      step cfg s (.response wep transId) = (s, [])
  consecutive : ∃ start, p.queries = idsFrom start p.queries.length
  distinct : p.queries.Nodup
  few : p.queries.length ≤ max 1 cfg.maxRetries

/-- A protected response ends the procedure in progress if and only if it is one to a query. -/
def EndsExactly (cfg : Cfg) (s : State) (p : Proc) (transId : UInt16) : Prop :=
  (step cfg s (.response true transId)).1.sta.pmfSaQueryState ≠ .IN_PROGRESS ↔ transId ∈ p.queries

theorem Inv.request_expired (h : Inv cfg (s, p)) (sub_type : SubType) (capabilityInfo : UInt16)
    (timer : Bool)
    (hchange : (step cfg s (.request sub_type capabilityInfo timer)).1.sta.ctx ≠ s.sta.ctx ∨
      (step cfg s (.request sub_type capabilityInfo timer)).1.pre_auth ≠ s.pre_auth) :
    p.queries ≠ [] ∧ p.fired = max 1 cfg.maxRetries ∧ p.answered = false := by
  unfold step lim_process_assoc_req_sta_ctx at hchange
  dsimp only at hchange
  split at hchange
  · simp [AssocResult.no] at hchange
  · next hm =>
    have hm : s.sta.ctx.mlmState = .LINK_ESTABLISHED := not_not.mp hm
    have hrmf := h.rmf hm
    have hcleared := h.state hm
    rw [if_pos hrmf] at hchange
    cases hq : s.sta.pmfSaQueryState with
    | cleared => exact absurd hq hcleared
    | NOT_IN_PROGRESS =>
      rw [hq] at hchange
      dsimp only [startSaQuery] at hchange
      split at hchange <;> simp [AssocResult.no] at hchange
    | IN_PROGRESS => rw [hq] at hchange; simp [AssocResult.no] at hchange
    | TIMED_OUT => exact h.timedOut hq

theorem Inv.protects (h : Inv cfg (s, p)) : Protects cfg s p := by
  obtain ⟨start, n, hqueries, hn⟩ := h.listed
  have hle := limit_le cfg
  have hlen : p.queries.length = n := by rw [hqueries, length_idsFrom]
  refine ⟨h.request_expired, fun wep transId hno => ?_, ⟨start, ?_⟩, ?_, ?_⟩
  · unfold step lim_process_sa_query_response_action_frame
    dsimp only
    split
    · rfl
    · split
      · rfl
      · next hwep hq =>
        have hq : s.sta.pmfSaQueryState = .IN_PROGRESS := not_not.mp hq
        have hlist := (h.progress hq).1
        dsimp only at hlist
        split
        · next hmatch =>
          -- what the loop accepts is one of the queries
          refine absurd ⟨by simpa using hwep, hq, ?_⟩ hno
          have ht := transId.toNat_lt
          simp only [matchesQuery, List.any_eq_true, decide_eq_true_eq] at hmatch
          obtain ⟨k, hk, heq⟩ := hmatch
          rw [hlist, idsFrom, List.mem_map]
          refine ⟨k, hk, ?_⟩
          rw [← UInt16.toNat_inj, toNat_add_ofNat]; omega
        · rfl
  · rw [hlen]; exact hqueries
  · rw [hqueries]; exact nodup_idsFrom (by omega)
  · rw [hlen]; exact hn

theorem Inv.ends_iff (h : Inv cfg (s, p)) (hq : s.sta.pmfSaQueryState = .IN_PROGRESS)
    (transId : UInt16) :
    EndsExactly cfg s p transId ↔ stepOk s (.response true transId) = true := by
  have hlist := (h.progress hq).1
  rw [stepOk_response s transId hq, ← matches_iff, ← hlist, EndsExactly]
  refine iff_congr ?_ Iff.rfl
  unfold step lim_process_sa_query_response_action_frame
  dsimp only
  rw [if_neg (by simp), if_neg (not_not.mpr hq)]
  split
  · next hmatch => exact ⟨fun _ => hmatch, fun _ => by simp⟩
  · next hmatch => exact ⟨fun hne => absurd hq hne, fun hm => absurd hm hmatch⟩

/-- **A station is protected** in every run in which no protected response carries an id from
after the wrap: in every state reached nothing happens to it before a procedure has expired. And a
protected response that comes then ends the procedure in progress exactly if it is one to a query,
if and only if its id is not such an id. -/
theorem sa_query_protects (cfg : Cfg) (s₀ s : State) (p : Proc) (es : List Event)
    (hrmf : s₀.sta.ctx.rmfEnabled = true) (hidle : s₀.sta.pmfSaQueryState = .NOT_IN_PROGRESS)
    (h : run (guarded (fun r e => stepOk r.1 e = true) (trackedStep cfg)) (s₀, ⟨[], 0, false⟩) es =
      some (s, p)) :
    Protects cfg s p ∧ (s.sta.pmfSaQueryState = .IN_PROGRESS → ∀ transId,
      EndsExactly cfg s p transId ↔ stepOk s (.response true transId) = true) := by
  have hstart : Inv cfg (s₀, ⟨[], 0, false⟩) := by
    refine ⟨fun _ => hrmf, fun _ => ?_, ⟨0, 0, rfl, Nat.zero_le _⟩, fun hp => ?_, fun ht => ?_⟩
    · rw [hidle]; simp
    · exact absurd (hidle.symm.trans hp) (by simp)
    · exact absurd (hidle.symm.trans ht) (by simp)
  have hinv : Inv cfg (s, p) :=
    guarded_run_invariant (fun _ _ _ hi hok hs => hi.tracked hok hs) hstart h
  exact ⟨hinv.protects, hinv.ends_iff⟩

section Inputs

def associated (id : UInt16) : State where
  sta := ⟨⟨.LINK_ESTABLISHED, 0, 0x431, 0, .none, true⟩, .NOT_IN_PROGRESS, 7, id, 0, false⟩
  pre_auth := some ⟨true, 0⟩

def twoRetries : Cfg := ⟨2, by decide⟩

/-- The station answers the second query; the next time it does not answer, and a request is
accepted. -/
theorem sa_query_protects_answer :
    ∃ s p, run (guarded (fun r e => stepOk r.1 e = true) (trackedStep twoRetries))
        (associated 10, ⟨[], 0, false⟩)
        [.request .LIM_ASSOC 0x431 true, .expiry true true, .response false 11, .response true 11,
          .request .LIM_REASSOC 0x431 true, .expiry true true, .expiry true true] = some (s, p) ∧
      p = ⟨[12, 13], 2, false⟩ ∧
      (step twoRetries s (.request .LIM_REASSOC 0x431 true)).1.pre_auth = none ∧
      Protects twoRetries s p := by
  refine ⟨_, _, rfl, rfl, rfl, ?_⟩
  exact (sa_query_protects twoRetries (associated 10) _ _
    [.request .LIM_ASSOC 0x431 true, .expiry true true, .response false 11, .response true 11,
      .request .LIM_REASSOC 0x431 true, .expiry true true, .expiry true true] rfl rfl rfl).1

/-- The first query has id 65535 and the second one id 0. The station's answer to the second one
does not end the procedure, and the next request is accepted. -/
theorem answer_after_wrap :
    ∃ s p, run (trackedStep twoRetries) (associated 65535, ⟨[], 0, false⟩)
        [.request .LIM_ASSOC 0x431 true, .expiry true true, .response true 0] = some (s, p) ∧
      p = ⟨[65535, 0], 1, true⟩ ∧ s.sta.pmfSaQueryState = .IN_PROGRESS ∧
      ∃ s' p', run (trackedStep twoRetries) (s, p) [.expiry true true] = some (s', p') ∧
        p'.answered = true ∧
        (step twoRetries s' (.request .LIM_REASSOC 0x431 true)).1.pre_auth ≠ s'.pre_auth ∧
        ¬ Protects twoRetries s' p' := by
  refine ⟨_, _, rfl, rfl, rfl, _, _, rfl, rfl, by decide, fun hprot => ?_⟩
  have hexp := hprot.expired .LIM_REASSOC 0x431 true (Or.inr (by decide))
  exact absurd hexp.2.2 (by decide)

end Inputs

end Qcacld.LimSaQuery
