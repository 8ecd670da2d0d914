/-
Credits and packets of an HTC endpoint over whole runs.

When HIF refuses one of them, `htc_issue_packets` reclaims the credits of that packet, and
`htc_try_send` puts it back on TxQueue together with those behind it, whose credits nobody reclaims:
they are charged again when they are sent.
-/
import Qcacld.HtcTxInv

set_option autoImplicit false

namespace Qcacld.HtcTx

open Lib

section

variable {cfg : Cfg} {s s' : St} {op : Op} {ops : List Op}

/-! ## Credits -/

/-- TxCredits, with what was charged for packets that threads have not sent yet, is the
allocation and the reports less what was charged for the packets that HIF has. -/
def Balanced (alloc : Nat) (s : St) : Prop :=
  s.ep.TxCredits + s.inFlight = alloc + s.ep.reported - creditSum s.ep.handed

theorem init_balanced (alloc : Nat) : Balanced alloc (St.init alloc) := by
  simp [Balanced, St.init, Ep.init, St.inFlight]

theorem Effect.balanced {alloc : Nat} {lost : List Key} {leaked : Int}
    (h : Effect cfg s s' lost leaked) (hs : Balanced alloc s) : Balanced alloc s' ↔ leaked = 0 := by
  have hc := h.credits
  unfold Balanced at hs ⊢
  constructor
  · intro hs'; omega
  · intro h0; omega

/-- **Credit conservation.** TxCredits is never negative. In every run in which no step leaves
charged packets behind, it is the initial allocation and the reported credits less those of the
packets that HIF has and, while a thread drains, of those in its hands. -/
theorem credits_balance {alloc : Nat} (h : run (step cfg) (St.init alloc) ops = some s) :
    0 ≤ s.ep.TxCredits ∧
      (run (guarded (fun s op => leakedBy cfg s op = 0) (step cfg)) (St.init alloc) ops = some s →
        Balanced alloc s ∧
        (s.drainers = [] →
          s.ep.TxCredits = alloc + s.ep.reported - creditSum s.ep.handed) ∧
        ∀ op s', step cfg s op = some s' → (Balanced alloc s' ↔ leakedBy cfg s op = 0)) := by
  have hinv : Inv s ∧ 0 ≤ s.ep.TxCredits := by
    refine run_invariant (I := fun t => Inv t ∧ 0 ≤ t.ep.TxCredits) ?_
      ⟨init_inv alloc, Int.natCast_nonneg alloc⟩ h
    intro t op t' ht hst
    have heff := step_effect ht.1 hst
    exact ⟨heff.inv, heff.nonneg ht.2⟩
  refine ⟨hinv.2, fun hg => ?_⟩
  have hbal : Inv s ∧ Balanced alloc s := by
    refine guarded_run_invariant (I := fun t => Inv t ∧ Balanced alloc t)
      ?_ ⟨init_inv alloc, init_balanced alloc⟩ hg
    intro t op t' ht hok hst
    have heff := step_effect ht.1 hst
    exact ⟨heff.inv, (heff.balanced ht.2).mpr hok⟩
  refine ⟨hbal.2, fun hidle => ?_, fun op s' hst => (step_effect hbal.1 hst).balanced hbal.2⟩
  have hflight : s.inFlight = 0 := by rw [St.inFlight, hidle]; rfl
  have hb := hbal.2
  unfold Balanced at hb; omega

def wmiCfg : Cfg :=
  { endpoint_0 := false
    wmi_control_svc := true
    htt_data_msg_svc := false
    TxCreditFlowEnabled := true
    TxCreditSize := 100
    TxCreditsPerMaxMsg := 1
    MaxTxQueueDepth := 16
    EpSendFull := false
    bus_type := .sdio
    MaxMsgsPerHTCBundle := 1
    enable_bundle_tx := true
    feature_runtime_pm := true
    txcompact := true }

def creditPacket (id : Nat) : Packet := ⟨id, 92, .user, 1, 0, false⟩

def Env.ok : Env := ⟨0, [], some 0, true⟩

def Env.refused : Env := ⟨0, [], some 0, false⟩

def twoSent : List Op :=
  [.htc_send_pkts_multiple [creditPacket 1, creditPacket 2] (fun _ => false), .enter 0 .ok,
    .advance 0 .ok, .advance 0 .ok, .advance 0 .ok, .advance 0 .ok, .advance 0 .ok,
    .advance 0 .ok, .advance 0 .ok, .advance 0 .ok, .advance 0 .ok]

/-- The target returns one of the two credits. -/
theorem credits_balance_two :
    ∃ s, run (step wmiCfg) (St.init (4 : Nat)) (twoSent ++ [.htc_process_credit_rpt 1]) = some s ∧
      s.drainers = [] ∧ s.ep.TxCredits = 3 := by
  obtain ⟨s, hs, hidle, hreported, hhanded⟩ := exists_of_tested
    (fun s : St => s.drainers = [] ∧ s.ep.reported = 1 ∧ creditSum s.ep.handed = 2)
    (by decide +kernel : (run (guarded (fun s op => leakedBy wmiCfg s op = 0) (step wmiCfg))
      (St.init (4 : Nat)) (twoSent ++ [.htc_process_credit_rpt 1])).map _ = some true)
    fun _ _ hq => hq
  have hrun := run_of_guarded hs
  refine ⟨s, hrun, hidle, ?_⟩
  rw [((credits_balance hrun).2 hs).2.1 hidle, hreported, hhanded]; rfl

/-- HIF refuses the first of two packets. Both are back on TxQueue and HIF has none, and one
of the four credits is gone. -/
theorem refused_send_leaks :
    ∃ s, run (step wmiCfg) (St.init 4)
        [.htc_send_pkts_multiple [creditPacket 1, creditPacket 2] (fun _ => false), .enter 0 .ok,
          .advance 0 .ok, .advance 0 .ok, .advance 0 .refused, .advance 0 .ok,
          .advance 0 .ok] = some s ∧
      s.drainers = [] ∧ s.ep.handed = [] ∧ s.ep.reported = 0 ∧
      Queue.keys s.ep.TxQueue = [(1, .user), (2, .user)] ∧ s.ep.TxCredits = 3 := by
  exact exists_of_tested _ (by decide +kernel) fun s _ hleaked => hleaked

/-! ## Packets -/

/-- The same of TxLookupQueue and of what completions took of it. -/
structure LookupDepthsRight (s : St) : Prop where
  lookup : s.ep.TxLookupQueue.Depth = s.ep.TxLookupQueue.items.length
  lookups : ∀ l ∈ s.ep.lookups, l.lookupQueue.Depth = l.lookupQueue.items.length

/-- HIF got the packets in the order in which they went to TxQueue, those that power
management moves ahead and the others each among themselves. -/
def HandedInOrder (cfg : Cfg) (s : St) : Prop :=
  ∀ b : Bool, ((s.ep.handed.map Packet.key).filter (ahead cfg · == b)).Sublist
    (s.ep.entered.filter (ahead cfg · == b))

/-- Each packet that HTC was given is in one place, or back with its owner, once. -/
def Conserved (s : St) : Prop := s.places.Perm s.ep.accepted

/-- Each send that HIF has completed was found once, or will be in the search that is on. -/
def CompletionsFound (s : St) : Prop :=
  s.ep.indicated.Perm (s.ep.found ++ (s.ep.lookups.filter (·.found.isSome)).map Lookup.netbuf)

def InOrder (cfg : Cfg) (s : St) : Prop :=
  ∀ b : Bool, (s.order.filter (ahead cfg · == b)).Sublist
    (s.ep.entered.filter (ahead cfg · == b))

theorem InOrder.handed (h : InOrder cfg s) : HandedInOrder cfg s := by
  intro b
  refine List.Sublist.trans ?_ (h b)
  rw [St.order, List.append_assoc, List.filter_append]; exact List.sublist_append_left _ _

theorem Effect.inOrder {lost : List Key} {leaked : Int} (h : Effect cfg s s' lost leaked)
    (hs : InOrder cfg s) : InOrder cfg s' := by
  obtain ⟨new, hnew, hsub⟩ := h.order
  intro b
  refine (hsub b).trans ?_
  rw [hnew, List.filter_append, List.filter_append]; exact (hs b).append_right _

theorem Effect.conserved {lost : List Key} {leaked : Int} (h : Effect cfg s s' lost leaked)
    (hs : Conserved s) : Conserved s' ↔ lost = [] := by
  have hcount : ∀ k, s'.places.count k + lost.count k = s'.ep.accepted.count k := by
    intro k
    have := h.places k
    have hk := List.Perm.count_eq hs k
    omega
  constructor
  · intro hs'
    refine List.eq_nil_iff_forall_not_mem.mpr fun k hk => ?_
    have hpos := List.count_pos_iff.mpr hk
    have := List.Perm.count_eq hs' k
    have := hcount k
    omega
  · rintro rfl
    refine List.perm_iff_count.mpr fun k => ?_
    simpa using hcount k

structure LookupsRight (s : St) : Prop where
  depths : LookupDepthsRight s
  found : CompletionsFound s

theorem LookupsRight.kept (hs : LookupsRight s) (h : LookupsKept s.ep s'.ep) : LookupsRight s' where
  depths := ⟨h.depth hs.depths.lookup, fun l hl => hs.depths.lookups l (h.lookups ▸ hl)⟩
  found := by
    unfold CompletionsFound
    rw [h.lookups, h.indicated, h.found]; exact hs.found

end

open List Option

/-! Packets that are left in TxQueue while the target has credits for them. -/

def creditsNeeded (cfg : Cfg) (p : Packet) : Int :=
  if cfg.endpoint_0 then 0 else creditsRequired cfg p

def lacks (cfg : Cfg) (items : List Packet) (credits : Int) : Bool :=
  match items with
  | [] => true
  | p :: _ => decide (credits < creditsNeeded cfg p)

def settled (cfg : Cfg) (ep : Ep) : Bool := lacks cfg ep.TxQueue.items ep.TxCredits

def Entering.kick : Entering → Bool
  | .htc_try_send sendQueue _ => sendQueue.items.isEmpty
  | .htc_send_data_pkt pPacket _ => pPacket.isNone

def kicked (s : St) : Bool := s.entering.any Entering.kick

/-! ## Taking packets -/

theorem takeCreditBased_lacks (cfg : Cfg) (do_pm_get : Bool) (ps : List Packet) :
    ∀ (depth : Int) (gets : List Bool) (credits : Int) (pQueue : Queue),
      depth = ps.length → (∀ g ∈ gets, g = true) →
      lacks cfg (takeCreditBased cfg do_pm_get ps depth gets credits pQueue).2.1.items
        (takeCreditBased cfg do_pm_get ps depth gets credits pQueue).2.2 = true := by
  induction ps with
  | nil => intro depth gets credits pQueue _ _; rfl
  | cons p ps ih =>
    intro depth gets credits pQueue hdepth hgets
    rw [length_cons] at hdepth
    have hhead : gets.headD true = true := by
      cases gets with
      | nil => rfl
      | cons g gs => exact hgets g mem_cons_self
    have htail : ∀ g ∈ gets.tail, g = true := fun g hg => hgets g (mem_of_mem_tail hg)
    have hdepth' : depth - 1 = ps.length := by omega
    have hne : depth ≠ 0 := by omega
    unfold takeCreditBased
    rw [hhead, Bool.not_true, Bool.and_false, if_neg Bool.false_ne_true, if_neg hne]
    split_ifs with hep hlt
    · exact ih _ _ _ _ hdepth' htail
    · simp [lacks, creditsNeeded, hep, hlt]
    · exact ih _ _ _ _ hdepth' htail

theorem Takes.rest_ne_nil {ps : List Packet} {credits credits' : Int} {pQueue' rest : Queue}
    (h : Takes ps credits .init pQueue' rest credits') (hps : ps ≠ [])
    (hnil : pQueue'.items = []) : rest.items ≠ [] := by
  intro hrest
  have := h.keys
  rw [Queue.keys, Queue.keys, hnil, hrest, keys_init] at this
  exact hps (map_eq_nil_iff.mp this.symm)

/-- Without packets of power management, what is taken leaves an endpoint that is settled. -/
theorem get_credit_based_settled_all {cfg : Cfg} {env : Env} {ep : Ep} (hq : ep.TxQueue.Sound)
    (hgets : ∀ g ∈ env.pm_get, g = true)
    (hcfg : ¬(cfg.feature_runtime_pm && cfg.wmi_control_svc) = true) :
    settled cfg (get_htc_send_packets_credit_based cfg env ep).2 = true := by
  unfold get_htc_send_packets_credit_based takeFromTxQueue
  rw [extract_htc_pm_packets, if_neg hcfg]
  exact takeCreditBased_lacks cfg true _ _ _ _ _ hq hgets

theorem get_credit_based_settled {cfg : Cfg} {env : Env} {ep : Ep} (hq : ep.TxQueue.Sound)
    (hgets : ∀ g ∈ env.pm_get, g = true)
    (hnil : (get_htc_send_packets_credit_based cfg env ep).1.items = []) :
    settled cfg (get_htc_send_packets_credit_based cfg env ep).2 = true := by
  by_cases hcfg : (cfg.feature_runtime_pm && cfg.wmi_control_svc) = true
  · unfold get_htc_send_packets_credit_based takeFromTxQueue at hnil ⊢
    rw [extract_of_cfg hcfg] at hnil ⊢
    by_cases hpm : ep.TxQueue.items.filter (·.Tag = .auto_pm) = []
    · have hall := filter_ne_of_filter_eq_nil hpm
      simp only [hpm, hall, length_nil, Int.natCast_zero, if_true, Int.sub_zero]
      exact takeCreditBased_lacks cfg true _ _ _ _ _ hq hgets
    · have hne : ((ep.TxQueue.items.filter (·.Tag = .auto_pm)).length : Int) ≠ 0 := by
        simpa using hpm
      simp only [if_neg hne] at hnil ⊢
      -- the packets of power management are still there, the first without credits
      have htakes := takeCreditBased_takes cfg false (ep.TxQueue.items.filter (·.Tag = .auto_pm))
        _ env.pm_get ep.TxCredits .init rfl DepthQueue.sound_init
      have hlacks := takeCreditBased_lacks cfg false
        (ep.TxQueue.items.filter (·.Tag = .auto_pm)) _ env.pm_get ep.TxCredits .init rfl hgets
      have hrest := htakes.rest_ne_nil hpm hnil
      have hdepth := mt htakes.rest_sound.depth_eq_zero.mp hrest
      obtain ⟨p, ps, hps⟩ := exists_cons_of_ne_nil hrest
      simp only [settled, if_neg hdepth, DepthQueue.transferToHead_items]
      rw [hps] at hlacks ⊢
      exact hlacks
  · exact get_credit_based_settled_all hq hgets hcfg

theorem drain_settled {cfg : Cfg} {env : Env} {ep : Ep} (hflow : cfg.TxCreditFlowEnabled = true)
    (hq : ep.TxQueue.Sound) (hgets : ∀ g ∈ env.pm_get, g = true)
    (hnone : (drain cfg env ep).2 = none) : settled cfg (drain cfg env ep).1 = true := by
  have htop : (drainTop cfg env ep).2 = none → settled cfg (drainTop cfg env ep).1 = true := by
    intro hn
    unfold drainTop at hn ⊢
    split
    · rename_i h0; simp [settled, lacks, hq.depth_eq_zero.mp h0]
    · rename_i h0
      have hpk : tryPackets cfg env ep = get_htc_send_packets_credit_based cfg env ep := by
        rw [tryPackets, if_pos hflow]
      rw [if_neg h0] at hn
      rw [hpk] at hn ⊢
      dsimp only at hn ⊢
      have hsound := (get_credit_based_gets cfg env hq).sound
      split at hn
      · rename_i hd
        rw [if_pos hd]; exact get_credit_based_settled hq hgets (hsound.depth_eq_zero.mp hd)
      · cases hn
  unfold drain at hnone ⊢
  cases hres : drainTop cfg env ep with
  | mk ep' o =>
    rw [hres] at htop
    cases o with
    | none => exact htop rfl
    | some q => rw [hres] at hnone; cases hnone

theorem drain_phase {cfg : Cfg} {env : Env} {ep : Ep} {ph : Phase}
    (h : (drain cfg env ep).2 = some ph) : ∃ sendQueue, ph = .issue sendQueue := by
  unfold drain at h
  split at h
  · exact ⟨_, (some.inj h).symm⟩
  · cases h

/-! ## Steps -/

/-- No packet waits for credits that are there, unless a thread drains or is on its way. -/
def NotStranded (cfg : Cfg) (s : St) : Prop :=
  s.drainers = [] → kicked s = false → settled cfg s.ep = true

/-- A caller of the data path that leaves its packet because it has more of them. -/
def Entering.leaves (cfg : Cfg) : Entering → Bool
  | .htc_send_data_pkt (some _) more_data => HTC_TX_BUNDLE_ENABLED cfg && more_data
  | _ => false

/-- A thread takes the lock while none drains, and does not leave its packet, nor those that power
management puts behind its own; or while one drains in `htc_try_send`; or it has no packet, and
neither has TxQueue. -/
def mayEnter (cfg : Cfg) (s : St) (e : Entering) : Bool :=
  match s.drainers with
  | [] =>
    !e.leaves cfg &&
      (decide (e.fn = .htc_try_send) || !(cfg.feature_runtime_pm && cfg.wmi_control_svc))
  | d :: _ => decide (d.fn = .htc_try_send) || e.brings.isEmpty && s.ep.TxQueue.items.isEmpty

/-- The bus is awake, HIF refuses nothing, and no thread leaves a packet to one that drains in
`htc_send_data_pkt`. -/
def calm (cfg : Cfg) (s : St) : Op → Bool
  | .enter i env => env.pm_get.all id && (s.entering[i]?).all (mayEnter cfg s)
  | .advance i env =>
    env.pm_get.all id && (s.drainers[i]?).all fun d =>
      match d.phase with
      | .sending _ _ => env.hif_ok
      | _ => true
  | _ => true

/-- Where a thread is that HIF refuses nothing: only `htc_try_send` looks at TxQueue again. -/
def Fn.at : Fn → Phase → Prop
  | _, .failed _ => False
  | .htc_try_send, .reset => False
  | .htc_send_data_pkt, .relock => False
  | _, _ => True

/-- A thread that drains in `htc_try_send` will look at TxQueue. Without one, a kick is on its way
or the endpoint is settled. -/
structure Attended (cfg : Cfg) (s : St) : Prop where
  phases : ∀ d ∈ s.drainers, d.fn.at d.phase
  settled : (∀ d ∈ s.drainers, d.fn = .htc_send_data_pkt) →
    kicked s = true ∨ settled cfg s.ep = true

section Step

variable {cfg : Cfg} {s s' : St} {op : Op} {ops : List Op}

theorem Attended.notStranded (h : Attended cfg s) : NotStranded cfg s := by
  intro hidle hnone
  refine (h.settled fun d hd => absurd (hidle ▸ hd) not_mem_nil).resolve_left ?_
  rw [hnone]; exact Bool.false_ne_true

/-- What leaves TxQueue, the credits and the threads that drain alone, and takes no kick away. -/
theorem Attended.of_eq (hs : Attended cfg s) (hd : s'.drainers = s.drainers)
    (hk : kicked s = true → kicked s' = true) (hq : s'.ep.TxQueue = s.ep.TxQueue)
    (hc : s'.ep.TxCredits = s.ep.TxCredits) : Attended cfg s' where
  phases := fun d hd' => hs.phases d (hd ▸ hd')
  settled := by
    intro hdata
    rw [HtcTx.settled, hq, hc]
    exact (hs.settled fun d hd' => hdata d (hd.symm ▸ hd')).imp_left hk

theorem kicked_append {l : List Entering} (h : kicked s = true) :
    (s.entering ++ l).any Entering.kick = true := by
  rw [any_append, Bool.or_eq_true]; exact Or.inl h

theorem incProcessCount_free {ep : Ep} {take : Ep → Ep × Option Phase} (h : ep.TxProcessCount = 0) :
    incProcessCount ep take = take { ep with TxProcessCount := ep.TxProcessCount + 1 } := by
  refine if_neg ?_
  omega

variable {env : Env}

theorem Inv.count_eq_zero (hs : Inv s) (h : s.drainers = []) : s.ep.TxProcessCount = 0 := by
  rw [hs.count, h]; rfl

/-- A thread that enters while none drains: `htc_try_send` goes on or leaves the endpoint settled,
`htc_send_data_pkt` always goes on, and does not look at what it leaves again. -/
theorem enterPhase_free {ep : Ep} {e : Entering} (hflow : cfg.TxCreditFlowEnabled = true)
    (he : e.Sound) (hep : ep.Sound) (hgets : ∀ g ∈ env.pm_get, g = true)
    (hfree : ep.TxProcessCount = 0) (hleaves : e.leaves cfg = false)
    (hpm : e.fn = .htc_try_send ∨ ¬(cfg.feature_runtime_pm && cfg.wmi_control_svc) = true) :
    (∀ ph, (enterPhase cfg env ep e).2 = some ph → e.fn.at ph) ∧
      (e.fn = .htc_send_data_pkt ∨ (enterPhase cfg env ep e).2 = none →
        settled cfg (enterPhase cfg env ep e).1 = true) := by
  have hq := Entering.enqueue_sound he hep
  have hfree' := (enqueue_count e ep).trans hfree
  cases e with
  | htc_try_send sendQueue pCallersSendQueue =>
    have hphase : enterPhase cfg env ep (.htc_try_send sendQueue pCallersSendQueue) =
        drain cfg env { Entering.enqueue ep (.htc_try_send sendQueue pCallersSendQueue) with
          TxProcessCount := (Entering.enqueue ep
            (.htc_try_send sendQueue pCallersSendQueue)).TxProcessCount + 1 } :=
      incProcessCount_free hfree'
    rw [hphase]
    refine ⟨fun ph hph => ?_, fun h => drain_settled hflow hq.txq hgets (h.resolve_left nofun)⟩
    obtain ⟨sendQueue, rfl⟩ := drain_phase hph
    trivial
  | htc_send_data_pkt pPacket more_data =>
    have hnot := hpm.resolve_left nofun
    have htake : ∀ n : Int, settled cfg
        (dataPackets cfg env { (Entering.htc_send_data_pkt pPacket more_data).enqueue ep with
          TxProcessCount := n }).2 = true := by
      intro n
      rw [dataPackets, if_pos hflow]; exact get_credit_based_settled_all hq.txq hgets hnot
    have hphase : enterPhase cfg env ep (.htc_send_data_pkt pPacket more_data) =
        incProcessCount ((Entering.htc_send_data_pkt pPacket more_data).enqueue ep) fun ep =>
          ((dataPackets cfg env ep).2, some (Phase.issue (dataPackets cfg env ep).1)) := by
      cases pPacket with
      | none => rfl
      | some p =>
        have hmore : ¬(HTC_TX_BUNDLE_ENABLED cfg && more_data) = true := by
          rw [Bool.not_eq_true]; exact hleaves
        simp only [enterPhase, enterDataPkt, if_neg hmore]
        rfl
    rw [hphase, incProcessCount_free hfree']
    refine ⟨fun ph hph => ?_, fun _ => htake _⟩
    cases hph
    trivial

theorem enter_attended {i : Nat} (hflow : cfg.TxCreditFlowEnabled = true) (hs : Inv s)
    (ha : Attended cfg s) (hcalm : calm cfg s (.enter i env) = true)
    (h : step cfg s (.enter i env) = some s') : Attended cfg s' := by
  cases he : s.entering[i]? with
  | none => simp [step, he] at h
  | some e =>
    obtain ⟨hep, -, hdr⟩ := step_enter he h
    have hesound := hs.entering e (mem_of_getElem? he)
    simp only [calm, he, Option.all_some, Bool.and_eq_true, List.all_eq_true, id_eq] at hcalm
    obtain ⟨hgets, hmay⟩ := hcalm
    cases hidle : s.drainers with
    | nil =>
      simp only [mayEnter, hidle, Bool.and_eq_true, Bool.or_eq_true, Bool.not_eq_true',
        decide_eq_true_eq] at hmay
      obtain ⟨hphase, hsettled⟩ := enterPhase_free hflow hesound hs.ep hgets
        (hs.count_eq_zero hidle) hmay.1 (hmay.2.imp_right (by simp))
      rw [hidle, nil_append] at hdr
      constructor
      · intro d hd
        rw [hdr, mem_toList, map_eq_some_iff] at hd
        obtain ⟨ph, hph, rfl⟩ := hd
        exact hphase ph hph
      · intro hdata
        right
        rw [hep]
        apply hsettled
        cases hph : (enterPhase cfg env s.ep e).2 with
        | none => exact Or.inr rfl
        | some ph =>
          exact Or.inl (hdata ⟨e.fn, e.callers, ph⟩ (by rw [hdr, hph]; exact mem_singleton_self _))
    | cons d ds =>
      -- a thread drains, and this one leaves
      have hn : 0 ≤ s.ep.TxProcessCount := by rw [hs.count]; exact Int.natCast_nonneg _
      have hcount := hs.count
      have hbusy := (@enterPhase_busy cfg env s.ep e hn).resolve_right (by
        rw [hcount, hidle, length_cons]; omega)
      rw [hbusy] at hep hdr
      rw [map_none, toList_none, append_nil] at hdr
      refine ⟨fun d' hd' => ha.phases d' (hdr ▸ hd'), fun hdata => Or.inr ?_⟩
      have hfn := hdata d (by rw [hdr, hidle]; exact mem_cons_self)
      simp only [mayEnter, hidle, hfn, Bool.or_eq_true, Bool.and_eq_true, decide_eq_true_eq,
        List.isEmpty_iff, reduceCtorEq, false_or] at hmay
      obtain ⟨q, -, hkeys, heq⟩ := Entering.enqueue_spec hesound hs.ep
      rw [hmay.1, append_nil, Queue.keys, Queue.keys, hmay.2, map_nil, map_eq_nil_iff] at hkeys
      rw [hep, heq, settled, hkeys]; rfl

/-- A thread that HIF refuses nothing leaves TxQueue and TxCredits alone, but where `htc_try_send`
looks at them. -/
theorem advance_calm {fn : Fn} {ep : Ep} {phase : Phase} (hat : fn.at phase)
    (hok : ∀ p q, phase = .sending p q → env.hif_ok = true) (hne : phase ≠ .relock) :
    (advance cfg env fn ep phase).1.TxQueue = ep.TxQueue ∧
      (advance cfg env fn ep phase).1.TxCredits = ep.TxCredits ∧
      (∀ ph, (advance cfg env fn ep phase).2 = some ph → fn.at ph) ∧
      ((advance cfg env fn ep phase).2 = none → fn = .htc_send_data_pkt) := by
  cases phase with
  | issue sendQueue =>
    simp only [advance]
    split
    · cases env.bundle_packet <;> cases fn <;> simp [Fn.at]
    · cases fn <;> simp [Fn.at]
  | bundle space netbuf pQueueSave sendQueue =>
    simp only [advance, bundleRound]
    cases sendQueue.dequeue with
    | none =>
      dsimp only
      split <;> cases fn <;> simp [Fn.at, htc_send_bundled_netbuf]
    | some r =>
      dsimp only
      split
      · split
        · cases fn <;> simp [Fn.at, htc_send_bundled_netbuf]
        · cases env.bundle_packet <;> cases fn <;> simp [Fn.at, htc_send_bundled_netbuf]
      · cases fn <;> simp [Fn.at]
  | single sendQueue =>
    simp only [advance]
    split <;> cases fn <;> simp [Fn.at]
  | sending p sendQueue =>
    simp only [advance, hok p sendQueue rfl, if_true]
    cases fn <;> simp [Fn.at]
  | failed sendQueue => cases fn <;> exact hat.elim
  | relock => exact absurd rfl hne
  | reset =>
    cases fn with
    | htc_try_send => exact hat.elim
    | htc_send_data_pkt =>
      exact ⟨rfl, rfl, fun _ h => absurd h.symm (Option.some_ne_none _), fun _ => rfl⟩

theorem advance_attended {i : Nat} (hflow : cfg.TxCreditFlowEnabled = true) (hs : Inv s)
    (ha : Attended cfg s) (hcalm : calm cfg s (.advance i env) = true)
    (h : step cfg s (.advance i env) = some s') : Attended cfg s' := by
  cases hd : s.drainers[i]? with
  | none => simp [step, hd] at h
  | some d =>
    obtain ⟨hep, hent, hdr⟩ := step_advance hs hd h
    have hone := (hs.drainers_eq hd).1
    have hat : d.fn.at d.phase := ha.phases d (mem_of_getElem? hd)
    simp only [calm, hd, Option.all_some, Bool.and_eq_true, List.all_eq_true, id_eq] at hcalm
    obtain ⟨hgets, hsend⟩ := hcalm
    have hkicked : kicked s' = kicked s := by rw [kicked, hent, kicked]
    by_cases hrelock : d.phase = .relock
    · -- the thread looks at TxQueue under the lock in which it clears the count
      rw [hrelock] at hat hdr hep
      have htry : d.fn = .htc_try_send := by
        cases hfn : d.fn with
        | htc_try_send => rfl
        | htc_send_data_pkt => rw [hfn] at hat; exact hat.elim
      cases hph : (advance cfg env d.fn s.ep .relock).2 with
      | none =>
        rw [hph] at hdr
        refine ⟨fun d' hd' => ?_, fun _ => Or.inr ?_⟩
        · rw [hdr] at hd'; cases hd'
        · rw [hep]; exact drain_settled hflow hs.ep.txq hgets hph
      | some ph =>
        rw [hph] at hdr
        obtain ⟨sendQueue, rfl⟩ := drain_phase hph
        refine ⟨fun d' hd' => ?_, fun hdata => ?_⟩
        · rw [hdr, map_some, toList_some, mem_singleton] at hd'
          rw [hd', htry]; trivial
        · have := hdata ⟨d.fn, d.pCallersSendQueue, .issue sendQueue⟩ (by
            rw [hdr]; exact mem_singleton_self _)
          rw [htry] at this
          cases this
    · obtain ⟨hq, hc, hphase, hnone⟩ := @advance_calm cfg env _ s.ep _ hat (by
        intro p q hp
        rw [hp] at hsend; exact hsend) hrelock
      refine ⟨fun d' hd' => ?_, fun hdata => ?_⟩
      · rw [hdr, mem_toList, map_eq_some_iff] at hd'
        obtain ⟨ph, hph, rfl⟩ := hd'
        exact hphase ph hph
      · rw [hkicked, hep, settled, hq, hc]
        refine ha.settled fun d' hd' => ?_
        rw [hone, mem_singleton] at hd'
        rw [hd']
        cases hph : (advance cfg env d.fn s.ep d.phase).2 with
        | none => exact hnone hph
        | some ph =>
          exact hdata ⟨d.fn, d.pCallersSendQueue, ph⟩ (by
            rw [hdr, hph]; exact mem_singleton_self _)

theorem credit_rpt_attended {credits : Nat} (hs : Inv s) (hc : 0 ≤ s.ep.TxCredits)
    (ha : Attended cfg s) : Attended cfg (htc_process_credit_rpt cfg credits s) := by
  unfold htc_process_credit_rpt
  extract_lets base ep
  split
  · -- the thread that will look has no packets of its own
    have hkick : ∀ e : Entering, e.kick = true →
        Attended cfg { s with ep := ep, entering := s.entering ++ [e] } := fun e he =>
      ⟨ha.phases, fun _ => Or.inl (by simp [kicked, he])⟩
    split
    · exact hkick _ rfl
    · exact hkick _ rfl
  · rename_i hno
    refine ⟨ha.phases, fun hdata => ?_⟩
    by_cases hdepth : s.ep.TxQueue.Depth = 0
    · have hnil := hs.ep.txq.depth_eq_zero.mp hdepth
      have hlacks : lacks cfg s.ep.TxQueue.items ep.TxCredits = true := by rw [hnil]; rfl
      exact Or.inr hlacks
    · have hzero : s.ep.TxCredits + credits = 0 := by by_contra hne; exact hno ⟨hne, hdepth⟩
      have hsame : ep.TxCredits = s.ep.TxCredits := by
        show s.ep.TxCredits + (credits : Int) = s.ep.TxCredits
        omega
      refine (ha.settled hdata).imp_right fun hst => ?_
      show lacks cfg s.ep.TxQueue.items ep.TxCredits = true
      rw [hsame]; exact hst

theorem step_attended (hflow : cfg.TxCreditFlowEnabled = true) (hs : Inv s)
    (hc : 0 ≤ s.ep.TxCredits) (ha : Attended cfg s) (hcalm : calm cfg s op = true)
    (h : step cfg s op = some s') : Attended cfg s' := by
  have hkick : ∀ netbuf entry ep, ep.TxQueue = s.ep.TxQueue → ep.TxCredits = s.ep.TxCredits →
      Attended cfg (complete cfg netbuf entry { s with ep := ep }) := by
    intro netbuf entry ep hq hc'
    refine ha.of_eq rfl (fun hk => ?_) hq hc'
    unfold complete kicked
    split
    · exact kicked_append hk
    · exact hk
  cases op with
  | enter i env => exact enter_attended hflow hs ha hcalm h
  | advance i env => exact advance_attended hflow hs ha hcalm h
  | htc_send_pkts_multiple pkts full =>
    simp only [step] at h
    split at h
    · cases h; exact ha
    · split at h
      · cases h; exact ha.of_eq rfl id rfl rfl
      · cases h; exact ha.of_eq rfl kicked_append rfl rfl
  | htc_try_send => cases h; exact ha.of_eq rfl kicked_append rfl rfl
  | htc_send_data_pkt pPacket more_data =>
    simp only [step] at h
    split at h
    · cases h
    · cases h; exact ha.of_eq rfl kicked_append rfl rfl
  | leave i =>
    simp only [step, map_eq_some_iff] at h
    obtain ⟨q, -, rfl⟩ := h
    exact ha.of_eq rfl id rfl rfl
  | htc_tx_completion_handler netbuf =>
    simp only [step] at h
    split at h
    · cases h
    · cases h
      unfold htc_tx_completion_handler htc_lookup_tx_packet
      cases (s.ep.indicate netbuf).TxLookupQueue.dequeue with
      | none => exact hkick _ _ _ rfl rfl
      | some r =>
        dsimp only
        by_cases hnet : r.1.netbuf = netbuf
        · rw [if_pos hnet]; exact hkick _ _ _ rfl rfl
        · rw [if_neg hnet]; exact ha.of_eq rfl id rfl rfl
  | endLookup i =>
    simp only [step, map_eq_some_iff] at h
    obtain ⟨l, -, rfl⟩ := h
    exact hkick _ _ _ rfl rfl
  | htc_process_credit_rpt credits => cases h; exact credit_rpt_attended hs hc ha

/-- **No stranded packet.** On an endpoint with credit flow at most one thread drains. In the calm
runs TxQueue is empty or its first packet lacks credits whenever no thread drains and none is on its
way to look: a packet that is left to a busy thread is left to `htc_try_send`, which looks at TxQueue
under the lock in which it clears the count. -/
theorem no_stranded_packet {alloc : Nat} (hflow : cfg.TxCreditFlowEnabled = true)
    (h : run (guarded (fun s op => calm cfg s op = true) (step cfg)) (St.init alloc) ops = some s) :
    s.ep.TxProcessCount = s.drainers.length ∧ s.drainers.length ≤ 1 ∧ NotStranded cfg s := by
  have hinv : Inv s ∧ 0 ≤ s.ep.TxCredits ∧ Attended cfg s := by
    refine guarded_run_invariant (I := fun t => Inv t ∧ 0 ≤ t.ep.TxCredits ∧ Attended cfg t)
      ?_ ⟨init_inv alloc, Int.natCast_nonneg alloc, nofun,
        fun _ => Or.inr rfl⟩ h
    intro t op t' ht hok hst
    have heff := step_effect ht.1 hst
    exact ⟨heff.inv, heff.nonneg ht.2.1, step_attended hflow ht.1 ht.2.1 ht.2.2 hok hst⟩
  exact ⟨hinv.1.count, hinv.1.one, hinv.2.2.notStranded⟩

end Step

def dataCfg : Cfg :=
  { wmiCfg with wmi_control_svc := false, htt_data_msg_svc := true, txcompact := false }

/-- A second packet comes while `htc_try_send` sends the first, and is sent by the same
thread. -/
def sentByBusy : List Op :=
  [.htc_send_pkts_multiple [creditPacket 1] (fun _ => false), .enter 0 .ok,
    .htc_send_data_pkt (creditPacket 2) false, .enter 0 .ok, .advance 0 .ok, .advance 0 .ok,
    .advance 0 .ok, .advance 0 .ok, .advance 0 .ok, .advance 0 .ok, .advance 0 .ok,
    .advance 0 .ok, .advance 0 .ok, .advance 0 .ok, .advance 0 .ok, .advance 0 .ok]

theorem no_stranded_packet_busy :
    ∃ s, run (step dataCfg) (St.init (4 : Nat)) sentByBusy = some s ∧
      s.drainers = [] ∧ s.ep.handed.map Packet.id = [1, 2] ∧ settled dataCfg s.ep = true := by
  obtain ⟨s, hs, hq⟩ := (any_eq_true
    (fun s : St => decide (s.drainers = [] ∧ kicked s = false ∧
      s.ep.handed.map Packet.id = [1, 2]))
    (run (guarded (fun s op => calm dataCfg s op = true) (step dataCfg))
      (St.init (4 : Nat)) sentByBusy)).mp (by decide +kernel)
  obtain ⟨hidle, hnone, hhanded⟩ := of_decide_eq_true hq
  have hst := (no_stranded_packet rfl hs).2.2
  exact ⟨s, run_of_guarded hs, hidle, hhanded, hst hidle hnone⟩

/-- The second packet comes while `htc_send_data_pkt` sends the first. -/
theorem second_packet_stranded :
    ∃ s, run (step dataCfg) (St.init 4)
        [.htc_send_data_pkt (creditPacket 1) false, .enter 0 .ok,
          .htc_send_data_pkt (creditPacket 2) false, .enter 0 .ok, .advance 0 .ok,
          .advance 0 .ok, .advance 0 .ok, .advance 0 .ok, .advance 0 .ok, .advance 0 .ok] =
          some s ∧
      s.entering = [] ∧ s.drainers = [] ∧ s.ep.TxProcessCount = 0 ∧
      s.ep.TxQueue.items = [creditPacket 2] ∧ creditsNeeded dataCfg (creditPacket 2) = 1 ∧
      s.ep.TxCredits = 3 := by
  exact exists_of_tested _ (by decide +kernel) fun s _ hstranded => hstranded

end Qcacld.HtcTx
