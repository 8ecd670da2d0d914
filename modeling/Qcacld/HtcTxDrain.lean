/-
What a draining thread does to the queues of an HTC endpoint.

`Gets` says what a thread takes off TxQueue: the packets stay the same ones in the same order (those
of power management and the others apart), their credits are what TxCredits loses, and the counters
of the queues stay right.
-/
import Qcacld.HtcTx
import Mathlib.Algebra.BigOperators.Group.List.Basic

set_option autoImplicit false

namespace Qcacld.HtcTx

open Lib List

/-! ## Taking packets -/

def creditSum (l : List Packet) : Int := (l.map fun p => (p.CreditsUsed : Int)).sum

@[simp] theorem creditSum_nil : creditSum [] = 0 := rfl

@[simp] theorem creditSum_cons (p : Packet) (l : List Packet) :
    creditSum (p :: l) = p.CreditsUsed + creditSum l := by simp [creditSum]

@[simp] theorem creditSum_append (l m : List Packet) :
    creditSum (l ++ m) = creditSum l + creditSum m := by simp [creditSum]

@[simp] theorem keys_init : Queue.keys .init = [] := rfl

@[simp] theorem keys_enqueue (q : Queue) (p : Packet) :
    Queue.keys (q.enqueue p) = Queue.keys q ++ [p.key] := by simp [Queue.keys]

@[simp] theorem keys_enqueueToHead (q : Queue) (p : Packet) :
    Queue.keys (q.enqueueToHead p) = p.key :: Queue.keys q := rfl

@[simp] theorem keys_transferToTail (q r : Queue) :
    Queue.keys (q.transferToTail r) = Queue.keys q ++ Queue.keys r := by simp [Queue.keys]

@[simp] theorem keys_transferToHead (q r : Queue) :
    Queue.keys (q.transferToHead r) = Queue.keys r ++ Queue.keys q := by simp [Queue.keys]

theorem keys_dequeue {q r : Queue} {p : Packet} (h : q.dequeue = some (p, r)) :
    Queue.keys q = p.key :: Queue.keys r := by simp [Queue.keys, DepthQueue.dequeue_eq_some h]

/-- A loop that moves packets from the items `ps` of a queue to `pQueue`. -/
structure Takes (ps : List Packet) (credits : Int) (pQueue pQueue' rest : Queue)
    (credits' : Int) : Prop where
  sound : pQueue'.Sound
  rest_sound : rest.Sound
  keys : Queue.keys pQueue' ++ Queue.keys rest = Queue.keys pQueue ++ ps.map Packet.key
  charged : credits' + creditSum pQueue'.items = credits + creditSum pQueue.items
  nonneg : 0 ≤ credits → 0 ≤ credits'

theorem Takes.stop {ps : List Packet} {credits depth : Int} {pQueue : Queue} (hq : pQueue.Sound)
    (hdepth : depth = ps.length) : Takes ps credits pQueue pQueue ⟨ps, depth⟩ credits where
  sound := hq
  rest_sound := hdepth
  keys := rfl
  charged := rfl
  nonneg := id

theorem Takes.cons {p c : Packet} {ps : List Packet} {credits credits' : Int}
    {pQueue pQueue' rest : Queue} (hkey : c.key = p.key)
    (hle : (c.CreditsUsed : Int) ≤ credits ∨ c.CreditsUsed = 0)
    (h : Takes ps (credits - c.CreditsUsed) (pQueue.enqueue c) pQueue' rest credits') :
    Takes (p :: ps) credits pQueue pQueue' rest credits' where
  sound := h.sound
  rest_sound := h.rest_sound
  keys := by rw [h.keys, keys_enqueue, hkey, map_cons, append_assoc, singleton_append]
  charged := by
    have := h.charged
    simp only [DepthQueue.enqueue_items, creditSum_append, creditSum_cons, creditSum_nil] at this
    omega
  nonneg := by
    intro hc
    apply h.nonneg
    omega

theorem takeCreditBased_takes (cfg : Cfg) (do_pm_get : Bool) (ps : List Packet) :
    ∀ (depth : Int) (gets : List Bool) (credits : Int) (pQueue : Queue),
      depth = ps.length → pQueue.Sound →
      Takes ps credits pQueue (takeCreditBased cfg do_pm_get ps depth gets credits pQueue).1
        (takeCreditBased cfg do_pm_get ps depth gets credits pQueue).2.1
        (takeCreditBased cfg do_pm_get ps depth gets credits pQueue).2.2 := by
  induction ps with
  | nil => intro depth gets credits pQueue hdepth hq; exact Takes.stop hq hdepth
  | cons p ps ih =>
    intro depth gets credits pQueue hdepth hq
    have hdepth' : depth - 1 = ps.length := by rw [length_cons] at hdepth; omega
    unfold takeCreditBased
    split_ifs with hget h0 hep hlt
    · exact Takes.stop hq hdepth
    · exact Takes.stop hq hdepth
    · refine Takes.cons (c := { p with CreditsUsed := 0, need_credit_update := false }) rfl
        (.inr rfl) ?_
      rw [Int.natCast_zero, Int.sub_zero]; exact ih _ _ _ _ hdepth' hq.enqueue
    · exact Takes.stop hq hdepth
    · exact Takes.cons (c :=
        { p with
          CreditsUsed := creditsRequired cfg p
          need_credit_update :=
            decide (credits - creditsRequired cfg p ≤ cfg.TxCreditsPerMaxMsg) })
        rfl (.inl (Int.not_lt.mp hlt)) (ih _ _ _ _ hdepth' hq.enqueue)

theorem takeResources_takes (do_pm_get : Bool) (credits : Int) (ps : List Packet) :
    ∀ (depth : Int) (gets : List Bool) (resources : Int) (pQueue : Queue),
      depth = ps.length → pQueue.Sound →
      Takes ps credits pQueue (takeResources do_pm_get ps depth gets resources pQueue).1
        (takeResources do_pm_get ps depth gets resources pQueue).2 credits := by
  induction ps with
  | nil => intro depth gets resources pQueue hdepth hq; exact Takes.stop hq hdepth
  | cons p ps ih =>
    intro depth gets resources pQueue hdepth hq
    have hdepth' : depth - 1 = ps.length := by rw [length_cons] at hdepth; omega
    unfold takeResources
    split_ifs with hres hget
    · exact Takes.stop hq hdepth
    · exact Takes.stop hq hdepth
    · refine Takes.cons (c := { p with CreditsUsed := 0, need_credit_update := false }) rfl
        (.inr rfl) ?_
      rw [Int.natCast_zero, Int.sub_zero]; exact ih _ _ _ _ hdepth' hq.enqueue

/-! ## The send queue -/

/-- The packet is one that power management moves ahead of the others. -/
def ahead (cfg : Cfg) (k : Key) : Bool :=
  cfg.feature_runtime_pm && cfg.wmi_control_svc && decide (k.2 = .auto_pm)

/-- A thread takes `sendQueue` off the TxQueue of `ep`. -/
structure Gets (cfg : Cfg) (ep : Ep) (sendQueue : Queue) (ep' : Ep) : Prop where
  sound : sendQueue.Sound
  txq_sound : ep'.TxQueue.Sound
  keys : ∀ b : Bool,
    (Queue.keys sendQueue ++ Queue.keys ep'.TxQueue).filter (ahead cfg · == b) =
      (Queue.keys ep.TxQueue).filter (ahead cfg · == b)
  charged : ep'.TxCredits + creditSum sendQueue.items = ep.TxCredits
  nonneg : 0 ≤ ep.TxCredits → 0 ≤ ep'.TxCredits
  frame : ep' = { ep with TxQueue := ep'.TxQueue, TxCredits := ep'.TxCredits }

theorem Takes.gets {cfg : Cfg} {ep : Ep} {pQueue rest : Queue} {credits : Int}
    (h : Takes ep.TxQueue.items ep.TxCredits .init pQueue rest credits) :
    Gets cfg ep pQueue { ep with TxQueue := rest, TxCredits := credits } where
  sound := h.sound
  txq_sound := h.rest_sound
  keys := by
    intro b
    have := h.keys
    rw [this]; rfl
  charged := by simpa using h.charged
  nonneg := h.nonneg
  frame := rfl

theorem Takes.gets_pm {cfg : Cfg} {ep : Ep} {pQueue rest txq : Queue} {credits : Int}
    (hcfg : (cfg.feature_runtime_pm && cfg.wmi_control_svc) = true)
    (htxq : txq.Sound) (hitems : txq.items = ep.TxQueue.items.filter (·.Tag ≠ .auto_pm))
    (h : Takes (ep.TxQueue.items.filter (·.Tag = .auto_pm)) ep.TxCredits .init pQueue rest
      credits) :
    Gets cfg ep pQueue { ep with
        TxQueue := if rest.Depth = 0 then txq else txq.transferToHead rest
        TxCredits := credits } := by
  have hrest : (if rest.Depth = 0 then txq else txq.transferToHead rest).items =
      rest.items ++ txq.items := by
    split
    · rename_i h0; rw [h.rest_sound.depth_eq_zero.mp h0, nil_append]
    · rfl
  refine ⟨h.sound, ?_, ?_, by simpa using h.charged, h.nonneg, rfl⟩
  · split
    · exact htxq
    · exact htxq.transferToHead h.rest_sound
  · intro b
    have hkeys := h.keys
    have htx : Queue.keys (if rest.Depth = 0 then txq else txq.transferToHead rest) =
        Queue.keys rest ++ txq.items.map Packet.key := by
      rw [Queue.keys, hrest, map_append]; rfl
    rw [htx, ← append_assoc, hkeys, hitems]
    -- both sides are the packets of the one kind, then none of the other
    have hahead : ∀ p : Packet, ahead cfg p.key = decide (p.Tag = .auto_pm) := by
      intro p
      rw [ahead, hcfg, Bool.true_and]; rfl
    cases b <;> simp [Queue.keys, filter_map, filter_filter, Function.comp_def, hahead]

theorem extract_of_cfg {cfg : Cfg} (hcfg : (cfg.feature_runtime_pm && cfg.wmi_control_svc) = true)
    (q : Queue) :
    extract_htc_pm_packets cfg q =
      (⟨q.items.filter (·.Tag ≠ .auto_pm),
          q.Depth - (q.items.filter (·.Tag = .auto_pm)).length⟩,
        ⟨q.items.filter (·.Tag = .auto_pm), (q.items.filter (·.Tag = .auto_pm)).length⟩) := by
  rw [extract_htc_pm_packets, if_pos hcfg]

theorem sound_extract {q : Queue} (hq : q.Sound) :
    (DepthQueue.mk (q.items.filter (·.Tag ≠ .auto_pm))
      (q.Depth - (q.items.filter (·.Tag = .auto_pm)).length)).Sound := by
  have hlen := length_eq_length_filter_add (l := q.items) (fun p => decide (p.Tag = .auto_pm))
  have hnot : (q.items.filter fun p => decide (p.Tag ≠ .auto_pm)) =
      q.items.filter fun p => !decide (p.Tag = .auto_pm) := by simp only [ne_eq, decide_not]
  have hq' : q.Depth = q.items.length := hq
  simp only [DepthQueue.Sound, hnot]
  omega

theorem filter_ne_of_filter_eq_nil {l : List Packet}
    (h : l.filter (·.Tag = .auto_pm) = []) : l.filter (·.Tag ≠ .auto_pm) = l := by
  rw [filter_eq_self]
  intro p hp
  have := filter_eq_nil_iff.mp h p hp
  simpa using this

theorem takeFromTxQueue_gets {cfg : Cfg} {ep : Ep} (hq : ep.TxQueue.Sound)
    {take : Bool → Queue → Queue × Queue × Int} (htake : ∀ b (q : Queue), q.Sound →
      Takes q.items ep.TxCredits .init (take b q).1 (take b q).2.1 (take b q).2.2) :
    Gets cfg ep (takeFromTxQueue cfg take ep).1 (takeFromTxQueue cfg take ep).2 := by
  unfold takeFromTxQueue
  by_cases hcfg : (cfg.feature_runtime_pm && cfg.wmi_control_svc) = true
  · rw [extract_of_cfg hcfg]
    by_cases hpm : ep.TxQueue.items.filter (·.Tag = .auto_pm) = []
    · have hall := filter_ne_of_filter_eq_nil hpm
      simp only [hpm, hall, length_nil, Int.natCast_zero, if_true, Int.sub_zero]
      exact (htake true ep.TxQueue hq).gets
    · have hne : ((ep.TxQueue.items.filter (·.Tag = .auto_pm)).length : Int) ≠ 0 := by
        simpa using hpm
      simp only [if_neg hne]
      have hpmq : (DepthQueue.mk (ep.TxQueue.items.filter (·.Tag = .auto_pm))
          (ep.TxQueue.items.filter (·.Tag = .auto_pm)).length).Sound := rfl
      exact (htake false _ hpmq).gets_pm hcfg (sound_extract hq) rfl
  · rw [extract_htc_pm_packets, if_neg hcfg]; exact (htake true ep.TxQueue hq).gets

theorem get_credit_based_gets (cfg : Cfg) (env : Env) {ep : Ep} (hq : ep.TxQueue.Sound) :
    Gets cfg ep (get_htc_send_packets_credit_based cfg env ep).1
      (get_htc_send_packets_credit_based cfg env ep).2 :=
  takeFromTxQueue_gets hq fun b _ hs =>
    takeCreditBased_takes cfg b _ _ _ _ _ hs DepthQueue.sound_init

theorem get_htc_send_packets_gets (cfg : Cfg) (env : Env) (resources : Int) {ep : Ep}
    (hq : ep.TxQueue.Sound) :
    Gets cfg ep (get_htc_send_packets cfg env resources ep).1
      (get_htc_send_packets cfg env resources ep).2 :=
  takeFromTxQueue_gets hq fun b _ hs =>
    takeResources_takes b ep.TxCredits _ _ _ _ _ hs DepthQueue.sound_init

theorem dataPackets_gets (cfg : Cfg) (env : Env) {ep : Ep} (hq : ep.TxQueue.Sound) :
    Gets cfg ep (dataPackets cfg env ep).1 (dataPackets cfg env ep).2 := by
  unfold dataPackets
  split_ifs
  · exact get_credit_based_gets cfg env hq
  · exact get_htc_send_packets_gets cfg env _ hq
  · exact get_htc_send_packets_gets cfg env _ hq
  · exact get_htc_send_packets_gets cfg env _ hq

theorem tryPackets_gets (cfg : Cfg) (env : Env) {ep : Ep} (hq : ep.TxQueue.Sound) :
    Gets cfg ep (tryPackets cfg env ep).1 (tryPackets cfg env ep).2 := by
  unfold tryPackets
  split
  · exact get_credit_based_gets cfg env hq
  · exact get_htc_send_packets_gets cfg env _ hq

theorem Gets.refl (cfg : Cfg) {ep : Ep} (hq : ep.TxQueue.Sound) : Gets cfg ep .init ep where
  sound := DepthQueue.sound_init
  txq_sound := hq
  keys := fun _ => rfl
  charged := by simp
  nonneg := id
  frame := rfl

theorem drainTop_gets (cfg : Cfg) (env : Env) {ep : Ep} (hq : ep.TxQueue.Sound) :
    ∃ sendQueue, Gets cfg ep sendQueue (drainTop cfg env ep).1 ∧
      ((drainTop cfg env ep).2 = some sendQueue ∨
        (drainTop cfg env ep).2 = none ∧ sendQueue.items = []) := by
  unfold drainTop
  have hgets := tryPackets_gets cfg env hq
  split
  · exact ⟨.init, Gets.refl cfg hq, .inr ⟨rfl, rfl⟩⟩
  · dsimp only
    split
    · rename_i hd; exact ⟨_, hgets, .inr ⟨rfl, hgets.sound.depth_eq_zero.mp hd⟩⟩
    · exact ⟨_, hgets, .inl rfl⟩

theorem Gets.count {cfg : Cfg} {ep ep' : Ep} {sendQueue : Queue} (h : Gets cfg ep sendQueue ep')
    (k : Key) :
    (Queue.keys sendQueue).count k + (Queue.keys ep'.TxQueue).count k =
      (Queue.keys ep.TxQueue).count k := by
  have hk : (ahead cfg k == ahead cfg k) = true := beq_self_eq_true _
  have hpred : ∀ l : List Key, (l.filter (ahead cfg · == ahead cfg k)).count k = l.count k :=
    fun l => count_filter (p := (ahead cfg · == ahead cfg k)) hk
  rw [← count_append, ← hpred, h.keys (ahead cfg k), hpred]

/-! ## A draining thread -/

def Phase.keys : Phase → List Key
  | .issue sendQueue => Queue.keys sendQueue
  | .bundle _ _ pQueueSave sendQueue => Queue.keys pQueueSave ++ Queue.keys sendQueue
  | .single sendQueue => Queue.keys sendQueue
  | .sending _ sendQueue => Queue.keys sendQueue
  | .failed sendQueue => Queue.keys sendQueue
  | .relock => []
  | .reset => []

def Phase.order : Phase → List Key
  | .sending p sendQueue => p.key :: Queue.keys sendQueue
  | phase => phase.keys

def Phase.charge : Phase → Int
  | .issue sendQueue => creditSum sendQueue.items
  | .bundle _ _ pQueueSave sendQueue => creditSum pQueueSave.items + creditSum sendQueue.items
  | .single sendQueue => creditSum sendQueue.items
  | .sending p sendQueue => p.CreditsUsed + creditSum sendQueue.items
  | .failed _ => 0
  | .relock => 0
  | .reset => 0

theorem Phase.bundle_keys (space : Int) (n : Nat) (save q : Queue) :
    (Phase.bundle space n save q).keys = Queue.keys save ++ Queue.keys q := rfl

theorem Phase.bundle_order (space : Int) (n : Nat) (save q : Queue) :
    (Phase.bundle space n save q).order = Queue.keys save ++ Queue.keys q := rfl

theorem Phase.bundle_charge (space : Int) (n : Nat) (save q : Queue) :
    (Phase.bundle space n save q).charge = creditSum save.items + creditSum q.items := rfl

@[simp] theorem Phase.relock_keys : Phase.relock.keys = [] := rfl

@[simp] theorem Phase.relock_order : Phase.relock.order = [] := rfl

@[simp] theorem Phase.relock_charge : Phase.relock.charge = 0 := rfl

def Phase.Sound : Phase → Prop
  | .issue sendQueue => sendQueue.Sound
  | .bundle _ _ pQueueSave sendQueue => pQueueSave.Sound ∧ sendQueue.Sound
  | .single sendQueue => sendQueue.Sound
  | .sending _ sendQueue => sendQueue.Sound
  | .failed sendQueue => sendQueue.Sound
  | .relock => True
  | .reset => True

def Entry.Sound : Entry → Prop
  | .single _ => True
  | .bundle _ pQueueSave => pQueueSave.Sound

/-- The sends that are not completed: in TxLookupQueue, or in what a completion took of it. -/
def Ep.entries (ep : Ep) : List Entry :=
  ep.TxLookupQueue.items ++ ep.lookups.flatMap (·.lookupQueue.items)

def Ep.lookupKeys (ep : Ep) : List Key := ep.entries.flatMap Entry.keys

/-- The packet is with HIF, and there is an entry of it that no completion is about to take out. -/
def Ep.Has (ep : Ep) (p : Packet) : Prop :=
  ep.lookups.countP (·.found = some (.single p)) < ep.entries.count (.single p)

structure Ep.Sound (ep : Ep) : Prop where
  txq : ep.TxQueue.Sound
  saved : ∀ e ∈ ep.entries, e.Sound

def sendsBundle (cfg : Cfg) (space : Int) (sendQueue : Queue) : Bool :=
  match sendQueue.dequeue with
  | none => true
  | some (p, _) => decide (space < transferLength cfg p)

def lostPacket (cfg : Cfg) (env : Env) : Phase → Option Packet
  | .bundle space _ _ sendQueue =>
    match sendQueue.dequeue with
    | none => none
    | some (p, rest) =>
      if space < transferLength cfg p ∧
          (rest.Depth < HTC_MIN_MSG_PER_BUNDLE ∨ env.bundle_packet = none) then some p
      else none
  | _ => none

/-- The credits of the packets that the step leaves behind without giving them to HIF and
without reclaiming what they were charged: the packets of a bundle that HIF refuses, the one
that the bundle forgets, and those of a send queue behind a packet that HIF refuses; in the
data path that packet too. -/
def leak (cfg : Cfg) (env : Env) (fn : Fn) : Phase → Int
  | .bundle space netbuf pQueueSave sendQueue =>
    (if sendsBundle cfg space sendQueue && !env.hif_ok then creditSum pQueueSave.items else 0) +
      creditSum (lostPacket cfg env (.bundle space netbuf pQueueSave sendQueue)).toList
  | .sending p sendQueue =>
    if env.hif_ok then 0
    else
      match fn with
      | .htc_try_send => creditSum sendQueue.items
      | .htc_send_data_pkt => p.CreditsUsed + creditSum sendQueue.items
  | _ => 0

structure Advances (cfg : Cfg) (ep : Ep) (phase : Phase) (ep' : Ep) (phase' : Option Phase)
    (lost : List Key) (leaked : Int) : Prop where
  sound : ep'.Sound
  phase_sound : ∀ ph, phase' = some ph → ph.Sound
  sending : ∀ p q, phase' = some (.sending p q) → ep'.Has p
  keys : ∀ k,
    (Queue.keys ep'.TxQueue).count k + ep'.lookupKeys.count k +
        ((phase'.map Phase.keys).getD []).count k + lost.count k =
      (Queue.keys ep.TxQueue).count k + ep.lookupKeys.count k +
        phase.keys.count k
  credits :
    ep'.TxCredits + (phase'.map Phase.charge).getD 0 + creditSum ep'.handed + leaked =
      ep.TxCredits + phase.charge + creditSum ep.handed
  nonneg : 0 ≤ ep.TxCredits → 0 ≤ ep'.TxCredits
  order : ∀ b : Bool,
    ((ep'.handed.map Packet.key ++ (phase'.map Phase.order).getD [] ++
        Queue.keys ep'.TxQueue).filter (ahead cfg · == b)).Sublist
      ((ep.handed.map Packet.key ++ phase.order ++ Queue.keys ep.TxQueue).filter
        (ahead cfg · == b))
  accepted : ep'.accepted = ep.accepted
  entered : ep'.entered = ep.entered
  completed : ep'.completed = ep.completed
  reported : ep'.reported = ep.reported

section Advance

variable {cfg : Cfg} {env : Env} {fn : Fn} {ep : Ep}

/-! ### The sends that are not completed -/

/-- A new send is one more entry. -/
theorem entries_enqueue (e : Entry) (handed : List Packet) :
    (Ep.entries { ep with TxLookupQueue := ep.TxLookupQueue.enqueue e, handed := handed }).Perm
      (e :: ep.entries) := by
  simp only [Ep.entries, DepthQueue.enqueue_items, append_assoc, singleton_append]
  exact perm_middle

theorem lookupKeys_enqueue (ep : Ep) (e : Entry) (handed : List Packet) (k : Key) :
    (Ep.lookupKeys
        { ep with TxLookupQueue := ep.TxLookupQueue.enqueue e, handed := handed }).count k =
      e.keys.count k + ep.lookupKeys.count k := by
  have := ((@entries_enqueue ep e handed).flatMap_right Entry.keys).count_eq k
  rw [flatMap_cons, count_append] at this; exact this

theorem Ep.Sound.enqueueLookup (hep : ep.Sound) {e : Entry} (he : e.Sound) {handed : List Packet} :
    Ep.Sound { ep with TxLookupQueue := ep.TxLookupQueue.enqueue e, handed := handed } where
  txq := hep.txq
  saved := by
    intro f hf
    rcases mem_cons.mp ((entries_enqueue e handed).mem_iff.mp hf) with rfl | hf
    · exact he
    · exact hep.saved f hf

/-- A completion finds an entry only in its own queue. -/
theorem countP_found_le (ls : List Lookup) (e : Entry) :
    ls.countP (·.found = some e) ≤ (ls.flatMap (·.lookupQueue.items)).count e := by
  induction ls with
  | nil => exact Nat.le_refl 0
  | cons l ls ih =>
    rw [countP_cons, flatMap_cons, count_append]
    split
    · rename_i hf
      have hmem : e ∈ l.lookupQueue.items := mem_of_find?_eq_some (of_decide_eq_true hf)
      have := count_pos_iff.mpr hmem
      omega
    · omega

/-- The entry of a packet that was just sent is free. -/
theorem has_enqueue (p : Packet) :
    Ep.Has { ep with TxLookupQueue := ep.TxLookupQueue.enqueue (.single p) } p := by
  have hle := countP_found_le ep.lookups (.single p)
  simp only [Ep.Has, Ep.entries, DepthQueue.enqueue_items, count_append, count_singleton_self]
  omega

theorem Ep.Has.mem {p : Packet} (h : ep.Has p) : Entry.single p ∈ ep.entries :=
  count_pos_iff.mp (Nat.lt_of_le_of_lt (Nat.zero_le _) h)

theorem unlink_perm (e : Entry) (ls : List Lookup) (h : e ∈ ls.flatMap (·.lookupQueue.items)) :
    (e :: (unlink e ls).flatMap (·.lookupQueue.items)).Perm (ls.flatMap (·.lookupQueue.items)) := by
  induction ls with
  | nil => cases h
  | cons l ls ih =>
    unfold unlink
    split
    · rename_i hl; exact (perm_cons_erase hl).symm.append_right _
    · rename_i hl
      rw [flatMap_cons, mem_append] at h
      exact perm_middle.symm.trans ((ih (h.resolve_left hl)).append_left _)

/-- A packet that is removed is one entry less, whichever queue it was in. -/
theorem removeLookup_perm {e : Entry} (he : e ∈ ep.entries) :
    (e :: (ep.removeLookup e).entries).Perm ep.entries := by
  unfold Ep.removeLookup Ep.entries
  by_cases hl : e ∈ ep.TxLookupQueue.items
  · rw [if_pos hl]; exact (perm_cons_erase hl).symm.append_right _
  · rw [if_neg hl, DepthQueue.remove_items, erase_of_not_mem hl]
    have hls : e ∈ ep.lookups.flatMap (·.lookupQueue.items) :=
      (mem_append.mp he).resolve_left hl
    exact perm_middle.symm.trans ((unlink_perm e ep.lookups hls).append_left _)

@[simp] theorem removeLookup_TxQueue (e : Entry) : (ep.removeLookup e).TxQueue = ep.TxQueue := rfl

@[simp] theorem removeLookup_TxCredits (e : Entry) :
    (ep.removeLookup e).TxCredits = ep.TxCredits := rfl

@[simp] theorem removeLookup_handed (e : Entry) : (ep.removeLookup e).handed = ep.handed := rfl

theorem lookupKeys_remove {p : Packet} (hp : Entry.single p ∈ ep.entries) (TxQueue : Queue)
    (TxCredits : Int) (k : Key) :
    (Ep.lookupKeys
          { ep.removeLookup (.single p) with TxQueue := TxQueue, TxCredits := TxCredits }).count k +
        [p.key].count k = ep.lookupKeys.count k := by
  have := ((removeLookup_perm hp).flatMap_right Entry.keys).count_eq k
  rw [flatMap_cons, count_append] at this
  rw [Nat.add_comm]; exact this

theorem Ep.Sound.removeLookup (hep : ep.Sound) {e : Entry} (he : e ∈ ep.entries)
    {TxQueue : Queue} (hq : TxQueue.Sound) {TxCredits : Int} :
    Ep.Sound { ep.removeLookup e with TxQueue := TxQueue, TxCredits := TxCredits } where
  txq := hq
  saved := fun f hf => hep.saved f ((removeLookup_perm he).mem_iff.mp (mem_cons_of_mem e hf))

theorem Advances.stay {phase ph : Phase} (hep : ep.Sound) (hph : ph.Sound)
    (hkeys : ph.keys = phase.keys) (horder : ph.order = phase.order)
    (hcharge : ph.charge = phase.charge) (hsend : ∀ p q, ph ≠ .sending p q) :
    Advances cfg ep phase ep (some ph) [] 0 where
  sound := hep
  phase_sound := by rintro _ ⟨⟩; exact hph
  sending := by intro p q h; exact absurd (Option.some.inj h) (hsend p q)
  keys := by intro k; simp [hkeys]
  credits := by simp [hcharge]
  nonneg := id
  order := by intro b; simp [horder]
  accepted := rfl
  entered := rfl
  completed := rfl
  reported := rfl

/-- The saved queue of a bundle goes to TxLookupQueue, and to HIF if it takes it; of the send
queue, `ph` is what stays with the thread. -/
theorem Advances.sendBundle {space : Int} {netbuf : Nat} {pQueueSave sendQueue : Queue}
    {ph : Phase} {lost : List Packet} (hep : ep.Sound) (hsave : pQueueSave.Sound) (hph : ph.Sound)
    (hkeys : ∀ k, ph.keys.count k + (lost.map Packet.key).count k =
      (Queue.keys sendQueue).count k) (horder : ph.order.Sublist (Queue.keys sendQueue))
    (hcharge : ph.charge + creditSum lost = creditSum sendQueue.items)
    (hsend : ∀ p q, ph ≠ .sending p q) :
    Advances cfg ep (.bundle space netbuf pQueueSave sendQueue)
      (htc_send_bundled_netbuf env netbuf pQueueSave ep) (some ph) (lost.map Packet.key)
      ((if env.hif_ok then 0 else creditSum pQueueSave.items) + creditSum lost) where
  sound := hep.enqueueLookup (e := .bundle netbuf pQueueSave) hsave
  phase_sound := by rintro _ ⟨⟩; exact hph
  sending := by intro p q h; exact absurd (Option.some.inj h) (hsend p q)
  keys := by
    intro k
    have := hkeys k
    have henq := lookupKeys_enqueue ep (.bundle netbuf pQueueSave)
      (if env.hif_ok then ep.handed ++ pQueueSave.items else ep.handed) k
    simp only [htc_send_bundled_netbuf, count_append, Entry.keys, Phase.bundle_keys,
      Option.map_some, Option.getD_some] at henq ⊢
    omega
  credits := by
    simp only [htc_send_bundled_netbuf, Phase.bundle_charge, Option.map_some, Option.getD_some]
    by_cases hok : env.hif_ok = true
    · simp only [hok, if_true, creditSum_append]; omega
    · simp only [hok, Bool.false_eq_true, if_false]; omega
  nonneg := id
  order := by
    intro b
    simp only [htc_send_bundled_netbuf, Phase.bundle_order, Option.map_some, Option.getD_some]
    apply List.Sublist.filter
    apply List.Sublist.append_right
    -- a bundle that HIF refuses is in neither list; what is behind it keeps its order
    split
    · rw [map_append, append_assoc]
      exact (Sublist.refl _).append ((Sublist.refl _).append horder)
    · exact (Sublist.refl _).append (horder.trans (sublist_append_right _ _))
  accepted := rfl
  entered := rfl
  completed := rfl
  reported := rfl

theorem bundleRound_advances {space : Int} {netbuf : Nat} {pQueueSave sendQueue : Queue}
    (hep : ep.Sound) (hsave : pQueueSave.Sound) (hq : sendQueue.Sound) :
    Advances cfg ep (.bundle space netbuf pQueueSave sendQueue)
      (bundleRound cfg env space netbuf pQueueSave sendQueue ep).1
      (some (bundleRound cfg env space netbuf pQueueSave sendQueue ep).2)
      ((lostPacket cfg env (.bundle space netbuf pQueueSave sendQueue)).toList.map Packet.key)
      (leak cfg env fn (.bundle space netbuf pQueueSave sendQueue)) := by
  cases hdeq : sendQueue.dequeue with
  | none =>
    simp only [bundleRound, lostPacket, leak, sendsBundle, hdeq, Option.toList_none,
      map_nil, creditSum_nil, Bool.true_and]
    by_cases hs : pQueueSave.items = []
    · -- nothing was copied: the bundle packet is freed
      have hksave : Queue.keys pQueueSave = [] := by rw [Queue.keys, hs, map_nil]
      simp only [hs, if_true, creditSum_nil, ite_self, Int.add_zero]
      refine Advances.stay hep hq ?_ ?_ ?_ (by simp)
      · simp [Phase.keys, hksave]
      · simp [Phase.order, Phase.keys, hksave]
      · simp [Phase.charge, hs]
    · rw [if_neg hs]
      have hadv : Advances cfg ep (.bundle space netbuf pQueueSave sendQueue)
          (htc_send_bundled_netbuf env netbuf pQueueSave ep) (some (.single sendQueue))
          (List.map Packet.key [])
          ((if env.hif_ok then 0 else creditSum pQueueSave.items) + creditSum []) :=
        Advances.sendBundle hep hsave hq (by simp [Phase.keys]) (Sublist.refl _)
          (by simp [Phase.charge]) (by simp)
      cases h : env.hif_ok <;> simpa [h] using hadv
  | some r =>
    obtain ⟨p, rest⟩ := r
    have hrest := hq.dequeue hdeq
    have hkeys := keys_dequeue hdeq
    have hsum : creditSum sendQueue.items = p.CreditsUsed + creditSum rest.items := by
      rw [DepthQueue.dequeue_eq_some hdeq, creditSum_cons]
    by_cases hspace : space < transferLength cfg p
    · by_cases hlose : rest.Depth < HTC_MIN_MSG_PER_BUNDLE ∨ env.bundle_packet = none
      · -- the function returns, and the packet that it has dequeued is nowhere
        have hround : bundleRound cfg env space netbuf pQueueSave sendQueue ep =
            (htc_send_bundled_netbuf env netbuf pQueueSave ep, .single rest) := by
          simp only [bundleRound, hdeq, if_pos hspace]
          rcases hlose with hd | hnone
          · rw [if_pos hd]
          · rw [hnone, ite_self]
        have hadv : Advances cfg ep (.bundle space netbuf pQueueSave sendQueue)
            (htc_send_bundled_netbuf env netbuf pQueueSave ep) (some (.single rest))
            (List.map Packet.key [p])
            ((if env.hif_ok then 0 else creditSum pQueueSave.items) + creditSum [p]) :=
          Advances.sendBundle hep hsave hrest
            (by intro k; simp [Phase.keys, hkeys, count_cons])
            (by rw [hkeys]; exact sublist_cons_self _ _)
            (by simp [Phase.charge, hsum]; omega) (by simp)
        simp only [hround, lostPacket, leak, sendsBundle, hdeq, hspace, hlose, and_self, if_true,
          decide_true, Bool.true_and, Option.toList_some]
        cases h : env.hif_ok <;> simpa [h] using hadv
      · obtain ⟨hd, hnone⟩ := not_or.mp hlose
        obtain ⟨n, hn⟩ := Option.ne_none_iff_exists'.mp hnone
        have hround : bundleRound cfg env space netbuf pQueueSave sendQueue ep =
            (htc_send_bundled_netbuf env netbuf pQueueSave ep,
              .bundle (bundleSpace cfg - transferLength cfg p) n (DepthQueue.init.enqueue p)
                rest) := by simp only [bundleRound, hdeq, if_pos hspace, if_neg hd, hn]
        have hadv : Advances cfg ep (.bundle space netbuf pQueueSave sendQueue)
            (htc_send_bundled_netbuf env netbuf pQueueSave ep)
            (some (.bundle (bundleSpace cfg - transferLength cfg p) n
              (DepthQueue.init.enqueue p) rest))
            (List.map Packet.key [])
            ((if env.hif_ok then 0 else creditSum pQueueSave.items) + creditSum []) :=
          Advances.sendBundle hep hsave ⟨DepthQueue.sound_init.enqueue, hrest⟩
            (by intro k; simp [Phase.bundle_keys, hkeys]) (by simp [Phase.bundle_order, hkeys])
            (by simp [Phase.bundle_charge, hsum]) (by simp)
        simp only [hround, lostPacket, leak, sendsBundle, hdeq, hspace, hlose, and_false,
          if_false, decide_true, Bool.true_and, Option.toList_none]
        cases h : env.hif_ok <;> simpa [h] using hadv
    · have hround : bundleRound cfg env space netbuf pQueueSave sendQueue ep =
          (ep, .bundle (space - transferLength cfg p) netbuf (pQueueSave.enqueue p) rest) := by
        simp only [bundleRound, hdeq, if_neg hspace]
      simp only [hround, lostPacket, leak, sendsBundle, hdeq, hspace, false_and, if_false,
        decide_false, Bool.false_and, Option.toList_none, map_nil, creditSum_nil]
      refine Advances.stay hep ⟨hsave.enqueue, hrest⟩ ?_ ?_ ?_ (by simp)
      · simp [Phase.bundle_keys, hkeys]
      · simp [Phase.bundle_order, hkeys]
      · simp only [Phase.bundle_charge, hsum, DepthQueue.enqueue_items, creditSum_append,
          creditSum_cons, creditSum_nil]
        omega

variable {sendQueue : Queue}

theorem Gets.ep_sound {ep' : Ep} (h : Gets cfg ep sendQueue ep') (hep : ep.Sound) : ep'.Sound := by
  rw [h.frame]; exact ⟨h.txq_sound, hep.saved⟩

theorem Gets.advances {ep' : Ep} (h : Gets cfg ep sendQueue ep') (hep : ep.Sound) :
    Advances cfg ep .relock ep' (some (.issue sendQueue)) [] 0 where
  sound := h.ep_sound hep
  phase_sound := by rintro _ ⟨⟩; exact h.sound
  sending := by simp
  keys := by
    intro k
    have hlookup : ep'.lookupKeys = ep.lookupKeys := by rw [h.frame]; rfl
    have := h.count k
    simp only [hlookup, Phase.keys, Option.map_some, Option.getD_some, count_nil]
    omega
  credits := by
    have hhanded : ep'.handed = ep.handed := by rw [h.frame]
    have := h.charged
    simp only [hhanded, Phase.charge, Option.map_some, Option.getD_some]
    omega
  nonneg := h.nonneg
  order := by
    intro b
    have hhanded : ep'.handed = ep.handed := by rw [h.frame]
    simp only [hhanded, Phase.order, Phase.keys, Option.map_some, Option.getD_some,
      append_nil, append_assoc]
    rw [filter_append, h.keys b, ← filter_append]
  accepted := by rw [h.frame]
  entered := by rw [h.frame]
  completed := by rw [h.frame]
  reported := by rw [h.frame]

theorem Advances.clear {phase ph : Phase} {ep' : Ep} {lost : List Key} {leaked : Int}
    (h : Advances cfg ep phase ep' (some ph) lost leaked) (hkeys : ph.keys = [])
    (horder : ph.order = []) (hcharge : ph.charge = 0) :
    Advances cfg ep phase ep'.clearProcessCount none lost leaked where
  sound := ⟨h.sound.txq, h.sound.saved⟩
  phase_sound := by simp
  sending := by simp
  keys := by
    intro k
    have := h.keys k
    simp only [Option.map_some, Option.getD_some, hkeys] at this
    exact this
  credits := by
    have := h.credits
    simp only [Option.map_some, Option.getD_some, hcharge] at this
    exact this
  nonneg := h.nonneg
  order := by
    intro b
    have := h.order b
    simp only [Option.map_some, Option.getD_some, horder] at this
    exact this
  accepted := h.accepted
  entered := h.entered
  completed := h.completed
  reported := h.reported

theorem drain_advances (env : Env) (hep : ep.Sound) :
    Advances cfg ep .relock (drain cfg env ep).1 (drain cfg env ep).2 [] 0 := by
  obtain ⟨sendQueue, hgets, hres | ⟨hres, hnil⟩⟩ := drainTop_gets cfg env hep.txq
  · have hdrain : drain cfg env ep = ((drainTop cfg env ep).1, some (.issue sendQueue)) := by
      unfold drain
      split
      · simp_all
      · simp_all
    rw [hdrain]; exact hgets.advances hep
  · have hdrain : drain cfg env ep = ((drainTop cfg env ep).1.clearProcessCount, none) := by
      unfold drain
      split
      · simp_all
      · simp_all
    rw [hdrain]
    have hkeys : Queue.keys sendQueue = [] := by rw [Queue.keys, hnil, map_nil]
    refine (hgets.advances hep).clear hkeys hkeys ?_
    simp [Phase.charge, hnil]

theorem single_advances (hep : ep.Sound) (hq : sendQueue.Sound) :
    Advances cfg ep (.single sendQueue) (advance cfg env fn ep (.single sendQueue)).1
      (advance cfg env fn ep (.single sendQueue)).2 [] 0 := by
  cases hdeq : sendQueue.dequeue with
  | none =>
    have hnil := DepthQueue.dequeue_eq_none.mp hdeq
    have hkeys : Queue.keys sendQueue = [] := by rw [Queue.keys, hnil, map_nil]
    simp only [advance, hdeq]
    cases fn <;>
      exact Advances.stay hep trivial hkeys.symm hkeys.symm (by simp [Phase.charge, hnil]) (by simp)
  | some r =>
    obtain ⟨p, rest⟩ := r
    have hkeys := keys_dequeue hdeq
    simp only [advance, hdeq]
    exact
      { sound := hep.enqueueLookup (e := .single p) trivial
        phase_sound := by rintro _ ⟨⟩; exact hq.dequeue hdeq
        sending := by rintro _ _ ⟨⟩; exact has_enqueue p
        keys := by
          intro k
          have := lookupKeys_enqueue ep (.single p) ep.handed k
          simp only [Entry.keys, Phase.keys, hkeys, count_cons, count_nil, Option.map_some,
            Option.getD_some] at this ⊢
          omega
        credits := by
          simp only [Phase.charge, DepthQueue.dequeue_eq_some hdeq, creditSum_cons,
            Option.map_some, Option.getD_some]
          omega
        nonneg := id
        order := by intro b; simp [Phase.order, Phase.keys, hkeys]
        accepted := rfl
        entered := rfl
        completed := rfl
        reported := rfl }

theorem sending_advances {p : Packet} (hep : ep.Sound) (hq : sendQueue.Sound)
    (hp : Entry.single p ∈ ep.entries) :
    Advances cfg ep (.sending p sendQueue) (advance cfg env fn ep (.sending p sendQueue)).1
      (advance cfg env fn ep (.sending p sendQueue)).2 []
      (leak cfg env fn (.sending p sendQueue)) := by
  by_cases hok : env.hif_ok = true
  · simp only [advance, leak, hok, if_true]
    exact
      { sound := ⟨hep.txq, hep.saved⟩
        phase_sound := by rintro _ ⟨⟩; exact hq
        sending := by simp
        keys := fun _ => rfl
        credits := by
          simp only [Phase.charge, creditSum_append, creditSum_cons, creditSum_nil,
            Option.map_some, Option.getD_some]
          omega
        nonneg := id
        order := by intro b; simp [Phase.order, Phase.keys]
        accepted := rfl
        entered := rfl
        completed := rfl
        reported := rfl }
  · cases fn with
    | htc_try_send =>
      simp only [advance, leak, hok, Bool.false_eq_true, if_false]
      exact
        { sound := hep.removeLookup hp hep.txq
          phase_sound := by rintro _ ⟨⟩; exact hq.enqueueToHead
          sending := by simp
          keys := by
            intro k
            have := lookupKeys_remove hp ep.TxQueue (ep.TxCredits + p.CreditsUsed) k
            simp only [Phase.keys, keys_enqueueToHead, removeLookup_TxQueue, count_cons, count_nil,
              Option.map_some, Option.getD_some] at this ⊢
            omega
          credits := by
            simp only [Phase.charge, removeLookup_handed, Option.map_some, Option.getD_some]
            omega
          nonneg := by
            intro hc
            show 0 ≤ ep.TxCredits + (p.CreditsUsed : Int)
            omega
          order := by intro b; simp [Phase.order, Phase.keys]
          accepted := rfl
          entered := rfl
          completed := rfl
          reported := rfl }
    | htc_send_data_pkt =>
      simp only [advance, leak, hok, Bool.false_eq_true, if_false]
      exact
        { sound := hep.removeLookup hp (hep.txq.transferToHead hq.enqueueToHead)
          phase_sound := by rintro _ ⟨⟩; exact trivial
          sending := by simp
          keys := by
            intro k
            have := lookupKeys_remove hp
              (ep.TxQueue.transferToHead (sendQueue.enqueueToHead p)) ep.TxCredits k
            simp only [Phase.keys, keys_transferToHead, keys_enqueueToHead, count_cons,
              count_append, count_nil, Option.map_some, Option.getD_some,
              removeLookup_TxCredits] at this ⊢
            omega
          credits := by
            simp only [Phase.charge, removeLookup_handed, removeLookup_TxCredits, Option.map_some,
              Option.getD_some]
            omega
          nonneg := id
          order := by intro b; simp [Phase.order, Phase.keys]
          accepted := rfl
          entered := rfl
          completed := rfl
          reported := rfl }

theorem failed_advances (hep : ep.Sound) (hq : sendQueue.Sound) :
    Advances cfg ep (.failed sendQueue) (advance cfg env fn ep (.failed sendQueue)).1
      (advance cfg env fn ep (.failed sendQueue)).2 [] 0 where
  sound := ⟨hep.txq.transferToHead hq, hep.saved⟩
  phase_sound := by rintro _ ⟨⟩; exact trivial
  sending := by simp [advance]
  keys := by
    intro k
    have hlookup : Ep.lookupKeys { ep with TxQueue := ep.TxQueue.transferToHead sendQueue } =
      ep.lookupKeys := rfl
    simp only [advance, Phase.keys, keys_transferToHead, hlookup, count_append, count_nil,
      Option.map_some, Option.getD_some]
    omega
  credits := by simp [advance, Phase.charge]
  nonneg := id
  order := by intro b; simp [advance, Phase.order, Phase.keys]
  accepted := rfl
  entered := rfl
  completed := rfl
  reported := rfl

/-- **What a draining thread does in one step**, whatever HIF and the allocator answer. -/
theorem advance_advances {phase : Phase} (hep : ep.Sound) (hph : phase.Sound)
    (hsend : ∀ p q, phase = .sending p q → ep.Has p) :
    Advances cfg ep phase (advance cfg env fn ep phase).1 (advance cfg env fn ep phase).2
      ((lostPacket cfg env phase).toList.map Packet.key) (leak cfg env fn phase) := by
  cases phase with
  | issue sendQueue =>
    simp only [advance, lostPacket, leak, Option.toList_none, map_nil]
    split
    · cases env.bundle_packet with
      | none => exact Advances.stay hep hph rfl rfl rfl (by simp)
      | some n =>
        exact Advances.stay hep ⟨DepthQueue.sound_init, hph⟩ rfl rfl
          (by simp [Phase.charge]) (by simp)
    · exact Advances.stay hep hph rfl rfl rfl (by simp)
  | bundle space netbuf pQueueSave sendQueue => exact bundleRound_advances hep hph.1 hph.2
  | single sendQueue => exact single_advances hep hph
  | sending p sendQueue => exact sending_advances hep hph (hsend p sendQueue rfl).mem
  | failed sendQueue => exact failed_advances hep hph
  | relock => exact drain_advances env hep
  | reset =>
    have hstay : Advances cfg ep .reset ep (some .reset) [] 0 :=
      Advances.stay hep trivial rfl rfl rfl (by simp)
    exact hstay.clear rfl rfl rfl

theorem drainTop_count (env : Env) (hep : ep.Sound) :
    (drainTop cfg env ep).1.TxProcessCount = ep.TxProcessCount := by
  obtain ⟨sendQueue, hgets, -⟩ := drainTop_gets cfg env hep.txq
  rw [hgets.frame]

theorem drain_count (env : Env) (hep : ep.Sound) :
    (drain cfg env ep).1.TxProcessCount =
      if (drain cfg env ep).2.isSome then ep.TxProcessCount else 0 := by
  have hcount : (drainTop cfg env ep).1.TxProcessCount = ep.TxProcessCount :=
    drainTop_count env hep
  unfold drain
  split
  · rename_i h
    rw [h] at hcount; simpa using hcount
  · rfl

theorem advance_count {phase : Phase} (hep : ep.Sound) :
    (advance cfg env fn ep phase).1.TxProcessCount =
      if (advance cfg env fn ep phase).2.isSome then ep.TxProcessCount else 0 := by
  cases phase with
  | issue sendQueue =>
    simp only [advance]
    split
    · cases env.bundle_packet <;> rfl
    · rfl
  | bundle space netbuf pQueueSave sendQueue =>
    simp only [advance, bundleRound]
    cases sendQueue.dequeue with
    | none =>
      dsimp only
      split <;> rfl
    | some r =>
      dsimp only
      split
      · split
        · rfl
        · cases env.bundle_packet <;> rfl
      · rfl
  | single sendQueue => cases hdeq : sendQueue.dequeue <;> simp [advance, hdeq]
  | sending p sendQueue =>
    simp only [advance]
    split
    · rfl
    · cases fn <;> rfl
  | failed sendQueue => rfl
  | relock => exact drain_count env hep
  | reset => rfl

end Advance

end Qcacld.HtcTx
