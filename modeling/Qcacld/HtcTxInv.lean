/-
What a step of any thread does to an HTC endpoint.

`Inv` is what every run keeps: all counters are right, TxProcessCount is the number of threads that
drain, of which there is at most one, and the packet of a send that is under way is in
TxLookupQueue.
-/
import Qcacld.HtcTxDrain

set_option autoImplicit false

namespace Qcacld.HtcTx

open Lib List Option

/-! ## Entering -/

def Entering.brings : Entering → List Key
  | .htc_try_send sendQueue _ => Queue.keys sendQueue
  | .htc_send_data_pkt pPacket _ => (pPacket.map Packet.key).toList

def Entering.callers : Entering → Queue
  | .htc_try_send _ pCallersSendQueue => pCallersSendQueue
  | .htc_send_data_pkt _ _ => .init

def Entering.Sound : Entering → Prop
  | .htc_try_send sendQueue pCallersSendQueue => sendQueue.Sound ∧ pCallersSendQueue.Sound
  | .htc_send_data_pkt _ _ => True

theorem Entering.Sound.callers {e : Entering} (he : e.Sound) : e.callers.Sound := by
  cases e with
  | htc_try_send sendQueue pCallersSendQueue => exact he.2
  | htc_send_data_pkt pPacket more_data => exact DepthQueue.sound_init

def Entering.enqueue (ep : Ep) : Entering → Ep
  | .htc_try_send sendQueue _ =>
    if sendQueue.Depth = 0 then ep
    else
      { ep with
        TxQueue := ep.TxQueue.transferToTail sendQueue
        entered := ep.entered ++ Queue.keys sendQueue }
  | .htc_send_data_pkt none _ => ep
  | .htc_send_data_pkt (some p) _ => ep.enqueueData p

section Enter

variable {cfg : Cfg} {env : Env} {ep : Ep}

theorem Entering.enqueue_spec {e : Entering} (he : e.Sound) (hep : ep.Sound) :
    ∃ q : Queue, q.Sound ∧ Queue.keys q = Queue.keys ep.TxQueue ++ e.brings ∧
      e.enqueue ep = { ep with TxQueue := q, entered := ep.entered ++ e.brings } := by
  cases e with
  | htc_try_send sendQueue pCallersSendQueue =>
    simp only [Entering.enqueue, Entering.brings]
    split
    · rename_i h0
      have hnil : Queue.keys sendQueue = [] := by
        rw [Queue.keys, he.1.depth_eq_zero.mp h0, map_nil]
      exact ⟨ep.TxQueue, hep.txq, by rw [hnil, append_nil], by rw [hnil, append_nil]⟩
    · exact ⟨_, hep.txq.transferToTail he.1, keys_transferToTail _ _, rfl⟩
  | htc_send_data_pkt pPacket more_data =>
    cases pPacket with
    | none =>
      refine ⟨ep.TxQueue, hep.txq, ?_, ?_⟩
      · simp [Entering.brings]
      · simp [Entering.brings, Entering.enqueue]
    | some p => exact ⟨_, hep.txq.enqueue, keys_enqueue _ _, rfl⟩

theorem Entering.enqueue_sound {e : Entering} (he : e.Sound) (hep : ep.Sound) :
    (e.enqueue ep).Sound := by
  obtain ⟨q, hq, -, heq⟩ := Entering.enqueue_spec he hep
  rw [heq]; exact ⟨hq, hep.saved⟩

structure Drains (cfg : Cfg) (take : Ep → Ep × Option Phase) : Prop where
  advances : ∀ ep, ep.Sound → Advances cfg ep .relock (take ep).1 (take ep).2 [] 0
  count : ∀ ep, ep.Sound →
    (take ep).1.TxProcessCount = if (take ep).2.isSome then ep.TxProcessCount else 0

theorem drains_drain (cfg : Cfg) (env : Env) : Drains cfg (drain cfg env) where
  advances := fun _ hep => drain_advances env hep
  count := fun _ hep => drain_count env hep

theorem drains_dataPackets (cfg : Cfg) (env : Env) :
    Drains cfg fun ep =>
      ((dataPackets cfg env ep).2, some (Phase.issue (dataPackets cfg env ep).1)) where
  advances := fun _ hep => (dataPackets_gets cfg env hep.txq).advances hep
  count := by
    intro ep hep
    show (dataPackets cfg env ep).2.TxProcessCount = ep.TxProcessCount
    rw [(dataPackets_gets cfg env hep.txq).frame]

theorem Advances.count_iff {n : Int} {phase : Phase} {ep' : Ep} {phase' : Option Phase}
    {lost : List Key} {leaked : Int} :
    Advances cfg { ep with TxProcessCount := n } phase ep' phase' lost leaked ↔
      Advances cfg ep phase ep' phase' lost leaked := by
  constructor <;> intro h <;>
    exact ⟨h.sound, h.phase_sound, h.sending, h.keys, h.credits, h.nonneg, h.order, h.accepted,
      h.entered, h.completed, h.reported⟩

theorem Advances.busy (cfg : Cfg) (hep : ep.Sound) : Advances cfg ep .relock ep none [] 0 where
  sound := hep
  phase_sound := by simp
  sending := by simp
  keys := fun _ => rfl
  credits := by simp [Phase.charge]
  nonneg := id
  order := fun _ => Sublist.refl _
  accepted := rfl
  entered := rfl
  completed := rfl
  reported := rfl

theorem incProcessCount_advances {take : Ep → Ep × Option Phase} (htake : Drains cfg take)
    (hep : ep.Sound) :
    Advances cfg ep .relock (incProcessCount ep take).1 (incProcessCount ep take).2 [] 0 := by
  unfold incProcessCount
  split
  · exact Advances.busy cfg hep
  · have hep' : Ep.Sound { ep with TxProcessCount := ep.TxProcessCount + 1 } :=
      ⟨hep.txq, hep.saved⟩
    exact Advances.count_iff.mp (htake.advances _ hep')

def Counted (n n' : Int) (drains : Bool) : Prop :=
  drains = false ∧ n' = n ∨ drains = true ∧ n = 0 ∧ n' = 1

theorem incProcessCount_count {take : Ep → Ep × Option Phase} (htake : Drains cfg take)
    (hep : ep.Sound) (hn : 0 ≤ ep.TxProcessCount) :
    Counted ep.TxProcessCount (incProcessCount ep take).1.TxProcessCount
      (incProcessCount ep take).2.isSome := by
  unfold incProcessCount
  split
  · exact .inl ⟨rfl, rfl⟩
  · have hep' : Ep.Sound { ep with TxProcessCount := ep.TxProcessCount + 1 } :=
      ⟨hep.txq, hep.saved⟩
    have hcount := htake.count _ hep'
    have hn0 : ep.TxProcessCount = 0 := by omega
    cases hsome : (take { ep with TxProcessCount := ep.TxProcessCount + 1 }).2.isSome with
    | false => rw [hsome] at hcount; exact .inl ⟨rfl, hcount.trans hn0.symm⟩
    | true =>
      rw [hsome] at hcount
      refine .inr ⟨rfl, hn0, ?_⟩
      rw [hcount, if_pos rfl]
      show ep.TxProcessCount + 1 = 1
      omega

def enterPhase (cfg : Cfg) (env : Env) (ep : Ep) : Entering → Ep × Option Phase
  | .htc_try_send sendQueue _ => enterTrySend cfg env sendQueue ep
  | .htc_send_data_pkt pPacket more_data => enterDataPkt cfg env pPacket more_data ep

def Entering.fn : Entering → Fn
  | .htc_try_send _ _ => .htc_try_send
  | .htc_send_data_pkt _ _ => .htc_send_data_pkt

theorem enter_eq (e : Entering) :
    enter cfg env ep e =
      ((enterPhase cfg env ep e).1, (enterPhase cfg env ep e).2.map (⟨e.fn, e.callers, ·⟩),
        e.callers) := by
  cases e <;> rfl

theorem enterPhase_advances {e : Entering} (he : e.Sound) (hep : ep.Sound) :
    Advances cfg (e.enqueue ep) .relock (enterPhase cfg env ep e).1 (enterPhase cfg env ep e).2
      [] 0 := by
  have hq := Entering.enqueue_sound he hep
  cases e with
  | htc_try_send sendQueue pCallersSendQueue =>
    exact incProcessCount_advances (drains_drain cfg env) hq
  | htc_send_data_pkt pPacket more_data =>
    cases pPacket with
    | none => exact incProcessCount_advances (drains_dataPackets cfg env) hq
    | some p =>
      simp only [enterPhase, enterDataPkt]
      split
      · exact Advances.busy cfg hq
      · exact incProcessCount_advances (drains_dataPackets cfg env) hq

theorem enterPhase_count {e : Entering} (he : e.Sound) (hep : ep.Sound)
    (hn : 0 ≤ ep.TxProcessCount) :
    Counted ep.TxProcessCount (enterPhase cfg env ep e).1.TxProcessCount
      (enterPhase cfg env ep e).2.isSome := by
  have hq := Entering.enqueue_sound he hep
  obtain ⟨q, -, -, heq⟩ := Entering.enqueue_spec he hep
  have hcount : (e.enqueue ep).TxProcessCount = ep.TxProcessCount := by rw [heq]
  rw [← hcount] at hn ⊢
  cases e with
  | htc_try_send sendQueue pCallersSendQueue =>
    exact incProcessCount_count (drains_drain cfg env) hq hn
  | htc_send_data_pkt pPacket more_data =>
    cases pPacket with
    | none => exact incProcessCount_count (drains_dataPackets cfg env) hq hn
    | some p =>
      simp only [enterPhase, enterDataPkt]
      split
      · exact .inl ⟨rfl, rfl⟩
      · exact incProcessCount_count (drains_dataPackets cfg env) hq hn

theorem enqueue_count (e : Entering) (ep : Ep) :
    (e.enqueue ep).TxProcessCount = ep.TxProcessCount := by
  cases e with
  | htc_try_send sendQueue pCallersSendQueue =>
    simp only [Entering.enqueue]
    split <;> rfl
  | htc_send_data_pkt pPacket more_data => cases pPacket <;> rfl

theorem enterPhase_busy (e : Entering) (hn : 0 ≤ ep.TxProcessCount) :
    enterPhase cfg env ep e = (e.enqueue ep, none) ∨ ep.TxProcessCount = 0 := by
  have hcount := enqueue_count e ep
  have hinc : ∀ take, incProcessCount (e.enqueue ep) take = (e.enqueue ep, none) ∨
      ep.TxProcessCount = 0 := by
    intro take
    unfold incProcessCount
    split
    · exact .inl rfl
    · right; omega
  cases e with
  | htc_try_send sendQueue pCallersSendQueue => exact hinc _
  | htc_send_data_pkt pPacket more_data =>
    cases pPacket with
    | none => simp only [enterPhase, enterDataPkt]; exact hinc _
    | some p =>
      simp only [enterPhase, enterDataPkt]
      split
      · exact .inl rfl
      · exact hinc _

end Enter

/-! ## The state -/

/-- At most one thread drains TxQueue, `TxProcessCount` counts it, and every queue is sound. -/
structure Inv (s : St) : Prop where
  ep : s.ep.Sound
  entering : ∀ e ∈ s.entering, e.Sound
  drainers : ∀ d ∈ s.drainers, d.phase.Sound ∧ d.pCallersSendQueue.Sound
  leaving : ∀ q ∈ s.leaving, q.Sound
  count : s.ep.TxProcessCount = s.drainers.length
  one : s.drainers.length ≤ 1
  sending : ∀ d ∈ s.drainers, ∀ p q, d.phase = .sending p q → s.ep.Has p

def Entering.keys (e : Entering) : List Key := e.brings ++ Queue.keys e.callers

def Drainer.keys (d : Drainer) : List Key := d.phase.keys ++ Queue.keys d.pCallersSendQueue

/-- Where the packets are: in TxQueue, in TxLookupQueue or what a completion took of it (alone or in
a bundle's saved queue), with a thread, or back with their owners. -/
def St.places (s : St) : List Key :=
  Queue.keys s.ep.TxQueue ++ s.ep.lookupKeys ++ s.entering.flatMap Entering.keys ++
    s.drainers.flatMap Drainer.keys ++ s.leaving.flatMap Queue.keys ++ s.ep.completed

def St.order (s : St) : List Key :=
  s.ep.handed.map Packet.key ++ s.drainers.flatMap (·.phase.order) ++ Queue.keys s.ep.TxQueue

/-- The credits of the packets that threads have taken and not sent. -/
def St.inFlight (s : St) : Int := (s.drainers.map (·.phase.charge)).sum

def lostBy (cfg : Cfg) (s : St) : Op → Option Packet
  | .advance i env => (s.drainers[i]?).bind fun d => lostPacket cfg env d.phase
  | _ => none

def leakedBy (cfg : Cfg) (s : St) : Op → Int
  | .advance i env =>
    match s.drainers[i]? with
    | none => 0
    | some d => leak cfg env d.fn d.phase
  | _ => 0

/-- What a step does to the packets, the credits and the order. -/
structure Effect (cfg : Cfg) (s s' : St) (lost : List Key) (leaked : Int) : Prop where
  inv : Inv s'
  places : ∀ k, s'.places.count k + lost.count k + s.ep.accepted.count k =
    s.places.count k + s'.ep.accepted.count k
  credits :
    s'.ep.TxCredits + s'.inFlight + creditSum s'.ep.handed - s'.ep.reported + leaked =
      s.ep.TxCredits + s.inFlight + creditSum s.ep.handed - s.ep.reported
  nonneg : 0 ≤ s.ep.TxCredits → 0 ≤ s'.ep.TxCredits
  order : ∃ new, s'.ep.entered = s.ep.entered ++ new ∧
    ∀ b : Bool, (s'.order.filter (ahead cfg · == b)).Sublist
      ((s.order ++ new).filter (ahead cfg · == b))

theorem init_inv (TxCredits : Int) : Inv (St.init TxCredits) where
  ep := ⟨DepthQueue.sound_init, nofun⟩
  entering := nofun
  drainers := nofun
  leaving := nofun
  count := rfl
  one := Nat.zero_le 1
  sending := nofun

section Step

variable {cfg : Cfg} {s s' : St}

variable {i : Nat}

theorem count_flatMap_eraseIdx {α : Type} {f : α → List Key} {l : List α} {a : α}
    (h : l[i]? = some a) (k : Key) :
    (f a).count k + ((l.eraseIdx i).flatMap f).count k = (l.flatMap f).count k := by
  obtain ⟨hi, rfl⟩ := List.getElem?_eq_some_iff.mp h
  have hperm := (getElem_cons_eraseIdx_perm hi).flatMap_right f
  have := hperm.count_eq k
  rw [flatMap_cons, count_append] at this; exact this

theorem Inv.drainers_eq (hs : Inv s) {d : Drainer} (h : s.drainers[i]? = some d) :
    s.drainers = [d] ∧ i = 0 := by
  obtain ⟨hi, hd⟩ := List.getElem?_eq_some_iff.mp h
  have hlen := hs.one
  have hi0 : i = 0 := by omega
  subst hi0
  match hl : s.drainers, hlen with
  | [e], _ => simp only [hl, getElem_cons_zero] at hd; exact ⟨by rw [hd], rfl⟩
  | [], _ => simp [hl] at hi

theorem checkOverflow_spec (cfg : Cfg) (full : Packet → Bool) (TxQueue : Queue)
    (pkts : List Packet) :
    (checkOverflow cfg full TxQueue pkts).1.Sound ∧
      (checkOverflow cfg full TxQueue pkts).2.Sound ∧
      ∀ k, (Queue.keys (checkOverflow cfg full TxQueue pkts).1).count k +
        (Queue.keys (checkOverflow cfg full TxQueue pkts).2).count k =
          (pkts.map Packet.key).count k := by
  unfold checkOverflow
  extract_lets depth overflow goodPkts good kept
  split
  · exact ⟨rfl, rfl, fun k => by simp [Queue.keys]⟩
  · rename_i hover
    have hgood : goodPkts ≤ pkts.length := by
      simp only [Bool.or_eq_true, decide_eq_true_iff, not_or] at hover
      omega
    have hfilter : ((pkts.drop goodPkts).filter full).length +
        ((pkts.drop goodPkts).filter (!full ·)).length = pkts.length - goodPkts := by
      rw [← length_eq_length_filter_add, length_drop]
    refine ⟨?_, ?_, ?_⟩
    -- the depths are those of the two lists, since the handler sorts what overflows in two
    · show (goodPkts : Int) + kept.length = ((good ++ kept).length : Nat)
      rw [length_append, length_take]; omega
    · show depth - goodPkts - kept.length = (((pkts.drop goodPkts).filter full).length : Nat)
      have hkept : kept.length = ((pkts.drop goodPkts).filter (!full ·)).length := rfl
      omega
    · intro k
      have hperm : ((pkts.drop goodPkts).filter full ++ (pkts.drop goodPkts).filter (!full ·)).Perm
          (pkts.drop goodPkts) := filter_append_perm full _
      have hcount := (hperm.map Packet.key).count_eq k
      have hsplit : (pkts.map Packet.key).count k =
          (good.map Packet.key).count k + ((pkts.drop goodPkts).map Packet.key).count k := by
        rw [← count_append, ← map_append, take_append_drop]
      have hkept : kept = (pkts.drop goodPkts).filter (!full ·) := rfl
      rw [map_append, count_append] at hcount
      simp only [Queue.keys, map_append, count_append]
      rw [hsplit, ← hcount, hkept]; omega

/-- Callers bring packets: to threads that are about to enter or, if none of a caller's
packets fits, to one that leaves. -/
theorem Inv.submit (hs : Inv s) {new : List Key} {es : List Entering} {ls : List Queue}
    (hes : ∀ e ∈ es, e.Sound) (hls : ∀ q ∈ ls, q.Sound)
    (hnew : ∀ k, (es.flatMap Entering.keys).count k + (ls.flatMap Queue.keys).count k =
      new.count k) :
    Effect cfg s { s with
        ep := { s.ep with accepted := s.ep.accepted ++ new }
        entering := s.entering ++ es
        leaving := s.leaving ++ ls } [] 0 where
  inv :=
    { ep := ⟨hs.ep.txq, hs.ep.saved⟩
      entering := by
        intro e he
        rcases mem_append.mp he with he | he
        · exact hs.entering e he
        · exact hes e he
      drainers := hs.drainers
      leaving := by
        intro q hq
        rcases mem_append.mp hq with hq | hq
        · exact hs.leaving q hq
        · exact hls q hq
      count := hs.count
      one := hs.one
      sending := hs.sending }
  places := by
    intro k
    have := hnew k
    simp only [St.places, Ep.lookupKeys, Ep.entries, flatMap_append, count_append, count_nil]
    omega
  credits := by rw [Int.add_zero]; rfl
  nonneg := id
  order := ⟨[], by simp, fun b => by simp [St.order]⟩

theorem Inv.enterBusy (hs : Inv s) {e : Entering} (he : s.entering[i]? = some e) :
    Effect cfg s { s with
        ep := e.enqueue s.ep
        entering := s.entering.eraseIdx i
        leaving := s.leaving ++ [e.callers] } [] 0 := by
  have hesound := hs.entering e (mem_of_getElem? he)
  obtain ⟨q, hq, hkeys, heq⟩ := Entering.enqueue_spec hesound hs.ep
  rw [heq]
  exact
    { inv :=
        { ep := ⟨hq, hs.ep.saved⟩
          entering := fun f hf => hs.entering f (mem_of_mem_eraseIdx hf)
          drainers := hs.drainers
          leaving := by
            intro r hr
            rcases mem_append.mp hr with hr | hr
            · exact hs.leaving r hr
            · rw [mem_singleton.mp hr]; exact hesound.callers
          count := hs.count
          one := hs.one
          sending := hs.sending }
      places := by
        intro k
        -- the packets it brings are behind TxQueue now, the others of its caller leave with it
        have herase := count_flatMap_eraseIdx (f := Entering.keys) he k
        rw [Entering.keys, count_append] at herase
        simp only [St.places, Ep.lookupKeys, Ep.entries, hkeys, flatMap_append, flatMap_singleton,
          count_append, count_nil]
        omega
      credits := by rw [Int.add_zero]; rfl
      nonneg := id
      order := by
        refine ⟨e.brings, rfl, fun b => ?_⟩
        simp only [St.order, hkeys, append_assoc]
        exact Sublist.refl _ }

theorem Effect.trans {t : St} {l m : List Key} {x y : Int} (h : Effect cfg s t l x)
    (h' : Effect cfg t s' m y) : Effect cfg s s' (l ++ m) (x + y) where
  inv := h'.inv
  places := by
    intro k
    have h₁ := h.places k
    have h₂ := h'.places k
    rw [count_append]; omega
  credits := by
    have h₁ := h.credits
    have h₂ := h'.credits
    omega
  nonneg := fun hc => h'.nonneg (h.nonneg hc)
  order := by
    obtain ⟨new, hnew, hsub⟩ := h.order
    obtain ⟨new', hnew', hsub'⟩ := h'.order
    refine ⟨new ++ new', by rw [hnew', hnew, append_assoc], fun b => ?_⟩
    refine (hsub' b).trans ?_
    rw [← append_assoc, filter_append, filter_append]; exact (hsub b).append_right _

def St.moved (s : St) (d : Drainer) (ep : Ep) : Option Phase → St
  | some ph => { s with ep := ep, drainers := [{ d with phase := ph }] }
  | none => { s with ep := ep, drainers := [], leaving := s.leaving ++ [d.pCallersSendQueue] }

theorem Advances.effect {d : Drainer} {ep' : Ep} {phase' : Option Phase} {lost : List Key}
    {leaked : Int} (hs : Inv s) (hd : s.drainers = [d])
    (h : Advances cfg s.ep d.phase ep' phase' lost leaked)
    (hcount : ep'.TxProcessCount = if phase'.isSome then 1 else 0) :
    Effect cfg s (s.moved d ep' phase') lost leaked := by
  have hdmem : d ∈ s.drainers := by simp [hd]
  cases phase' with
  | none =>
    exact
      { inv :=
          { ep := h.sound
            entering := hs.entering
            drainers := by simp [St.moved]
            leaving := by
              intro r hr
              rcases mem_append.mp hr with hr | hr
              · exact hs.leaving r hr
              · rw [mem_singleton.mp hr]; exact (hs.drainers d hdmem).2
            count := hcount
            one := Nat.zero_le 1
            sending := by simp [St.moved] }
        places := by
          intro k
          have hk := h.keys k
          simp only [map_none, getD_none, count_nil] at hk
          simp only [St.places, St.moved, h.accepted, h.completed, hd, flatMap_append,
            flatMap_singleton, flatMap_nil, Drainer.keys, count_append,
            count_nil]
          omega
        credits := by
          have hc := h.credits
          simp only [map_none, getD_none] at hc
          simp only [St.inFlight, St.moved, h.reported, hd, map_cons, map_nil, sum_cons, sum_nil]
          omega
        nonneg := h.nonneg
        order := by
          refine ⟨[], by simpa [St.moved] using h.entered, fun b => ?_⟩
          have ho := h.order b
          simpa [St.order, St.moved, hd] using ho }
  | some ph =>
    exact
      { inv :=
          { ep := h.sound
            entering := hs.entering
            drainers := by
              intro f hf
              rw [mem_singleton.mp hf]; exact ⟨h.phase_sound ph rfl, (hs.drainers d hdmem).2⟩
            leaving := hs.leaving
            count := hcount
            one := Nat.le_refl 1
            sending := by
              intro f hf p q hp
              rw [mem_singleton.mp hf] at hp; exact h.sending p q (congrArg some hp) }
        places := by
          intro k
          have hk := h.keys k
          simp only [map_some, getD_some] at hk
          simp only [St.places, St.moved, h.accepted, h.completed, hd, flatMap_singleton,
            Drainer.keys, count_append]
          omega
        credits := by
          have hc := h.credits
          simp only [map_some, getD_some] at hc
          simp only [St.inFlight, St.moved, h.reported, hd, map_cons, map_nil, sum_cons, sum_nil]
          omega
        nonneg := h.nonneg
        order := by
          refine ⟨[], by simpa [St.moved] using h.entered, fun b => ?_⟩
          have ho := h.order b
          simpa [St.order, St.moved, hd] using ho }

def St.entered (s : St) (i : Nat) (e : Entering) : St :=
  { s with
    ep := { e.enqueue s.ep with TxProcessCount := 1 }
    entering := s.entering.eraseIdx i
    drainers := [⟨e.fn, e.callers, .relock⟩] }

theorem Inv.entered (hs : Inv s) {e : Entering} (he : s.entering[i]? = some e)
    (hfree : s.drainers = []) : Effect cfg s (s.entered i e) [] 0 := by
  have hesound := hs.entering e (mem_of_getElem? he)
  obtain ⟨q, hq, hkeys, heq⟩ := Entering.enqueue_spec hesound hs.ep
  unfold St.entered
  rw [heq]
  exact
    { inv :=
        { ep := ⟨hq, hs.ep.saved⟩
          entering := fun f hf => hs.entering f (mem_of_mem_eraseIdx hf)
          drainers := by
            intro f hf
            rw [mem_singleton.mp hf]; exact ⟨trivial, hesound.callers⟩
          leaving := hs.leaving
          count := rfl
          one := Nat.le_refl 1
          sending := by
            intro f hf p q hp
            rw [mem_singleton.mp hf] at hp
            cases hp }
      places := by
        intro k
        have herase := count_flatMap_eraseIdx (f := Entering.keys) he k
        rw [Entering.keys, count_append] at herase
        simp only [St.places, Ep.lookupKeys, Ep.entries, hkeys, hfree, flatMap_singleton,
          flatMap_nil, Drainer.keys,
          Phase.relock_keys, count_append, count_nil]
        omega
      credits := by simp [St.inFlight, hfree]
      nonneg := id
      order := by refine ⟨e.brings, rfl, fun b => ?_⟩; simp [St.order, hkeys, hfree] }

theorem Inv.enter (hs : Inv s) {env : Env} {e : Entering} (he : s.entering[i]? = some e)
    (h : step cfg s (.enter i env) = some s') : Effect cfg s s' [] 0 := by
  have hesound := hs.entering e (mem_of_getElem? he)
  have hn : 0 ≤ s.ep.TxProcessCount := by rw [hs.count]; exact Int.natCast_nonneg _
  simp only [step, he, map_some, enter_eq, some.injEq] at h
  rcases @enterPhase_busy cfg env s.ep e hn with hbusy | hfree
  · rw [hbusy] at h
    subst h; exact hs.enterBusy he
  · have hdrainers : s.drainers = [] := by
      have := hs.count
      exact length_eq_zero_iff.mp (by omega)
    -- the lock section is taken apart: the packets and the increment, then what is taken
    have hent : Effect cfg s (s.entered i e) [] 0 := hs.entered he hdrainers
    have hadv := Advances.count_iff (n := 1) |>.mpr
      (@enterPhase_advances cfg env s.ep e hesound hs.ep)
    have hcount := @enterPhase_count cfg env s.ep e hesound hs.ep hn
    have heff := Advances.effect (s := s.entered i e) hent.inv rfl hadv (by
      rcases hcount with ⟨hb, hc⟩ | ⟨hb, -, hc⟩
      · rw [hb, hc, hfree]; rfl
      · rw [hb, hc]; rfl)
    have hs' : s' = (s.entered i e).moved ⟨e.fn, e.callers, .relock⟩
        (enterPhase cfg env s.ep e).1 (enterPhase cfg env s.ep e).2 := by
      rw [← h]
      cases (enterPhase cfg env s.ep e).2 with
      | none => simp [St.moved, St.entered, hdrainers]
      | some ph => simp [St.moved, St.entered, hdrainers]
    rw [hs']; exact hent.trans heff

theorem Inv.advance (hs : Inv s) {env : Env} {d : Drainer} (hd : s.drainers[i]? = some d)
    (h : step cfg s (.advance i env) = some s') :
    Effect cfg s s' ((lostPacket cfg env d.phase).toList.map Packet.key)
      (leak cfg env d.fn d.phase) := by
  obtain ⟨hdrainers, rfl⟩ := hs.drainers_eq hd
  have hdmem : d ∈ s.drainers := by simp [hdrainers]
  have hadv := @advance_advances cfg env d.fn s.ep d.phase hs.ep (hs.drainers d hdmem).1
    (hs.sending d hdmem)
  have hcount := @advance_count cfg env d.fn s.ep d.phase hs.ep
  have hone : s.ep.TxProcessCount = 1 := by rw [hs.count, hdrainers]; rfl
  rw [hone] at hcount
  have heff := hadv.effect hs hdrainers hcount
  have hs' : s' = s.moved d (HtcTx.advance cfg env d.fn s.ep d.phase).1
      (HtcTx.advance cfg env d.fn s.ep d.phase).2 := by
    simp only [step, hd, map_some, some.injEq] at h
    rw [← h]
    cases hph : HtcTx.advance cfg env d.fn s.ep d.phase with
    | mk ep' phase' =>
      cases phase' with
      | none => simp [St.moved, hdrainers]
      | some ph => simp [St.moved, hdrainers]
  rw [hs']; exact heff

theorem Inv.leave (hs : Inv s) {q : Queue} (hq : s.leaving[i]? = some q) :
    Effect cfg s { s with
        ep := { s.ep with completed := s.ep.completed ++ Queue.keys q }
        leaving := s.leaving.eraseIdx i } [] 0 where
  inv :=
    { ep := ⟨hs.ep.txq, hs.ep.saved⟩
      entering := hs.entering
      drainers := hs.drainers
      leaving := fun r hr => hs.leaving r (mem_of_mem_eraseIdx hr)
      count := hs.count
      one := hs.one
      sending := hs.sending }
  places := by
    intro k
    have herase := count_flatMap_eraseIdx (f := Queue.keys) hq k
    simp only [St.places, Ep.lookupKeys, Ep.entries, count_append, count_nil]
    omega
  credits := by rw [Int.add_zero]; rfl
  nonneg := id
  order := ⟨[], by simp, fun b => by simp [St.order]⟩

theorem kick_sound {l : List Entering} (hl : ∀ e ∈ l, e.Sound) (b : Bool) :
    ∀ e ∈ (if b then l ++ [.htc_try_send .init .init] else l), e.Sound := by
  intro e he
  split at he
  · rcases mem_append.mp he with he | he
    · exact hl e he
    · rw [mem_singleton.mp he]; exact ⟨DepthQueue.sound_init, DepthQueue.sound_init⟩
  · exact hl e he

theorem kick_keys (l : List Entering) (b : Bool) :
    (if b then l ++ [.htc_try_send .init .init] else l).flatMap Entering.keys =
      l.flatMap Entering.keys := by
  split
  · simp [Entering.keys, Entering.brings, Entering.callers]
  · rfl

/-! ### Completions -/

/-- The entries of `ep` are those of `ep'` and the one that a completion took out. -/
def Took (entry : Option Entry) (ep ep' : Ep) : Prop :=
  (entry.toList ++ ep'.entries).Perm ep.entries

/-- A completion takes an entry out, if it finds one, and gives its packets back to their owners;
the packets that a thread is sending stay. -/
theorem Inv.took (hs : Inv s) {ep' : Ep} {entry : Option Entry} {entering : List Entering}
    (htook : Took entry s.ep ep') (hframe : ep' = { s.ep with
      TxLookupQueue := ep'.TxLookupQueue
      lookups := ep'.lookups
      completed := s.ep.completed ++ (entry.map Entry.keys).getD []
      indicated := ep'.indicated
      found := ep'.found })
    (hent : ∀ e ∈ entering, e.Sound)
    (hkeys : entering.flatMap Entering.keys = s.entering.flatMap Entering.keys)
    (hsend : ∀ d ∈ s.drainers, ∀ p q, d.phase = .sending p q → ep'.Has p) :
    Effect cfg s { s with ep := ep', entering := entering } [] 0 := by
  have hcount : ∀ k, ep'.lookupKeys.count k + ((entry.map Entry.keys).getD []).count k =
      s.ep.lookupKeys.count k := by
    intro k
    have hperm := (htook.flatMap_right Entry.keys).count_eq k
    rw [flatMap_append, count_append] at hperm
    cases entry with
    | none => rw [toList_none, flatMap_nil, count_nil, Nat.zero_add] at hperm; exact hperm
    | some e =>
      rw [toList_some, flatMap_singleton] at hperm; exact (Nat.add_comm _ _).trans hperm
  have hsaved : ∀ e ∈ ep'.entries, e.Sound := fun e he =>
    hs.ep.saved e (htook.mem_iff.mp (mem_append_right _ he))
  have hcompleted : ep'.completed = s.ep.completed ++ (entry.map Entry.keys).getD [] := by
    rw [hframe]
  have hsame : ep'.TxQueue = s.ep.TxQueue ∧ ep'.TxCredits = s.ep.TxCredits ∧
      ep'.TxProcessCount = s.ep.TxProcessCount ∧ ep'.accepted = s.ep.accepted ∧
      ep'.entered = s.ep.entered ∧ ep'.handed = s.ep.handed ∧ ep'.reported = s.ep.reported := by
    rw [hframe]; exact ⟨rfl, rfl, rfl, rfl, rfl, rfl, rfl⟩
  obtain ⟨htxq, hcredits, hpc, hacc, hentered, hhanded, hreported⟩ := hsame
  exact
    { inv :=
        { ep := ⟨htxq ▸ hs.ep.txq, hsaved⟩
          entering := hent
          drainers := hs.drainers
          leaving := hs.leaving
          count := hpc.trans hs.count
          one := hs.one
          sending := hsend }
      places := by
        intro k
        have := hcount k
        simp only [St.places, htxq, hkeys, hcompleted, hacc, count_append, count_nil]
        omega
      credits := by simp only [St.inFlight, hcredits, hhanded, hreported]; omega
      nonneg := fun hc => hcredits ▸ hc
      order := ⟨[], by simp [hentered], fun b => by simp [St.order, htxq, hhanded]⟩ }

/-- The entry that was taken out is counted among those that completions were about to take. -/
theorem Ep.Has.took {ep ep' : Ep} {entry : Option Entry} {p : Packet} (h : ep.Has p)
    (htook : Took entry ep ep')
    (hle : ep'.lookups.countP (·.found = some (.single p)) + entry.toList.count (.single p) ≤
      ep.lookups.countP (·.found = some (.single p))) : ep'.Has p := by
  have hcount := htook.count_eq (Entry.single p)
  rw [count_append] at hcount
  unfold Ep.Has at h ⊢
  omega

/-- HIF completes no send that it has not taken. -/
theorem netbuf_ne_of_sending {netbuf : Netbuf}
    (h : ¬ s.drainers.any (·.isSending netbuf) = true) {d : Drainer} (hd : d ∈ s.drainers)
    {p : Packet} {q : Queue} (hp : d.phase = .sending p q) : .packet p.id ≠ netbuf := by
  intro hnet
  refine h (any_eq_true.mpr ⟨d, hd, ?_⟩)
  rw [Drainer.isSending, hp]; exact decide_eq_true hnet

theorem Lookup.found_netbuf {l : Lookup} {e : Entry} (h : l.found = some e) :
    e.netbuf = l.netbuf := by unfold Lookup.found at h; simpa using find?_some h

theorem Inv.completion (hs : Inv s) {netbuf : Netbuf}
    (h : step cfg s (.htc_tx_completion_handler netbuf) = some s') : Effect cfg s s' [] 0 := by
  simp only [step] at h
  split at h
  · cases h
  · rename_i hnone
    cases h
    unfold htc_tx_completion_handler htc_lookup_tx_packet
    cases hdeq : (s.ep.indicate netbuf).TxLookupQueue.dequeue with
    | none =>
      have htook : Took none s.ep (s.ep.indicate netbuf) := Perm.refl _
      exact hs.took htook (by simp [Ep.indicate]) (kick_sound hs.entering _) (kick_keys _ _)
        hs.sending
    | some r =>
      obtain ⟨e, rest⟩ := r
      have hitems : s.ep.TxLookupQueue.items = e :: rest.items := DepthQueue.dequeue_eq_some hdeq
      by_cases hnet : e.netbuf = netbuf
      · -- the first packet is the one
        simp only [if_pos hnet]
        have htook : Took (some e) s.ep
            { s.ep.indicate netbuf with
              TxLookupQueue := rest
              completed := s.ep.completed ++ e.keys
              found := s.ep.found ++ [netbuf] } := by
          simp [Took, Ep.entries, Ep.indicate, hitems]
        refine hs.took htook (by simp [Ep.indicate]) (kick_sound hs.entering _) (kick_keys _ _)
          fun d hd p q hp => (hs.sending d hd p q hp).took htook ?_
        have hne : Entry.single p ∉ [e] := by
          rw [mem_singleton]
          rintro rfl; exact netbuf_ne_of_sending hnone hd hp hnet
        rw [toList_some, count_eq_zero_of_not_mem hne]; exact Nat.le_refl _
      · -- the thread takes the queue with all its packets
        simp only [if_neg hnet]
        have htook : Took none s.ep
            { s.ep.indicate netbuf with
              TxLookupQueue := .init
              lookups := s.ep.lookups ++
                [⟨netbuf, (DepthQueue.init.enqueue e).transferToTail rest⟩] } := by
          simp only [Took, Ep.entries, hitems, toList_none, nil_append,
            DepthQueue.init_items, flatMap_append, flatMap_singleton,
            DepthQueue.transferToTail_items, DepthQueue.enqueue_items]
          exact perm_append_comm
        refine hs.took htook (by simp [Ep.indicate]) hs.entering rfl
          fun d hd p q hp => (hs.sending d hd p q hp).took htook ?_
        have hne : ¬ (Lookup.mk netbuf ((DepthQueue.init.enqueue e).transferToTail rest)).found =
            some (.single p) := fun hf =>
          netbuf_ne_of_sending hnone hd hp (Lookup.found_netbuf hf)
        simp [Ep.indicate, countP_append, hne]

/-- What a search leaves of its queue. -/
theorem rest_perm (l : Lookup) : (l.found.toList ++ l.rest.items).Perm l.lookupQueue.items := by
  unfold Lookup.rest
  cases hf : l.found with
  | none => exact Perm.refl _
  | some e => exact (perm_cons_erase (mem_of_find?_eq_some hf)).symm

theorem Inv.endLookup (hs : Inv s) {l : Lookup} (hl : s.ep.lookups[i]? = some l) :
    Effect cfg s (HtcTx.endLookup cfg i l s) [] 0 := by
  obtain ⟨hi, rfl⟩ := List.getElem?_eq_some_iff.mp hl
  have hperm := getElem_cons_eraseIdx_perm hi
  have hitems := hperm.flatMap_right (·.lookupQueue.items)
  have htook : Took s.ep.lookups[i].found s.ep
      { s.ep with
        TxLookupQueue := s.ep.TxLookupQueue.transferToHead s.ep.lookups[i].rest
        lookups := s.ep.lookups.eraseIdx i } := by
    simp only [Took, Ep.entries, DepthQueue.transferToHead_items]
    rw [append_assoc, ← append_assoc]
    refine ((rest_perm _).append_right _).trans ?_
    refine perm_append_comm_assoc _ _ _ |>.trans ?_
    exact hitems.append_left _
  refine hs.took htook (by simp) (kick_sound hs.entering _) (kick_keys _ _)
    fun d hd p q hp => (hs.sending d hd p q hp).took htook ?_
  have hcount := hperm.countP_eq (·.found = some (Entry.single p))
  rw [countP_cons] at hcount
  rw [← hcount]
  refine Nat.add_le_add_left ?_ _
  cases hf : s.ep.lookups[i].found with
  | none => exact Nat.zero_le _
  | some e =>
    by_cases he : e = .single p
    · simp [he]
    · simp [he]

theorem Inv.credit_rpt (hs : Inv s) (credits : Nat) :
    Effect cfg s (htc_process_credit_rpt cfg credits s) [] 0 := by
  have hep : Ep.Sound { s.ep with
      TxCredits := s.ep.TxCredits + credits
      reported := s.ep.reported + credits } := ⟨hs.ep.txq, hs.ep.saved⟩
  have hall : ∀ es : List Entering, (∀ e ∈ es, e.Sound) → es.flatMap Entering.keys = [] →
      Effect cfg s
        { s with
          ep := { s.ep with
            TxCredits := s.ep.TxCredits + credits
            reported := s.ep.reported + credits }
          entering := s.entering ++ es } [] 0 := by
    intro es hes hkeys
    exact
      { inv :=
          { ep := hep
            entering := by
              intro e he
              rcases mem_append.mp he with he | he
              · exact hs.entering e he
              · exact hes e he
            drainers := hs.drainers
            leaving := hs.leaving
            count := hs.count
            one := hs.one
            sending := hs.sending }
        places := by intro k; simp [St.places, hkeys, Ep.lookupKeys, Ep.entries]
        credits := by simp only [St.inFlight]; omega
        nonneg := by
          intro hc
          show 0 ≤ s.ep.TxCredits + (credits : Int)
          omega
        order := ⟨[], by simp, fun b => by simp [St.order]⟩ }
  unfold htc_process_credit_rpt
  dsimp only
  split
  · split
    · exact hall [.htc_send_data_pkt none false] (by simp [Entering.Sound])
        (by simp [Entering.keys, Entering.brings, Entering.callers])
    · refine hall [.htc_try_send .init .init] ?_
        (by simp [Entering.keys, Entering.brings, Entering.callers])
      intro e he
      rw [mem_singleton.mp he]; exact ⟨DepthQueue.sound_init, DepthQueue.sound_init⟩
  · have := hall [] (by simp) rfl; rwa [append_nil] at this

/-! ### The searches of completions -/

/-- Nothing happens to what completions have taken, and the depth of TxLookupQueue stays right. -/
structure LookupsKept (ep ep' : Ep) : Prop where
  lookups : ep'.lookups = ep.lookups
  indicated : ep'.indicated = ep.indicated
  found : ep'.found = ep.found
  depth : ep.TxLookupQueue.Sound → ep'.TxLookupQueue.Sound

theorem LookupsKept.refl (ep : Ep) : LookupsKept ep ep := ⟨rfl, rfl, rfl, id⟩

theorem step_enter {env : Env} {e : Entering} (he : s.entering[i]? = some e)
    (h : step cfg s (.enter i env) = some s') :
    s'.ep = (enterPhase cfg env s.ep e).1 ∧ s'.entering = s.entering.eraseIdx i ∧
      s'.drainers = s.drainers ++
        ((enterPhase cfg env s.ep e).2.map fun phase => ⟨e.fn, e.callers, phase⟩).toList := by
  simp only [step, he, map_some, some.injEq, enter_eq] at h
  rw [← h]
  cases (enterPhase cfg env s.ep e).2 with
  | none => exact ⟨rfl, rfl, (append_nil _).symm⟩
  | some phase => exact ⟨rfl, rfl, rfl⟩

theorem step_advance {env : Env} {d : Drainer} (hs : Inv s) (hd : s.drainers[i]? = some d)
    (h : step cfg s (.advance i env) = some s') :
    s'.ep = (HtcTx.advance cfg env d.fn s.ep d.phase).1 ∧ s'.entering = s.entering ∧
      s'.drainers = ((HtcTx.advance cfg env d.fn s.ep d.phase).2.map
        fun phase => ⟨d.fn, d.pCallersSendQueue, phase⟩).toList := by
  obtain ⟨hone, rfl⟩ := hs.drainers_eq hd
  simp only [step, hd, map_some, some.injEq] at h
  rw [← h]
  cases HtcTx.advance cfg env d.fn s.ep d.phase with
  | mk ep' phase' =>
    cases phase' with
    | none => exact ⟨rfl, rfl, by simp [hone]⟩
    | some phase => exact ⟨rfl, rfl, by simp [hone]⟩

/-- **What a step does**, whatever the packets, the lengths, HIF and the other threads. -/
theorem step_effect {op : Op} (hs : Inv s) (h : step cfg s op = some s') :
    Effect cfg s s' ((lostBy cfg s op).toList.map Packet.key) (leakedBy cfg s op) := by
  cases op with
  | htc_send_pkts_multiple pkts full =>
    simp only [step] at h
    split at h
    · cases h
      have := @Inv.submit cfg s hs [] [] [] (by simp) (by simp) (by simp)
      simp only [append_nil] at this
      exact this
    · obtain ⟨hsend, hcallers, hkeys⟩ := checkOverflow_spec cfg full s.ep.TxQueue pkts
      split at h
      · rename_i h0
        cases h
        have hnil : Queue.keys (checkOverflow cfg full s.ep.TxQueue pkts).1 = [] := by
          rw [Queue.keys, hsend.depth_eq_zero.mp h0, map_nil]
        have := @Inv.submit cfg s hs (pkts.map Packet.key) []
          [(checkOverflow cfg full s.ep.TxQueue pkts).2] (by simp) (by simpa using hcallers)
          (by
            intro k
            rw [← hkeys k, hnil]; simp)
        simp only [append_nil] at this
        exact this
      · cases h
        have := @Inv.submit cfg s hs (pkts.map Packet.key)
          [.htc_try_send (checkOverflow cfg full s.ep.TxQueue pkts).1
            (checkOverflow cfg full s.ep.TxQueue pkts).2] []
          (by simpa [Entering.Sound] using ⟨hsend, hcallers⟩) (by simp)
          (by
            intro k
            rw [← hkeys k]; simp [Entering.keys, Entering.brings, Entering.callers])
        simp only [append_nil] at this
        exact this
  | htc_try_send =>
    cases h
    have := @Inv.submit cfg s hs [] [.htc_try_send .init .init] []
      (by
        intro e he
        rw [mem_singleton.mp he]
        exact ⟨DepthQueue.sound_init, DepthQueue.sound_init⟩) (by simp)
      (by simp [Entering.keys, Entering.brings, Entering.callers])
    simp only [append_nil] at this
    exact this
  | htc_send_data_pkt pPacket more_data =>
    simp only [step] at h
    split at h
    · cases h
    · cases h
      have := @Inv.submit cfg s hs [pPacket.key] [.htc_send_data_pkt (some pPacket) more_data] []
        (by simp [Entering.Sound]) (by simp)
        (by simp [Entering.keys, Entering.brings, Entering.callers])
      simp only [append_nil] at this
      exact this
  | enter i env =>
    cases he : s.entering[i]? with
    | none => simp [step, he] at h
    | some e => exact hs.enter he h
  | advance i env =>
    cases hd : s.drainers[i]? with
    | none => simp [step, hd] at h
    | some d => have := hs.advance hd h; simpa [lostBy, leakedBy, hd] using this
  | leave i =>
    cases hq : s.leaving[i]? with
    | none => simp [step, hq] at h
    | some q =>
      simp only [step, hq, map_some, some.injEq] at h
      rw [← h]; exact hs.leave hq
  | htc_tx_completion_handler netbuf => exact hs.completion h
  | endLookup i =>
    cases hl : s.ep.lookups[i]? with
    | none => simp [step, hl] at h
    | some l =>
      simp only [step, hl, map_some, some.injEq] at h
      rw [← h]; exact hs.endLookup hl
  | htc_process_credit_rpt credits => cases h; exact hs.credit_rpt credits

end Step

end Qcacld.HtcTx
