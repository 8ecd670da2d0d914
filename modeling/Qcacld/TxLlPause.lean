/-
The pause queues of the LL tx path: `ol_tx_vdev_pause_queue_append`, `ol_tx_ll_queue`,
`ol_tx_vdev_ll_pause_queue_send_base`, `ol_tx_vdev_ll_pause_queue_send` and
`ol_tx_pdev_ll_pause_queue_send_all` in `ol_tx.c`, with `ol_txrx_vdev_pause` and
`ol_txrx_vdev_unpause` in `ol_tx_queue.c`.

Frames are of an arbitrary type, and so are vdevs; the memory of the `next` pointers is a function,
and `none` is NULL. `arrived` and `left` are no data of the driver: they record, for each vdev, the
frames that were put into its queue and those that were taken off it to be sent, in order.
-/
import Qcacld.Lib.Chain
import Qcacld.Lib.RoundRobin
import Qcacld.Lib.Places

set_option autoImplicit false

namespace Qcacld.TxLlPause

open Function

section

section

/-- The room that is left for the frames of other vdevs. -/
def OL_TX_VDEV_PAUSE_QUEUE_SEND_MARGIN : Int := 400

def OL_TXQ_PAUSE_REASON_PEER_UNAUTHORIZED : UInt32 := 2

def ETHERTYPE_PAE : UInt16 := 0x888e

def ETHERTYPE_WAI : UInt16 := 0x88b4

def isEapolWapi (typeorlen : UInt16) : Bool :=
  typeorlen == ETHERTYPE_PAE || typeorlen == ETHERTYPE_WAI

inductive ThrottleLevel where
  | level0
  | level1
  | level2
  | level3
deriving DecidableEq

inductive ThrottlePhase where
  | off
  | on
deriving DecidableEq

/-- `tx_throttle` of the pdev. -/
structure TxThrottle where
  current_throttle_level : ThrottleLevel
  current_throttle_phase : ThrottlePhase
  tx_threshold : UInt32

structure Txq (φ : Type) where
  head : Option φ
  tail : Option φ
  depth : Int

/-- `ll_pause` of a vdev. -/
structure LlPause (φ : Type) where
  txq : Txq φ
  paused_reason : UInt32
  max_q_depth : Nat
  is_q_timer_on : Bool
  q_overflow_cnt : UInt32

structure St (ι φ : Type) where
  next : φ → Option φ
  ll_pause : ι → LlPause φ
  vdev_list : List ι
  tx_throttle : TxThrottle
  /-- Whether `tx_throttle.tx_timer` has been started. -/
  tx_timer : Bool
  arrived : ι → List φ
  /-- With each frame, whether it was accepted; it was freed otherwise. -/
  left : ι → List (φ × Bool)

structure TxDesc where
  pool_size : Nat
  num_free : Nat

def TxDesc.inUse (d : TxDesc) : Nat := d.pool_size - d.num_free

/-- What a call finds: the descriptors, the bytes of the ethertype of a frame, and the next stage,
which returns the frames of a list that it rejects. -/
structure Env (φ : Type) where
  tx_desc : TxDesc
  ethertype : φ → UInt8 × UInt8
  ol_tx_ll_wrapper : Option φ → Option φ

variable {ι φ : Type} [DecidableEq ι] [DecidableEq φ]

namespace St

omit [DecidableEq ι] [DecidableEq φ] in
def txq (s : St ι φ) (v : ι) : Txq φ := (s.ll_pause v).txq

def setTxq (s : St ι φ) (v : ι) (q : Txq φ) : St ι φ :=
  { s with ll_pause := update s.ll_pause v { s.ll_pause v with txq := q } }

/-- `cdf_softirq_timer_start` of the timer of a vdev. -/
def startTimer (s : St ι φ) (v : ι) : St ι φ :=
  { s with ll_pause := update s.ll_pause v { s.ll_pause v with is_q_timer_on := true } }

def setPausedReason (s : St ι φ) (v : ι) (r : UInt32) : St ι φ :=
  { s with ll_pause := update s.ll_pause v { s.ll_pause v with paused_reason := r } }

end St

/-! ## Putting frames into a queue -/

/-- One frame goes behind the others; `none` is a write through a tail that is NULL. -/
def enqueue (s : St ι φ) (v : ι) (msdu : φ) : Option (St ι φ) :=
  let s' := { s with arrived := update s.arrived v (s.arrived v ++ [msdu]) }
  let q := s.txq v
  match q.head, q.tail with
  | none, _ => some (s'.setTxq v ⟨some msdu, some msdu, q.depth + 1⟩)
  | some _, none => none
  | some h, some t =>
    some ({ s' with next := update s.next t (some msdu) }.setTxq v
      ⟨some h, some msdu, q.depth + 1⟩)

/-- The loop of `ol_tx_vdev_pause_queue_append`; `room` is how far `depth` is below `max_q_depth`.
-/
def appendLoop (v : ι) : (room : Nat) → St ι φ → Option φ → Option (St ι φ × Option φ)
  | 0, s, msdu_list => some (s, msdu_list)
  | _ + 1, s, none => some (s, none)
  | room + 1, s, some msdu =>
    -- the list is read on before the frame is linked into the queue
    let next := s.next msdu
    (enqueue s v msdu).bind fun s' => appendLoop v room s' next

def cutTail (s : St ι φ) (v : ι) : St ι φ :=
  match (s.txq v).tail with
  | none => s
  | some t => { s with next := update s.next t none }

def ol_tx_vdev_pause_queue_append (s : St ι φ) (v : ι) (msdu_list : Option φ)
    (start_timer : Bool) : Option (St ι φ × Option φ) :=
  let room := ((s.ll_pause v).max_q_depth - (s.txq v).depth).toNat
  (appendLoop v room s msdu_list).map fun (s', rest) =>
    let s' := cutTail s' v
    (if start_timer then s'.startTimer v else s', rest)

/-! ## Sending from a queue -/

/-- The first frame, `msdu`, is taken off the queue and sent; when it is returned, it is freed. -/
def sendHead (s : St ι φ) (env : Env φ) (v : ι) (msdu : φ) : St ι φ :=
  let q := s.txq v
  let head := s.next msdu
  let accepted := (env.ol_tx_ll_wrapper (some msdu)).isNone
  { s with
    next := update s.next msdu none
    left := update s.left v (s.left v ++ [(msdu, accepted)]) }.setTxq v
      ⟨head, if head = none then none else q.tail, q.depth - 1⟩

/-- The loop of `ol_tx_vdev_ll_pause_queue_send_base`, for `max_to_accept` frames. -/
def sendBaseLoop (env : Env φ) (v : ι) : (max_to_accept : Nat) → St ι φ → St ι φ
  | 0, s => s
  | n + 1, s =>
    if (s.txq v).depth = 0 then s
    else
      match (s.txq v).head with
      | none => sendBaseLoop env v n (s.setTxq v { s.txq v with depth := (s.txq v).depth - 1 })
      | some msdu => sendBaseLoop env v n (sendHead s env v msdu)

def rearm (s : St ι φ) (v : ι) : St ι φ :=
  if (s.txq v).depth = 0 then s
  else
    let s := s.startTimer v
    let p := s.ll_pause v
    if p.max_q_depth ≤ p.txq.depth then
      { s with ll_pause := update s.ll_pause v { p with q_overflow_cnt := p.q_overflow_cnt + 1 } }
    else s

def ol_tx_vdev_ll_pause_queue_send_base (s : St ι φ) (env : Env φ) (v : ι) : St ι φ :=
  if (s.ll_pause v).paused_reason ≠ 0 then s
  else
    let max_to_accept := (env.tx_desc.num_free - OL_TX_VDEV_PAUSE_QUEUE_SEND_MARGIN).toNat
    rearm (sendBaseLoop env v max_to_accept s) v

def ol_tx_vdev_ll_pause_queue_send (s : St ι φ) (env : Env φ) (v : ι) : St ι φ :=
  if s.tx_throttle.current_throttle_level ≠ .level0 ∧ s.tx_throttle.current_throttle_phase = .off
  then s
  else ol_tx_vdev_ll_pause_queue_send_base s env v

/-- It returns the frames that it does not take. -/
def ol_tx_ll_queue (s : St ι φ) (env : Env φ) (v : ι) (msdu_list : Option φ) :
    Option (St ι φ × Option φ) :=
  match msdu_list with
  | none => some (s, none)
  | some msdu =>
    let paused_reason := (s.ll_pause v).paused_reason
    if paused_reason ≠ 0 then
      let eth_type := (env.ethertype msdu).1.toUInt16 <<< 8 ||| (env.ethertype msdu).2.toUInt16
      if paused_reason &&& OL_TXQ_PAUSE_REASON_PEER_UNAUTHORIZED = paused_reason ∧
          isEapolWapi eth_type then
        some (s, env.ol_tx_ll_wrapper msdu_list)
      else ol_tx_vdev_pause_queue_append s v msdu_list true
    else if 0 < (s.txq v).depth ∨ s.tx_throttle.current_throttle_level ≠ .level0 then
      (ol_tx_vdev_pause_queue_append s v msdu_list false).map fun (s', rest) =>
        if s'.tx_throttle.current_throttle_level = .level0 ∨
            s'.tx_throttle.current_throttle_phase = .on then
          (ol_tx_vdev_ll_pause_queue_send_base s' env v, rest)
        else (s', rest)
    else some (s, env.ol_tx_ll_wrapper msdu_list)

/-! ## Sending from all queues -/

/-- A round over the vdevs: the state, the budget and whether there is more to send. -/
structure Sweep (ι φ : Type) where
  s : St ι φ
  max_to_send : UInt32
  more : Bool

def sendVisit (env : Env φ) (c : Sweep ι φ) (v : ι) : Sweep ι φ :=
  if (c.s.txq v).depth = 0 then c
  else if (c.s.ll_pause v).paused_reason ≠ 0 then c
  else
    match (c.s.txq v).head with
    | none => c
    | some msdu =>
      let s := sendHead c.s env v msdu
      { s := s
        max_to_send := c.max_to_send - 1
        more := c.more || decide ((s.txq v).depth ≠ 0) }

def sendRounds (env : Env φ) : (fuel : Nat) → St ι φ → UInt32 → Option (St ι φ)
  | 0, _, _ => none
  | fuel + 1, s, max_to_send =>
    let c := s.vdev_list.foldl (sendVisit env) ⟨s, max_to_send, false⟩
    if c.more = true ∧ c.max_to_send ≠ 0 then sendRounds env fuel c.s c.max_to_send
    else some c.s

/-- The last loop: the timer is started if a queue is not empty. -/
def rearmAll (s : St ι φ) : St ι φ :=
  if s.vdev_list.any fun v => (s.txq v).depth ≠ 0 then { s with tx_timer := true } else s

def depthAll (s : St ι φ) : Nat := (s.vdev_list.map fun v => (s.txq v).depth.toNat).sum

/-- `none` if the loop never ends. -/
def ol_tx_pdev_ll_pause_queue_send_all (s : St ι φ) (env : Env φ) : Option (St ι φ) :=
  if s.tx_throttle.current_throttle_phase = .off then some s
  else (sendRounds env (depthAll s + 1) s s.tx_throttle.tx_threshold).map rearmAll

/-! ## Runs -/

def ol_txrx_vdev_pause (s : St ι φ) (v : ι) (reason : UInt32) : St ι φ :=
  s.setPausedReason v ((s.ll_pause v).paused_reason ||| reason)

def ol_txrx_vdev_unpause (s : St ι φ) (env : Env φ) (v : ι) (reason : UInt32) : St ι φ :=
  if (s.ll_pause v).paused_reason &&& reason ≠ 0 then
    let s := s.setPausedReason v ((s.ll_pause v).paused_reason &&& ~~~reason)
    if (s.ll_pause v).paused_reason = 0 then ol_tx_vdev_ll_pause_queue_send s env v else s
  else s

inductive Op (ι φ : Type) where
  | append (v : ι) (msdu_list : Option φ) (start_timer : Bool)
  | ll_queue (env : Env φ) (v : ι) (msdu_list : Option φ)
  | send_base (env : Env φ) (v : ι)
  | send (env : Env φ) (v : ι)
  | send_all (env : Env φ)
  | pause (v : ι) (reason : UInt32)
  | unpause (env : Env φ) (v : ι) (reason : UInt32)
  /-- The level is set, or the phase changes. -/
  | throttle (level : ThrottleLevel) (phase : ThrottlePhase)
  /-- The frames that are in no queue are linked by others. -/
  | elsewhere (next : φ → Option φ)

/-- `none` if the step crashes or does not end. -/
def step (s : St ι φ) : Op ι φ → Option (St ι φ)
  | .append v msdu_list start_timer =>
    (ol_tx_vdev_pause_queue_append s v msdu_list start_timer).map Prod.fst
  | .ll_queue env v msdu_list => (ol_tx_ll_queue s env v msdu_list).map Prod.fst
  | .send_base env v => some (ol_tx_vdev_ll_pause_queue_send_base s env v)
  | .send env v => some (ol_tx_vdev_ll_pause_queue_send s env v)
  | .send_all env => ol_tx_pdev_ll_pause_queue_send_all s env
  | .pause v reason => some (ol_txrx_vdev_pause s v reason)
  | .unpause env v reason => some (ol_txrx_vdev_unpause s env v reason)
  | .throttle level phase => some { s with tx_throttle := { s.tx_throttle with
      current_throttle_level := level, current_throttle_phase := phase } }
  | .elsewhere next => some { s with next := next }

def attached (vdev_list : List ι) (max_q_depth : ι → Nat) (tx_threshold : UInt32)
    (next : φ → Option φ) : St ι φ where
  next := next
  ll_pause := fun v => ⟨⟨none, none, 0⟩, 0, max_q_depth v, false, 0⟩
  vdev_list := vdev_list
  tx_throttle := ⟨.level0, .off, tx_threshold⟩
  tx_timer := false
  arrived := fun _ => []
  left := fun _ => []

def Waiting (s : St ι φ) (f : φ) : Prop :=
  ∃ v l, Lib.Linked s.next (s.txq v).head l none ∧ f ∈ l

/-- The list of `msdu_list` ends, and none of its frames is in a queue. -/
def Fresh (s : St ι φ) (msdu_list : Option φ) (l : List φ) : Prop :=
  Lib.Linked s.next msdu_list l none ∧ ∀ f ∈ l, ¬ Waiting s f

def Promised (s : St ι φ) : Op ι φ → Prop
  | .append _ msdu_list _ => ∃ l, Fresh s msdu_list l
  | .ll_queue _ _ msdu_list => ∃ l, Fresh s msdu_list l
  | .elsewhere next => ∀ f, Waiting s f → next f = s.next f
  | _ => True

inductive Reachable (s₀ : St ι φ) : St ι φ → Prop
  | start : Reachable s₀ s₀
  | next {s s' : St ι φ} (op : Op ι φ) (h : Reachable s₀ s) (hop : Promised s op)
      (hs : step s op = some s') : Reachable s₀ s'

def departed (s s' : St ι φ) : Nat :=
  (s.vdev_list.map fun v => (s'.left v).length - (s.left v).length).sum

def backlog (s : St ι φ) (v : ι) : Nat :=
  if (s.ll_pause v).paused_reason = 0 then (s.txq v).depth.toNat else 0

end

open Lib List

/-! `Repr s q e` says that the queues of the state are the lists `q`: each is linked from its head,
its tail is the last frame and its depth the length, no frame is in two places, and what has arrived
is what has left and what is there, in this order. -/

variable {ι φ : Type} {s s' s'' : St ι φ} {q : ι → List φ} {e : ι → Option φ} {v w : ι}
variable {env : Env φ} {f : φ} {l : List φ} {m p : Option φ}

structure Repr (s : St ι φ) (q : ι → List φ) (e : ι → Option φ) : Prop where
  linked : ∀ v, Linked s.next (s.txq v).head (q v) (e v)
  tail : ∀ v, (s.txq v).tail = (q v).getLast?
  depth : ∀ v, (s.txq v).depth = (q v).length
  bound : ∀ v, (q v).length ≤ (s.ll_pause v).max_q_depth
  exclusive : Exclusive q
  log : ∀ v, s.arrived v = (s.left v).map Prod.fst ++ q v

abbrev Queued (s : St ι φ) (q : ι → List φ) : Prop := Repr s q fun _ => none

/-- What no operation on the queues changes. -/
structure Same (s s' : St ι φ) : Prop where
  vdevs : s'.vdev_list = s.vdev_list
  throttle : s'.tx_throttle = s.tx_throttle
  limit : ∀ v, (s'.ll_pause v).max_q_depth = (s.ll_pause v).max_q_depth
  paused : ∀ v, (s'.ll_pause v).paused_reason = (s.ll_pause v).paused_reason

theorem Same.refl (s : St ι φ) : Same s s := ⟨rfl, rfl, fun _ => rfl, fun _ => rfl⟩

theorem Same.trans (h : Same s s') (h' : Same s' s'') : Same s s'' where
  vdevs := h'.vdevs.trans h.vdevs
  throttle := h'.throttle.trans h.throttle
  limit := fun v => (h'.limit v).trans (h.limit v)
  paused := fun v => (h'.paused v).trans (h.paused v)

theorem Queued.waiting_iff (h : Queued s q) : Waiting s f ↔ ∃ v, f ∈ q v := by
  constructor
  · rintro ⟨v, l, hl, hf⟩
    rw [linked_unique hl (h.linked v)] at hf; exact ⟨v, hf⟩
  · rintro ⟨v, hf⟩; exact ⟨v, q v, h.linked v, hf⟩

theorem Queued.head_eq (h : Queued s q) (v : ι) : (s.txq v).head = (q v).head? := by
  have hl := h.linked v
  cases hq : q v with
  | nil => rw [hq] at hl; exact hl
  | cons a l => rw [hq] at hl; exact hl.1

variable [DecidableEq ι]

/-! ## Fields that the lists do not depend on -/

theorem update_field {β : Type} (g : LlPause φ → β) {b : LlPause φ}
    (hb : g b = g (s.ll_pause v)) (w : ι) : g (update s.ll_pause v b w) = g (s.ll_pause w) := by
  by_cases hw : w = v
  · subst hw; rw [update_self, hb]
  · rw [update_of_ne hw]

section SetTxq

variable (s v) (t : Txq φ)

@[simp] theorem txq_setTxq_self : (s.setTxq v t).txq v = t := by
  change (update s.ll_pause v { s.ll_pause v with txq := t } v).txq = t
  rw [update_self]

theorem txq_setTxq_of_ne (hw : w ≠ v) : (s.setTxq v t).txq w = s.txq w := by
  change (update s.ll_pause v { s.ll_pause v with txq := t } w).txq = s.txq w
  rw [update_of_ne hw]; rfl

theorem same_setTxq (next : φ → Option φ) (arrived : ι → List φ) (left : ι → List (φ × Bool)) :
    Same s ({ s with next := next, arrived := arrived, left := left }.setTxq v t) where
  vdevs := rfl
  throttle := rfl
  limit := update_field LlPause.max_q_depth rfl
  paused := update_field LlPause.paused_reason rfl

end SetTxq

theorem Repr.touch (h : Repr s q e) {b : LlPause φ} (htxq : b.txq = s.txq v)
    (hlimit : b.max_q_depth = (s.ll_pause v).max_q_depth) :
    Repr { s with ll_pause := update s.ll_pause v b } q e := by
  have hsame : ∀ w, St.txq { s with ll_pause := update s.ll_pause v b } w = s.txq w :=
    update_field LlPause.txq htxq
  constructor
  · intro w
    rw [hsame w]; exact h.linked w
  · intro w
    rw [hsame w]; exact h.tail w
  · intro w
    rw [hsame w]; exact h.depth w
  · intro w; exact (h.bound w).trans_eq (update_field LlPause.max_q_depth hlimit w).symm
  · exact h.exclusive
  · exact h.log

omit [DecidableEq ι] in
theorem Repr.relink {e' : ι → Option φ} {next : φ → Option φ} (h : Repr s q e)
    (hlinked : ∀ w, Linked next (s.txq w).head (q w) (e' w)) :
    Repr { s with next := next } q e' :=
  ⟨hlinked, h.tail, h.depth, h.bound, h.exclusive, h.log⟩

/-! ## One queue changes -/

theorem Repr.rewrite {e' : ι → Option φ} {t : Txq φ} (h : Repr s q e) (next : φ → Option φ)
    (arrived : ι → List φ) (left : ι → List (φ × Bool))
    (hother : ∀ w, w ≠ v → e' w = e w ∧ ∀ a ∈ q w, next a = s.next a)
    (harr : ∀ w, w ≠ v → arrived w = s.arrived w) (hleft : ∀ w, w ≠ v → left w = s.left w)
    (hlinked : Linked next t.head l (e' v)) (htail : t.tail = l.getLast?)
    (hdepth : t.depth = l.length) (hbound : l.length ≤ (s.ll_pause v).max_q_depth)
    (hex : Exclusive (update q v l)) (hlog : arrived v = (left v).map Prod.fst ++ l) :
    Repr ({ s with next := next, arrived := arrived, left := left }.setTxq v t)
      (update q v l) e' := by
  constructor
  · intro w
    by_cases hw : w = v
    · subst hw
      rw [txq_setTxq_self, update_self]; exact hlinked
    · rw [txq_setTxq_of_ne _ _ _ hw, update_of_ne hw, (hother w hw).1]
      exact (linked_congr (hother w hw).2).mpr (h.linked w)
  · intro w
    by_cases hw : w = v
    · subst hw
      rw [txq_setTxq_self, update_self]; exact htail
    · rw [txq_setTxq_of_ne _ _ _ hw, update_of_ne hw]; exact h.tail w
  · intro w
    by_cases hw : w = v
    · subst hw
      rw [txq_setTxq_self, update_self]; exact hdepth
    · rw [txq_setTxq_of_ne _ _ _ hw, update_of_ne hw]; exact h.depth w
  · intro w
    rw [(same_setTxq s v t next arrived left).limit w]
    by_cases hw : w = v
    · subst hw
      rw [update_self]; exact hbound
    · rw [update_of_ne hw]; exact h.bound w
  · exact hex
  · intro w
    by_cases hw : w = v
    · subst hw
      rw [update_self]; exact hlog
    · rw [update_of_ne hw]
      change arrived w = (left w).map Prod.fst ++ q w
      rw [harr w hw, hleft w hw]; exact h.log w

theorem exclusive_append (h : Exclusive q) (hf : ∀ w, f ∉ q w) :
    Exclusive (update q v (q v ++ [f])) := by
  refine h.enter (j := v) (nodup_singleton f) ?_ ?_ ?_
  · intro a ha w
    rw [mem_singleton.mp ha]; exact hf w
  · rw [update_self]; exact perm_append_comm
  · intro w hw; exact update_of_ne hw _ _

theorem exclusive_tail (h : Exclusive q) (hq : q v = f :: l) : Exclusive (update q v l) := by
  apply h.leave
  intro w
  by_cases hw : w = v
  · subst hw
    rw [update_self, hq]; exact (sublist_cons_self f l).subperm
  · rw [update_of_ne hw]

/-! ## Appending -/

/-- The list of `v` ends at `p`, all others at NULL. -/
def endsAt (v : ι) (p : Option φ) : ι → Option φ := update (fun _ => none) v p

theorem endsAt_self : endsAt v p v = p := update_self _ _ _

theorem endsAt_of_ne (hw : w ≠ v) : endsAt v p w = none := update_of_ne hw _ _

theorem endsAt_none : endsAt v (none : Option φ) = fun _ => none := update_eq_self v fun _ => none

variable [DecidableEq φ]

theorem enqueue_spec (h : Repr s q (endsAt v p)) (hp : q v = [] → p = none)
    (hf : ∀ w, f ∉ q w) (hroom : (q v).length < (s.ll_pause v).max_q_depth) :
    ∃ s', enqueue s v f = some s' ∧
      Repr s' (update q v (q v ++ [f])) (endsAt v (s.next f)) ∧
      (∀ a, a ∉ q v → s'.next a = s.next a) ∧ s'.left = s.left ∧ Same s s' := by
  have hends : ∀ w, w ≠ v → endsAt v (s.next f) w = endsAt v p w := by
    intro w hw
    rw [endsAt_of_ne hw, endsAt_of_ne hw]
  have hlen : (q v ++ [f]).length ≤ (s.ll_pause v).max_q_depth := by
    rw [length_append]; exact hroom
  have hdepth : (s.txq v).depth + 1 = ((q v ++ [f]).length : Int) := by
    rw [h.depth v, length_append]; rfl
  have hlast : some f = (q v ++ [f]).getLast? := getLast?_concat.symm
  have harrived : ∀ w, w ≠ v → update s.arrived v (s.arrived v ++ [f]) w = s.arrived w :=
    fun w hw => update_of_ne hw _ _
  have hlog : update s.arrived v (s.arrived v ++ [f]) v =
      (s.left v).map Prod.fst ++ (q v ++ [f]) := by rw [update_self, h.log v, append_assoc]
  have hex := exclusive_append (v := v) h.exclusive hf
  have hlinked := h.linked v
  rw [endsAt_self] at hlinked
  unfold enqueue
  rcases eq_nil_or_concat (q v) with hnil | ⟨l, t, hl⟩
  · -- the queue is empty, and so is the list from its head
    have hhead : (s.txq v).head = none := by rw [hnil] at hlinked; exact hlinked.trans (hp hnil)
    simp only [hhead]
    refine ⟨_, rfl, ?_, fun a _ => rfl, rfl, same_setTxq _ _ _ _ _ _⟩
    refine h.rewrite s.next _ s.left ?_ harrived ?_ ?_ hlast hdepth hlen hex hlog
    · exact fun w hw => ⟨hends w hw, fun a _ => rfl⟩
    · exact fun w _ => rfl
    · rw [hnil, endsAt_self]; exact ⟨rfl, rfl⟩
  · -- the last frame is pointed to the new one
    rw [concat_eq_append] at hl
    have htail : (s.txq v).tail = some t := by rw [h.tail v, hl]; exact getLast?_concat
    have hhead : (s.txq v).head = (q v).head? := by
      apply linked_head hlinked
      rw [hl]; exact concat_ne_nil t l
    obtain ⟨a, ha⟩ : ∃ a, (s.txq v).head = some a := by
      rw [hhead, hl]
      cases l with
      | nil => exact ⟨t, rfl⟩
      | cons b l => exact ⟨b, rfl⟩
    have ht : t ∈ q v := by rw [hl]; exact mem_append_right l (mem_singleton_self t)
    have hft : f ≠ t := fun he => hf v (he ▸ ht)
    simp only [ha, htail]
    refine ⟨_, rfl, ?_, ?_, rfl, same_setTxq _ _ _ _ _ _⟩
    · refine h.rewrite (update s.next t (some f)) _ s.left ?_ harrived ?_ ?_ hlast hdepth hlen hex
        hlog
      · intro w hw
        refine ⟨hends w hw, fun b hb => update_of_ne ?_ _ _⟩
        rintro rfl; exact hw (h.exclusive.unique hb ht)
      · exact fun w _ => rfl
      · have hnd := h.exclusive.nodup v
        rw [hl] at hlinked hnd
        have htl : t ∉ l := fun hmem =>
          disjoint_of_nodup_append hnd hmem (mem_singleton_self t)
        rw [hl, endsAt_self, linked_concat]
        refine ⟨?_, update_of_ne hft _ _⟩
        rw [← ha]; exact linked_concat_update hlinked htl (some f)
    · intro b hb
      apply update_of_ne
      rintro rfl; exact hb ht

theorem appendLoop_spec (h : Repr s q (endsAt v p)) (hp : q v = [] → p = none)
    (hm : Linked s.next m l none) (hl : ∀ f ∈ l, ∀ w, f ∉ q w) {room : Nat}
    (hroom : (q v).length + room = (s.ll_pause v).max_q_depth) :
    ∃ s' r p', appendLoop v room s m = some (s', r) ∧
      Repr s' (update q v (q v ++ l.take room)) (endsAt v p') ∧
      (q v ++ l.take room = [] → p' = none) ∧ Linked s'.next r (l.drop room) none ∧
      s'.left = s.left ∧ Same s s' := by
  induction room generalizing s q m l p with
  | zero =>
    refine ⟨s, m, p, by unfold appendLoop; rfl, ?_, ?_, hm, rfl, Same.refl s⟩
    · rw [take_zero, append_nil, update_eq_self]; exact h
    · rw [take_zero, append_nil]; exact hp
  | succ room ih =>
    cases l with
    | nil =>
      obtain rfl : m = none := hm
      refine ⟨s, none, p, rfl, ?_, ?_, rfl, rfl, Same.refl s⟩
      · rw [take_nil, append_nil, update_eq_self]; exact h
      · rw [take_nil, append_nil]; exact hp
    | cons f l =>
      have hnd := linked_nodup hm
      obtain ⟨rfl, hrest⟩ := hm
      have hf : ∀ w, f ∉ q w := hl f mem_cons_self
      obtain ⟨s₁, hs₁, h₁, hnext, hleft, hsame⟩ := enqueue_spec h hp hf (by omega)
      -- the rest of the caller's list is where it was
      have hrest₁ : Linked s₁.next (s.next f) l none := by
        refine (linked_congr fun a ha => ?_).mpr hrest
        exact hnext a (hl a (mem_cons_of_mem f ha) v)
      have hl₁ : ∀ a ∈ l, ∀ w, a ∉ update q v (q v ++ [f]) w := by
        intro a ha w
        by_cases hw : w = v
        · subst hw
          rw [update_self, mem_append, not_or, mem_singleton]
          refine ⟨hl a (mem_cons_of_mem f ha) w, ?_⟩
          rintro rfl; exact (nodup_cons.mp hnd).1 ha
        · rw [update_of_ne hw]; exact hl a (mem_cons_of_mem f ha) w
      have hp₁ : update q v (q v ++ [f]) v = [] → s.next f = none := by
        exact fun hnil => absurd hnil (by simp)
      have hroom₁ : (update q v (q v ++ [f]) v).length + room = (s₁.ll_pause v).max_q_depth := by
        rw [update_self, length_append, hsame.limit v, ← hroom]; exact Nat.add_right_comm _ _ _
      obtain ⟨s', r, p', hs', h', hp', hr, hleft', hsame'⟩ := ih h₁ hp₁ hrest₁ hl₁ hroom₁
      rw [update_self, update_idem, append_assoc] at h'
      rw [update_self, append_assoc] at hp'
      refine ⟨s', r, p', ?_, h', hp', hr, hleft'.trans hleft, hsame.trans hsame'⟩
      unfold appendLoop
      rw [hs₁]; exact hs'

theorem cutTail_spec (h : Repr s q (endsAt v p)) (hp : q v = [] → p = none) :
    Queued (cutTail s v) q ∧ (∀ a, a ∉ q v → (cutTail s v).next a = s.next a) ∧
      (cutTail s v).left = s.left ∧ Same s (cutTail s v) := by
  have htail := h.tail v
  unfold cutTail
  rcases eq_nil_or_concat (q v) with hnil | ⟨l, t, hl⟩
  · rw [hnil] at htail
    rw [hp hnil, endsAt_none] at h
    rw [htail]; exact ⟨h, fun a _ => rfl, rfl, Same.refl s⟩
  · rw [concat_eq_append] at hl
    have ht : t ∈ q v := by rw [hl]; exact mem_append_right l (mem_singleton_self t)
    rw [hl, getLast?_concat] at htail
    rw [htail]
    refine ⟨h.relink fun w => ?_, ?_, rfl, ⟨rfl, rfl, fun _ => rfl, fun _ => rfl⟩⟩
    · by_cases hw : w = v
      · subst hw
        have hlinked := h.linked w
        have hnd := h.exclusive.nodup w
        rw [hl] at hlinked hnd ⊢
        apply linked_concat_update hlinked
        exact fun hmem => disjoint_of_nodup_append hnd hmem (mem_singleton_self t)
      · have hlinked := h.linked w
        rw [endsAt_of_ne hw] at hlinked
        apply (linked_update_of_notMem _).mpr hlinked
        exact fun hmem => hw (h.exclusive.unique hmem ht)
    · intro a ha
      apply update_of_ne
      rintro rfl; exact ha ht

omit [DecidableEq ι] [DecidableEq φ] in
theorem Fresh.notMem (hm : Fresh s m l) (h : Queued s q) (hf : f ∈ l) (w : ι) : f ∉ q w :=
  fun hq => hm.2 f hf (h.waiting_iff.mpr ⟨w, hq⟩)

theorem append_spec (h : Queued s q) (hm : Fresh s m l) (v : ι) (start_timer : Bool) :
    ∃ s' r, ol_tx_vdev_pause_queue_append s v m start_timer = some (s', r) ∧
      Queued s' (update q v (q v ++ l.take ((s.ll_pause v).max_q_depth - (q v).length))) ∧
      Linked s'.next r (l.drop ((s.ll_pause v).max_q_depth - (q v).length)) none ∧
      s'.left = s.left ∧ Same s s' := by
  have hfresh : ∀ f ∈ l, ∀ w, f ∉ q w := fun f hf w => hm.notMem h hf w
  have hroom : ((s.ll_pause v).max_q_depth - (s.txq v).depth).toNat =
      (s.ll_pause v).max_q_depth - (q v).length := by rw [h.depth v]; exact Int.toNat_sub _ _
  unfold ol_tx_vdev_pause_queue_append
  rw [hroom]
  have hbound := h.bound v
  have h₀ : Repr s q (endsAt v none) := by rw [endsAt_none]; exact h
  generalize hn : (s.ll_pause v).max_q_depth - (q v).length = room
  have hsum : (q v).length + room = (s.ll_pause v).max_q_depth := by omega
  obtain ⟨s₁, r, p, hloop, h₁, hp, hr, hleft, hsame⟩ :=
    appendLoop_spec h₀ (fun _ => rfl) hm.1 hfresh hsum
  have hcut := cutTail_spec h₁ (by rw [update_self]; exact hp)
  obtain ⟨h₂, hnext, hleft₂, hsame₂⟩ := hcut
  have hr₂ : Linked (cutTail s₁ v).next r (l.drop room) none := by
    refine (linked_congr fun a ha => ?_).mpr hr
    apply hnext
    rw [update_self, mem_append, not_or]
    refine ⟨hfresh a (mem_of_mem_drop ha) v, fun htake => ?_⟩
    have hnd := linked_nodup hm.1
    rw [← take_append_drop room l] at hnd; exact disjoint_of_nodup_append hnd htake ha
  dsimp only
  rw [hloop]
  cases start_timer with
  | false => exact ⟨_, r, rfl, h₂, hr₂, hleft₂.trans hleft, hsame.trans hsame₂⟩
  | true =>
    refine ⟨_, r, rfl, h₂.touch rfl rfl, hr₂, hleft₂.trans hleft, hsame.trans hsame₂ |>.trans ?_⟩
    exact ⟨rfl, rfl, update_field LlPause.max_q_depth rfl, update_field LlPause.paused_reason rfl⟩

/-! ## Sending -/

structure Sends (s s' : St ι φ) : Prop extends Same s s' where
  arrived : s'.arrived = s.arrived

omit [DecidableEq ι] [DecidableEq φ] in
theorem Sends.refl (s : St ι φ) : Sends s s := ⟨Same.refl s, rfl⟩

omit [DecidableEq ι] [DecidableEq φ] in
theorem Sends.trans (h : Sends s s') (h' : Sends s' s'') : Sends s s'' :=
  ⟨h.toSame.trans h'.toSame, h'.arrived.trans h.arrived⟩

theorem sendHead_spec (h : Queued s q) (hq : q v = f :: l) (env : Env φ) :
    Queued (sendHead s env v f) (update q v l) ∧ Sends s (sendHead s env v f) := by
  have hlinked := h.linked v
  have hnd := h.exclusive.nodup v
  have htail := h.tail v
  have hdepth := h.depth v
  have hbound := h.bound v
  have hlog := h.log v
  rw [hq] at hlinked hnd htail hdepth hbound hlog
  have hfl : f ∉ l := (nodup_cons.mp hnd).1
  refine ⟨?_, same_setTxq _ _ _ _ _ _, rfl⟩
  refine h.rewrite _ s.arrived _ ?_ ?_ ?_ ?_ ?_ ?_ ?_ (exclusive_tail h.exclusive hq) ?_
  · intro w hw
    refine ⟨rfl, fun a ha => update_of_ne ?_ _ _⟩
    rintro rfl; exact hw (h.exclusive.unique ha (hq ▸ mem_cons_self))
  · exact fun w _ => rfl
  · exact fun w hw => update_of_ne hw _ _
  · exact (linked_update_of_notMem hfl).mpr hlinked.2
  · -- the tail is given up with the last frame
    cases l with
    | nil => have hlast : s.next f = none := hlinked.2; exact if_pos hlast
    | cons a l =>
      have hmore : s.next f ≠ none := by rw [hlinked.2.1]; exact Option.some_ne_none a
      rw [if_neg hmore, htail, getLast?_cons_cons]
  · change (s.txq v).depth - 1 = l.length
    rw [hdepth, length_cons]; omega
  · exact (Nat.le_succ _).trans hbound
  · rw [update_self, hlog, map_append, append_assoc]; rfl

theorem sendBaseLoop_spec (h : Queued s q) (env : Env φ) (v : ι) (n : Nat) :
    Queued (sendBaseLoop env v n s) (update q v ((q v).drop n)) ∧
      Sends s (sendBaseLoop env v n s) := by
  induction n generalizing s q with
  | zero => rw [drop_zero, update_eq_self]; exact ⟨h, Sends.refl s⟩
  | succ n ih =>
    have hdepth := h.depth v
    have hhead := h.head_eq v
    unfold sendBaseLoop
    cases hq : q v with
    | nil =>
      have hzero : (s.txq v).depth = 0 := by rw [hdepth, hq]; rfl
      rw [if_pos hzero, drop_nil, ← hq, update_eq_self]; exact ⟨h, Sends.refl s⟩
    | cons f l =>
      rw [hq] at hdepth hhead
      have hne : (s.txq v).depth ≠ 0 := by rw [hdepth, length_cons]; omega
      obtain ⟨h₁, hsends⟩ := sendHead_spec h hq env
      obtain ⟨h', hsends'⟩ := ih h₁
      rw [update_self, update_idem] at h'
      rw [if_neg hne, hhead]; exact ⟨h', hsends.trans hsends'⟩

omit [DecidableEq φ] in
theorem rearm_spec (h : Queued s q) (v : ι) : Queued (rearm s v) q ∧ Sends s (rearm s v) := by
  have hstart : Queued (s.startTimer v) q := h.touch rfl rfl
  have hsends : Sends s (s.startTimer v) :=
    ⟨⟨rfl, rfl, update_field LlPause.max_q_depth rfl, update_field LlPause.paused_reason rfl⟩, rfl⟩
  unfold rearm
  by_cases hdepth : (s.txq v).depth = 0
  · rw [if_pos hdepth]; exact ⟨h, Sends.refl s⟩
  · rw [if_neg hdepth]
    dsimp only
    split
    · refine ⟨hstart.touch rfl rfl, hsends.trans ⟨⟨rfl, rfl, ?_, ?_⟩, rfl⟩⟩
      · exact update_field LlPause.max_q_depth rfl
      · exact update_field LlPause.paused_reason rfl
    · exact ⟨hstart, hsends⟩

theorem send_base_spec (h : Queued s q) (env : Env φ) (v : ι) :
    ∃ k, Queued (ol_tx_vdev_ll_pause_queue_send_base s env v) (update q v ((q v).drop k)) ∧
      Sends s (ol_tx_vdev_ll_pause_queue_send_base s env v) := by
  unfold ol_tx_vdev_ll_pause_queue_send_base
  split
  · refine ⟨0, ?_, Sends.refl s⟩
    rw [drop_zero, update_eq_self]; exact h
  · obtain ⟨h₁, hsends⟩ := sendBaseLoop_spec h env v
      (env.tx_desc.num_free - OL_TX_VDEV_PAUSE_QUEUE_SEND_MARGIN).toNat
    obtain ⟨h₂, hsends₂⟩ := rearm_spec h₁ v
    exact ⟨_, h₂, hsends.trans hsends₂⟩

theorem send_spec (h : Queued s q) (env : Env φ) (v : ι) :
    ∃ k, Queued (ol_tx_vdev_ll_pause_queue_send s env v) (update q v ((q v).drop k)) ∧
      Sends s (ol_tx_vdev_ll_pause_queue_send s env v) := by
  unfold ol_tx_vdev_ll_pause_queue_send
  split
  · refine ⟨0, ?_, Sends.refl s⟩
    rw [drop_zero, update_eq_self]; exact h
  · exact send_base_spec h env v

theorem ll_queue_spec (h : Queued s q) (hm : Fresh s m l) (env : Env φ) (v : ι) :
    ∃ s' r q', ol_tx_ll_queue s env v m = some (s', r) ∧ Queued s' q' ∧ Same s s' := by
  unfold ol_tx_ll_queue
  cases m with
  | none => exact ⟨s, none, q, rfl, h, Same.refl s⟩
  | some f =>
    dsimp only
    split
    · split
      · exact ⟨s, _, q, rfl, h, Same.refl s⟩
      · obtain ⟨s', r, hs', h', -, -, hsame⟩ := append_spec h hm v true
        exact ⟨s', r, _, hs', h', hsame⟩
    · split
      · obtain ⟨s', r, hs', h', -, -, hsame⟩ := append_spec h hm v false
        rw [hs', Option.map_some]
        split
        · obtain ⟨k, hk, hsends⟩ := send_base_spec h' env v
          exact ⟨_, r, _, rfl, hk, hsame.trans hsends.toSame⟩
        · exact ⟨s', r, _, rfl, h', hsame⟩
      · exact ⟨s, _, q, rfl, h, Same.refl s⟩

end

open Lib List

/-! After `k` rounds the first `k` frames of every vdev that is not paused have gone
(`afterRounds`), which makes `served` of the backlogs in all. -/

variable {ι φ : Type} {s s' s₀ : St ι φ} {q : ι → List φ} {v w : ι} {k : Nat}

/-! ## Backlogs -/

theorem Queued.backlog_eq (h : Queued s q) (v : ι) :
    backlog s v = if (s.ll_pause v).paused_reason = 0 then (q v).length else 0 := by
  unfold backlog
  rw [h.depth v]; rfl

theorem backlog_of_paused (hp : (s.ll_pause v).paused_reason ≠ 0) : backlog s v = 0 := if_neg hp

theorem backlog_le_depth (s : St ι φ) (v : ι) : backlog s v ≤ (s.txq v).depth.toNat := by
  unfold backlog
  split
  · exact Nat.le_refl _
  · exact Nat.zero_le _

theorem sum_backlog_le (s : St ι φ) : (s.vdev_list.map (backlog s)).sum ≤ depthAll s := by
  apply sum_le_sum
  intro v _; exact backlog_le_depth s v

variable [DecidableEq ι] [DecidableEq φ] {env : Env φ} {c : Sweep ι φ} {vs : List ι}

/-- The queues when every vdev of the list that is not paused has sent `k` frames. -/
def taken (s : St ι φ) (q : ι → List φ) (vs : List ι) (k : Nat) : ι → List φ :=
  fun w => if w ∈ vs ∧ (s.ll_pause w).paused_reason = 0 then (q w).drop k else q w

omit [DecidableEq φ] in
theorem taken_of_notMem (hw : w ∉ vs) : taken s q vs k w = q w :=
  if_neg fun h => hw h.1

omit [DecidableEq φ] in
theorem taken_of_mem (hw : w ∈ vs) (hp : (s.ll_pause w).paused_reason = 0) :
    taken s q vs k w = (q w).drop k :=
  if_pos ⟨hw, hp⟩

omit [DecidableEq φ] in
theorem taken_of_paused (hp : (s.ll_pause w).paused_reason ≠ 0) : taken s q vs k w = q w :=
  if_neg fun h => hp h.2

/-! ## One round -/

theorem sendVisit_spec (h : Queued c.s q) (env : Env φ) (v : ι) :
    Queued (sendVisit env c v).s (taken c.s q [v] 1) ∧ Sends c.s (sendVisit env c v).s ∧
      (sendVisit env c v).max_to_send =
        c.max_to_send - UInt32.ofNat (min (backlog c.s v) 1) ∧
      ((sendVisit env c v).more = true ↔ c.more = true ∨ 1 < backlog c.s v) := by
  have hdepth := h.depth v
  have hhead := h.head_eq v
  have hbacklog := h.backlog_eq v
  have hidle : taken c.s q [v] 1 = q → backlog c.s v = 0 →
      Queued c.s (taken c.s q [v] 1) ∧ Sends c.s c.s ∧
        c.max_to_send = c.max_to_send - UInt32.ofNat (min (backlog c.s v) 1) ∧
        (c.more = true ↔ c.more = true ∨ 1 < backlog c.s v) := by
    intro hq hzero
    rw [hq, hzero]
    refine ⟨h, Sends.refl c.s, (UInt32.sub_zero _).symm, ?_⟩
    exact ⟨Or.inl, fun hor => hor.resolve_right (Nat.not_lt_zero 1)⟩
  unfold sendVisit
  by_cases hpaused : (c.s.ll_pause v).paused_reason = 0
  · rw [if_pos hpaused] at hbacklog
    cases hq : q v with
    | nil =>
      rw [hq] at hbacklog
      have hzero : (c.s.txq v).depth = 0 := by rw [hdepth, hq]; rfl
      rw [if_pos hzero]
      refine hidle ?_ hbacklog
      funext w
      by_cases hw : w = v
      · subst hw
        rw [taken_of_mem (mem_singleton_self w) hpaused, hq]; rfl
      · exact taken_of_notMem fun hmem => hw (mem_singleton.mp hmem)
    | cons f l =>
      rw [hq] at hdepth hhead hbacklog
      have hne : (c.s.txq v).depth ≠ 0 := by rw [hdepth, length_cons]; omega
      obtain ⟨h₁, hsends⟩ := sendHead_spec h hq env
      have htaken : taken c.s q [v] 1 = update q v l := by
        funext w
        by_cases hw : w = v
        · subst hw
          rw [taken_of_mem (mem_singleton_self w) hpaused, update_self, hq]; rfl
        · rw [taken_of_notMem fun hmem => hw (mem_singleton.mp hmem), update_of_ne hw]
      have hdepth₁ := h₁.depth v
      rw [update_self] at hdepth₁
      rw [if_neg hne, if_neg (not_not.mpr hpaused), hhead, htaken]
      refine ⟨h₁, hsends, ?_, ?_⟩
      · rw [hbacklog, length_cons, Nat.min_eq_right (Nat.succ_pos _)]; rfl
      · have hmore : (decide ((St.txq (sendHead c.s env v f) v).depth ≠ 0)) = true ↔
            1 < backlog c.s v := by
          rw [decide_eq_true_iff, hdepth₁, hbacklog, length_cons]; omega
        rw [← hmore]; exact Bool.or_eq_true_iff
  · -- nothing is sent from a vdev that is paused
    split
    all_goals
      refine hidle ?_ (backlog_of_paused hpaused)
      funext w
      by_cases hw : w = v
      · subst hw; exact taken_of_paused hpaused
      · exact taken_of_notMem fun hmem => hw (mem_singleton.mp hmem)

theorem sendPass_spec (h : Queued c.s q) (hnd : vs.Nodup) (env : Env φ) :
    Queued (vs.foldl (sendVisit env) c).s (taken c.s q vs 1) ∧
      Sends c.s (vs.foldl (sendVisit env) c).s ∧
      (vs.foldl (sendVisit env) c).max_to_send =
        c.max_to_send - UInt32.ofNat (served (backlog c.s) vs 1) ∧
      ((vs.foldl (sendVisit env) c).more = true ↔
        c.more = true ∨ ∃ v ∈ vs, 1 < backlog c.s v) := by
  induction vs generalizing c q with
  | nil =>
    refine ⟨h, Sends.refl c.s, (UInt32.sub_zero _).symm, Or.inl, ?_⟩
    rintro (hmore | ⟨v, hv, -⟩)
    · exact hmore
    · cases hv
  | cons v vs ih =>
    obtain ⟨hv, hnd⟩ := nodup_cons.mp hnd
    obtain ⟨h₁, hsends, hbudget, hmore⟩ := sendVisit_spec h env v
    obtain ⟨h', hsends', hbudget', hmore'⟩ := ih h₁ hnd
    -- the vdevs that are still to come have not been touched
    have hpaused : ∀ w, ((sendVisit env c v).s.ll_pause w).paused_reason =
        (c.s.ll_pause w).paused_reason := hsends.paused
    have hrest : ∀ w ∈ vs, backlog (sendVisit env c v).s w = backlog c.s w := by
      intro w hw
      have hne : w ≠ v := fun he => hv (he ▸ hw)
      rw [h₁.backlog_eq w, h.backlog_eq w, hpaused w,
        taken_of_notMem fun hmem => hne (mem_singleton.mp hmem)]
    have htaken : taken (sendVisit env c v).s (taken c.s q [v] 1) vs 1 =
        taken c.s q (v :: vs) 1 := by
      funext w
      unfold taken
      rw [hpaused w]
      by_cases hw : w = v
      · subst hw; simp only [hv, false_and, if_false, mem_cons, true_or, true_and]
      · simp only [mem_cons, hw, not_mem_nil, false_or, false_and, if_false]
    rw [htaken] at h'
    rw [foldl_cons]
    refine ⟨h', hsends.trans hsends', ?_, ?_⟩
    · rw [hbudget', hbudget, served_congr hrest]
      have hsum : served (backlog c.s) (v :: vs) 1 =
          min (backlog c.s v) 1 + served (backlog c.s) vs 1 := rfl
      rw [hsum, UInt32.ofNat_add, UInt32.sub_eq_add_neg, UInt32.sub_eq_add_neg,
        UInt32.sub_eq_add_neg, UInt32.neg_add, UInt32.sub_eq_add_neg, UInt32.add_assoc]
    · rw [hmore', hmore, or_assoc]
      apply or_congr_right
      constructor
      · rintro (hgt | ⟨w, hw, hgt⟩)
        · exact ⟨v, mem_cons_self, hgt⟩
        · exact ⟨w, mem_cons_of_mem v hw, hrest w hw ▸ hgt⟩
      · rintro ⟨w, hw, hgt⟩
        obtain rfl | hw := mem_cons.mp hw
        · exact Or.inl hgt
        · exact Or.inr ⟨w, hw, (hrest w hw).symm ▸ hgt⟩

/-! ## All rounds -/

omit [DecidableEq φ] in
theorem taken_taken {s₁ : St ι φ} (hsame : Same s s₁) :
    taken s₁ (taken s q vs 1) vs k = taken s q vs (k + 1) := by
  funext w
  unfold taken
  rw [hsame.paused w]
  split
  · rw [drop_drop, Nat.add_comm]
  · rfl

omit [DecidableEq φ] in
theorem backlog_taken {s₁ : St ι φ} (h : Queued s q) (h₁ : Queued s₁ (taken s q vs 1))
    (hsame : Same s s₁) (hw : w ∈ vs) : backlog s₁ w = backlog s w - 1 := by
  rw [h₁.backlog_eq w, h.backlog_eq w, hsame.paused w]
  split
  · rename_i hp; rw [taken_of_mem hw hp, length_drop]
  · rfl

theorem sendRounds_spec (h : Queued s q) (hnd : s.vdev_list.Nodup) (env : Env φ) {fuel : Nat}
    (hfuel : (s.vdev_list.map (backlog s)).sum < fuel) (budget : UInt32) :
    ∃ s' k, sendRounds env fuel s budget = some s' ∧ Queued s' (taken s q s.vdev_list k) ∧
      Sends s s' ∧
      ∀ j, 0 < j → j < k → UInt32.ofNat (served (backlog s) s.vdev_list j) ≠ budget := by
  induction fuel generalizing s q budget with
  | zero => exact absurd hfuel (Nat.not_lt_zero _)
  | succ fuel ih =>
    have hpass := sendPass_spec (c := ⟨s, budget, false⟩) h hnd env
    unfold sendRounds
    dsimp only at hpass ⊢
    generalize s.vdev_list.foldl (sendVisit env) ⟨s, budget, false⟩ = c at hpass ⊢
    obtain ⟨h₁, hsends, hbudget, hmore⟩ := hpass
    by_cases hstop : c.more = true ∧ c.max_to_send ≠ 0
    · rw [if_pos hstop]
      obtain ⟨v, hv, hleft⟩ := (hmore.mp hstop.1).resolve_left Bool.false_ne_true
      have hvdevs := hsends.vdevs
      have hrest : ∀ w ∈ s.vdev_list, backlog c.s w = backlog s w - 1 :=
        fun w hw => backlog_taken h h₁ hsends.toSame hw
      have hsum : (c.s.vdev_list.map (backlog c.s)).sum =
          (s.vdev_list.map fun w => backlog s w - 1).sum := by rw [hvdevs, map_congr_left hrest]
      have hpos := served_one_pos hv (Nat.lt_of_succ_lt hleft)
      rw [sum_eq_served_one_add] at hfuel
      obtain ⟨s', k, hs', h', hsends', hpassed⟩ :=
        ih h₁ (hvdevs ▸ hnd) (by omega) c.max_to_send
      rw [hvdevs, taken_taken hsends.toSame] at h'
      refine ⟨s', k + 1, hs', h', hsends.trans hsends', ?_⟩
      intro j hj hjk
      obtain ⟨j, rfl⟩ := Nat.exists_eq_succ_of_ne_zero (Nat.ne_of_gt hj)
      rw [Nat.succ_eq_add_one, served_succ, UInt32.ofNat_add]
      intro heq
      have hrestj : UInt32.ofNat (served (backlog c.s) c.s.vdev_list j) = c.max_to_send := by
        rw [hvdevs, served_congr hrest, hbudget, UInt32.eq_sub_iff_add_eq, UInt32.add_comm]
        exact heq
      -- after the first round the budget was looked at as well
      rcases Nat.eq_zero_or_pos j with rfl | hj
      · rw [served_zero] at hrestj; exact hstop.2 hrestj.symm
      · exact hpassed j hj (Nat.lt_of_succ_lt_succ hjk) hrestj
    · rw [if_neg hstop]
      refine ⟨c.s, 1, rfl, h₁, hsends, ?_⟩
      intro j hj hj₁; omega

omit [DecidableEq φ] in
theorem departed_eq (h : Queued s q) (h' : Queued s' (taken s q s.vdev_list k))
    (harrived : s'.arrived = s.arrived) : departed s s' = served (backlog s) s.vdev_list k := by
  unfold departed served
  congr 1
  apply map_congr_left
  intro v hv
  have hlog := congrArg List.length (h.log v)
  have hlog' := congrArg List.length (h'.log v)
  rw [length_append, length_map] at hlog hlog'
  rw [harrived, hlog] at hlog'
  rw [h.backlog_eq v]
  by_cases hp : (s.ll_pause v).paused_reason = 0
  · rw [taken_of_mem hv hp, length_drop] at hlog'
    rw [if_pos hp]; omega
  · rw [taken_of_paused hp] at hlog'
    rw [if_neg hp]; omega

omit [DecidableEq ι] [DecidableEq φ] in
theorem rearmAll_spec (h : Queued s q) : Queued (rearmAll s) q ∧ Sends s (rearmAll s) := by
  unfold rearmAll
  split
  · refine ⟨⟨h.linked, h.tail, h.depth, h.bound, h.exclusive, h.log⟩, ?_⟩
    exact ⟨⟨rfl, rfl, fun _ => rfl, fun _ => rfl⟩, rfl⟩
  · exact ⟨h, Sends.refl s⟩

/-- The budget of `ol_tx_pdev_ll_pause_queue_send_all` is not missed: all there is fits into it, or
some number of rounds comes to it. -/
def Budgeted (s : St ι φ) : Prop :=
  (s.vdev_list.map (backlog s)).sum ≤ s.tx_throttle.tx_threshold.toNat ∨
    ∃ k, 0 < k ∧ served (backlog s) s.vdev_list k = s.tx_throttle.tx_threshold.toNat

theorem send_all_spec (h : Queued s q) (hnd : s.vdev_list.Nodup) (env : Env φ) :
    ∃ s' k, ol_tx_pdev_ll_pause_queue_send_all s env = some s' ∧
      Queued s' (taken s q s.vdev_list k) ∧ Sends s s' ∧
      (Budgeted s → departed s s' ≤ s.tx_throttle.tx_threshold.toNat) := by
  unfold ol_tx_pdev_ll_pause_queue_send_all
  split
  · have h₀ : Queued s (taken s q s.vdev_list 0) := by
      have hnone : taken s q s.vdev_list 0 = q := by
        funext w
        unfold taken
        rw [drop_zero, ite_self]
      rw [hnone]; exact h
    refine ⟨s, 0, rfl, h₀, Sends.refl s, fun _ => ?_⟩
    rw [departed_eq h h₀ rfl, served_zero]; exact Nat.zero_le _
  · have hfuel := Nat.lt_succ_of_le (sum_backlog_le s)
    obtain ⟨s₁, k, hs₁, h₁, hsends, hpassed⟩ :=
      sendRounds_spec h hnd env hfuel s.tx_throttle.tx_threshold
    obtain ⟨h', hsends'⟩ := rearmAll_spec h₁
    have hsends := hsends.trans hsends'
    refine ⟨rearmAll s₁, k, by rw [hs₁]; rfl, h', hsends, ?_⟩
    rw [departed_eq h h' hsends.arrived]
    rintro (hfits | ⟨j, hj, hbudget⟩)
    · exact (served_le_sum k).trans hfits
    · apply served_le_budget hbudget
      intro hjk _
      apply hpassed j hj hjk
      rw [hbudget]; exact UInt32.ofNat_toNat

/-! ## Runs -/

omit [DecidableEq ι] [DecidableEq φ] in
theorem Queued.elsewhere {next : φ → Option φ} (h : Queued s q)
    (hnext : ∀ f, Waiting s f → next f = s.next f) : Queued { s with next := next } q := by
  apply h.relink
  intro w
  apply (linked_congr fun a ha => ?_).mpr (h.linked w)
  exact hnext a (h.waiting_iff.mpr ⟨w, ha⟩)

omit [DecidableEq φ] in
theorem Queued.setPausedReason (h : Queued s q) (v : ι) (reason : UInt32) :
    Queued (s.setPausedReason v reason) q :=
  h.touch rfl rfl

theorem Queued.unpause (h : Queued s q) (env : Env φ) (v : ι) (reason : UInt32) :
    ∃ q', Queued (ol_txrx_vdev_unpause s env v reason) q' ∧
      (ol_txrx_vdev_unpause s env v reason).vdev_list = s.vdev_list := by
  unfold ol_txrx_vdev_unpause
  split
  · have hclear := h.setPausedReason v ((s.ll_pause v).paused_reason &&& ~~~reason)
    dsimp only
    split
    · obtain ⟨k, hk, hsends⟩ := send_spec hclear env v; exact ⟨_, hk, hsends.vdevs⟩
    · exact ⟨q, hclear, rfl⟩
  · exact ⟨q, h, rfl⟩

theorem step_spec (h : Queued s q) (hnd : s.vdev_list.Nodup) {op : Op ι φ} (hop : Promised s op) :
    ∃ s' q', step s op = some s' ∧ Queued s' q' ∧ s'.vdev_list = s.vdev_list := by
  cases op with
  | append v m start_timer =>
    obtain ⟨l, hm⟩ := hop
    obtain ⟨s', r, hs', h', -, -, hsame⟩ := append_spec h hm v start_timer
    exact ⟨s', _, congrArg (Option.map Prod.fst) hs', h', hsame.vdevs⟩
  | ll_queue env v m =>
    obtain ⟨l, hm⟩ := hop
    obtain ⟨s', r, q', hs', h', hsame⟩ := ll_queue_spec h hm env v
    exact ⟨s', q', congrArg (Option.map Prod.fst) hs', h', hsame.vdevs⟩
  | send_base env v =>
    obtain ⟨k, hk, hsends⟩ := send_base_spec h env v
    exact ⟨_, _, rfl, hk, hsends.vdevs⟩
  | send env v =>
    obtain ⟨k, hk, hsends⟩ := send_spec h env v
    exact ⟨_, _, rfl, hk, hsends.vdevs⟩
  | send_all env =>
    obtain ⟨s', k, hs', h', hsends, -⟩ := send_all_spec h hnd env
    exact ⟨s', _, hs', h', hsends.vdevs⟩
  | pause v reason => exact ⟨_, q, rfl, h.setPausedReason v _, rfl⟩
  | unpause env v reason =>
    obtain ⟨q', h', hvdevs⟩ := h.unpause env v reason
    exact ⟨_, q', rfl, h', hvdevs⟩
  | throttle level phase =>
    exact ⟨_, q, rfl, ⟨h.linked, h.tail, h.depth, h.bound, h.exclusive, h.log⟩, rfl⟩
  | elsewhere next => exact ⟨_, q, rfl, h.elsewhere hop, rfl⟩

omit [DecidableEq ι] [DecidableEq φ] in
theorem queued_attached (vdev_list : List ι) (max_q_depth : ι → Nat) (tx_threshold : UInt32)
    (next : φ → Option φ) :
    Queued (attached vdev_list max_q_depth tx_threshold next) fun _ => [] where
  linked := fun _ => rfl
  tail := fun _ => rfl
  depth := fun _ => rfl
  bound := fun _ => Nat.zero_le _
  exclusive := ⟨fun _ => nodup_nil, nofun⟩
  log := fun _ => rfl

theorem reachable_queued {vdev_list : List ι} {max_q_depth : ι → Nat} {tx_threshold : UInt32}
    {next : φ → Option φ} (hnd : vdev_list.Nodup)
    (h : Reachable (attached vdev_list max_q_depth tx_threshold next) s) :
    (∃ q, Queued s q) ∧ s.vdev_list = vdev_list := by
  induction h with
  | start => exact ⟨⟨_, queued_attached _ _ _ _⟩, rfl⟩
  | next op _ hop hs ih =>
    obtain ⟨⟨q, h⟩, hvdevs⟩ := ih
    obtain ⟨s', q', hs', h', hvdevs'⟩ := step_spec h (hvdevs ▸ hnd) hop
    obtain rfl := Option.some.inj (hs.symm.trans hs')
    exact ⟨⟨q', h'⟩, hvdevs'.trans hvdevs⟩

/-- In every state that the operations lead to, each queue is linked from its head to its tail, as
long as its depth says and no longer than it may be, and what has arrived is what has left and what
is in the queue, in this order. From there every operation returns; appending returns the frames
for which there is no room, and sending from all queues keeps to the budget unless it passes it. -/
theorem pause_queues {vdev_list : List ι} {max_q_depth : ι → Nat} {tx_threshold : UInt32}
    {next : φ → Option φ} (hnd : vdev_list.Nodup)
    (h : Reachable (attached vdev_list max_q_depth tx_threshold next) s) :
    (∃ q, Queued s q) ∧
      (∀ op, Promised s op → ∃ s', step s op = some s') ∧
      (∀ v m l start_timer, Fresh s m l →
        ∃ s' r k, ol_tx_vdev_pause_queue_append s v m start_timer = some (s', r) ∧
          s'.arrived v = s.arrived v ++ l.take k ∧ Linked s'.next r (l.drop k) none ∧
          (s.txq v).depth + k = (s.ll_pause v).max_q_depth) ∧
      ∀ env, ∃ s', ol_tx_pdev_ll_pause_queue_send_all s env = some s' ∧
        (s.tx_throttle.current_throttle_phase = .off → s' = s) ∧
        (Budgeted s → departed s s' ≤ s.tx_throttle.tx_threshold.toNat) := by
  obtain ⟨⟨q, hq⟩, hvdevs⟩ := reachable_queued hnd h
  rw [← hvdevs] at hnd
  refine ⟨⟨q, hq⟩, ?_, ?_, ?_⟩
  · intro op hop
    obtain ⟨s', q', hs', -⟩ := step_spec hq hnd hop
    exact ⟨s', hs'⟩
  · intro v m l start_timer hm
    obtain ⟨s', r, hs', h', hr, hleft, -⟩ := append_spec hq hm v start_timer
    refine ⟨s', r, _, hs', ?_, hr, ?_⟩
    · have hlog := h'.log v
      rw [update_self, hleft, ← append_assoc, ← hq.log v] at hlog; exact hlog
    · have hbound := hq.bound v
      rw [hq.depth v]; omega
  · intro env
    obtain ⟨s', k, hs', -, -, hbudget⟩ := send_all_spec hq hnd env
    refine ⟨s', hs', fun hoff => ?_, hbudget⟩
    unfold ol_tx_pdev_ll_pause_queue_send_all at hs'
    rw [if_pos hoff] at hs'; exact (Option.some.inj hs').symm

/-! ## Two vdevs -/

/-- All frames are accepted. -/
def accepting (num_free : Nat) : Env Nat where
  tx_desc := ⟨1000, num_free⟩
  ethertype := fun _ => (0, 0)
  ol_tx_ll_wrapper := fun _ => none

def twoVdevs (tx_threshold : UInt32) : St (Fin 2) Nat :=
  attached (finRange 2) (fun _ => 1500) tx_threshold fun _ => none

theorem fresh_single {s : St (Fin 2) Nat} (f : Nat) (l₀ l₁ : List Nat) (hf : s.next f = none)
    (h₀ : Linked s.next (s.txq 0).head l₀ none) (h₁ : Linked s.next (s.txq 1).head l₁ none)
    (hf₀ : f ∉ l₀) (hf₁ : f ∉ l₁) : Fresh s (some f) [f] := by
  refine ⟨⟨rfl, hf⟩, ?_⟩
  rintro a ha ⟨v, l, hl, hal⟩
  rw [mem_singleton.mp ha] at hal
  match v with
  | 0 => exact hf₀ (linked_unique hl h₀ ▸ hal)
  | 1 => exact hf₁ (linked_unique hl h₁ ▸ hal)

theorem heldBack_sent :
    ∃ s s' : St (Fin 2) Nat, Reachable (twoVdevs 100) s ∧
      ol_tx_pdev_ll_pause_queue_send_all s (accepting 900) = some s' ∧
        s.tx_throttle.tx_threshold = 100 ∧ Budgeted s ∧ departed s s' = 1 := by
  have h₁ := Reachable.next (.throttle .level1 .off) (@Reachable.start _ _ _ _ (twoVdevs 100))
    trivial rfl
  have h₂ := Reachable.next (.ll_queue (accepting 900) 0 (some 7)) h₁
    ⟨[7], fresh_single 7 [] [] rfl rfl rfl (by decide) (by decide)⟩ rfl
  have h₃ := Reachable.next (.throttle .level1 .on) h₂ trivial rfl
  exact ⟨_, _, h₃, rfl, rfl, Or.inl (by decide), by decide⟩

theorem pause_queues_twoVdevs :
    ∃ s s' : St (Fin 2) Nat, Reachable (twoVdevs 100) s ∧
      ol_tx_pdev_ll_pause_queue_send_all s (accepting 900) = some s' ∧ departed s s' ≤ 100 := by
  obtain ⟨s, -, h, -, hthreshold, hbudgeted, -⟩ := heldBack_sent
  obtain ⟨-, -, -, hall⟩ := pause_queues (by decide) h
  obtain ⟨s', hs', -, hbudget⟩ := hall (accepting 900)
  rw [hthreshold] at hbudget; exact ⟨s, s', h, hs', hbudget hbudgeted⟩

/-- With a threshold of 100 and 100 descriptors in use a frame is sent all the same; and with a
threshold of 1 and no descriptor in use, two vdevs send a frame each. -/
theorem send_all_exceeds :
    (∃ s s' : St (Fin 2) Nat, Reachable (twoVdevs 100) s ∧
      ol_tx_pdev_ll_pause_queue_send_all s (accepting 900) = some s' ∧
        s.tx_throttle.tx_threshold.toNat - (accepting 900).tx_desc.inUse < departed s s') ∧
    ∃ s s' : St (Fin 2) Nat, Reachable (twoVdevs 1) s ∧
      ol_tx_pdev_ll_pause_queue_send_all s (accepting 1000) = some s' ∧
        (accepting 1000).tx_desc.inUse = 0 ∧
        s.tx_throttle.tx_threshold.toNat < departed s s' := by
  constructor
  · obtain ⟨s, s', h, hs', hthreshold, -, hsent⟩ := heldBack_sent
    refine ⟨s, s', h, hs', ?_⟩
    rw [hthreshold, hsent]; decide
  · have h₁ := Reachable.next (.throttle .level1 .off) (@Reachable.start _ _ _ _ (twoVdevs 1))
      trivial rfl
    have h₂ := Reachable.next (.ll_queue (accepting 1000) 0 (some 7)) h₁
      ⟨[7], fresh_single 7 [] [] rfl rfl rfl (by decide) (by decide)⟩ rfl
    have h₃ := Reachable.next (.ll_queue (accepting 1000) 1 (some 8)) h₂
      ⟨[8], fresh_single 8 [7] [] rfl ⟨rfl, rfl⟩ rfl (by decide) (by decide)⟩ rfl
    have h₄ := Reachable.next (.throttle .level1 .on) h₃ trivial rfl
    exact ⟨_, _, h₄, rfl, by decide, by decide⟩

end Qcacld.TxLlPause
