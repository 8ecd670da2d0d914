/-
What every run of WMA requests comes to.

`Ok` says what has to hold for a step to answer its request: the timer of a request has not expired
when the event for it comes, the request that is found is the one that is meant, and no handler
leaves early.

A handler and a timeout take the request they find out of its queue, so that it and the parameters
it carries are in hand (`Inv s [b] [p]`), answer with the parameters and free the request. Each is
`Handled`: nothing was found, or the invariant holds again with empty hands and no other request
left its queue. `Inv.step` puts these together. The rest reads off the invariant: a request is in
one queue or freed, and parameters are held in one place, of which the answers are one.
-/
import Qcacld.WmaReq

set_option autoImplicit false

namespace Qcacld.WmaReq

open Lib Function List Option

variable {s s' t : State} {b c p v : Nat} {q : Queue} {r : TargetReq}
variable {ok : TargetReq → Bool} {sync : Bool} {max_bssid : Nat} {e : Env}

/-! ## One request is handled -/

/-- Nobody is found, or the one that is found is handled and no other leaves its queue. -/
def Handled (s s' : State) (q : Queue) (ok : TargetReq → Bool) : Prop :=
  first s q ok = none ∧ s' = s ∨
    ∃ b, first s q ok = some b ∧ Inv s' [] [] ∧ Keeps (take s q b) s'

theorem Handled.inv (h : Handled s s' q ok) (hs : Inv s [] []) : Inv s' [] [] := by
  rcases h with ⟨-, rfl⟩ | ⟨b, -, hinv, -⟩
  · exact hs
  · exact hinv

/-- Nothing but the request that is found leaves a queue. -/
theorem Handled.leaves (h : Handled s s' q ok) {q' : Queue} (hc : c ∈ s.queue q')
    (hc' : c ∉ s'.queue q') : first s q ok = some c := by
  rcases h with ⟨-, rfl⟩ | ⟨b, hb, -, hkeep⟩
  · exact absurd hc hc'
  · by_cases hcb : c = b
    · exact hcb ▸ hb
    · exact absurd (hkeep q' c ((mem_take_of_ne hcb q').mpr hc)) hc'

theorem first_take_none {q' : Queue} (h : first s q' ok = none) (q : Queue) (b : Nat) :
    first (take s q b) q' ok = none := by
  apply find?_eq_none.mpr
  intro c hc; exact find?_eq_none.mp h c (mem_of_mem_take hc)

theorem DelOk.take (h : DelOk sync s v) (q : Queue) (b : Nat) : DelOk sync (take s q b) v := by
  rcases h with h | h
  · exact Or.inl h
  · exact Or.inr (first_take_none h q b)

/-- The request `b` that was taken out answers with its parameters `p` and is freed. -/
theorem Inv.answer (h : Inv t [b] [p]) (hm : (t.req b).msg_type ≠ .WMA_DEL_STA_SELF_REQ) :
    Inv (free (wma_send_msg t p) b) [] [] ∧ Keeps t (free (wma_send_msg t p) b) := by
  have hnext := (Next.start h).send.release (fun v hd => absurd hd.1 hm)
  exact ⟨hnext.inv, hnext.keeps⟩

/-- A request that holds no parameters any more is freed without an answer. -/
theorem Inv.freeOnly (h : Inv t [b] []) (hm : (t.req b).msg_type ≠ .WMA_DEL_STA_SELF_REQ) :
    Inv (free t b) [] [] ∧ Keeps t (free t b) := by
  have hnext := (Next.start h).release (fun v hd => absurd hd.1 hm)
  exact ⟨hnext.inv, hnext.keeps⟩

theorem carried_of (h : r.msg_type ≠ .WMA_DEL_STA_SELF_REQ)
    (h' : r.msg_type ≠ .WMA_OCB_SET_CONFIG_CMD) :
    carried r = [r.user_data] := by unfold carried; rw [if_neg (not_or.mpr ⟨h, h'⟩)]

/-- Parameters that no answer was asked for are not a request of the UMAC. -/
theorem Inv.not_wanted (h : Inv s [] []) (hp : (s.param p).respReqd = false) : p ∉ s.requests := by
  intro hr
  rw [(h.wanted p hr).1] at hp; exact absurd hp (by decide)

theorem Inv.not_own (h : Inv s [] []) (hp : (s.param p).fwMsgTimedout = true) : p ∉ s.requests := by
  intro hr
  rw [(h.wanted p hr).2] at hp; exact absurd hp (by decide)

/-! ## The kinds of requests -/

/-- What a start response can be for. -/
theorem Kind.start (h : Kind .vdev_resp_queue r) (ht : r.type = WMA_TARGET_REQ_TYPE_VDEV_START) :
    r.msg_type = .WMA_ADD_BSS_REQ ∨ r.msg_type = .WMA_CHNL_SWITCH_REQ ∨
      r.msg_type = .WMA_OCB_SET_CONFIG_CMD := by
  rcases h with h | ⟨h, -⟩ | ⟨h, -⟩
  · exact h.2
  · exact absurd (ht.symm.trans h) (by decide)
  · exact absurd (ht.symm.trans h) (by decide)

theorem Kind.stop (h : Kind .vdev_resp_queue r) (ht : r.type = WMA_TARGET_REQ_TYPE_VDEV_STOP) :
    r.msg_type = .WMA_DELETE_BSS_REQ := by
  rcases h with ⟨h, -⟩ | ⟨-, h⟩ | ⟨h, -⟩
  · exact absurd (ht.symm.trans h) (by decide)
  · exact h
  · exact absurd (ht.symm.trans h) (by decide)

theorem Kind.del (h : Kind .vdev_resp_queue r) (ht : r.type = WMA_TARGET_REQ_TYPE_VDEV_DEL) :
    r.msg_type = .WMA_DEL_STA_SELF_REQ ∧ r.user_data = r.vdev_id := by
  rcases h with ⟨h, -⟩ | ⟨h, -⟩ | ⟨-, h⟩
  · exact absurd (ht.symm.trans h) (by decide)
  · exact absurd (ht.symm.trans h) (by decide)
  · exact h

theorem Kind.assoc (h : Kind .wma_hold_req_queue r) (ht : r.type = WMA_PEER_ASSOC_CNF_START) :
    r.msg_type = .WMA_ADD_STA_REQ ∨ r.msg_type = .WMA_ADD_BSS_REQ := by
  rcases h with h | ⟨-, h | h⟩
  · exact h.2
  · exact absurd (ht.symm.trans h) (by decide)
  · exact absurd (ht.symm.trans h) (by decide)

theorem Kind.deleteSta (h : Kind .wma_hold_req_queue r) (hm : r.msg_type = .WMA_DELETE_STA_REQ) :
    r.type = WMA_DELETE_STA_RSP_START ∨ r.type = WMA_DEL_P2P_SELF_STA_RSP_START := by
  rcases h with ⟨-, h⟩ | h
  · rw [hm] at h; exact absurd h (by decide)
  · exact h.2

/-- The search of `wma_find_vdev_req` looks at the vdev and the type alone. -/
theorem isType_iff {type : Nat} : isType v type r = true ↔ r.vdev_id = v ∧ r.type = type := by
  simp [isType]

/-! ## Events -/

/-- An event takes out the request it finds, with the parameters it carries. -/
theorem Inv.found (h : Inv s [] []) (hf : first s q ok = some b) (ht : s.timer b = .RUNNING) :
    Inv (take s q b) [b] (carried (s.req b)) ∧ Kind q (s.req b) ∧ ok (s.req b) = true := by
  obtain ⟨hmem, hok⟩ := mem_of_first hf
  have htaken := h.taken hmem (by rw [ht]; simp)
  rw [append_nil] at htaken; exact ⟨htaken, h.kinds q b hmem, hok⟩

/-- The request a start response finds has not expired, and the handler does not leave early. -/
def StartOk (s : State) (v : Nat) (e : Env) : Prop :=
  ∀ b, b ∈ first s .vdev_resp_queue (isType v WMA_TARGET_REQ_TYPE_VDEV_START) →
    s.timer b = .RUNNING ∧ ((s.req b).msg_type = .WMA_OCB_SET_CONFIG_CMD → e.send = true)
deriving Decidable

/-- A start response hands up what its request carries, by the request's message type. -/
theorem Inv.startResp (h : Inv s [] []) (hok : StartOk s v e) :
    Handled s (wma_vdev_start_resp_handler s v e) .vdev_resp_queue
      (isType v WMA_TARGET_REQ_TYPE_VDEV_START) := by
  unfold wma_vdev_start_resp_handler wma_find_vdev_req
  cases hf : first s .vdev_resp_queue (isType v WMA_TARGET_REQ_TYPE_VDEV_START) with
  | none => rw [find_of_none hf]; exact Or.inl ⟨hf, rfl⟩
  | some b =>
    obtain ⟨hrun, hsend⟩ := hok b hf
    obtain ⟨htaken, hkind, htype⟩ := h.found hf hrun
    have hreq : (take s .vdev_resp_queue b).req b = s.req b := rfl
    rw [find_of_first hf]
    refine Or.inr ⟨b, hf, ?_⟩
    dsimp only
    rcases hkind.start (isType_iff.mp htype).2 with hm | hm | hm
    · have htoken : Inv (take s .vdev_resp_queue b) [b] [(s.req b).user_data] := by
        rwa [carried_of (by simp [hm]) (by simp [hm])] at htaken
      rw [hreq, hm]
      dsimp only
      split
      · -- the BSS is started
        have hiface := htoken.iface_same (v := v)
          (i := { s.interfaces v with bssStarted := true }) rfl (fun _ _ => rfl)
        exact hiface.answer (by
          show (s.req b).msg_type ≠ _
          rw [hm]; simp)
      · exact htoken.answer (by rw [hreq, hm]; simp)
    · have htoken : Inv (take s .vdev_resp_queue b) [b] [(s.req b).user_data] := by
        rwa [carried_of (by simp [hm]) (by simp [hm])] at htaken
      rw [hreq, hm]
      exact htoken.answer (by rw [hreq, hm]; simp)
    · have htoken : Inv (take s .vdev_resp_queue b) [b] [] := by
        rwa [carried, if_pos (Or.inr hm)] at htaken
      rw [hreq, hm]
      rw [if_pos (hsend hm)]
      exact htoken.freeOnly (by rw [hreq, hm]; simp)

def StopOk (sync : Bool) (max_bssid : Nat) (s : State) (v : Nat) (e : Env) : Prop :=
  e.pdev = true ∧ v ≤ max_bssid ∧ (s.interfaces v).handle = true ∧
    ((s.interfaces v).del_staself_req ≠ none →
      (s.interfaces v).p2pDevice = false ∧ DelOk sync s v)

/-- After a stop response the deletion of the vdev that waited for it is sent at last. -/
theorem Inv.stopped (h : Inv t [b] []) (hm : (t.req b).msg_type = .WMA_DELETE_BSS_REQ)
    (hb : b < t.used) (hok : (t.interfaces v).del_staself_req ≠ none →
      (t.interfaces v).handle = true ∧ (t.interfaces v).p2pDevice = false ∧ DelOk sync t v) :
    Inv (free (deferredDetach sync (bssStopped t v) v e) b) [] [] ∧
      Keeps t (free (deferredDetach sync (bssStopped t v) v e) b) := by
  have hnext := h.stopDetach (e := e) hok
  have hreq := hnext.reqs b hb
  have hfreed := hnext.release (fun v hd => absurd hd.1 (by rw [hreq, hm]; simp))
  exact ⟨hfreed.inv, hfreed.keeps⟩

/-- A stop response answers unless WMA asked for the stop itself, and deletes what waited for it. -/
theorem Inv.stopResp (h : Inv s [] [])
    (hok : ∀ b, b ∈ first s .vdev_resp_queue (isType v WMA_TARGET_REQ_TYPE_VDEV_STOP) →
      s.timer b = .RUNNING ∧ StopOk sync max_bssid s v e) :
    Handled s (wma_vdev_stop_resp_handler sync max_bssid s v e) .vdev_resp_queue
      (isType v WMA_TARGET_REQ_TYPE_VDEV_STOP) := by
  unfold wma_vdev_stop_resp_handler wma_find_vdev_req
  cases hf : first s .vdev_resp_queue (isType v WMA_TARGET_REQ_TYPE_VDEV_STOP) with
  | none => rw [find_of_none hf]; exact Or.inl ⟨hf, rfl⟩
  | some b =>
    obtain ⟨hrun, hpdev, hmax, hhandle, hdel⟩ := hok b hf
    obtain ⟨htaken, hkind, htype⟩ := h.found hf hrun
    have hm := hkind.stop (isType_iff.mp htype).2
    have hreq : (take s .vdev_resp_queue b).req b = s.req b := rfl
    have hused : b < s.used := h.used_of_mem (mem_of_first hf).1
    have htoken : Inv (take s .vdev_resp_queue b) [b] [(s.req b).user_data] := by
      rwa [carried_of (by simp [hm]) (by simp [hm])] at htaken
    rw [find_of_first hf]
    refine Or.inr ⟨b, hf, ?_⟩
    dsimp only
    rw [if_neg (by simp [hpdev]), hreq, if_pos hm, if_neg (by omega)]
    have hh : ¬ ((take s .vdev_resp_queue b).interfaces v).handle = false := by
      show ¬ (s.interfaces v).handle = false
      simp [hhandle]
    rw [if_neg hh]
    have hdel' : ((take s .vdev_resp_queue b).interfaces v).del_staself_req ≠ none →
        ((take s .vdev_resp_queue b).interfaces v).handle = true ∧
        ((take s .vdev_resp_queue b).interfaces v).p2pDevice = false ∧
        DelOk sync (take s .vdev_resp_queue b) v :=
      fun hne => ⟨hhandle, (hdel hne).1, (hdel hne).2.take _ b⟩
    split
    · -- nobody waits for a stop of WMA's own
      rename_i hown
      have hdrop := htoken.drop (h.not_own hown)
      exact hdrop.stopped hm hused hdel'
    · exact htoken.send.stopped hm hused hdel'

/-- A delete response answers the request of the interface and clears that. -/
theorem Inv.deleteResp (h : Inv s [] [])
    (hok : ∀ b, b ∈ first s .vdev_resp_queue (isType v WMA_TARGET_REQ_TYPE_VDEV_DEL) →
      s.timer b = .RUNNING ∧ sync = true) :
    Handled s (wma_vdev_delete_handler sync s v) .vdev_resp_queue
      (isType v WMA_TARGET_REQ_TYPE_VDEV_DEL) := by
  unfold wma_vdev_delete_handler wma_find_vdev_req
  cases hf : first s .vdev_resp_queue (isType v WMA_TARGET_REQ_TYPE_VDEV_DEL) with
  | none => rw [find_of_none hf]; exact Or.inl ⟨hf, rfl⟩
  | some b =>
    obtain ⟨hrun, hsync⟩ := hok b hf
    obtain ⟨htaken, hkind, htype⟩ := h.found hf hrun
    obtain ⟨hm, hdata⟩ := hkind.del (isType_iff.mp htype).2
    have hv : (s.req b).vdev_id = v := (isType_iff.mp htype).1
    have hreq : (take s .vdev_resp_queue b).req b = s.req b := rfl
    have htoken : Inv (take s .vdev_resp_queue b) [b] [] := by
      rwa [carried, if_pos (Or.inl hm)] at htaken
    rw [find_of_first hf]
    refine Or.inr ⟨b, hf, ?_⟩
    dsimp only
    rw [hreq, hdata, hv]
    unfold wma_vdev_detach_callback
    have hiface : (take s .vdev_resp_queue b).interfaces = s.interfaces := rfl
    rw [hiface, hsync]
    cases hdel : (s.interfaces v).del_staself_req with
    | none =>
      have hnext := (Next.start htoken).release (fun v' hd => by
        have hvv : v = v' := hv.symm.trans hd.2
        rw [← hvv]; exact hdel)
      exact ⟨hnext.inv, hnext.keeps⟩
    | some p =>
      have htake : Inv (setIface (take s .vdev_resp_queue b) v TxrxNode.zero) [b] [p] :=
        htoken.takeUp hdel rfl
      have hnext := (Next.start htake).send.release (fun v' hd => by
        have hvv : v = v' := hv.symm.trans hd.2
        rw [← hvv]
        show ((setIface (take s .vdev_resp_queue b) v TxrxNode.zero).interfaces v).del_staself_req
          = none
        rw [setIface_self]; rfl)
      exact ⟨hnext.inv, hnext.keeps⟩

/-- A confirmation answers the request that waits for the peer. -/
theorem Inv.assocConf (h : Inv s [] [])
    (hok : ∀ b, b ∈ first s .wma_hold_req_queue (isType v WMA_PEER_ASSOC_CNF_START) →
      s.timer b = .RUNNING) :
    Handled s (wma_peer_assoc_conf_handler s v) .wma_hold_req_queue
      (isType v WMA_PEER_ASSOC_CNF_START) := by
  unfold wma_peer_assoc_conf_handler wma_find_req
  cases hf : first s .wma_hold_req_queue (isType v WMA_PEER_ASSOC_CNF_START) with
  | none => rw [find_of_none hf]; exact Or.inl ⟨hf, rfl⟩
  | some b =>
    obtain ⟨htaken, hkind, htype⟩ := h.found hf (hok b hf)
    have hreq : (take s .wma_hold_req_queue b).req b = s.req b := rfl
    rw [find_of_first hf]
    refine Or.inr ⟨b, hf, ?_⟩
    dsimp only
    rcases hkind.assoc (isType_iff.mp htype).2 with hm | hm
    · rw [carried_of (by simp [hm]) (by simp [hm])] at htaken
      rw [hreq, hm]
      exact htaken.answer (by rw [hreq, hm]; simp)
    · rw [carried_of (by simp [hm]) (by simp [hm])] at htaken
      rw [hreq, hm]
      exact htaken.answer (by rw [hreq, hm]; simp)

def SelfPeerOk (sync : Bool) (s : State) (b : Nat) : Prop :=
  (s.req b).type = WMA_DEL_P2P_SELF_STA_RSP_START →
    (s.interfaces (s.param (s.req b).user_data).session_id).del_staself_req = none ∧
      DelOk sync s (s.param (s.req b).user_data).session_id

theorem isMsgType_iff {m : MsgType} : isMsgType v m r = true ↔ r.vdev_id = v ∧ r.msg_type = m := by
  simp [isMsgType]

/-- A deleted peer answers to the UMAC, or is the self peer of a vdev that is detached. -/
theorem Inv.peerDelete (h : Inv s [] [])
    (hok : ∀ b, b ∈ first s .wma_hold_req_queue (isMsgType v .WMA_DELETE_STA_REQ) →
      s.timer b = .RUNNING ∧ SelfPeerOk sync s b) :
    Handled s (wma_peer_delete_handler sync s v e) .wma_hold_req_queue
      (isMsgType v .WMA_DELETE_STA_REQ) := by
  unfold wma_peer_delete_handler wma_find_remove_req_msgtype
  cases hf : first s .wma_hold_req_queue (isMsgType v .WMA_DELETE_STA_REQ) with
  | none => rw [find_of_none hf]; exact Or.inl ⟨hf, rfl⟩
  | some b =>
    obtain ⟨hrun, hself⟩ := hok b hf
    obtain ⟨htaken, hkind, hmsg⟩ := h.found hf hrun
    have hm : (s.req b).msg_type = .WMA_DELETE_STA_REQ := (isMsgType_iff.mp hmsg).2
    have hreq : (take s .wma_hold_req_queue b).req b = s.req b := rfl
    have hused : b < s.used := h.used_of_mem (mem_of_first hf).1
    rw [carried_of (by simp [hm]) (by simp [hm])] at htaken
    rw [find_of_first hf]
    refine Or.inr ⟨b, hf, ?_⟩
    dsimp only
    rw [hreq]
    rcases hkind.deleteSta hm with ht | ht
    · rw [if_pos ht]
      by_cases hr : (s.param (s.req b).user_data).respReqd = true
      · have hr' : ((take s .wma_hold_req_queue b).param (s.req b).user_data).respReqd = true := hr
        rw [if_pos hr']
        exact htaken.answer (by rw [hreq, hm]; simp)
      · have hr' : ¬ ((take s .wma_hold_req_queue b).param (s.req b).user_data).respReqd = true :=
          hr
        rw [if_neg hr']
        have hdrop := htaken.drop (h.not_wanted (eq_false_of_ne_true hr))
        exact hdrop.freeOnly (by rw [hreq, hm]; simp)
    · -- the self peer is gone, and the vdev follows
      obtain ⟨hdel, hdelok⟩ := hself ht
      rw [if_neg (by rw [ht]; decide), if_pos ht]
      have hnext := @Inv.handle _ [b] [] _ _ sync e htaken rfl hdel (hdelok.take _ b)
      have hreq' := hnext.reqs b hused
      have hfreed := hnext.release (fun v hd => absurd hd.1 (by rw [hreq', hreq, hm]; simp))
      exact ⟨hfreed.inv, hfreed.keeps⟩

/-! ## Timeouts -/

/-- An expiry only posts a message: the request stays in its queue until it comes. -/
theorem Inv.expire (h : Inv s [] []) (ht : s.timer b = .RUNNING) :
    Inv { s with timer := update s.timer b .POSTED } [] [] :=
  { h with
    queued := fun q c hc => by
      show update s.timer b .POSTED c ≠ .STOPPED
      by_cases hcb : c = b
      · rw [hcb, update_self]; simp
      · rw [update_of_ne hcb]; exact h.queued q c hc
    inHand := nofun
    freed := fun c hc => by
      show update s.timer b .POSTED c = .STOPPED
      have hcb : c ≠ b := by
        rintro rfl
        rw [h.freed c hc] at ht; exact absurd ht (by decide)
      rw [update_of_ne hcb]; exact h.freed c hc }

def fired (s : State) (b : Nat) : State := { s with timer := update s.timer b .STOPPED }

/-- A timeout takes out its own request, whose timer has stopped. -/
theorem Inv.foundFired (h : Inv s [] []) (hf : first s q ok = some b) :
    Inv (take (fired s b) q b) [b] (carried (s.req b)) ∧ Kind q (s.req b) := by
  have hmem := (mem_of_first hf).1
  have htaken := h.takenWith (x := .STOPPED) hmem (by simp)
  rw [append_nil] at htaken; exact ⟨htaken, h.kinds q b hmem⟩

/-- The timeout of a peer request answers with failure. -/
theorem Inv.holdTimer (h : Inv s [] [])
    (hf : first s .wma_hold_req_queue (isType (s.req b).vdev_id (s.req b).type) = some b)
    (hok : ¬ ((s.req b).msg_type = .WMA_DELETE_STA_REQ ∧
      (s.req b).type = WMA_DEL_P2P_SELF_STA_RSP_START)) :
    Handled s (wma_hold_req_timer (fired s b) b) .wma_hold_req_queue
      (isType (s.req b).vdev_id (s.req b).type) := by
  obtain ⟨htaken, hkind⟩ := h.foundFired hf
  have hreq : (fired s b).req b = s.req b := rfl
  have hfind : find (fired s b) .wma_hold_req_queue (isType (s.req b).vdev_id (s.req b).type)
      = (take (fired s b) .wma_hold_req_queue b, some b) := find_of_first hf
  have hreq' : (take (fired s b) .wma_hold_req_queue b).req b = s.req b := rfl
  unfold wma_hold_req_timer wma_find_req
  dsimp only
  rw [hreq, hfind]
  refine Or.inr ⟨b, hf, ?_⟩
  rcases hkind with ⟨-, hm | hm⟩ | ⟨hm, ht⟩
  · rw [carried_of (by simp [hm]) (by simp [hm])] at htaken
    rw [hm]
    exact htaken.answer (by rw [hreq', hm]; simp)
  · rw [carried_of (by simp [hm]) (by simp [hm])] at htaken
    rw [hm]
    exact htaken.answer (by rw [hreq', hm]; simp)
  · have ht' : (s.req b).type = WMA_DELETE_STA_RSP_START := ht.resolve_right (fun ht => hok ⟨hm, ht⟩)
    rw [carried_of (by simp [hm]) (by simp [hm])] at htaken
    rw [hm]
    dsimp only
    rw [if_pos ht']
    exact htaken.answer (by rw [hreq', hm]; simp)

/-- A command that is not sent is not taken for an older one. -/
def SendOk (s : State) (v type : Nat) (e : Env) : Prop :=
  e.malloc = true → e.send = false → first s .vdev_resp_queue (isType v type) = none
deriving Decidable

def VdevTimeoutOk (sync : Bool) (max_bssid : Nat) (s : State) (r : TargetReq) (e : Env) : Prop :=
  e.pdev = true ∧
  (r.msg_type = .WMA_DELETE_BSS_REQ → StopOk sync max_bssid s r.vdev_id e) ∧
  (r.msg_type = .WMA_DEL_STA_SELF_REQ → (s.interfaces r.user_data).del_staself_req ≠ none) ∧
  (r.msg_type = .WMA_ADD_BSS_REQ → e.paramsMalloc = true →
    SendOk s r.vdev_id WMA_TARGET_REQ_TYPE_VDEV_STOP e)

theorem undone_requests (s : State) (q : Queue) (ok : TargetReq → Bool) :
    (freeFound (find s q ok)).requests = s.requests := by
  unfold find
  cases first s q ok with
  | none => rfl
  | some b =>
    dsimp only [freeFound]
    rw [free_eq]; rfl

/-- The timeout of an ADD_BSS answers it and asks for a stop with parameters of its own. -/
theorem Inv.addBssTimeout {d : Nat} (h : Inv t [b] [p]) (hd : d ∉ t.allocated) (m : Params)
    (hm : (t.req b).msg_type ≠ .WMA_DEL_STA_SELF_REQ) (hb : b < t.used)
    (hok : SendOk t v WMA_TARGET_REQ_TYPE_VDEV_STOP e) :
    ∀ s', s' = (if e.malloc then
        if e.send then
          free (wma_send_msg (wma_fill_vdev_req (alloc t d m) v .WMA_DELETE_BSS_REQ
            WMA_TARGET_REQ_TYPE_VDEV_STOP d) p) b
        else
          free (wma_send_msg (wma_remove_vdev_req (wma_fill_vdev_req (alloc t d m) v
            .WMA_DELETE_BSS_REQ WMA_TARGET_REQ_TYPE_VDEV_STOP d) v
            WMA_TARGET_REQ_TYPE_VDEV_STOP) p) b
      else free (wma_send_msg (alloc t d m) p) b) →
    Inv s' [] [] ∧ Keeps t s' := by
  rintro s' rfl
  have hd' : d ∉ t.requests := fun hr => hd (h.known d hr)
  have halloc : Inv (alloc t d m) [b] (d :: [p]) := h.allocate hd m
  have hkind : Kind .vdev_resp_queue ⟨v, .WMA_DELETE_BSS_REQ, WMA_TARGET_REQ_TYPE_VDEV_STOP, d,
      .vdev_resp_queue⟩ := Or.inr (Or.inl ⟨rfl, rfl⟩)
  have hclose : ∀ t', Next (alloc t d m) t' [b] [p] →
      Inv (free (wma_send_msg t' p) b) [] [] ∧ Keeps t (free (wma_send_msg t' p) b) := by
    intro t' hnext
    have hreq : t'.req b = t.req b := hnext.reqs b hb
    have hfreed := hnext.send.release (fun v hd => absurd hd.1 (by
      show ¬ (t'.req b).msg_type = _
      rw [hreq]; exact hm))
    exact ⟨hfreed.inv, hfreed.keeps⟩
  split
  · split
    · apply hclose; exact ⟨halloc.filled hkind, keeps_fill _ _ _, fill_reqs _ _ _⟩
    · rename_i hmalloc hsend
      apply hclose
      have hundone := @Inv.undone (alloc t d m) [b] [p] .vdev_resp_queue
        ⟨v, .WMA_DELETE_BSS_REQ, WMA_TARGET_REQ_TYPE_VDEV_STOP, d, .vdev_resp_queue⟩ _ halloc hkind
        (hok hmalloc (eq_false_of_ne_true hsend)) (isType_iff.mpr ⟨rfl, rfl⟩) (by simp)
      refine ⟨hundone.inv.drop ?_, hundone.keeps, hundone.reqs⟩
      rw [undone_requests]; exact hd'
  · apply hclose; exact Next.start (halloc.drop hd')

/-- The timeout of a vdev request answers it, one case for each message type. -/
theorem Inv.vdevTimer {d : Nat} (h : Inv s [] []) (hd : d ∉ s.allocated)
    (hf : first s .vdev_resp_queue (isType (s.req b).vdev_id (s.req b).type) = some b)
    (hok : VdevTimeoutOk sync max_bssid s (s.req b) e) :
    Handled s (wma_vdev_resp_timer sync max_bssid (fired s b) b d e) .vdev_resp_queue
      (isType (s.req b).vdev_id (s.req b).type) := by
  obtain ⟨hpdev, hstop, hself, hadd⟩ := hok
  obtain ⟨htaken, hkind⟩ := h.foundFired hf
  have hreq : (fired s b).req b = s.req b := rfl
  have hfind : find (fired s b) .vdev_resp_queue (isType (s.req b).vdev_id (s.req b).type)
      = (take (fired s b) .vdev_resp_queue b, some b) := find_of_first hf
  have hreq' : (take (fired s b) .vdev_resp_queue b).req b = s.req b := rfl
  have hused : b < s.used := h.used_of_mem (mem_of_first hf).1
  unfold wma_vdev_resp_timer wma_find_vdev_req
  rw [if_neg (by simp [hpdev]), hreq, hfind]
  refine Or.inr ⟨b, hf, ?_⟩
  rcases hkind with ⟨-, hm | hm | hm⟩ | ⟨-, hm⟩ | ⟨-, hm, hdata⟩
  · rw [carried_of (by simp [hm]) (by simp [hm])] at htaken
    rw [hm]
    dsimp only
    have hne : ((take (fired s b) .vdev_resp_queue b).req b).msg_type ≠ .WMA_DEL_STA_SELF_REQ := by
      rw [hreq', hm]; simp
    by_cases hparams : e.paramsMalloc = false
    · rw [if_pos hparams]; exact htaken.answer hne
    · rw [if_neg hparams]
      have hsend : SendOk (take (fired s b) .vdev_resp_queue b) (s.req b).vdev_id
          WMA_TARGET_REQ_TYPE_VDEV_STOP e :=
        fun hm' hs' => first_take_none (s := fired s b)
          (hadd hm (by simpa using hparams) hm' hs') _ b
      exact htaken.addBssTimeout hd _ hne hused hsend _ rfl
  · rw [carried_of (by simp [hm]) (by simp [hm])] at htaken
    rw [hm]
    exact htaken.answer (by rw [hreq', hm]; simp)
  · rw [carried, if_pos (Or.inr hm)] at htaken
    rw [hm]
    exact htaken.freeOnly (by rw [hreq', hm]; simp)
  · obtain ⟨-, hmax, hhandle, hdel⟩ := hstop hm
    rw [carried_of (by simp [hm]) (by simp [hm])] at htaken
    rw [hm]
    dsimp only
    have hh : ¬ ((take (fired s b) .vdev_resp_queue b).interfaces (s.req b).vdev_id).handle
        = false := by show ¬ (s.interfaces (s.req b).vdev_id).handle = false; simp [hhandle]
    rw [if_neg (by omega), if_neg hh]
    have hdelok : (s.interfaces (s.req b).vdev_id).del_staself_req ≠ none →
        DelOk sync (take (fired s b) .vdev_resp_queue b) (s.req b).vdev_id :=
      fun hne => DelOk.take (s := fired s b) (hdel hne).2 _ b
    exact htaken.send.stopped hm hused (fun hne => ⟨hhandle, (hdel hne).1, hdelok hne⟩)
  · have hne := hself hm
    rw [carried, if_pos (Or.inl hm)] at htaken
    rw [hm]
    dsimp only
    have hiface : (take (fired s b) .vdev_resp_queue b).interfaces = s.interfaces := rfl
    rw [hiface]
    cases hp : (s.interfaces (s.req b).user_data).del_staself_req with
    | none => exact absurd hp hne
    | some p =>
      have htake : Inv (setIface (take (fired s b) .vdev_resp_queue b) (s.req b).user_data
          TxrxNode.zero) [b] [p] := htaken.takeUp hp rfl
      have hnext := (Next.start htake).send.release (fun v' hd => by
        have hvv : (s.req b).user_data = v' := hdata.trans hd.2
        rw [← hvv]
        show ((setIface (take (fired s b) .vdev_resp_queue b) (s.req b).user_data
          TxrxNode.zero).interfaces (s.req b).user_data).del_staself_req = none
        rw [setIface_self]; rfl)
      exact ⟨hnext.inv, hnext.keeps⟩

/-! ## Requests of the UMAC -/

/-- Memory that is not there is not made up for by an older request. -/
def MallocOk (s : State) (v type : Nat) (e : Env) : Prop :=
  e.malloc = true ∨ first s .wma_hold_req_queue (isType v type) = none
deriving Decidable

/-- A request that is filled is sent, or taken back and answered at once. -/
theorem Inv.vdevRequest {m : MsgType} {type : Nat} (h : Inv s [] [p])
    (hk : Kind .vdev_resp_queue ⟨v, m, type, p, .vdev_resp_queue⟩)
    (hm : m ≠ .WMA_DEL_STA_SELF_REQ) (hm' : m ≠ .WMA_OCB_SET_CONFIG_CMD)
    (hok : SendOk s v type e) : Next s (vdevRequest s v m type p e) [] [] := by
  have hcarried : carried (⟨v, m, type, p, .vdev_resp_queue⟩ : TargetReq) = [p] :=
    carried_of hm hm'
  have htoken : Inv s [] (carried (⟨v, m, type, p, .vdev_resp_queue⟩ : TargetReq) ++ []) := by
    rw [hcarried]; exact h
  unfold WmaReq.vdevRequest
  split
  · rename_i hmem
    split
    · exact ⟨htoken.filled hk, keeps_fill _ _ _, fill_reqs _ _ _⟩
    · rename_i hsend
      have hundone := htoken.undone hk (hok hmem (eq_false_of_ne_true hsend))
        (isType_iff.mpr ⟨rfl, rfl⟩) hm
      rw [hcarried] at hundone; exact hundone.send
  · exact (Next.start h).send

/-- So is one that waits for the confirmation of a peer. -/
theorem Inv.assocRequest {m : MsgType} (h : Inv s [] [p])
    (hk : Kind .wma_hold_req_queue ⟨v, m, WMA_PEER_ASSOC_CNF_START, p, .wma_hold_req_queue⟩)
    (hm : m ≠ .WMA_DEL_STA_SELF_REQ) (hm' : m ≠ .WMA_OCB_SET_CONFIG_CMD)
    (hok : MallocOk s v WMA_PEER_ASSOC_CNF_START e) : Next s (assocRequest s v m p e) [] [] := by
  have htoken : Inv s [] (carried
      (⟨v, m, WMA_PEER_ASSOC_CNF_START, p, .wma_hold_req_queue⟩ : TargetReq) ++ []) := by
    rw [carried_of hm hm']; exact h
  unfold WmaReq.assocRequest
  split
  · exact ⟨htoken.filled hk, keeps_fill _ _ _, fill_reqs _ _ _⟩
  · rename_i hmem
    unfold wma_remove_req wma_find_req
    rw [remove_none (hok.resolve_left hmem)]; exact (Next.start h).send

/-- A peer deletion that gets no memory answers at once, if an answer is asked for. -/
theorem Inv.deleteSta (h : Inv s [] [p]) (hp : (s.param p).respReqd = false → p ∉ s.requests)
    (hok : MallocOk s v WMA_DELETE_STA_RSP_START e) :
    Next s (wma_delete_sta_req_ap_mode s v p e) [] [] := by
  unfold wma_delete_sta_req_ap_mode
  split
  · refine ⟨?_, keeps_fill _ _ _, fill_reqs _ _ _⟩
    apply Inv.filled
    · exact h
    · exact Or.inr ⟨rfl, Or.inl rfl⟩
  · rename_i hmem
    unfold wma_remove_req wma_find_req
    rw [remove_none (hok.resolve_left hmem)]
    dsimp only
    split
    · exact (Next.start h).send
    · rename_i hr; exact Next.start (h.drop (hp (eq_false_of_ne_true hr)))

theorem Inv.ocb (h : Inv s [] []) (hok : SendOk s v WMA_TARGET_REQ_TYPE_VDEV_START e) :
    Next s (wma_ocb_set_config_req s v p e) [] [] := by
  have hk : Kind .vdev_resp_queue ⟨v, .WMA_OCB_SET_CONFIG_CMD, WMA_TARGET_REQ_TYPE_VDEV_START, p,
      .vdev_resp_queue⟩ := Or.inl ⟨rfl, Or.inr (Or.inr rfl)⟩
  unfold wma_ocb_set_config_req
  split
  · rename_i hmem
    split
    · exact ⟨@Inv.filled s [] [] .vdev_resp_queue
        ⟨v, .WMA_OCB_SET_CONFIG_CMD, WMA_TARGET_REQ_TYPE_VDEV_START, p, .vdev_resp_queue⟩ h hk,
          keeps_fill _ _ _, fill_reqs _ _ _⟩
    · rename_i hsend
      exact @Inv.undone s [] [] .vdev_resp_queue
        ⟨v, .WMA_OCB_SET_CONFIG_CMD, WMA_TARGET_REQ_TYPE_VDEV_START, p, .vdev_resp_queue⟩ _ h hk
        (hok hmem (eq_false_of_ne_true hsend))
        (isType_iff.mpr ⟨rfl, rfl⟩) (by simp)
  · exact Next.start h

/-! ## Runs -/

/-- The peer that the parameters of a request name. -/
def peerOf (s : State) (b : Nat) : Nat := (s.param (s.req b).user_data).peer

def Ok (sync : Bool) (max_bssid : Nat) (s : State) (e : Step) : Prop :=
  match e.op with
  | .vdevAttach _ _ => True
  | .addBss v _ quit =>
    (quit = true → e.env.malloc = false) ∧ SendOk s v WMA_TARGET_REQ_TYPE_VDEV_START e.env
  | .addBssStaMode v _ _ => MallocOk s v WMA_PEER_ASSOC_CNF_START e.env
  | .setChannel v _ => SendOk s v WMA_TARGET_REQ_TYPE_VDEV_START e.env
  | .ocbSetConfigReq v _ => SendOk s v WMA_TARGET_REQ_TYPE_VDEV_START e.env
  | .deleteBss v _ => SendOk s v WMA_TARGET_REQ_TYPE_VDEV_STOP e.env
  | .addSta v _ _ => MallocOk s v WMA_PEER_ASSOC_CNF_START e.env
  | .deleteSta v _ _ _ => MallocOk s v WMA_DELETE_STA_RSP_START e.env
  | .delStaSelf v _ _ => DetachOk sync s v e.env
  | .bssStarted _ => True
  | .vdevStartResp v => StartOk s v e.env
  | .vdevStopResp v =>
    ∀ b, b ∈ first s .vdev_resp_queue (isType v WMA_TARGET_REQ_TYPE_VDEV_STOP) →
      s.timer b = .RUNNING ∧ StopOk sync max_bssid s v e.env
  | .vdevDeleteResp v =>
    ∀ b, b ∈ first s .vdev_resp_queue (isType v WMA_TARGET_REQ_TYPE_VDEV_DEL) →
      s.timer b = .RUNNING ∧ sync = true
  | .peerAssocConf v peer =>
    ∀ b, b ∈ first s .wma_hold_req_queue (isType v WMA_PEER_ASSOC_CNF_START) →
      s.timer b = .RUNNING ∧ peerOf s b = peer
  | .peerDeleteResp v peer =>
    ∀ b, b ∈ first s .wma_hold_req_queue (isMsgType v .WMA_DELETE_STA_REQ) →
      (s.timer b = .RUNNING ∧ SelfPeerOk sync s b) ∧ peerOf s b = peer
  | .expiry _ => True
  | .timeout b _ =>
    first s (s.req b).callback (isType (s.req b).vdev_id (s.req b).type) = some b ∧
      match (s.req b).callback with
      | .wma_hold_req_queue => ¬ ((s.req b).msg_type = .WMA_DELETE_STA_REQ ∧
          (s.req b).type = WMA_DEL_P2P_SELF_STA_RSP_START)
      | .vdev_resp_queue => VdevTimeoutOk sync max_bssid s (s.req b) e.env

instance : Decidable (DelOk sync s v) := inferInstanceAs (Decidable (_ ∨ _))

instance : Decidable (DetachOk sync s v e) := inferInstanceAs (Decidable (_ ∧ _ ∧ _))

instance : Decidable (StopOk sync max_bssid s v e) :=
  inferInstanceAs (Decidable (_ ∧ _ ∧ _ ∧ _))

instance : Decidable (VdevTimeoutOk sync max_bssid s r e) :=
  inferInstanceAs (Decidable (_ ∧ _ ∧ _ ∧ _))

instance : Decidable (SelfPeerOk sync s b) := inferInstanceAs (Decidable (_ → _ ∧ _))

instance (sync : Bool) (max_bssid : Nat) (s : State) (e : Step) :
    Decidable (Ok sync max_bssid s e) := by
  obtain ⟨op, env⟩ := e
  cases op with
  | timeout b quit =>
    refine @instDecidableAnd _ _ inferInstance ?_
    split <;> infer_instance
  | _ => unfold Ok; infer_instance

/-- The event or timeout is the one that the request waits for, the peer's address included. -/
def Concerns (s : State) (b : Nat) : Op → Prop
  | .vdevStartResp v => isType v WMA_TARGET_REQ_TYPE_VDEV_START (s.req b) = true
  | .vdevStopResp v => isType v WMA_TARGET_REQ_TYPE_VDEV_STOP (s.req b) = true
  | .vdevDeleteResp v => isType v WMA_TARGET_REQ_TYPE_VDEV_DEL (s.req b) = true
  | .peerAssocConf v peer =>
    isType v WMA_PEER_ASSOC_CNF_START (s.req b) = true ∧ peerOf s b = peer
  | .peerDeleteResp v peer => isMsgType v .WMA_DELETE_STA_REQ (s.req b) = true ∧ peerOf s b = peer
  | .timeout b' _ => b = b'
  | _ => False

/-- What a step keeps: the invariant, and that only a request it concerns leaves its queue. -/
def Stepped (s s' : State) (op : Op) : Prop :=
  Inv s' [] [] ∧ ∀ q b, b ∈ s.queue q → b ∉ s'.queue q → Concerns s b op

theorem stepped_of_next {op : Op} (h : Next t s' [] []) (hq : t.queue = s.queue) :
    Stepped s s' op :=
  ⟨h.inv, fun q b hb hb' => absurd (h.keeps q b (hq ▸ hb)) hb'⟩

theorem stepped_of_handled {op : Op} (hs : Inv s [] []) (h : Handled s s' q ok)
    (hop : ∀ b, first s q ok = some b → Concerns s b op) : Stepped s s' op :=
  ⟨h.inv hs, fun _ b hb hb' => hop b (h.leaves hb hb')⟩

/-- A request of the UMAC comes with parameters of its own. -/
theorem Inv.stepped_ask {op : Op} {peer : Nat} (h : Inv s [] []) (f : State → State)
    (hs : (if p ∉ s.allocated then some (f (ask s p v peer)) else none) = some s')
    (hf : Inv (ask s p v peer) [] [p] → Next (ask s p v peer) (f (ask s p v peer)) [] []) :
    Stepped s s' op := by
  obtain ⟨hp, hs⟩ := ite_none_right_eq_some.mp hs
  rw [← some.inj hs]; exact stepped_of_next (hf (h.asked hp v peer)) rfl

/-- **Step lemma.** One case for each request of the UMAC, each event and each timeout. -/
theorem Inv.step {e : Step} (h : Inv s [] []) (hok : Ok sync max_bssid s e)
    (hs : step sync max_bssid s e = some s') : Stepped s s' e.op := by
  obtain ⟨op, env⟩ := e
  cases op with
  | vdevAttach v d =>
    simp only [WmaReq.step, ite_none_right_eq_some, some.injEq] at hs
    rw [← hs.2]; exact ⟨h.iface_none hs.1.2 rfl, fun _ b hb hb' => absurd hb hb'⟩
  | addBss v p quit =>
    refine h.stepped_ask (wma_add_bss · v p quit env) hs fun hask => ?_
    unfold wma_add_bss
    rw [if_neg]
    · exact hask.vdevRequest (Or.inl ⟨rfl, Or.inl rfl⟩) (by simp) (by simp) hok.2
    · rintro ⟨hquit, hmem⟩
      have hno := hok.1 hquit
      rw [hno] at hmem; exact absurd hmem (by decide)
  | addBssStaMode v p peer =>
    refine h.stepped_ask (wma_add_bss_sta_mode · v p env) hs fun hask => ?_
    exact hask.assocRequest (Or.inl ⟨rfl, Or.inr rfl⟩) (by simp) (by simp) hok
  | setChannel v p =>
    refine h.stepped_ask (wma_set_channel · v p env) hs fun hask => ?_
    exact hask.vdevRequest (Or.inl ⟨rfl, Or.inr (Or.inl rfl)⟩) (by simp) (by simp) hok
  | ocbSetConfigReq v p => rw [← some.inj hs]; exact stepped_of_next (h.ocb hok) rfl
  | deleteBss v p =>
    refine h.stepped_ask (wma_delete_bss · v p env) hs fun hask => ?_
    exact hask.vdevRequest (Or.inr (Or.inl ⟨rfl, rfl⟩)) (by simp) (by simp) hok
  | addSta v p peer =>
    refine h.stepped_ask (wma_add_sta · v p env) hs fun hask => ?_
    exact hask.assocRequest (Or.inl ⟨rfl, Or.inl rfl⟩) (by simp) (by simp) hok
  | deleteSta v p peer respReqd =>
    simp only [WmaReq.step, ite_none_right_eq_some, some.injEq] at hs
    rw [← hs.2]
    cases respReqd with
    | true =>
      apply stepped_of_next (s := s) (t := ask s p v peer) _ rfl
      apply (h.asked hs.1 v peer).deleteSta _ hok
      intro hr; exact absurd hr (by simp [ask, alloc])
    | false =>
      apply stepped_of_next (s := s) (t := alloc s p ⟨v, peer, false, false⟩) _ rfl
      apply (h.allocate hs.1 ⟨v, peer, false, false⟩).deleteSta _ hok
      intro _ hr; exact hs.1 (h.known p hr)
  | delStaSelf v p mac =>
    refine h.stepped_ask (wma_vdev_detach sync · p env) hs fun hask => ?_
    apply hask.detach (v := v)
    · simp [ask, alloc]
    · exact hok
  | bssStarted v =>
    rw [← some.inj hs]
    exact ⟨h.iface_same rfl (fun _ _ => rfl), fun _ b hb hb' => absurd hb hb'⟩
  | vdevStartResp v =>
    rw [← some.inj hs]
    exact stepped_of_handled h (h.startResp hok) (fun b hb => (mem_of_first hb).2)
  | vdevStopResp v =>
    rw [← some.inj hs]
    exact stepped_of_handled h (h.stopResp hok) (fun b hb => (mem_of_first hb).2)
  | vdevDeleteResp v =>
    rw [← some.inj hs]
    exact stepped_of_handled h (h.deleteResp hok) (fun b hb => (mem_of_first hb).2)
  | peerAssocConf v peer =>
    rw [← some.inj hs]
    exact stepped_of_handled h (h.assocConf (fun b hb => (hok b hb).1))
      (fun b hb => ⟨(mem_of_first hb).2, (hok b hb).2⟩)
  | peerDeleteResp v peer =>
    rw [← some.inj hs]
    exact stepped_of_handled h (h.peerDelete (fun b hb => (hok b hb).1))
      (fun b hb => ⟨(mem_of_first hb).2, (hok b hb).2⟩)
  | expiry b =>
    simp only [WmaReq.step, ite_none_right_eq_some, some.injEq] at hs
    rw [← hs.2]; exact ⟨h.expire hs.1, fun _ b hb hb' => absurd hb hb'⟩
  | timeout b d =>
    simp only [WmaReq.step, ite_none_right_eq_some] at hs
    obtain ⟨⟨-, hd⟩, hs⟩ := hs
    obtain ⟨hf, hok⟩ := hok
    cases hq : (s.req b).callback with
    | wma_hold_req_queue =>
      rw [hq] at hs hf hok
      rw [← some.inj hs]
      exact stepped_of_handled h (h.holdTimer hf hok) (fun c hc => some.inj (hc.symm.trans hf))
    | vdev_resp_queue =>
      rw [hq] at hs hf hok
      rw [← some.inj hs]
      exact stepped_of_handled h (h.vdevTimer hd hf hok) (fun c hc => some.inj (hc.symm.trans hf))

/-- The UMAC waits for the response: the parameters are those of a queued request, or the deletion
is held back until the BSS is stopped, or until its own request is answered. -/
def Pending (s : State) (p : Nat) : Prop :=
  (∃ q b, b ∈ s.queue q ∧ p ∈ carried (s.req b)) ∨
    ∃ v, (s.interfaces v).del_staself_req = some p ∧
      ((s.interfaces v).bssStarted = true ∨ ∃ b ∈ s.queue .vdev_resp_queue, Deletes s v b)

/-- A request is in one queue with its timer not stopped, or was freed once. -/
theorem Inv.accounted (h : Inv s [] []) (hb : b < s.used) :
    (∃ q, (s.queue q).count b = 1 ∧ (∀ q', b ∈ s.queue q' → q' = q) ∧
      s.timer b ≠ .STOPPED ∧ b ∉ s.freed) ∨
    (s.freed.count b = 1 ∧ (∀ q, b ∉ s.queue q) ∧ s.timer b = .STOPPED) := by
  obtain ⟨k, hk⟩ := (h.all b).mp hb
  cases k with
  | queue q =>
    refine Or.inl ⟨q, count_eq_one_of_mem (h.blocks.nodup (.queue q)) hk, ?_, h.queued q b hk, ?_⟩
    · intro q' hq'
      have hqq := h.blocks.unique (i := .queue q') (j := .queue q) hq' hk
      exact BlockPlace.queue.inj hqq
    · intro hf; exact absurd (h.blocks.unique (i := .freed) (j := .queue q) hf hk) (by simp)
  | freed =>
    refine Or.inr ⟨count_eq_one_of_mem (h.blocks.nodup .freed) hk, ?_, h.freed b hk⟩
    intro q hq; exact absurd (h.blocks.unique (i := .freed) (j := .queue q) hk hq) (by simp)
  | hand => cases hk

/-- Parameters are pending if a queued request or an interface holds them. -/
theorem Inv.pending_iff (h : Inv s [] []) :
    Pending s p ↔ (∃ b, p ∈ tokensIn s [] (.req b)) ∨ ∃ v, p ∈ tokensIn s [] (.iface v) := by
  apply or_congr
  · constructor
    · rintro ⟨q, b, hb, hp⟩
      refine ⟨b, ?_⟩
      simp only [tokensIn, if_pos (queued_of_mem hb)]
      exact hp
    · rintro ⟨b, hb⟩
      by_cases hq : Queued s b
      · simp only [tokensIn, if_pos hq] at hb
        rcases hq with hq | hq
        · exact ⟨_, b, hq, hb⟩
        · exact ⟨_, b, hq, hb⟩
      · simp only [tokensIn, if_neg hq] at hb; cases hb
  · constructor
    · rintro ⟨v, hv, -⟩; exact ⟨v, by simp [tokensIn, hv]⟩
    · rintro ⟨v, hv⟩
      have hdel : (s.interfaces v).del_staself_req = some p := by
        simpa [tokensIn, mem_toList] using hv
      refine ⟨v, hdel, ?_⟩
      rcases h.waits v p hdel with hw | ⟨b, hb, hd⟩
      · exact Or.inl hw
      · exact Or.inr ⟨b, hb.resolve_right not_mem_nil, hd⟩

/-- Parameters are answered once, or are still held and not answered. -/
theorem Inv.answered (h : Inv s [] []) (hp : p ∈ s.requests) :
    s.rsp.count p = 1 ∧ ¬ Pending s p ∨ p ∉ s.rsp ∧ Pending s p := by
  obtain ⟨k, hk⟩ := h.requests p hp
  cases k with
  | req b =>
    refine Or.inr ⟨?_, h.pending_iff.mpr (Or.inl ⟨b, hk⟩)⟩
    intro hr; exact absurd (h.tokens.unique hk (show p ∈ tokensIn s [] .rsp from hr)) (by simp)
  | iface v =>
    refine Or.inr ⟨?_, h.pending_iff.mpr (Or.inr ⟨v, hk⟩)⟩
    intro hr; exact absurd (h.tokens.unique hk (show p ∈ tokensIn s [] .rsp from hr)) (by simp)
  | rsp =>
    refine Or.inl ⟨count_eq_one_of_mem (h.tokens.nodup .rsp) hk, ?_⟩
    intro hpend
    rcases h.pending_iff.mp hpend with ⟨b, hb⟩ | ⟨v, hv⟩
    · exact absurd (h.tokens.unique hk hb) (by simp)
    · exact absurd (h.tokens.unique hk hv) (by simp)
  | hand => cases hk

/-- **Every request is answered once.** While the steps meet their conditions, a request is in one
queue with its timer, or freed once; what the UMAC asked for is pending, or has one response; and a
request leaves its queue only with an event or a timeout that is its own. -/
theorem requests_run {es : List Step}
    (h : run (guarded (Ok sync max_bssid) (step sync max_bssid)) init es = some s) :
    (∀ b < s.used,
      (∃ q, (s.queue q).count b = 1 ∧ (∀ q', b ∈ s.queue q' → q' = q) ∧
        s.timer b ≠ .STOPPED ∧ b ∉ s.freed) ∨
      (s.freed.count b = 1 ∧ (∀ q, b ∉ s.queue q) ∧ s.timer b = .STOPPED)) ∧
    (∀ p ∈ s.requests, s.rsp.count p = 1 ∧ ¬ Pending s p ∨ p ∉ s.rsp ∧ Pending s p) ∧
    ∀ e s', Ok sync max_bssid s e → step sync max_bssid s e = some s' →
      ∀ q b, b ∈ s.queue q → b ∉ s'.queue q → Concerns s b e.op := by
  have hinv : Inv s [] [] :=
    guarded_run_invariant (I := fun s => Inv s [] [])
      (fun _ _ _ hs hok hst => (hs.step hok hst).1) init_inv h
  refine ⟨?_, ?_, ?_⟩
  · intro b hb; exact hinv.accounted hb
  · intro p hp; exact hinv.answered hp
  · intro e s' hok hs; exact (hinv.step hok hs).2

def fine (o : Op) : Step := ⟨o, ⟨true, true, true, true, true, true⟩⟩

/-- Two stations are added at once, and the removal of the interface waits for that of the BSS. -/
def apRun : List Op :=
  [.vdevAttach 0 false, .addBss 0 10 false, .vdevStartResp 0, .addSta 0 11 5, .addSta 0 14 6,
    .peerAssocConf 0 5, .peerAssocConf 0 6, .delStaSelf 0 13 9, .deleteBss 0 12, .vdevStopResp 0,
    .vdevDeleteResp 0]

theorem requests_run_ap :
    ∃ s, run (guarded (Ok true 4) (step true 4)) init (apRun.map fine) = some s ∧
      s.rsp = [10, 11, 14, 12, 13] ∧ s.freed = [0, 1, 2, 3, 4] ∧
      (s.rsp.count 13 = 1 ∧ ¬ Pending s 13 ∨ 13 ∉ s.rsp ∧ Pending s 13) := by
  refine ⟨_, rfl, rfl, rfl, ?_⟩
  exact (@requests_run _ true 4 (apRun.map fine) rfl).2.1 13 (by decide)

/-- A response that comes when the timer has just expired frees the request, which the timer frees
once more. Of two stations that are added, the second one's timer takes the request of the first
one off the queue, and frees its own, which stays there. -/
theorem second_free :
    (∃ s, run (step true 4) init ([Op.vdevAttach 0 false, Op.addBss 0 10 false, Op.expiry 0,
        Op.vdevStartResp 0, Op.timeout 0 20].map fine) = some s ∧ s.freed = [0, 0]) ∧
    ∃ s, run (step true 4) init ([Op.vdevAttach 0 false, Op.addSta 0 11 5, Op.addSta 0 12 6,
        Op.expiry 1, Op.timeout 1 20].map fine) = some s ∧
      s.freed = [1] ∧ s.queue .wma_hold_req_queue = [1] ∧ s.rsp = [12] := by
  constructor
  · exact ⟨_, rfl, rfl⟩
  · exact ⟨_, rfl, rfl, rfl, rfl⟩

end Qcacld.WmaReq
