/-
A run of the tx scheduler of high-latency systems: `ol_tx_sched` of `ol_tx_sched.c`, with
`ol_tx_send_batch` of `ol_tx_send.c` and `htt_tx_send_batch` of `htt_tx.c`.

HTT refuses a frame when it has no packet for it; what it refused comes back as a list, and its
credit is returned. The credit of a queue's groups is debited with that of the target, and not
returned here. The builds are those without ATH_11AC_TXCOMPACT and TX_CREDIT_RECLAIM_SUPPORT. The
lock is held for each batch and not for the run; what others do to the credit in between is not part
of the run.
-/
import Qcacld.Lib.Chain
import Qcacld.TxGroups
import Qcacld.TxSchedSelect

set_option autoImplicit false

namespace Qcacld.TxDispatch

open Lib TxSched Function List Option

/-! ## Data -/

/-- `htt_tx_msdu_credit`: it is 1 for every frame. -/
def htt_tx_msdu_credit (msdu : TxDesc) : Nat := msdu.credit

def creditOf (frames : List TxDesc) : Nat := (frames.map htt_tx_msdu_credit).sum

/-- A call of `htt_tx_send_base`. -/
structure Sent where
  msdu : TxDesc
  msdu_id : Nat
  more_data : UInt8

/-- The netbufs and their descriptors, which go by the same name, and what has been done with
them. -/
structure Htt where
  /-- `cdf_nbuf_next`. -/
  next : TxDesc → Option TxDesc
  /-- What `ol_tx_msdu_id_storage` points to. -/
  msdu_id : TxDesc → Nat
  ref_cnt : TxDesc → Nat
  target_tx_credit : Int
  sent : List Sent
  /-- The descriptors that `ol_tx_desc_frame_free_nonstd` was called for. -/
  freed : List Nat

/-- What a run depends on: the groups of the queues, the limits of bad peers at each batch, whether
the netbuf of a frame has a place for its msdu id, and at which calls HTT finds no packet. -/
structure Env where
  group_flow_control : Bool
  group : TxqId → TxGroups.Txq
  tx_limit : Nat → TxqId → Option Nat
  msdu_id_storage : TxDesc → Bool
  no_pkt : Nat → Bool

structure State where
  sched : TxSched.Pdev
  grps : TxGroups.Pdev
  htt : Htt
  /-- `tx_sched_status`. -/
  idle : Bool

def Htt.set_next (s : Htt) (msdu : TxDesc) (p : Option TxDesc) : Htt :=
  { s with next := update s.next msdu p }

def ol_tx_target_credit_incr (s : Htt) (msdu : TxDesc) : Htt :=
  { s with target_tx_credit := s.target_tx_credit + htt_tx_msdu_credit msdu }

def ol_tx_desc_frame_free_nonstd (s : Htt) (id : Nat) : Htt := { s with freed := s.freed ++ [id] }

/-! ## Sending -/

variable (env : Env)

def htt_tx_send_base (s : Htt) (msdu : TxDesc) (msdu_id : Nat) (more_data : UInt8) : Htt × Bool :=
  ({ s with sent := s.sent ++ [⟨msdu, msdu_id, more_data⟩] }, env.no_pkt s.sent.length)

def htt_tx_send_std (s : Htt) (msdu : TxDesc) (msdu_id : Nat) : Htt × Bool :=
  htt_tx_send_base env s msdu msdu_id 0

/-- The loop of `htt_tx_send_batch`; no result if it comes to a NULL netbuf. -/
def htt_tx_send_batch :
    Nat → Htt → Option TxDesc → Option TxDesc → Option (Htt × Option TxDesc)
  | 0, s, _, rejected => some (s, rejected)
  | _ + 1, _, none, _ => none
  | num_msdus + 1, s, some msdu, rejected =>
    let next_msdu := s.next msdu
    let r := htt_tx_send_base env s msdu (s.msdu_id msdu) (UInt8.ofNat num_msdus)
    if r.2 then htt_tx_send_batch num_msdus (r.1.set_next msdu rejected) next_msdu (some msdu)
    else htt_tx_send_batch num_msdus r.1 next_msdu rejected

def rejectedLoop : Nat → Htt → Option TxDesc → Option Htt
  | _, s, none => some s
  | 0, _, some _ => none
  | fuel + 1, s, some rejected =>
    let next := s.next rejected
    let s := ol_tx_target_credit_incr s rejected
    rejectedLoop fuel (ol_tx_desc_frame_free_nonstd s (s.msdu_id rejected)) next

/-- No more frames are rejected than are sent. -/
def ol_tx_send_batch (s : Htt) (head_msdu : Option TxDesc) (num_msdus : Nat) : Option Htt :=
  (htt_tx_send_batch env num_msdus s head_msdu none).bind fun r => rejectedLoop num_msdus r.1 r.2

def sendPrior (s : Htt) (head_msdu : Option TxDesc) (num_msdus : Nat) : Option Htt :=
  if head_msdu.isSome then ol_tx_send_batch env s head_msdu num_msdus else some s

def sendSingle (s : Htt) (msdu : TxDesc) : Htt :=
  let r := htt_tx_send_std env s msdu msdu.id
  if r.2 then ol_tx_desc_frame_free_nonstd (ol_tx_target_credit_incr r.1 msdu) msdu.id else r.1

/-- The loop of `ol_tx_sched_dispatch`, over `sctx->frms` and `sctx->head`. -/
def dispatchLoop :
    Nat → List TxDesc → Htt → Option TxDesc → Option TxDesc → Nat → Option Htt
  | 0, _, s, _, head_msdu, num_msdus => sendPrior env s head_msdu num_msdus
  -- there are not enough descriptors
  | _ + 1, [], s, _, head_msdu, num_msdus => sendPrior env s head_msdu num_msdus
  | frms + 1, msdu :: head, s, prev, head_msdu, num_msdus =>
    let head_msdu := head_msdu.or (some msdu)
    let s := match prev with
      | some p => s.set_next p (some msdu)
      | none => s
    let s := { s with ref_cnt := update s.ref_cnt msdu 2 }
    if env.msdu_id_storage msdu = false then
      -- send the prior frames as a batch, then this one as a single
      (sendPrior env s head_msdu num_msdus).bind fun s =>
        dispatchLoop frms head (sendSingle env s msdu) none none 0
    else
      dispatchLoop frms head { s with msdu_id := update s.msdu_id msdu msdu.id } (some msdu)
        head_msdu (num_msdus + 1)

/-- `struct ol_tx_sched_ctx`. -/
structure Sctx where
  head : List TxDesc
  frms : Nat

def ol_tx_sched_dispatch (s : Htt) (sctx : Sctx) : Option Htt :=
  dispatchLoop env sctx.frms sctx.head s none none 0

/-! ## Selecting -/

/-- What batch `k` depends on. -/
def batchEnv (s : State) (k : Nat) : BatchEnv where
  credit := s.htt.target_tx_credit.toNat
  group_flow_control := env.group_flow_control
  group_credit_limit := fun q credit =>
    if env.group_flow_control then
      (TxGroups.ol_tx_txq_group_credit_limit s.grps (env.group q) credit).toNat
    else credit
  tx_limit := env.tx_limit k

def taken : Batch → List (TxqId × List TxDesc)
  | .served q frames => [(q, frames)]
  | _ => []

def framesOf (served : List (TxqId × List TxDesc)) : List TxDesc := served.flatMap Prod.snd

def charge (grps : TxGroups.Pdev) : Batch → TxGroups.Pdev
  | .served q frames =>
    if env.group_flow_control then
      TxGroups.ol_tx_txq_group_credit_update grps (env.group q) (-(creditOf frames : Int)) false
    else grps
  | _ => grps

/-- The loop of `ol_tx_sched`, from batch `k` on; `served` is what the batches were. -/
def selectBatches : Nat → Nat → State → Sctx → List (TxqId × List TxDesc) →
    Option (State × Sctx × List (TxqId × List TxDesc))
  | 0, _, _, _, _ => none
  | fuel + 1, k, s, sctx, served =>
    if s.htt.target_tx_credit > 0 then
      (ol_tx_sched_select_batch_wrr_adv s.sched (batchEnv env s k)).bind fun r =>
        let frames := framesOf (taken r.2)
        let num_credits := creditOf frames
        let s : State :=
          { s with
            sched := r.1
            grps := charge env s.grps r.2
            htt := { s.htt with target_tx_credit := s.htt.target_tx_credit - num_credits } }
        let sctx : Sctx := ⟨sctx.head ++ frames, sctx.frms + frames.length⟩
        if num_credits = 0 then some (s, sctx, served ++ taken r.2)
        else selectBatches fuel (k + 1) s sctx (served ++ taken r.2)
    else some (s, sctx, served)

def ol_tx_sched (fuel : Nat) (s : State) : Option (State × List (TxqId × List TxDesc)) :=
  if s.idle = false then some (s, [])
  else
    (selectBatches env fuel 0 { s with sched := ol_tx_sched_select_init_wrr_adv s.sched } ⟨[], 0⟩
      []).bind fun r =>
        (ol_tx_sched_dispatch env r.1.htt r.2.1).map fun htt =>
          ({ r.1 with htt := htt }, r.2.2)

/-! ## What is sent -/

def Htt.handed (s : Htt) : List (TxDesc × Nat) := s.sent.map fun call => (call.msdu, call.msdu_id)

def refused : Nat → List TxDesc → List TxDesc
  | _, [] => []
  | k, msdu :: msdus =>
    if env.no_pkt k then msdu :: refused (k + 1) msdus else refused (k + 1) msdus

variable {env} {s s' s'' : Htt} {frames frames' : List TxDesc}

@[simp] theorem creditOf_append :
    creditOf (frames ++ frames') = creditOf frames + creditOf frames' := by
  rw [creditOf, map_append, sum_append]; rfl

theorem creditOf_cons (msdu : TxDesc) : creditOf (msdu :: frames) = msdu.credit + creditOf frames := by
  rfl

theorem creditOf_perm (h : frames.Perm frames') : creditOf frames = creditOf frames' :=
  (h.map _).sum_nat

theorem refused_append (k : Nat) :
    refused env k (frames ++ frames') =
      refused env k frames ++ refused env (k + frames.length) frames' := by
  induction frames generalizing k with
  | nil => rfl
  | cons msdu frames ih =>
    rw [cons_append, refused, refused, ih, length_cons,
      show k + 1 + frames.length = k + (frames.length + 1) by omega]
    split <;> rfl

theorem refused_sublist (env : Env) (k : Nat) (frames : List TxDesc) :
    (refused env k frames).Sublist frames := by
  induction frames generalizing k with
  | nil => exact Sublist.refl _
  | cons msdu frames ih =>
    rw [refused]
    split
    · exact (ih _).cons_cons msdu
    · exact (ih _).cons msdu

/-- From `s` to `s'` these frames are given to HTT, in order and with their ids; for those that it
refuses the credit is returned and the descriptor is freed. -/
structure Sends (env : Env) (s s' : Htt) (frames : List TxDesc) : Prop where
  handed : s'.handed = s.handed ++ frames.map fun msdu => (msdu, msdu.id)
  credit : s'.target_tx_credit = s.target_tx_credit + creditOf (refused env s.sent.length frames)
  freed : s'.freed.Perm (s.freed ++ (refused env s.sent.length frames).map TxDesc.id)

theorem Sends.nothing (hsent : s'.sent = s.sent)
    (hcredit : s'.target_tx_credit = s.target_tx_credit) (hfreed : s'.freed = s.freed) :
    Sends env s s' [] := by
  refine ⟨?_, ?_, ?_⟩
  · rw [Htt.handed, hsent, map_nil, append_nil, Htt.handed]
  · rw [hcredit, refused, creditOf, map_nil, sum_nil, Int.natCast_zero, Int.add_zero]
  · rw [hfreed, refused, map_nil, append_nil]

theorem Sends.congr (h : Sends env s s' frames) (hsent : s.sent = s''.sent)
    (hcredit : s.target_tx_credit = s''.target_tx_credit) (hfreed : s.freed = s''.freed) :
    Sends env s'' s' frames := by
  refine ⟨?_, ?_, ?_⟩
  · rw [h.handed, Htt.handed, hsent, Htt.handed]
  · rw [h.credit, hcredit, hsent]
  · rw [← hfreed, ← hsent]; exact h.freed

theorem Sends.trans (h : Sends env s s' frames) (h' : Sends env s' s'' frames') :
    Sends env s s'' (frames ++ frames') := by
  have hlen : s'.sent.length = s.sent.length + frames.length := by
    have hl := congrArg List.length h.handed
    simpa [Htt.handed] using hl
  refine ⟨?_, ?_, ?_⟩
  · rw [h'.handed, h.handed, map_append, append_assoc]
  · rw [h'.credit, h.credit, refused_append, hlen, creditOf_append]; omega
  · rw [refused_append, map_append, ← append_assoc, ← hlen]
    exact h'.freed.trans (h.freed.append_right _)

/-- A batch whose frames are linked is sent, and those that are refused are linked, the last one
first. -/
theorem htt_tx_send_batch_spec (env : Env) {p q rejected : Option TxDesc} {before : List TxDesc}
    (hlink : Linked s.next p frames q) (hids : ∀ d ∈ frames, s.msdu_id d = d.id)
    (hrej : Linked s.next rejected before none) (hnd : (frames ++ before).Nodup) :
    ∃ s' rejected', htt_tx_send_batch env frames.length s p rejected = some (s', rejected') ∧
      Linked s'.next rejected' ((refused env s.sent.length frames).reverse ++ before) none ∧
      s'.handed = s.handed ++ frames.map (fun msdu => (msdu, msdu.id)) ∧
      s'.msdu_id = s.msdu_id ∧ s'.target_tx_credit = s.target_tx_credit ∧ s'.freed = s.freed := by
  induction frames generalizing s p rejected before with
  | nil => refine ⟨s, rejected, rfl, hrej, ?_, rfl, rfl, rfl⟩; rw [map_nil, append_nil]
  | cons msdu frames ih =>
    obtain ⟨rfl, hrest⟩ := linked_cons.mp hlink
    rw [cons_append, nodup_cons, mem_append, not_or] at hnd
    obtain ⟨⟨hframes, hbefore⟩, hnd⟩ := hnd
    rw [length_cons, htt_tx_send_batch, refused]
    let more := UInt8.ofNat frames.length
    have hid := hids msdu mem_cons_self
    have hids' : ∀ d ∈ frames, s.msdu_id d = d.id := fun d hd => hids d (mem_cons_of_mem _ hd)
    by_cases hno : env.no_pkt s.sent.length = true
    · simp only [htt_tx_send_base, hno, if_true]
      -- the frame becomes the first of those that are rejected
      have hrej' : Linked (update s.next msdu rejected) (some msdu) (msdu :: before) none := by
        rw [linked_cons, update_self]; exact ⟨rfl, (linked_update_of_notMem hbefore).mpr hrej⟩
      obtain ⟨s', rejected', hs', hl, hh, hrestEq⟩ := ih
        (s := Htt.set_next { s with sent := s.sent ++ [⟨msdu, s.msdu_id msdu, more⟩] } msdu rejected)
        ((linked_update_of_notMem hframes).mpr hrest) hids' hrej'
        (nodup_middle.mpr (nodup_cons.mpr ⟨by simp [hframes, hbefore], hnd⟩))
      refine ⟨s', rejected', hs', ?_, ?_, hrestEq⟩
      · simpa [Htt.set_next] using hl
      · rw [hh]; simp [Htt.handed, Htt.set_next, hid]
    · simp only [htt_tx_send_base, hno]
      obtain ⟨s', rejected', hs', hl, hh, hrestEq⟩ := ih
        (s := { s with sent := s.sent ++ [⟨msdu, s.msdu_id msdu, more⟩] }) hrest hids' hrej hnd
      refine ⟨s', rejected', hs', ?_, ?_, hrestEq⟩
      · simpa using hl
      · rw [hh]; simp [Htt.handed, hid]

theorem rejectedLoop_spec (fuel : Nat) {p : Option TxDesc} (hlink : Linked s.next p frames none)
    (hids : ∀ d ∈ frames, s.msdu_id d = d.id) (hfuel : frames.length ≤ fuel) :
    ∃ s', rejectedLoop fuel s p = some s' ∧ s'.sent = s.sent ∧
      s'.target_tx_credit = s.target_tx_credit + creditOf frames ∧
      s'.freed = s.freed ++ frames.map TxDesc.id := by
  induction frames generalizing s p fuel with
  | nil =>
    obtain rfl : p = none := hlink
    refine ⟨s, by rw [rejectedLoop.eq_def], rfl, ?_, ?_⟩
    · rw [creditOf, map_nil, sum_nil, Int.natCast_zero, Int.add_zero]
    · rw [map_nil, append_nil]
  | cons msdu frames ih =>
    obtain ⟨rfl, hrest⟩ := linked_cons.mp hlink
    obtain ⟨n, rfl⟩ := Nat.exists_eq_succ_of_ne_zero (Nat.ne_zero_of_lt hfuel)
    obtain ⟨s', hs', hsent, hcredit, hfreed⟩ := ih n
      (s := ol_tx_desc_frame_free_nonstd (ol_tx_target_credit_incr s msdu) (s.msdu_id msdu))
      hrest (fun d hd => hids d (mem_cons_of_mem _ hd)) (Nat.le_of_succ_le_succ hfuel)
    refine ⟨s', hs', hsent, ?_, ?_⟩
    · rw [hcredit, creditOf_cons]
      dsimp only [ol_tx_desc_frame_free_nonstd, ol_tx_target_credit_incr, htt_tx_msdu_credit]
      omega
    · rw [hfreed, map_cons]
      dsimp only [ol_tx_desc_frame_free_nonstd, ol_tx_target_credit_incr]
      rw [hids msdu mem_cons_self, append_assoc]; rfl

theorem sendPrior_spec (env : Env) {p q : Option TxDesc} (hlink : Linked s.next p frames q)
    (hids : ∀ d ∈ frames, s.msdu_id d = d.id) (hnd : frames.Nodup) :
    ∃ s', sendPrior env s p frames.length = some s' ∧ Sends env s s' frames := by
  unfold sendPrior
  by_cases hp : p.isSome = true
  · rw [if_pos hp, ol_tx_send_batch]
    obtain ⟨s₁, rejected, hs₁, hl, hh, hid, hcredit, hfreed⟩ := htt_tx_send_batch_spec env
      hlink hids (linked_nil.mpr rfl) (by rw [append_nil]; exact hnd)
    have hsub := refused_sublist env s.sent.length frames
    rw [append_nil] at hl
    obtain ⟨s₂, hs₂, hsent, hcredit', hfreed'⟩ := rejectedLoop_spec frames.length hl
      (fun d hd => by rw [hid]; exact hids d (hsub.subset (mem_reverse.mp hd)))
      (by rw [length_reverse]; exact hsub.length_le)
    rw [hs₁, bind_some]
    refine ⟨s₂, hs₂, ?_, ?_, ?_⟩
    · rw [← hh, Htt.handed, Htt.handed, hsent]
    · rw [hcredit', hcredit, creditOf_perm (reverse_perm _)]
    · rw [hfreed', hfreed]; exact List.Perm.append_left _ ((reverse_perm _).map _)
  · -- without a head there is no batch
    rw [if_neg hp]
    have hnone : p = none := by simpa using hp
    cases frames with
    | nil => exact ⟨s, rfl, Sends.nothing rfl rfl rfl⟩
    | cons d frames => rw [linked_cons, hnone] at hlink; exact absurd hlink.1 (by simp)

theorem sendSingle_sends (s : Htt) (msdu : TxDesc) : Sends env s (sendSingle env s msdu) [msdu] := by
  unfold sendSingle htt_tx_send_std htt_tx_send_base
  by_cases hno : env.no_pkt s.sent.length = true
  · simp only [hno, if_true]
    have hrefused : refused env s.sent.length [msdu] = [msdu] := by
      rw [refused, if_pos hno]; rfl
    refine ⟨?_, ?_, ?_⟩
    · simp [Htt.handed, ol_tx_desc_frame_free_nonstd, ol_tx_target_credit_incr]
    · rw [hrefused]; simp [ol_tx_desc_frame_free_nonstd, ol_tx_target_credit_incr, creditOf]
    · rw [hrefused]; exact Perm.refl _
  · simp only [hno]
    have hrefused : refused env s.sent.length [msdu] = [] := by rw [refused, if_neg hno]; rfl
    refine ⟨?_, ?_, ?_⟩
    · simp [Htt.handed]
    · rw [hrefused]; simp [creditOf]
    · rw [hrefused]; simp

/-! ## The dispatch -/

/-- The batch so far: its frames are linked from its head on, and have their ids. -/
structure Prior (s : Htt) (prev head_msdu : Option TxDesc) (batch : List TxDesc) : Prop where
  link : ∃ q, Linked s.next head_msdu batch q
  prev_eq : prev = batch.getLast?
  head_eq : head_msdu = batch.head?
  ids : ∀ d ∈ batch, s.msdu_id d = d.id

theorem Prior.nothing (s : Htt) : Prior s none none [] :=
  ⟨⟨none, rfl⟩, rfl, rfl, nofun⟩

theorem Prior.relink {prev head_msdu : Option TxDesc} {batch : List TxDesc}
    (h : Prior s prev head_msdu batch) (hnd : batch.Nodup) (msdu : TxDesc) :
    Linked (match prev with
        | some p => s.set_next p (some msdu)
        | none => s).next (head_msdu.or (some msdu)) batch (some msdu) := by
  obtain ⟨q, hlink⟩ := h.link
  have hprev := h.prev_eq
  have hhead := h.head_eq
  cases prev with
  | none =>
    have hbatch := getLast?_eq_none_iff.mp hprev.symm
    rw [hhead, hbatch]; rfl
  | some p =>
    obtain ⟨l, rfl⟩ := getLast?_eq_some_iff.mp hprev.symm
    have hsome : head_msdu.or (some msdu) = head_msdu := by
      rw [hhead]
      cases l <;> rfl
    rw [hsome]
    refine linked_concat_update hlink (fun hp => ?_) (some msdu)
    exact disjoint_of_nodup_append hnd hp (mem_singleton_self p)

theorem dispatchLoop_spec (env : Env) {prev head_msdu : Option TxDesc} {batch : List TxDesc}
    (h : Prior s prev head_msdu batch) (hnd : (batch ++ frames).Nodup) :
    ∃ s', dispatchLoop env frames.length frames s prev head_msdu batch.length = some s' ∧
      Sends env s s' (batch ++ frames) := by
  induction frames generalizing s prev head_msdu batch with
  | nil =>
    obtain ⟨q, hlink⟩ := h.link
    rw [append_nil] at hnd ⊢
    exact sendPrior_spec env hlink h.ids hnd
  | cons msdu frames ih =>
    have hbatch := hnd.of_append_left
    have hnot : msdu ∉ batch := fun hm =>
      disjoint_of_nodup_append hnd hm mem_cons_self
    have hrelink := h.relink hbatch msdu
    rw [length_cons, dispatchLoop.eq_def]
    dsimp only
    -- the state with the frame linked, which differs only in the pointers and the references
    generalize hs₁ : (match prev with
      | some p => s.set_next p (some msdu)
      | none => s) = s₁ at hrelink ⊢
    have hsame : s₁.sent = s.sent ∧ s₁.target_tx_credit = s.target_tx_credit ∧
        s₁.freed = s.freed ∧ s₁.msdu_id = s.msdu_id := by
      rw [← hs₁]
      cases prev <;> exact ⟨rfl, rfl, rfl, rfl⟩
    by_cases hstore : env.msdu_id_storage msdu = false
    · rw [if_pos hstore]
      obtain ⟨s₂, hs₂, hsends⟩ := sendPrior_spec env
        (s := { s₁ with ref_cnt := update s₁.ref_cnt msdu 2 }) hrelink
        (fun d hd => by dsimp only; rw [hsame.2.2.2]; exact h.ids d hd) hbatch
      rw [hs₂, bind_some]
      obtain ⟨s', hs', hrest⟩ := ih (Prior.nothing (sendSingle env s₂ msdu))
        (hnd.of_append_right.of_cons)
      refine ⟨s', hs', ?_⟩
      have hall := hsends.trans ((sendSingle_sends s₂ msdu).trans hrest)
      exact hall.congr hsame.1 hsame.2.1 hsame.2.2.1
    · rw [if_neg hstore]
      have hprior : Prior
          { s₁ with
            ref_cnt := update s₁.ref_cnt msdu 2
            msdu_id := update s₁.msdu_id msdu msdu.id }
          (some msdu) (head_msdu.or (some msdu)) (batch ++ [msdu]) := by
        refine ⟨⟨_, linked_concat.mpr ⟨hrelink, rfl⟩⟩, ?_, ?_, fun d hd => ?_⟩
        · rw [getLast?_concat]
        · rw [h.head_eq]
          cases batch <;> rfl
        · rw [mem_append, mem_singleton] at hd
          dsimp only
          rcases hd with hd | rfl
          · have hne : d ≠ msdu := fun he => hnot (he ▸ hd)
            rw [update_of_ne hne, hsame.2.2.2]; exact h.ids d hd
          · rw [update_self]
      obtain ⟨s', hs', hrest⟩ := ih hprior (by rw [append_assoc]; exact hnd)
      rw [length_append, length_singleton] at hs'
      refine ⟨s', hs', ?_⟩
      rw [append_assoc] at hrest; exact hrest.congr hsame.1 hsame.2.1 hsame.2.2.1

/-! ## What is selected -/

section Select

variable {sched sched' : TxSched.Pdev} {benv : BatchEnv} {b : Batch} {q : TxqId}

/-- The frames of the batches that came from this queue. -/
def framesFrom (served : List (TxqId × List TxDesc)) (q : TxqId) : List TxDesc :=
  framesOf (served.filter fun batch => batch.1 = q)

theorem framesFrom_append (l₁ l₂ : List (TxqId × List TxDesc)) (q : TxqId) :
    framesFrom (l₁ ++ l₂) q = framesFrom l₁ q ++ framesFrom l₂ q := by
  rw [framesFrom, filter_append, framesOf, flatMap_append]; rfl

theorem dequeueLoop_credit {credit n credit_sum : Nat} {head frames rest : List TxDesc}
    (h : dequeueLoop credit n credit_sum head = some (frames, rest)) :
    frames ++ rest = head ∧ (credit_sum ≤ credit → credit_sum + creditOf frames ≤ credit) := by
  induction n generalizing credit_sum head frames with
  | zero => cases h; exact ⟨rfl, fun hc => hc⟩
  | succ n ih =>
    cases head with
    | nil => cases h
    | cons msdu head =>
      rw [dequeueLoop] at h
      split at h
      · cases h; exact ⟨rfl, fun hc => hc⟩
      · next hle =>
        obtain ⟨⟨l, rest'⟩, hl, heq⟩ := map_eq_some_iff.mp h
        obtain ⟨rfl, rfl⟩ := Prod.mk.inj heq
        obtain ⟨happ, hcredit⟩ := ih hl
        refine ⟨by rw [cons_append, happ], fun _ => ?_⟩
        show credit_sum + creditOf (msdu :: l) ≤ credit
        rw [creditOf_cons]; omega

theorem ol_tx_dequeue_taken {t t' : Txq} {max_frames credit : Nat} {frames : List TxDesc}
    (h : ol_tx_dequeue t max_frames credit = some (t', frames)) :
    frames ++ t'.head = t.head ∧ creditOf frames ≤ credit := by
  obtain ⟨⟨l, rest⟩, hl, heq⟩ := map_eq_some_iff.mp h
  obtain ⟨rfl, rfl⟩ := Prod.mk.inj heq
  obtain ⟨happ, hcredit⟩ := dequeueLoop_credit hl
  have hsum := hcredit (Nat.zero_le _)
  rw [Nat.zero_add] at hsum; exact ⟨happ, hsum⟩

theorem selectLoop_txq {fuel index i : Nat} {r : Option Cat}
    (h : selectLoop fuel sched index = some (sched', i, r)) : sched'.txq = sched.txq := by
  induction fuel generalizing sched index with
  | zero => cases h
  | succ fuel ih =>
    rw [selectLoop] at h
    split at h
    · obtain ⟨c, -, h⟩ := bind_eq_some_iff.mp h
      split at h
      · exact ih h
      · split at h
        · have htxq := ih h; exact htxq
        · cases h; rfl
    · cases h; rfl

/-- A batch takes frames from the front of one queue, if any, and no more than its credit. -/
structure Takes (sched sched' : TxSched.Pdev) (benv : BatchEnv) (b : Batch) : Prop where
  queues : ∀ q, framesFrom (taken b) q ++ (sched'.txq q).head = (sched.txq q).head
  credit : (∀ q credit, benv.group_credit_limit q credit ≤ credit) →
    creditOf (framesOf (taken b)) ≤ benv.credit

theorem Takes.nothing (hb : taken b = []) (htxq : sched'.txq = sched.txq) :
    Takes sched sched' benv b := by
  refine ⟨fun q => ?_, fun _ => ?_⟩
  · rw [hb, htxq]; rfl
  · rw [hb]; exact Nat.zero_le _

theorem serveCategory_takes {c : Cat} (h : serveCategory sched benv c = some (sched', b)) :
    Takes sched sched' benv b := by
  unfold serveCategory at h
  dsimp only at h
  split at h
  · cases h; exact Takes.nothing rfl rfl
  · next q rest hhead =>
    split at h
    · obtain ⟨⟨t, frames⟩, hdeq, ht⟩ := map_eq_some_iff.mp h
      obtain ⟨rfl, rfl⟩ := Prod.mk.inj ht
      obtain ⟨happ, hcredit⟩ := ol_tx_dequeue_taken hdeq
      refine ⟨fun q' => ?_, fun hlimit => ?_⟩
      · dsimp only [taken, Pdev.setCat, Pdev.setTxq]
        by_cases hq : q' = q
        · rw [hq, update_self, framesFrom, filter_cons_of_pos (by simp)]
          simpa [framesOf] using happ
        · rw [update_of_ne hq, framesFrom, filter_cons_of_neg (by simpa using Ne.symm hq)]; rfl
      · have hle := hlimit q benv.credit
        have hall : creditOf (framesOf (taken (.served q frames))) = creditOf frames := by
          rw [taken, framesOf, flatMap_singleton]
        show creditOf (framesOf (taken (.served q frames))) ≤ benv.credit
        omega
    · split at h
      · cases h; exact Takes.nothing rfl rfl
      · cases h; exact Takes.nothing rfl rfl

theorem select_batch_takes (h : ol_tx_sched_select_batch_wrr_adv sched benv = some (sched', b)) :
    Takes sched sched' benv b := by
  obtain ⟨⟨s₁, i, r⟩, hloop, h⟩ := bind_eq_some_iff.mp h
  have htxq := selectLoop_txq hloop
  cases r with
  | none => cases h; exact Takes.nothing rfl htxq
  | some c =>
    dsimp only at h
    split at h
    · cases h; exact Takes.nothing rfl htxq
    · have htakes := serveCategory_takes h
      refine ⟨fun q => ?_, htakes.credit⟩
      rw [htakes.queues q]; exact congrArg (fun m => (m q).head) htxq

theorem group_credit_limit_le (env : Env) (s : State) (k : Nat) (q : TxqId) (credit : Nat) :
    (batchEnv env s k).group_credit_limit q credit ≤ credit := by
  dsimp only [batchEnv]
  split
  · by_cases hpos : 0 < TxGroups.ol_tx_txq_group_credit_limit s.grps (env.group q) credit
    · have hle := ((TxGroups.le_credit_limit (s := s.grps) _ credit hpos
        (env.group q).group_ptrs).mp (Int.le_refl _)).1
      omega
    · omega
  · exact Nat.le_refl _

/-- What a group is charged for these batches. -/
def charged (env : Env) (g : TxGroups.GroupId) (served : List (TxqId × List TxDesc)) : Int :=
  if env.group_flow_control then
    (served.map fun batch =>
      ((env.group batch.1).group_ptrs.count (some g) : Int) * creditOf batch.2).sum
  else 0

theorem charged_append (env : Env) (g : TxGroups.GroupId) (l₁ l₂ : List (TxqId × List TxDesc)) :
    charged env g (l₁ ++ l₂) = charged env g l₁ + charged env g l₂ := by
  unfold charged
  split
  · rw [map_append, sum_append]
  · rfl

theorem charge_credit (env : Env) (grps : TxGroups.Pdev) (b : Batch) (g : TxGroups.GroupId) :
    ((charge env grps b).txq_grps g).credit = (grps.txq_grps g).credit - charged env g (taken b) := by
  cases b with
  | served q frames =>
    by_cases hflow : env.group_flow_control = true
    · simp only [charge, charged, hflow, if_true]
      refine (TxGroups.credit_update_credit _ g (env.group q).group_ptrs grps).trans ?_
      simp [taken, Int.sub_eq_add_neg]
    · simp [charge, charged, hflow]
  | inactive => simp [charge, charged, taken]
  | lowCredit c => simp [charge, charged, taken]
  | noTxq c => simp [charge, charged, taken]
  | blocked q => simp [charge, charged, taken]

end Select

/-! ## The loop of the selection -/

structure Selected (env : Env) (s₀ s : State) (sctx : Sctx) (served : List (TxqId × List TxDesc)) :
    Prop where
  head : sctx.head = framesOf served
  frms : sctx.frms = sctx.head.length
  queues : ∀ q, framesFrom served q ++ (s.sched.txq q).head = (s₀.sched.txq q).head
  htt : s.htt = { s₀.htt with
    target_tx_credit := s₀.htt.target_tx_credit - creditOf (framesOf served) }
  spent : (creditOf (framesOf served) : Int) ≤ max s₀.htt.target_tx_credit 0
  groups : ∀ g, (s.grps.txq_grps g).credit = (s₀.grps.txq_grps g).credit - charged env g served

theorem Selected.start (env : Env) (s : State) : Selected env s s ⟨[], 0⟩ [] := by
  refine ⟨rfl, rfl, fun q => rfl, ?_, ?_, fun g => ?_⟩
  · simp [framesOf, creditOf]
  · simp [framesOf, creditOf]
  · simp [charged]

variable {served : List (TxqId × List TxDesc)}

theorem Selected.batch {s₀ s : State} {sctx : Sctx} {k : Nat} {sched' : TxSched.Pdev} {b : Batch}
    (h : Selected env s₀ s sctx served) (hpos : 0 < s.htt.target_tx_credit)
    (hb : ol_tx_sched_select_batch_wrr_adv s.sched (batchEnv env s k) = some (sched', b)) :
    Selected env s₀ { s with
        sched := sched'
        grps := charge env s.grps b
        htt := { s.htt with
          target_tx_credit := s.htt.target_tx_credit - creditOf (framesOf (taken b)) } }
      ⟨sctx.head ++ framesOf (taken b), sctx.frms + (framesOf (taken b)).length⟩
      (served ++ taken b) := by
  have htakes := select_batch_takes hb
  have hle := htakes.credit (group_credit_limit_le env s k)
  have hframes : framesOf (served ++ taken b) = framesOf served ++ framesOf (taken b) :=
    flatMap_append
  have hcredit := congrArg Htt.target_tx_credit h.htt
  dsimp only [batchEnv] at hle hcredit
  refine ⟨?_, ?_, fun q => ?_, ?_, ?_, fun g => ?_⟩
  · rw [hframes, h.head]
  · rw [h.frms, length_append]
  · rw [framesFrom_append, append_assoc, htakes.queues q, h.queues q]
  · rw [hframes, creditOf_append, h.htt]; rw [Int.natCast_add, Int.sub_sub]
  · rw [hframes, creditOf_append]; omega
  · rw [charge_credit, charged_append, h.groups g]; omega

theorem selectBatches_selected {s₀ s s' : State} {sctx sctx' : Sctx}
    {served served' : List (TxqId × List TxDesc)} {fuel k : Nat} (h : Selected env s₀ s sctx served)
    (hs : selectBatches env fuel k s sctx served = some (s', sctx', served')) :
    Selected env s₀ s' sctx' served' := by
  induction fuel generalizing k s sctx served with
  | zero => cases hs
  | succ fuel ih =>
    rw [selectBatches] at hs
    split at hs
    · next hpos =>
      obtain ⟨⟨sched', b⟩, hb, hs⟩ := bind_eq_some_iff.mp hs
      have hbatch := h.batch hpos hb
      dsimp only at hs
      split at hs
      · obtain ⟨rfl, heq⟩ := Prod.mk.inj (some.inj hs)
        obtain ⟨rfl, rfl⟩ := Prod.mk.inj heq
        exact hbatch
      · exact ih hbatch hs
    · obtain ⟨rfl, heq⟩ := Prod.mk.inj (some.inj hs)
      obtain ⟨rfl, rfl⟩ := Prod.mk.inj heq
      exact h

theorem selectBatches_ends (env : Env) {T : TidToAc} {s : State} (hinv : Inv T s.sched) {fuel : Nat}
    (hfuel : s.htt.target_tx_credit.toNat < fuel) (k : Nat) (sctx : Sctx)
    (served : List (TxqId × List TxDesc)) :
    ∃ r, selectBatches env fuel k s sctx served = some r := by
  induction fuel generalizing k s sctx served with
  | zero => exact absurd hfuel (Nat.not_lt_zero _)
  | succ fuel ih =>
    rw [selectBatches]
    split
    · next hpos =>
      obtain ⟨sched', b, hb, hinv', -⟩ := select_batch_spec hinv (batchEnv env s k)
      rw [hb, bind_some]
      dsimp only
      split
      · exact ⟨_, rfl⟩
      · next hsome =>
        refine ih hinv' ?_ _ _ _
        dsimp only
        omega
    · exact ⟨_, rfl⟩

/-! ## A run -/

structure Distinct (sched : TxSched.Pdev) : Prop where
  nodup : ∀ q, (sched.txq q).head.Nodup
  disjoint : ∀ q q', q ≠ q' → List.Disjoint (sched.txq q).head (sched.txq q').head

theorem mem_framesFrom {q : TxqId} {l : List TxDesc} {msdu : TxDesc} (hl : (q, l) ∈ served)
    (hm : msdu ∈ l) : msdu ∈ framesFrom served q := by
  rw [framesFrom, framesOf, mem_flatMap]; exact ⟨(q, l), mem_filter.mpr ⟨hl, by simp⟩, hm⟩

theorem nodup_framesOf (hnd : ∀ q, (framesFrom served q).Nodup)
    (hdis : ∀ q q', q ≠ q' → List.Disjoint (framesFrom served q) (framesFrom served q')) :
    (framesOf served).Nodup := by
  induction served with
  | nil => exact nodup_nil
  | cons batch served ih =>
    obtain ⟨q, l⟩ := batch
    have hself : framesFrom ((q, l) :: served) q = l ++ framesFrom served q := by
      rw [framesFrom, filter_cons_of_pos (by simp)]; rfl
    have hsub : ∀ q', (framesFrom served q').Sublist (framesFrom ((q, l) :: served) q') := by
      intro q'
      rw [framesFrom, framesFrom, filter_cons]
      split
      · exact sublist_append_right _ _
      · exact Sublist.refl _
    have hq := hnd q
    rw [hself] at hq
    rw [framesOf, flatMap_cons, nodup_append']
    refine ⟨hq.of_append_left, ih (fun q' => (hnd q').sublist (hsub q')) fun a b hab => ?_, ?_⟩
    · intro msdu ha hb; exact hdis a b hab ((hsub a).subset ha) ((hsub b).subset hb)
    · intro msdu hm hrest
      obtain ⟨⟨q', l'⟩, hl', hm'⟩ := mem_flatMap.mp hrest
      have hfrom := mem_framesFrom hl' hm'
      by_cases hne : q' = q
      · exact disjoint_of_nodup_append hq hm (hne ▸ hfrom)
      · refine hdis q' q hne ((hsub q').subset hfrom) ?_
        rw [hself]; exact mem_append_left _ hm

theorem Selected.nodup {s₀ s : State} {sctx : Sctx} (h : Selected env s₀ s sctx served)
    (hd : Distinct s₀.sched) : (framesOf served).Nodup := by
  refine nodup_framesOf (fun q => ?_) fun q q' hne msdu hm hm' => ?_
  · have hq := hd.nodup q
    rw [← h.queues q] at hq; exact hq.of_append_left
  · refine hd.disjoint q q' hne (a := msdu) ?_ ?_
    · rw [← h.queues q]; exact mem_append_left _ hm
    · rw [← h.queues q']; exact mem_append_left _ hm'

/-- What a run from `s` to `s'` selected and what became of it: each queue has lost what was taken
from it, HTT was given exactly these frames, in the order of their selection and each with its id.
They cost no more than the credit there was, which is less by their credit and more by that of the
frames that HTT refused; of these the descriptors are free. -/
structure Accounts (env : Env) (s s' : State) (served : List (TxqId × List TxDesc)) : Prop where
  queues : ∀ q, framesFrom served q ++ (s'.sched.txq q).head = (s.sched.txq q).head
  handed : s'.htt.handed = s.htt.handed ++ (framesOf served).map fun msdu => (msdu, msdu.id)
  once : (framesOf served).Nodup
  spent : (creditOf (framesOf served) : Int) ≤ max s.htt.target_tx_credit 0
  credit : s'.htt.target_tx_credit = s.htt.target_tx_credit - creditOf (framesOf served) +
    creditOf (refused env s.htt.sent.length (framesOf served))
  freed : s'.htt.freed.Perm
    (s.htt.freed ++ (refused env s.htt.sent.length (framesOf served)).map TxDesc.id)
  groups : ∀ g, (s'.grps.txq_grps g).credit = (s.grps.txq_grps g).credit - charged env g served

theorem Selected.dispatch {s₀ s : State} {sctx : Sctx} (h : Selected env s₀ s sctx served)
    (hd : Distinct s₀.sched) :
    ∃ htt, ol_tx_sched_dispatch env s.htt sctx = some htt ∧
      Accounts env s₀ { s with htt := htt } served := by
  have hnd := h.nodup hd
  obtain ⟨htt, hhtt, hsends⟩ := dispatchLoop_spec env (Prior.nothing s.htt)
    (by rw [nil_append, h.head]; exact hnd : ([] ++ sctx.head).Nodup)
  rw [nil_append, h.head] at hsends
  rw [ol_tx_sched_dispatch, h.frms]
  have hsent : s.htt.sent = s₀.htt.sent := by rw [h.htt]
  have hfreed : s.htt.freed = s₀.htt.freed := by rw [h.htt]
  have hcredit := congrArg Htt.target_tx_credit h.htt
  refine ⟨htt, hhtt, h.queues, ?_, hnd, h.spent, ?_, ?_, h.groups⟩
  · rw [hsends.handed, Htt.handed, Htt.handed, hsent]
  · rw [hsends.credit, hcredit, hsent]
  · rw [← hsent, ← hfreed]; exact hsends.freed

/-- **A run of the scheduler** spends no more than the credit there is, and gives every frame it
selects to HTT once and in order, whatever mix of frames it is; and it ends. -/
theorem sched_accounts (env : Env) (s : State) (hd : Distinct s.sched) :
    (∀ fuel s' served, ol_tx_sched env fuel s = some (s', served) → Accounts env s s' served) ∧
      ∀ T, Inv T s.sched → ∀ fuel, s.htt.target_tx_credit.toNat < fuel →
        ∃ r, ol_tx_sched env fuel s = some r := by
  have hstart : Selected env s { s with sched := ol_tx_sched_select_init_wrr_adv s.sched } ⟨[], 0⟩
      [] :=
    let h := Selected.start env s
    ⟨h.head, h.frms, h.queues, h.htt, h.spent, h.groups⟩
  refine ⟨fun fuel s' served hs => ?_, fun T hinv fuel hfuel => ?_⟩
  · unfold ol_tx_sched at hs
    split at hs
    · cases hs
      refine ⟨fun q => rfl, ?_, nodup_nil, ?_, ?_, ?_, fun g => ?_⟩
      · simp [framesOf]
      · simp [framesOf, creditOf]
      · simp [framesOf, creditOf, refused]
      · simp [framesOf, refused]
      · simp [charged]
    · obtain ⟨⟨s₁, sctx, served'⟩, hsel, hs⟩ := bind_eq_some_iff.mp hs
      have hselected := selectBatches_selected hstart hsel
      obtain ⟨htt, hhtt, hacc⟩ := hselected.dispatch hd
      obtain ⟨htt', hhtt', hs⟩ := map_eq_some_iff.mp hs
      obtain rfl := some.inj (hhtt.symm.trans hhtt')
      obtain ⟨rfl, rfl⟩ := Prod.mk.inj hs
      exact hacc
  · unfold ol_tx_sched
    split
    · exact ⟨_, rfl⟩
    · have hinv' : Inv T (ol_tx_sched_select_init_wrr_adv s.sched) := hinv.of_eq rfl rfl rfl
      obtain ⟨⟨s₁, sctx, served⟩, hsel⟩ := selectBatches_ends env
        (s := { s with sched := ol_tx_sched_select_init_wrr_adv s.sched }) hinv' hfuel 0 ⟨[], 0⟩ []
      obtain ⟨htt, hhtt, -⟩ := (selectBatches_selected hstart hsel).dispatch hd
      rw [hsel, bind_some, hhtt, map_some]; exact ⟨_, rfl⟩

section Inputs

def frame (id : Nat) : TxDesc := ⟨id, 100, 1⟩

def threeWait : State where
  sched :=
    ((Pdev.init specsSdio).setTxq someQueue ⟨[frame 0, frame 1, frame 2], 3, 300, 0, .active⟩).setCat
      .BE ⟨3, 300, [someQueue], true⟩
  grps := TxGroups.Pdev.init
  htt := ⟨fun _ => none, fun _ => 0, fun _ => 0, 100, [], []⟩
  idle := true

/-- Frame 1 has no place for its id, and HTT refuses the third frame that it is given. -/
def mixedEnv : Env where
  group_flow_control := true
  group := fun _ => ⟨0, [none]⟩
  tx_limit := fun _ _ => none
  msdu_id_storage := fun msdu => msdu.id ≠ 1
  no_pkt := fun k => k = 2

theorem threeWait_distinct : Distinct threeWait.sched := by
  have hother : ∀ q, q ≠ someQueue → (threeWait.sched.txq q).head = [] := by
    intro q hq
    have htxq : threeWait.sched.txq q = (Pdev.init specsSdio).txq q := update_of_ne hq _ _
    rw [htxq]; rfl
  refine ⟨fun q => ?_, fun q q' hne msdu hm hm' => ?_⟩
  · by_cases hq : q = someQueue
    · rw [hq]; decide
    · rw [hother q hq]; exact nodup_nil
  · by_cases hq : q = someQueue
    · rw [hother q' (fun hq' => hne (hq.trans hq'.symm))] at hm'; exact not_mem_nil hm'
    · rw [hother q hq] at hm; exact not_mem_nil hm

/-- A batch of one frame, a frame that goes alone, and a batch of one that is refused. -/
theorem sched_accounts_mixed :
    ∃ s' served, ol_tx_sched mixedEnv 10 threeWait = some (s', served) ∧
      s'.htt.handed = [(frame 0, 0), (frame 1, 1), (frame 2, 2)] ∧ s'.htt.freed = [2] ∧
      s'.htt.target_tx_credit = 98 ∧ Accounts mixedEnv threeWait s' served := by
  obtain ⟨⟨s', served⟩, hs, hq⟩ := (any_eq_true
    (fun r : State × List (TxqId × List TxDesc) =>
      decide (r.1.htt.handed = [(frame 0, 0), (frame 1, 1), (frame 2, 2)]) &&
        decide (r.1.htt.freed = [2]) && decide (r.1.htt.target_tx_credit = 98))
    (ol_tx_sched mixedEnv 10 threeWait)).mp (by decide +kernel)
  simp only [Bool.and_eq_true, decide_eq_true_eq] at hq
  exact ⟨s', served, hs, hq.1.1, hq.1.2, hq.2,
    (sched_accounts mixedEnv threeWait threeWait_distinct).1 10 s' served hs⟩

end Inputs

end Qcacld.TxDispatch
