/-
The count of the tx descriptors of a high-latency system.

`tx_queue.rsrc_cnt` is to be the number of descriptors on the free list. What a step adds to the
difference is its `drift`: frames that HTT does not take, or whose download fails, are freed without
being counted; so are frames that the target inspects, and those whose completion is processed
before the end of their download are counted while they are still allocated.
-/
import Qcacld.TxDescHl

set_option autoImplicit false

namespace Qcacld.TxDescHl

open Lib TxSched Function List

variable {cfg : Cfg} {T : TidToAc} {specs : Cat → Specs} {s s' : Pdev} {hand : List Nat} {id : Nat}

/-! ## Where the descriptors go -/

@[simp] theorem list_free_sctx (s : Pdev) (ids : List Nat) :
    (ol_tx_desc_frame_list_free s ids).sctx = s.sctx := by
  induction ids generalizing s with
  | nil => rfl
  | cons id ids ih => exact ih _

theorem list_free_ref_cnt {ids : List Nat} (hid : id ∉ ids) :
    (ol_tx_desc_frame_list_free s ids).ref_cnt id = s.ref_cnt id := by
  induction ids generalizing s with
  | nil => rfl
  | cons k ids ih =>
    have hne : id ≠ k := fun h => hid (h ▸ mem_cons_self)
    have hrest := ih (s := ol_tx_desc_frame_free_nonstd s k) fun h => hid (mem_cons_of_mem k h)
    exact hrest.trans (update_of_ne hne _ _)

theorem Owned.setRef (h : Owned cfg s (id :: hand)) (n : Int) :
    Owned cfg { s with ref_cnt := update s.ref_cnt id n } (id :: hand) := by
  refine h.move h.exclusive (fun p _ hk => ⟨p, hk⟩) rfl rfl (fun k hk => ?_) rfl rfl
  have hne : k ≠ id := by
    rintro rfl
    have := h.hand_settled
    simp_all
  exact update_of_ne hne _ _

theorem completeLoop_sctx (s : Pdev) (ids : List Nat) : (completeLoop s ids).1.sctx = s.sctx := by
  induction ids generalizing s with
  | nil => rfl
  | cons id ids ih =>
    rw [completeLoop]
    split
    · split
      · exact ih _
      · exact ih _
    · exact ih _

theorem download_done_base_sctx (s : Pdev) (ok : Bool) (id : Nat) :
    (ol_tx_download_done_base s ok id).sctx = s.sctx := by
  unfold ol_tx_download_done_base
  split
  · split
    · rfl
    · rfl
  · rfl

theorem download_done_hl_free_sctx (s : Pdev) (ok : Bool) (id : Nat) :
    (ol_tx_download_done_hl_free s ok id).sctx = s.sctx := by
  unfold ol_tx_download_done_hl_free
  split
  · exact download_done_base_sctx s ok id
  · exact download_done_base_sctx s ok id

theorem alloc_sctx {vdev : Nat} (h : ol_tx_desc_alloc_hl s vdev = some (id, s')) :
    s'.sctx = s.sctx := by
  unfold ol_tx_desc_alloc_hl at h
  split at h
  · exact absurd h (by simp)
  · obtain ⟨-, rfl⟩ := h; rfl

section Send

variable {env : SendEnv} {ids rejected batch : List Nat}

theorem Owned.htt_tx_send_batch (h : Owned cfg s (rejected ++ (ids ++ hand)))
    (hr : ∀ id ∈ ids, s.ref_cnt id = 2) :
    Owned cfg (htt_tx_send_batch env s rejected ids).1
      ((htt_tx_send_batch env s rejected ids).2 ++ hand) := by
  induction ids generalizing s rejected with
  | nil => exact h
  | cons id ids ih =>
    have h₁ := h.perm (perm_middle (a := id)).symm
    rw [TxDescHl.htt_tx_send_batch]
    split
    · exact ih h₁ fun k hk => hr k (mem_cons_of_mem id hk)
    · exact ih (h₁.accept (hr id mem_cons_self)) fun k hk => hr k (mem_cons_of_mem id hk)

theorem htt_tx_send_batch_ref_cnt :
    (htt_tx_send_batch env s rejected ids).1.ref_cnt = s.ref_cnt ∧
      ∀ id ∈ (htt_tx_send_batch env s rejected ids).2, id ∈ rejected ∨ id ∈ ids := by
  induction ids generalizing s rejected with
  | nil => exact ⟨rfl, fun id hid => Or.inl hid⟩
  | cons id ids ih =>
    rw [htt_tx_send_batch]
    split
    · obtain ⟨hcnt, hmem⟩ := ih (s := s)
      refine ⟨hcnt, fun k hk => ?_⟩
      have := hmem k hk
      simp only [mem_cons] at this ⊢
      tauto
    · obtain ⟨hcnt, hmem⟩ := ih (s := s.accept id)
      refine ⟨hcnt, fun k hk => ?_⟩
      have := hmem k hk
      tauto

theorem Owned.send_batch (h : Owned cfg s (ids ++ hand)) (hr : ∀ id ∈ ids, s.ref_cnt id = 2) :
    Owned cfg (ol_tx_send_batch env s ids) hand :=
  Owned.list_free (Owned.htt_tx_send_batch h hr)

theorem send_batch_ref_cnt (hid : id ∉ ids) :
    (ol_tx_send_batch env s ids).ref_cnt id = s.ref_cnt id := by
  obtain ⟨hcnt, hmem⟩ := htt_tx_send_batch_ref_cnt (s := s)
   
  rw [ol_tx_send_batch, list_free_ref_cnt, hcnt]
  intro hin
  rcases hmem id hin with hnil | hids
  · cases hnil
  · exact hid hids

theorem Owned.dispatchLoop (h : Owned cfg s (batch ++ (ids ++ hand)))
    (hr : ∀ id ∈ batch, s.ref_cnt id = 2) : Owned cfg (dispatchLoop env s batch ids) hand := by
  induction ids generalizing s batch with
  | nil => exact Owned.send_batch h hr
  | cons id ids ih =>
    have hmid : id :: (batch ++ (ids ++ hand)) ~ batch ++ (id :: (ids ++ hand)) :=
      perm_middle.symm
    have h₁ := (h.perm hmid).setRef 2
    have hr₁ : ∀ k ∈ batch ++ [id], update s.ref_cnt id 2 k = 2 := by
      intro k hk
      by_cases hki : k = id
      · rw [hki, update_self]
      · rw [update_of_ne hki]
        rcases mem_append.mp hk with hb | hs
        · exact hr k hb
        · exact absurd (mem_singleton.mp hs) hki
    rw [TxDescHl.dispatchLoop]
    split
    · refine ih (h₁.perm ?_) hr₁
      rw [append_assoc]; exact perm_middle
    · have hnd := h₁.exclusive.nodup .hand
      have hgone : id ∉ batch := fun hb =>
        (nodup_cons.mp hnd).1 (mem_append_left _ hb)
      have h₂ : Owned cfg (ol_tx_send_batch env { s with ref_cnt := update s.ref_cnt id 2 } batch)
          (id :: (ids ++ hand)) :=
        Owned.send_batch (h₁.perm perm_middle) fun k hk => hr₁ k (mem_append_left _ hk)
      refine ih ?_ (by simp)
      rw [sendSingle]
      split
      · exact h₂.free
      · refine h₂.accept ?_
        rw [send_batch_ref_cnt hgone]; exact update_self _ _ _

end Send

theorem Owned.completeLoop {ids : List Nat} (h : Owned cfg s hand) (hnd : ids.Nodup)
    (ht : ∀ id ∈ ids, s.target id = true) :
    Owned cfg (completeLoop s ids).1 ((completeLoop s ids).2 ++ hand) := by
  induction ids generalizing s hand with
  | nil => exact h
  | cons id ids ih =>
    obtain ⟨hid, hnd'⟩ := nodup_cons.mp hnd
    obtain ⟨hlast, hmore⟩ := h.targetDone (ht id mem_cons_self)
    -- the other frames are with the target as before
    have ht' : ∀ k ∈ ids, (s.targetDone id).target k = true := by
      intro k hk
      have hne : k ≠ id := fun hki => hid (hki ▸ hk)
      exact (update_of_ne hne _ _).trans (ht k (mem_cons_of_mem id hk))
    rw [TxDescHl.completeLoop]
    split
    · next hz =>
      split
      · exact (ih (hlast hz) hnd' ht').perm perm_middle.symm
      · exact ih (hlast hz).free hnd' ht'
    · next hz => exact ih (hmore hz) hnd' ht'

theorem Owned.download_done_base (h : Owned cfg s hand) (hd : s.download id = true) (ok : Bool) :
    Owned cfg (ol_tx_download_done_base s ok id) hand := by
  obtain ⟨hretained, hlast⟩ := h.downloadDone hd
  cases ok with
  | false =>
    have heq : { s with download := update s.download id false, target := update s.target id false }
        = s.setSent id false false (s.ref_cnt id) := by simp only [Pdev.setSent, update_eq_self]
    simp only [ol_tx_download_done_base, Bool.false_eq_true, if_false]
    rw [heq]; exact (h.recall (Or.inl hd) _).free
  | true =>
    simp only [ol_tx_download_done_base, if_true]
    split
    · next hz =>
      cases ht : s.target id
      · exact (hlast ht).free
      · exact absurd hz (hretained ht).1
    · cases ht : s.target id
      -- nobody will free the descriptor
      · exact (hlast ht).drop
      · exact (hretained ht).2

theorem Owned.download_done_hl_free (h : Owned cfg s hand) (hd : s.download id = true)
    (hcfg : cfg.tx_free_at_download = true) {ok : Bool}
    (hok : (s.pkt_type id).freedAtDownload = true → ok = true) :
    Owned cfg (ol_tx_download_done_hl_free s ok id) hand := by
  unfold ol_tx_download_done_hl_free
  split
  · next htype =>
    obtain rfl := hok htype
    have hreq := h.unanswered hcfg id htype
    have ht : s.target id = false := by
      rw [← Bool.not_eq_true]
      intro ht
      rw [h.requested id ht] at hreq; exact absurd hreq (by simp)
    have href : s.ref_cnt id = 2 := by
      rw [h.ref_cnt id (Or.inl hd)]
      simp only [Pdev.refs, hd, hreq, or_true, if_true]
      decide
    simp only [ol_tx_download_done_base, href]
    exact (((h.downloadDone hd).2 ht).addRsrc 1).free
  · exact h.download_done_base hd ok

/-! ## The count -/

def Pdev.balance (s : Pdev) : Int := s.rsrc_cnt - s.freelist.length

@[simp] theorem balance_addRsrc (s : Pdev) (n : Nat) : (s.addRsrc n).balance = s.balance + n := by
  simp only [Pdev.balance, Pdev.addRsrc]
  omega

@[simp] theorem balance_free (s : Pdev) (id : Nat) :
    (ol_tx_desc_frame_free_nonstd s id).balance = s.balance - 1 := by
  simp only [Pdev.balance, ol_tx_desc_frame_free_nonstd, ol_tx_desc_free, length_cons]
  omega

@[simp] theorem balance_list_free (s : Pdev) (ids : List Nat) :
    (ol_tx_desc_frame_list_free s ids).balance = s.balance - ids.length := by
  induction ids generalizing s with
  | nil => simp [ol_tx_desc_frame_list_free]
  | cons id ids ih =>
    have hstep : ol_tx_desc_frame_list_free s (id :: ids)
        = ol_tx_desc_frame_list_free (ol_tx_desc_frame_free_nonstd s id) ids := rfl
    rw [hstep, ih, balance_free, length_cons]; omega

@[simp] theorem balance_freeFrames (s : Pdev) (frames : List TxDesc) :
    (s.freeFrames frames).balance = s.balance := by
  rw [Pdev.freeFrames, balance_list_free, balance_addRsrc, length_map]; omega

@[simp] theorem balance_initDesc (s : Pdev) (id : Nat) (pkt_type : PktType) (req : Bool) :
    (s.initDesc id pkt_type req).balance = s.balance := rfl

@[simp] theorem balance_accept (s : Pdev) (id : Nat) : (s.accept id).balance = s.balance := rfl

@[simp] theorem balance_downloadDone (s : Pdev) (id : Nat) :
    (s.downloadDone id).balance = s.balance := rfl

@[simp] theorem balance_targetDone (s : Pdev) (id : Nat) :
    (s.targetDone id).balance = s.balance := rfl

theorem balance_alloc {vdev : Nat} (h : ol_tx_desc_alloc_hl s vdev = some (id, s')) :
    s'.balance = s.balance := by
  unfold ol_tx_desc_alloc_hl at h
  split at h
  · exact absurd h (by simp)
  · next k rest hlist =>
    obtain ⟨rfl, rfl⟩ := h
    simp only [Pdev.balance, hlist, length_cons]
    omega

section Send

variable {env : SendEnv}

theorem balance_htt_tx_send_batch (s : Pdev) (rejected ids : List Nat) :
    (htt_tx_send_batch env s rejected ids).1.balance = s.balance ∧
      (htt_tx_send_batch env s rejected ids).2.length
        = rejected.length + ids.countP env.failed := by
  induction ids generalizing s rejected with
  | nil => exact ⟨rfl, by simp [htt_tx_send_batch]⟩
  | cons id ids ih =>
    rw [htt_tx_send_batch, countP_cons]
    split
    · next hf =>
      obtain ⟨hbal, hlen⟩ := ih s (id :: rejected)
      refine ⟨hbal, ?_⟩
      rw [hlen, length_cons]; omega
    · obtain ⟨hbal, hlen⟩ := ih (s.accept id) rejected; exact ⟨hbal, hlen⟩

theorem balance_send_batch (s : Pdev) (ids : List Nat) :
    (ol_tx_send_batch env s ids).balance = s.balance - ids.countP env.failed := by
  obtain ⟨hbal, hlen⟩ := balance_htt_tx_send_batch s [] ids
  rw [ol_tx_send_batch, balance_list_free, hbal, hlen]; simp

theorem balance_dispatchLoop (s : Pdev) (batch ids : List Nat) :
    (dispatchLoop env s batch ids).balance
      = s.balance - (batch ++ ids).countP env.failed := by
  induction ids generalizing s batch with
  | nil => rw [dispatchLoop, balance_send_batch, append_nil]
  | cons id ids ih =>
    have hset : { s with ref_cnt := update s.ref_cnt id 2 }.balance = s.balance := rfl
    rw [dispatchLoop]
    split
    · rw [ih, hset, append_assoc]; rfl
    · have hsingle : (sendSingle env (ol_tx_send_batch env { s with
            ref_cnt := update s.ref_cnt id 2 } batch) id).balance
          = s.balance - batch.countP env.failed - if env.failed id then 1 else 0 := by
        rw [sendSingle]
        split
        · rw [balance_free, balance_send_batch, hset]
        · rw [balance_accept, balance_send_batch, hset]; simp
      rw [ih, hsingle, nil_append, countP_append, countP_cons]
      split
      · omega
      · omega

end Send

theorem balance_completeLoop {ids : List Nat} (s : Pdev) (hnd : ids.Nodup) :
    (completeLoop s ids).1.balance - (completeLoop s ids).2.length
      = s.balance - ids.countP (s.ref_cnt · = 1) := by
  induction ids generalizing s with
  | nil => simp [completeLoop]
  | cons id ids ih =>
    obtain ⟨hid, hnd'⟩ := nodup_cons.mp hnd
    have hsame : ∀ s₁ : Pdev, (∀ k, k ≠ id → s₁.ref_cnt k = s.ref_cnt k) →
        ids.countP (s₁.ref_cnt · = 1) = ids.countP (s.ref_cnt · = 1) := by
      intro s₁ hs₁
      refine countP_congr fun k hk => ?_
      have hne : k ≠ id := fun h => hid (h ▸ hk)
      rw [hs₁ k hne]
    have hdone := hsame (s.targetDone id) fun k hk => update_of_ne hk _ _
    have hfreed := hsame (ol_tx_desc_frame_free_nonstd (s.targetDone id) id) fun k hk =>
      (update_of_ne hk _ _).trans (update_of_ne hk _ _)
    rw [completeLoop, countP_cons]
    split
    · next hz =>
      have hone : s.ref_cnt id = 1 := by omega
      simp only [hone, decide_true, if_true]
      split
      · have := ih (s.targetDone id) hnd'
        rw [hdone, balance_targetDone] at this
        rw [length_cons]
        push_cast
        omega
      · have := ih (ol_tx_desc_frame_free_nonstd (s.targetDone id) id) hnd'
        rw [hfreed, balance_free, balance_targetDone] at this; omega
    · next hz =>
      have hone : s.ref_cnt id ≠ 1 := by omega
      have := ih (s.targetDone id) hnd'
      rw [hdone, balance_targetDone] at this
      simp only [hone, decide_false, Bool.false_eq_true, if_false]
      rw [this]; rfl

/-! ## Steps -/

/-- The steps that free as many descriptors as they count: HTT takes every frame, a
download succeeds before the target answers, a completion comes after the end of the
download, and an inspection before it. -/
def stepOk (s : Pdev) : Op → Bool
  | .dispatch env => s.inHand.all fun id => !env.failed id
  | .download_done id ok => ok && s.ref_cnt id != 1
  | .completion desc_ids => desc_ids.all fun id => s.ref_cnt id == 1
  | .single_completion id => s.ref_cnt id == 1
  | .inspect desc_ids => desc_ids.all fun id => s.ref_cnt id != 1
  | _ => true

def drift (s : Pdev) : Op → Int
  | .dispatch env => -(s.inHand.countP env.failed : Int)
  | .download_done id ok => if ok = true ∧ s.ref_cnt id ≠ 1 then 0 else -1
  | .completion desc_ids => (desc_ids.length : Int) - desc_ids.countP (s.ref_cnt · = 1)
  | .single_completion id => if s.ref_cnt id = 1 then 0 else 1
  | .inspect desc_ids => -(desc_ids.countP (s.ref_cnt · = 1) : Int)
  | _ => 0

theorem drift_eq_zero (s : Pdev) (op : Op) : drift s op = 0 ↔ stepOk s op = true := by
  cases op with
  | dispatch env =>
    simp only [drift, stepOk, Int.neg_eq_zero, Int.natCast_eq_zero, countP_eq_zero, all_eq_true,
      Bool.not_eq_true, Bool.not_eq_true']
  | download_done id ok =>
    simp only [drift, stepOk, Bool.and_eq_true, bne_iff_ne, ne_eq]
    split <;> simp_all
  | completion desc_ids =>
    have hall : desc_ids.countP (s.ref_cnt · = 1) = desc_ids.length ↔
        ∀ id ∈ desc_ids, s.ref_cnt id = 1 := by
      rw [countP_eq_length]; simp only [decide_eq_true_eq]
    simp only [drift, stepOk, all_eq_true, beq_iff_eq]
    rw [← hall]; omega
  | single_completion id =>
    simp only [drift, stepOk, beq_iff_eq]
    split <;> simp_all
  | inspect desc_ids =>
    simp only [drift, stepOk, Int.neg_eq_zero, Int.natCast_eq_zero, countP_eq_zero, all_eq_true,
      decide_eq_true_eq, bne_iff_ne, ne_eq]
  | _ => simp [drift, stepOk]

theorem balance_enqueue {q : TxqId} {d : TxDesc} (h : ol_tx_enqueue cfg T s q d = some s') :
    s'.balance = s.balance := by
  obtain ⟨r, -, rfl⟩ := Option.map_eq_some_iff.mp h
  rw [balance_freeFrames]; rfl

theorem hl_desc_alloc_eq {vdev : Nat} {hi_prio : Bool}
    (h : ol_tx_hl_desc_alloc cfg s vdev hi_prio = some (id, s')) :
    ol_tx_desc_alloc_hl s vdev = some (id, s') := by
  unfold ol_tx_hl_desc_alloc at h
  split at h
  · exact absurd h (by simp)
  · exact h

theorem balance_hl_base {tx_spec : TxSpec} {msdu : Msdu} {req : Bool}
    (h : ol_tx_hl_base cfg T s tx_spec msdu req = some s') : s'.balance = s.balance := by
  unfold ol_tx_hl_base at h
  split at h
  · cases h; rfl
  · next id s₁ halloc =>
    have hbal := balance_alloc (hl_desc_alloc_eq halloc)
    split at h
    · cases h; exact hbal
    · cases h
      rw [balance_free, balance_addRsrc, balance_initDesc, hbal]; omega
    · rw [balance_enqueue h, balance_initDesc, hbal]

theorem balance_mgmt_send {vdev type len credit : Nat} {txq : Option TxqId}
    (h : ol_txrx_mgmt_send cfg T s vdev type len credit txq = some s') :
    s'.balance = s.balance := by
  unfold ol_txrx_mgmt_send at h
  split at h
  · cases h; rfl
  · next id s₁ halloc =>
    have hbal := balance_alloc halloc
    split at h
    · cases h
      rw [balance_free, balance_addRsrc, balance_initDesc, hbal]; omega
    · rw [balance_enqueue h, balance_initDesc, hbal]

theorem balance_download_done_base (s : Pdev) (ok : Bool) (id : Nat) :
    (ol_tx_download_done_base s ok id).balance = s.balance + drift s (.download_done id ok) := by
  unfold ol_tx_download_done_base drift
  cases ok with
  | false =>
    have hset : { s with
        download := update s.download id false
        target := update s.target id false }.balance = s.balance := rfl
    simp only [Bool.false_eq_true, if_false, false_and]
    rw [balance_free, hset]; omega
  | true =>
    by_cases hone : s.ref_cnt id = 1
    · simp only [hone, if_true, ne_eq, not_true_eq_false, and_false, if_false]
      rw [if_pos (by omega), balance_free, balance_downloadDone]; omega
    · simp only [if_true, ne_eq, hone, not_false_eq_true, and_self]
      rw [if_neg (by omega), balance_downloadDone]; omega

theorem step_balance {op : Op} (h : step cfg T specs s op = some s') :
    s'.balance = s.balance + drift s op := by
  cases op with
  | hl msdu => rw [balance_hl_base h]; exact (Int.add_zero _).symm
  | non_std_hl tx_spec msdu cb => rw [balance_hl_base h]; exact (Int.add_zero _).symm
  | mgmt_send vdev type len credit txq => rw [balance_mgmt_send h]; exact (Int.add_zero _).symm
  | sched_start =>
    cases h
    change (schedStart s).balance = s.balance + 0
    rw [Int.add_zero, schedStart]
    split
    · rfl
    · rfl
  | select_batch env =>
    obtain ⟨frames, -, hrest⟩ := Option.bind_eq_some_iff.mp h
    obtain ⟨r, -, rfl⟩ := Option.map_eq_some_iff.mp hrest
    exact (Int.add_zero _).symm
  | dispatch env =>
    simp only [step] at h
    split at h
    · cases h
      have hbal : (dispatchLoop env s [] s.inHand).balance = _ := balance_dispatchLoop s [] s.inHand
      exact hbal
    · exact absurd h (by simp)
  | discard_pending =>
    obtain ⟨r, -, rfl⟩ := Option.map_eq_some_iff.mp h
    rw [balance_freeFrames]; exact (Int.add_zero _).symm
  | queue_free q =>
    obtain ⟨r, -, rfl⟩ := Option.map_eq_some_iff.mp h
    rw [balance_freeFrames]; exact (Int.add_zero _).symm
  | download_done id ok =>
    simp only [step] at h
    split at h
    · cases h
      split
      · rw [ol_tx_download_done_hl_free]
        split
        · rw [balance_free, balance_addRsrc, balance_download_done_base]; omega
        · exact balance_download_done_base s ok id
      · exact balance_download_done_base s ok id
    · exact absurd h (by simp)
  | completion desc_ids =>
    simp only [step] at h
    split at h
    · next hids =>
      cases h
      have hbal := balance_completeLoop s hids.1
      rw [ol_tx_completion_handler, balance_addRsrc, balance_list_free, hbal, drift]; omega
    · exact absurd h (by simp)
  | single_completion id =>
    simp only [step] at h
    split at h
    · cases h
      rw [ol_tx_single_completion_handler, balance_addRsrc, drift]
      by_cases hone : s.ref_cnt id = 1
      · rw [if_pos (by omega), if_pos hone, balance_free, balance_targetDone]; omega
      · rw [if_neg (by omega), if_neg hone, balance_targetDone]; omega
    · exact absurd h (by simp)
  | inspect desc_ids =>
    simp only [step] at h
    split at h
    · next hids =>
      cases h
      have hbal := balance_completeLoop s hids.1
      rw [ol_tx_inspect_handler, balance_list_free, hbal, drift]; omega
    · exact absurd h (by simp)
  | pause peer tid =>
    obtain ⟨r, -, rfl⟩ := Option.map_eq_some_iff.mp h
    exact (Int.add_zero _).symm
  | unpause peer tid =>
    obtain ⟨r, -, rfl⟩ := Option.map_eq_some_iff.mp h
    exact (Int.add_zero _).symm
  | set_wmm_param weight => cases h; exact (Int.add_zero _).symm

/-- A frame that is freed when its download is done is freed twice if the download
failed. -/
def freesTwice (cfg : Cfg) (s : Pdev) : Op → Bool
  | .download_done id ok => cfg.tx_free_at_download && !ok && (s.pkt_type id).freedAtDownload
  | _ => false

theorem Owned.ol_tx_enqueue {q : TxqId} {d : TxDesc} (h : Owned cfg s (d.id :: s.inHand))
    (he : ol_tx_enqueue cfg T s q d = some s') : Owned cfg s' s'.inHand := by
  obtain ⟨r, hr, rfl⟩ := Option.map_eq_some_iff.mp he
  have h₁ := (h.enqueue hr).freeFrames
  have hsctx : ({ s with sched := r.1 }.freeFrames r.2).sctx = s.sctx := list_free_sctx _ _
  rw [Pdev.inHand, hsctx]; exact h₁

theorem Owned.hl_base {tx_spec : TxSpec} {msdu : Msdu} {req : Bool} (h : Owned cfg s s.inHand)
    (hreq : cfg.tx_free_at_download = true → tx_spec.pkt_type.freedAtDownload = true →
      req = false)
    (hs : ol_tx_hl_base cfg T s tx_spec msdu req = some s') : Owned cfg s' s'.inHand := by
  unfold ol_tx_hl_base at hs
  split at hs
  · cases hs; exact h
  · next id s₁ halloc =>
    have hsctx := alloc_sctx (hl_desc_alloc_eq halloc)
    have h₁ := (h.alloc (hl_desc_alloc_eq halloc)).initDesc hreq
    rw [Pdev.inHand, ← hsctx] at h₁
    split at hs
    · cases hs; exact h₁.drop
    · cases hs; exact (h₁.addRsrc 1).free
    · exact Owned.ol_tx_enqueue h₁ hs

theorem Owned.mgmt_send {vdev type len credit : Nat} {txq : Option TxqId} (h : Owned cfg s s.inHand)
    (hs : ol_txrx_mgmt_send cfg T s vdev type len credit txq = some s') :
    Owned cfg s' s'.inHand := by
  unfold ol_txrx_mgmt_send at hs
  split at hs
  · cases hs; exact h
  · next id s₁ halloc =>
    have hsctx := alloc_sctx halloc
    have h₁ : Owned cfg (s₁.initDesc id (.mgmt type) true) (id :: s.inHand) :=
      (h.alloc halloc).initDesc fun _ hfreed => absurd hfreed (by simp [PktType.freedAtDownload])
    rw [Pdev.inHand, ← hsctx] at h₁
    split at hs
    · cases hs; exact (h₁.addRsrc 1).free
    · exact Owned.ol_tx_enqueue h₁ hs

/-- **Every descriptor stays in one place**, unless it is freed twice. -/
theorem step_owned {op : Op} (h : Owned cfg s s.inHand) (hok : freesTwice cfg s op = false)
    (hs : step cfg T specs s op = some s') : Owned cfg s' s'.inHand := by
  cases op with
  | hl msdu =>
    refine h.hl_base (fun hcfg _ => ?_) hs
    rw [Cfg.default_tx_comp_req, hcfg]; rfl
  | non_std_hl tx_spec msdu cb =>
    refine h.hl_base (fun hcfg htype => ?_) hs
    have hspec : tx_spec ≠ ol_tx_spec_no_free := by rintro rfl; exact absurd htype (by decide)
    simp only [Cfg.default_tx_comp_req, hcfg, hspec, decide_false, Bool.not_true,
      Bool.false_and, Bool.or_self]
  | mgmt_send vdev type len credit txq => exact h.mgmt_send hs
  | sched_start =>
    cases hs
    rw [schedStart]
    split
    · exact h
    · next hnone =>
      have hhand : s.inHand = [] := by
        rw [Pdev.inHand, Option.not_isSome_iff_eq_none.mp hnone]; rfl
      rw [hhand] at h
      have h₁ := h.sched (t := ol_tx_sched_select_init_wrr_adv s.sched) fun q => rfl
      exact h₁.move h₁.exclusive (fun p _ hk => ⟨p, hk⟩) rfl rfl (fun _ _ => rfl) rfl rfl
  | select_batch env =>
    obtain ⟨frames, hsctx, hrest⟩ := Option.bind_eq_some_iff.mp hs
    obtain ⟨⟨t, b⟩, hb, rfl⟩ := Option.map_eq_some_iff.mp hrest
    obtain ⟨q, hq⟩ := select_batch_takes hb
    have h₁ := h.take hq
    have h₂ : Owned cfg { s with sched := t, sctx := some (frames ++ servedFrames b) } _ :=
      h₁.move h₁.exclusive (fun p _ hk => ⟨p, hk⟩) rfl rfl (fun _ _ => rfl) rfl rfl
    refine h₂.perm ?_
    simp only [Pdev.inHand, hsctx, Option.getD_some, map_append]
    exact perm_append_comm
  | dispatch env =>
    simp only [step] at hs
    split at hs
    · cases hs
      rw [← nil_append s.inHand, ← append_nil s.inHand] at h
      have h₁ : Owned cfg (dispatchLoop env s [] s.inHand) [] := Owned.dispatchLoop h (by simp)
      exact h₁.move h₁.exclusive (fun p _ hk => ⟨p, hk⟩) rfl rfl (fun _ _ => rfl) rfl rfl
    · exact absurd hs (by simp)
  | discard_pending =>
    obtain ⟨⟨t, frames⟩, hd, rfl⟩ := Option.map_eq_some_iff.mp hs
    have h₁ := (Owned.discardLoop h hd).freeFrames
    rw [Pdev.inHand, Pdev.freeFrames, list_free_sctx]; exact h₁
  | queue_free q =>
    obtain ⟨⟨t, frames⟩, hf, rfl⟩ := Option.map_eq_some_iff.mp hs
    have h₁ := (h.take (queue_free_takes hf)).freeFrames
    rw [Pdev.inHand, Pdev.freeFrames, list_free_sctx]; exact h₁
  | download_done id ok =>
    simp only [step] at hs
    split at hs
    · next hd =>
      cases hs
      split
      · next hcfg =>
        have hfree := h.download_done_hl_free hd hcfg fun htype => by
          simpa [freesTwice, hcfg, htype] using hok
        rw [Pdev.inHand, download_done_hl_free_sctx]; exact hfree
      · rw [Pdev.inHand, ol_tx_download_done_hl_retain, download_done_base_sctx]
        exact h.download_done_base hd ok
    · exact absurd hs (by simp)
  | completion desc_ids =>
    simp only [step] at hs
    split at hs
    · next hids =>
      cases hs
      have hsctx : (ol_tx_completion_handler s desc_ids).sctx = s.sctx :=
        (list_free_sctx _ _).trans (completeLoop_sctx s desc_ids)
      rw [Pdev.inHand, hsctx]
      exact (h.completeLoop hids.1 hids.2).list_free.addRsrc desc_ids.length
    · exact absurd hs (by simp)
  | single_completion id =>
    simp only [step] at hs
    split at hs
    · next ht =>
      cases hs
      obtain ⟨hlast, hmore⟩ := h.targetDone ht
      rw [ol_tx_single_completion_handler]
      split
      · next hz => exact (hlast hz).free.addRsrc 1
      · next hz => exact (hmore hz).addRsrc 1
    · exact absurd hs (by simp)
  | inspect desc_ids =>
    simp only [step] at hs
    split at hs
    · next hids =>
      cases hs
      have hsctx : (ol_tx_inspect_handler s desc_ids).sctx = s.sctx :=
        (list_free_sctx _ _).trans (completeLoop_sctx s desc_ids)
      rw [Pdev.inHand, hsctx]; exact (h.completeLoop hids.1 hids.2).list_free
    · exact absurd hs (by simp)
  | pause peer tid =>
    obtain ⟨t, ht, rfl⟩ := Option.map_eq_some_iff.mp hs
    have h₁ := h.sched fun q => pause_head ht q
    exact h₁
  | unpause peer tid =>
    obtain ⟨t, ht, rfl⟩ := Option.map_eq_some_iff.mp hs
    have h₁ := h.sched fun q => unpause_head ht q
    exact h₁
  | set_wmm_param weight =>
    cases hs
    have h₁ := h.sched (t := ol_txrx_set_wmm_param specs s.sched weight) fun q => rfl
    exact h₁

/-! ## Runs -/

/-- Each free descriptor is on the free list once, and `rsrc_cnt` is the number of
descriptors that are not allocated. -/
structure Accounted (cfg : Cfg) (s : Pdev) : Prop where
  freelist : s.freelist.Nodup
  rsrc_cnt : s.rsrc_cnt = (cfg.pool_size : Int) - (s.allocated cfg).length

theorem Owned.accounted (h : Owned cfg s hand) : Accounted cfg s ↔ s.balance = 0 := by
  have hlen := length_range_filter_not_mem (h.exclusive.nodup .free) (h.in_pool .free)
  have hfree : s.places hand .free = s.freelist := rfl
  rw [hfree] at hlen
  constructor
  · intro ha
    have hcnt := ha.rsrc_cnt
    rw [Pdev.balance]
    rw [Pdev.allocated] at hcnt; omega
  · intro hbal
    refine ⟨h.exclusive.nodup .free, ?_⟩
    rw [Pdev.balance] at hbal
    rw [Pdev.allocated]; omega

theorem init_owned (cfg : Cfg) (specs : Cat → Specs) : Owned cfg (Pdev.init cfg specs) [] where
  exclusive := by
    refine ⟨?_, ?_⟩
    · rintro (_ | q | _)
      · exact nodup_range
      · exact nodup_nil
      · exact nodup_nil
    · rintro (_ | q | _) (_ | q' | _) a ha ha'
      · rfl
      · cases ha'
      · cases ha'
      · cases ha
      · cases ha
      · cases ha
      · cases ha
      · cases ha
      · cases ha
  in_pool := by
    rintro (_ | q | _) id hid
    · exact mem_range.mp hid
    · cases hid
    · cases hid
  settled := fun _ _ _ => ⟨rfl, rfl⟩
  sent_in_pool := fun id hid => absurd hid (by simp [Pdev.init])
  ref_cnt := fun id hid => absurd hid (by simp [Pdev.init])
  requested := fun id hid => absurd hid (by simp [Pdev.init])
  unanswered := fun _ _ _ => rfl

theorem init_balance (cfg : Cfg) (specs : Cat → Specs) : (Pdev.init cfg specs).balance = 0 := by
  simp [Pdev.balance, Pdev.init]

theorem freesTwice_of_stepOk {op : Op} (hok : stepOk s op = true) :
    freesTwice cfg s op = false := by
  cases op with
  | download_done id ok =>
    have htrue : ok = true := (Bool.and_eq_true_iff.mp hok).1
    simp [freesTwice, htrue]
  | _ => rfl

theorem not_accounted_of_freesTwice {op : Op} (htwice : freesTwice cfg s op = true)
    (hs : step cfg T specs s op = some s') : ¬ Accounted cfg s' := by
  cases op with
  | download_done id ok =>
    simp only [freesTwice, Bool.and_eq_true, Bool.not_eq_true'] at htwice
    obtain ⟨⟨hcfg, rfl⟩, htype⟩ := htwice
    simp only [step] at hs
    split at hs
    · rw [ol_tx_download_done_hl_free, if_pos htype] at hs
      cases hs
      intro ha
      have hnd : (id :: id :: s.freelist).Nodup := ha.freelist
      exact (nodup_cons.mp hnd).1 mem_cons_self
    · exact absurd hs (by simp)
  | _ => exact absurd htwice (by simp [freesTwice])

/-- **The descriptors are accounted for** in every state of every run in which HTT takes
every frame, every download succeeds and ends before the target answers, and no frame
is inspected after its download. From there a step keeps the count if and only if it is
such a step. -/
theorem rsrc_cnt_accounted (cfg : Cfg) (T : TidToAc) (specs : Cat → Specs) (es : List Op) (s : Pdev)
    (h : run (guarded (fun s op => stepOk s op = true) (step cfg T specs)) (Pdev.init cfg specs) es
      = some s) :
    Accounted cfg s ∧
      ∀ op s', step cfg T specs s op = some s' → (Accounted cfg s' ↔ stepOk s op = true) := by
  have hinv : Owned cfg s s.inHand ∧ s.balance = 0 := by
    refine guarded_run_invariant (I := fun s => Owned cfg s s.inHand ∧ s.balance = 0)
      (fun t op t' ht hok hst => ?_) ⟨init_owned cfg specs, init_balance cfg specs⟩ h
    refine ⟨step_owned ht.1 (freesTwice_of_stepOk hok) hst, ?_⟩
    rw [step_balance hst, ht.2, (drift_eq_zero t op).mpr hok]; rfl
  obtain ⟨howned, hbal⟩ := hinv
  refine ⟨howned.accounted.mpr hbal, fun op s' hst => ?_⟩
  cases htwice : freesTwice cfg s op with
  | true =>
    refine ⟨fun ha => absurd ha (not_accounted_of_freesTwice htwice hst), fun hok => ?_⟩
    rw [freesTwice_of_stepOk hok] at htwice; exact absurd htwice (by simp)
  | false =>
    rw [(step_owned howned htwice hst).accounted, step_balance hst, hbal, Int.zero_add,
      drift_eq_zero]

def fourDescs (tx_free_at_download : Bool) : Cfg := ⟨4, tx_free_at_download, false, false⟩

def dataMsdu : Msdu := ⟨0, 100, 1, false, .queued (.peer 0 ⟨0, TxSched.zero_lt_num_tids⟩)⟩

def sendAll : SendEnv := ⟨fun _ => true, fun _ => false⟩

def sendNone : SendEnv := ⟨fun _ => true, fun _ => true⟩

def plentyOfCredit : BatchEnv := ⟨100, true, fun _ credit => credit, fun _ => none⟩

/-- Two frames are sent, one of them is completed, and a third waits. -/
theorem rsrc_cnt_accounted_three :
    ∃ s, run (guarded (fun s op => stepOk s op = true) (step (fourDescs false) .zeroed specsSdio))
        (Pdev.init (fourDescs false) specsSdio)
        [.hl dataMsdu, .hl dataMsdu, .sched_start, .select_batch plentyOfCredit, .hl dataMsdu,
          .dispatch sendAll, .download_done 0 true, .download_done 1 true, .completion [0]] = some s ∧
      s.rsrc_cnt = 2 ∧ s.allocated (fourDescs false) = [1, 2] ∧ Accounted (fourDescs false) s := by
  exact exists_of_tested (fun s => _ ∧ _) (by decide +kernel) fun s hs ⟨hcnt, hall⟩ =>
    ⟨hcnt, hall, (rsrc_cnt_accounted (fourDescs false) .zeroed specsSdio _ s hs).1⟩

/-- HTT rejects a frame: its descriptor is free, and not counted. -/
theorem rejected_not_counted :
    ∃ s, run (step (fourDescs false) .zeroed specsSdio) (Pdev.init (fourDescs false) specsSdio)
        [.hl dataMsdu, .sched_start, .select_batch plentyOfCredit, .dispatch sendNone] = some s ∧
      s.rsrc_cnt = 3 ∧ s.allocated (fourDescs false) = [] ∧ ¬ Accounted (fourDescs false) s := by
  refine exists_of_tested (fun s => s.rsrc_cnt = 3 ∧ s.allocated (fourDescs false) = [])
    (by decide +kernel) fun s hs ⟨hthree, hnil⟩ => ⟨hthree, hnil, fun ha => ?_⟩
  have hcnt := ha.rsrc_cnt
  rw [hthree, hnil] at hcnt; exact absurd hcnt (by decide)

end Qcacld.TxDescHl
