/-
The tx scheduler: batches, discards, and whole runs.

In every state of a run, the counters, the lists, the status of the queues and the pauses agree, as
long as no queue is freed while it is paused and no queue is paused 256 times over.
-/
import Qcacld.TxSched
import Mathlib.Data.List.Perm.Basic

set_option autoImplicit false

namespace Qcacld.TxSched

open Lib Function List Option

section

/-! ## Frames leave a linked queue -/

section Dequeue

variable {T : TidToAc} {s s' : Pdev} {q : TxqId} {t : Txq} {frames : List TxDesc} {k : Category}

theorem Dequeued.linked {u : Txq} (hd : Dequeued u t frames) (f : Txq → Nat)
    (hf : ∀ t, QueueOk t → t.frms = 0 → f t = 0) : t.linked f = f t := by
  unfold Txq.linked
  rw [hd.flag]
  by_cases hz : t.frms = 0
  · simp [hz, hf t hd.ok hz]
  · simp [hz]

/-- The accounting for a dequeue; where the queue is put in the list, if it has
frames left, is up to the caller. -/
theorem Inv.dequeue (h : Inv T s) (hq : (s.txq q).flag = .active) (hd : Dequeued (s.txq q) t frames)
    (htxq : s'.txq = update s.txq q t) (hcat : s'.cat = update s.cat (T.cat q) k)
    (horder : s'.order.length = s.order.length) (hnd : k.head.Nodup)
    (hmem : ∀ x, x ∈ k.head ↔ if x = q then t.frms ≠ 0 else x ∈ (s.cat (T.cat q)).head)
    (hfrms : k.frms = (s.cat (T.cat q)).frms - frames.length)
    (hbytes : k.bytes = (s.cat (T.cat q)).bytes - bytesOf frames)
    (hactive : k.active = if t.frms = 0 ∧ k.frms = 0 then false else (s.cat (T.cat q)).active) :
    Inv T s' := by
  obtain ⟨hle, hact⟩ := h.linked_le hq
  have hf := hd.frms
  have hb := hd.bytes
  have hlinked : ∀ f : Txq → Nat, (s.txq q).linked f = f (s.txq q) := fun f => if_pos hq
  refine h.settle hd.ok htxq hcat horder hnd (fun x => ?_) ?_ ?_ ?_
  · rw [hmem]
    by_cases hx : x = q
    · rw [if_pos hx, if_pos hx, hd.flag]
      by_cases hz : t.frms = 0 <;> simp [hz]
    · rw [if_neg hx, if_neg hx]
  · rw [hlinked, hd.linked Txq.frms fun _ _ hz => hz, hfrms]; omega
  · rw [hlinked, hd.linked Txq.bytes fun _ ht hz => ht.bytes_eq_zero hz, hbytes]; omega
  · rw [hactive, hact]
    by_cases hz : t.frms = 0 ∧ k.frms = 0
    · rw [if_pos hz, hz.2]; simp
    · rw [if_neg hz]
      refine iff_of_true rfl ?_
      omega

end Dequeue

/-! ## Discarding -/

section Discard

variable {T : TidToAc} {s : Pdev}

theorem mem_of_select_txq {l : List TxqId} {q : TxqId}
    (h : ol_tx_sched_discard_select_txq s l = some q) : q ∈ l := by
  have hfold : ∀ (l : List TxqId) (best : Nat × Option TxqId),
      (l.foldl (fun (best : Nat × Option TxqId) q =>
        if (s.txq q).frms > best.1 then ((s.txq q).frms, some q) else best) best).2 = some q →
      q ∈ l ∨ best.2 = some q := by
    intro l
    induction l with
    | nil => exact fun best hb => .inr hb
    | cons x l ih =>
      intro best hb
      rw [foldl_cons] at hb
      rcases ih _ hb with hm | hbest
      · exact .inl (mem_cons_of_mem x hm)
      · split at hbest
        · exact .inl (some.inj hbest ▸ mem_cons_self)
        · exact .inr hbest
  exact (hfold l (0, none) h).resolve_right (by simp)

theorem discardQuota_le (queued frms : Nat) (force : Bool) :
    discardQuota queued frms force ≤ frms := by
  unfold discardQuota OL_TX_DISCARD_QUANTUM
  dsimp only
  split_ifs <;> omega

theorem txq_discard_last {q : TxqId} {c : Cat} (hz : (s.txq q).frms = 0) (hm : q ∈ (s.cat c).head)
    (frames bytes : Nat) :
    ol_tx_sched_txq_discard_wrr_adv s q c frames bytes = some (s.setCat c
      { frms := (s.cat c).frms - frames
        bytes := (s.cat c).bytes - bytes
        head := (s.cat c).head.erase q
        active := if (s.cat c).frms - frames = 0 then false else (s.cat c).active }) := by
  unfold ol_tx_sched_txq_discard_wrr_adv
  rw [if_pos hz, if_pos hm]

theorem txq_discard_more {q : TxqId} {c : Cat} (hz : (s.txq q).frms ≠ 0) (frames bytes : Nat) :
    ol_tx_sched_txq_discard_wrr_adv s q c frames bytes = some (s.setCat c
      { frms := (s.cat c).frms - frames
        bytes := (s.cat c).bytes - bytes
        head := (s.cat c).head
        active := if (s.cat c).frms - frames = 0 then false else (s.cat c).active }) := by
  unfold ol_tx_sched_txq_discard_wrr_adv
  rw [if_neg hz]

theorem discard_select_spec (h : Inv T s) (frms : Nat) (force : Bool) :
    ∃ s' frames, ol_tx_sched_discard_select T s frms force = some (s', frames) ∧ Inv T s' ∧
      frames.length ≤ frms := by
  unfold ol_tx_sched_discard_select
  dsimp only
  generalize ol_tx_sched_discard_select_category_wrr_adv s = c
  split
  · exact ⟨s, [], rfl, h, Nat.zero_le _⟩
  next q hsel =>
  have hmem := mem_of_select_txq hsel
  obtain ⟨rfl, hq⟩ := (h.mem c q).mp hmem
  obtain ⟨t, frames, hdeq, hlen, hd⟩ := dequeue_spec (h.queue q) hq
    (discardQuota (s.txq q).frms frms force) 10000
  rw [hdeq, bind_some]
  rw [ol_tx_sched_notify]
  have hlen' := Nat.le_trans hlen (discardQuota_le _ _ _)
  by_cases hz : t.frms = 0
  · rw [txq_discard_last (s := s.setTxq q t) (by rw [setTxq_self]; exact hz) hmem, map_some]
    refine ⟨_, frames, rfl, h.dequeue (q := q) hq hd rfl rfl rfl ((h.nodup _).erase q)
      (fun x => ?_) rfl rfl ?_, hlen'⟩
    · change x ∈ (s.cat (T.cat q)).head.erase q ↔ _
      rw [(h.nodup _).mem_erase_iff]
      by_cases hx : x = q <;> simp [hx, hz]
    · simp only [hz, true_and]; rfl
  · rw [txq_discard_more (s := s.setTxq q t) (by rw [setTxq_self]; exact hz), map_some]
    refine ⟨_, frames, rfl, h.dequeue (q := q) hq hd rfl rfl rfl (h.nodup _)
      (fun x => ?_) rfl rfl ?_, hlen'⟩
    · by_cases hx : x = q
      · simp [hx, hz, hmem]
      · simp [hx]
    · -- frames are left in the queue, so the counter is not zero
      obtain ⟨hle, -⟩ := h.linked_le hq
      have hf := hd.frms
      have hpos : (s.cat (T.cat q)).frms - (frames.length : Int) ≠ 0 := by omega
      exact (if_neg hpos).trans (if_neg fun hz' => hz hz'.1).symm

theorem discardLoop_spec (h : Inv T s) (force : Bool) {fuel num : Nat} (hn : num ≤ fuel) :
    ∃ s' frames, discardLoop T force fuel s num = some (s', frames) ∧ Inv T s' := by
  induction fuel generalizing s num with
  | zero => rw [discardLoop, if_pos (Nat.le_zero.mp hn)]; exact ⟨s, [], rfl, h⟩
  | succ fuel ih =>
    rw [discardLoop]
    split
    · exact ⟨s, [], rfl, h⟩
    · obtain ⟨s₁, frames, hsel, hinv, hlen⟩ := discard_select_spec h num force
      rw [hsel, bind_some]
      split
      · exact ⟨s₁, [], rfl, hinv⟩
      · next hne =>
        have hpos : 0 < frames.length := length_pos_of_ne_nil hne
        obtain ⟨s₂, more, hloop, hinv'⟩ := ih hinv (show num - frames.length ≤ fuel by omega)
        rw [hloop, map_some]; exact ⟨s₂, frames ++ more, rfl, hinv'⟩

theorem enqueue_spec (h : Inv T s) (q : TxqId) (d : TxDesc) (low : Option Nat) :
    ∃ s' frames, ol_tx_enqueue T s q d low = some (s', frames) ∧ Inv T s' := by
  cases low with
  | none =>
    obtain ⟨s', hs', hinv⟩ := enqueueFrame_spec h q d
    rw [ol_tx_enqueue, hs', map_some]; exact ⟨s', [], rfl, hinv⟩
  | some num =>
    obtain ⟨s₁, frames, hdisc, hinv⟩ := discardLoop_spec h false (Nat.le_refl num)
    obtain ⟨s', hs', hinv'⟩ := enqueueFrame_spec hinv q d
    rw [ol_tx_enqueue, ol_tx_queue_discard, hdisc, bind_some, hs', map_some]
    exact ⟨s', frames, rfl, hinv'⟩

end Discard

/-! ## Batches -/

section Batch

variable {T : TidToAc} {s : Pdev}

/-- How many passes the loop can still make: each moves on, or brings the count of
a category closer to its weight. -/
def Pdev.passes (s : Pdev) (index : Nat) : Nat :=
  Cat.all.length - index + tally id (fun c => (s.specs c).wrr_skip_weight - s.wrr_count c) Cat.all

theorem length_rotateToTail {order : List Cat} {idx : Nat} (h : idx < order.length) (c : Cat) :
    (rotateToTail order idx c).length = order.length := by
  rw [rotateToTail, length_append, length_eraseIdx_of_lt h]
  simp only [length_singleton]
  omega

theorem Cat.mem_all (c : Cat) : c ∈ Cat.all := by
  cases c <;> decide

/-- **The loop comes to an end**, at an active category if at any. -/
theorem selectLoop_spec {fuel index : Nat} (horder : s.order.length = Cat.all.length)
    (hfuel : s.passes index < fuel) :
    ∃ s' i r, selectLoop fuel s index = some (s', i, r) ∧ s'.txq = s.txq ∧ s'.cat = s.cat ∧
      s'.order.length = s.order.length ∧
      ∀ c, r = some c → (s.cat c).active = true ∧ i < s'.order.length := by
  induction fuel generalizing s index with
  | zero => exact absurd hfuel (Nat.not_lt_zero _)
  | succ fuel ih =>
    rw [selectLoop]
    by_cases hi : index < Cat.all.length
    · rw [if_pos hi]
      have hi' : index < s.order.length := by rwa [horder]
      rw [getElem?_eq_getElem hi', bind_some]
      generalize s.order[index] = c
      by_cases hact : (s.cat c).active = false
      · rw [if_pos hact]
        refine ih horder ?_
        unfold Pdev.passes at hfuel ⊢
        omega
      · rw [if_neg hact]
        have hact' : (s.cat c).active = true := (Bool.not_eq_false _).mp hact
        by_cases hw : s.wrr_count c + 1 < (s.specs c).wrr_skip_weight
        · rw [if_pos hw]
          let s₁ : Pdev := { s with
            wrr_count := update s.wrr_count c (s.wrr_count c + 1)
            order := rotateToTail s.order index c }
          have hlen : s₁.order.length = s.order.length := length_rotateToTail hi' c
          have htable : (fun d => (s₁.specs d).wrr_skip_weight - s₁.wrr_count d)
              = update (fun d => (s.specs d).wrr_skip_weight - s.wrr_count d) c
                  ((s.specs c).wrr_skip_weight - (s.wrr_count c + 1)) := by
            funext d
            by_cases hd : d = c
            · rw [hd, update_self]
              dsimp only [s₁]
              rw [update_self]
            · rw [update_of_ne hd]
              dsimp only [s₁]
              rw [update_of_ne hd]
          have hsum := tally_update id
            (fun d => (s.specs d).wrr_skip_weight - s.wrr_count d)
            ((s.specs c).wrr_skip_weight - (s.wrr_count c + 1)) (by decide) (Cat.mem_all c)
          have hless : s₁.passes index < fuel := by
            unfold Pdev.passes at hfuel ⊢
            rw [htable]
            dsimp only [id] at hsum
            omega
          obtain ⟨s', i, r, hs', htxq, hcat, hord, hr⟩ := ih (s := s₁) (hlen.trans horder) hless
          exact ⟨s', i, r, hs', htxq, hcat, hord.trans hlen, hr⟩
        · rw [if_neg hw]
          refine ⟨_, index, some c, rfl, rfl, rfl, rfl, fun d hd => ?_⟩
          rw [← some.inj hd]; exact ⟨hact', hi'⟩
    · rw [if_neg hi]
      exact ⟨s, index, none, rfl, rfl, rfl, rfl, fun c hc => absurd hc (by simp)⟩

theorem passes_lt_selectFuel (index : Nat) : s.passes index < s.selectFuel := by
  have hle : ∀ l : List Cat,
      tally id (fun c => (s.specs c).wrr_skip_weight - s.wrr_count c) l
        ≤ (l.map fun c => (s.specs c).wrr_skip_weight).sum := by
    intro l
    induction l with
    | nil => exact Nat.le_refl 0
    | cons c l ih =>
      rw [tally_cons, map_cons, sum_cons]
      dsimp only [id]
      omega
  have := hle Cat.all
  unfold Pdev.passes Pdev.selectFuel; omega

def Batch.Ok (s : Pdev) : Batch → Prop
  | .noTxq _ => False
  | .blocked q => (s.txq q).paused_count = 0
  | .served q _ => (s.txq q).paused_count = 0
  | _ => True

theorem serveCategory_spec (h : Inv T s) (env : BatchEnv) {c : Cat}
    (hact : (s.cat c).active = true) :
    ∃ s' b, serveCategory s env c = some (s', b) ∧ Inv T s' ∧ b.Ok s := by
  have hpos := (h.active c).mp hact
  unfold serveCategory
  dsimp only
  split
  · next hhead => rw [h.frms, hhead] at hpos; exact absurd hpos (by simp)
  · next q rest hhead =>
      have hnd := h.nodup c
      rw [hhead, nodup_cons] at hnd
      have hmem : q ∈ (s.cat c).head := by rw [hhead]; exact mem_cons_self
      obtain ⟨rfl, hq⟩ := (h.mem c q).mp hmem
      have hcount := ((h.queue q).active hq).2
      have hrot : ∀ x, x ∈ rest ++ [q] ↔ x ∈ (s.cat (T.cat q)).head := by
        intro x
        rw [hhead, mem_append, mem_singleton, mem_cons, or_comm]
      have hrotnd : (rest ++ [q]).Nodup := nodup_append_singleton hnd.2 hnd.1
      split
      · obtain ⟨t, frames, hdeq, -, hd⟩ := dequeue_spec (h.queue q) hq
          (ol_tx_bad_peer_dequeue_check env q (s.specs (T.cat q)).send_limit)
          (env.group_credit_limit q env.credit - (s.specs (T.cat q)).credit_reserve)
        rw [hdeq, map_some]
        refine ⟨_, .served q frames, rfl, ?_, hcount⟩
        by_cases hz : t.frms > 0
        · rw [if_pos hz]
          refine h.dequeue (q := q) hq hd rfl rfl rfl hrotnd (fun x => ?_) rfl rfl ?_
          · rw [hrot]
            by_cases hx : x = q
            · rw [if_pos hx, hx]; exact iff_of_true hmem (Nat.ne_of_gt hz)
            · rw [if_neg hx]
          · rw [if_neg (fun hz' => Nat.ne_of_gt hz hz'.1)]
        · have hz0 : t.frms = 0 := Nat.eq_zero_of_not_pos hz
          rw [if_neg hz]
          refine h.dequeue (q := q) hq hd rfl rfl rfl hnd.2 (fun x => ?_) rfl rfl ?_
          · rw [hhead, mem_cons]
            by_cases hx : x = q
            · rw [if_pos hx, hx]; exact iff_of_false hnd.1 (not_not.mpr hz0)
            · simp [hx]
          · simp [hz0]
      · split
        · exact ⟨s, .blocked q, rfl, h, hcount⟩
        · refine ⟨_, .blocked q, rfl, ?_, hcount⟩
          refine h.settle (q := q) (t := s.txq q) (h.queue q) (update_eq_self ..).symm rfl rfl hrotnd
            (fun x => ?_) ?_ ?_ (h.active _)
          · rw [hrot]
            by_cases hx : x = q
            · rw [if_pos hx, hx]; exact iff_of_true hmem hq
            · rw [if_neg hx]
          · dsimp only; omega
          · dsimp only; omega

/-- **A batch** has a result, and finds a queue in the category it selects. -/
theorem select_batch_spec (h : Inv T s) (env : BatchEnv) :
    ∃ s' b, ol_tx_sched_select_batch_wrr_adv s env = some (s', b) ∧ Inv T s' ∧ b.Ok s := by
  obtain ⟨s₁, i, r, hloop, htxq, hcat, hord, hr⟩ :=
    selectLoop_spec h.order (passes_lt_selectFuel s.index)
  unfold ol_tx_sched_select_batch_wrr_adv
  rw [hloop, bind_some]
  cases r with
  | none => exact ⟨s₁, .inactive, rfl, h.of_eq htxq hcat hord, trivial⟩
  | some c =>
    obtain ⟨hact, hi⟩ := hr c rfl
    dsimp only
    split
    · exact ⟨_, .lowCredit c, rfl, h.of_eq htxq hcat hord, trivial⟩
    · let s₂ : Pdev := { s₁ with
        wrr_count := update s₁.wrr_count c 0
        order := rotateToTail s₁.order i c
        index := i }
      have h₂ : Inv T s₂ := h.of_eq htxq hcat ((length_rotateToTail hi c).trans hord)
      obtain ⟨s', b, hb, hinv, hok⟩ := serveCategory_spec h₂ env (c := c) (by
        rw [hcat]; exact hact)
      refine ⟨s', b, hb, hinv, ?_⟩
      have heq : s₂.txq = s.txq := htxq
      cases b with
      | noTxq c => exact hok
      | blocked q =>
        unfold Batch.Ok at hok ⊢
        rwa [heq] at hok
      | served q frames =>
        unfold Batch.Ok at hok ⊢
        rwa [heq] at hok
      | inactive => trivial
      | lowCredit c => trivial

end Batch

/-! ## Runs -/

section Runs

variable {T : TidToAc} {cfg : Cat → Specs} {s s' : Pdev}

/-- No queue is freed while it is paused, and no queue is paused so often that its
counter wraps. -/
def stepOk (s : Pdev) : Op → Bool
  | .free q => (s.txq q).paused_count == 0
  | .pause peer tid => decide ((s.txq (.peer peer tid)).paused_count < 2 ^ 8 - 1)
  | _ => true

theorem step_spec (h : Inv T s) {e : Op} (hok : stepOk s e = true) :
    ∃ s', step T cfg s e = some s' ∧ Inv T s' := by
  cases e with
  | enqueue q d low =>
    obtain ⟨s', frames, hs', hinv⟩ := enqueue_spec h q d low
    exact ⟨s', by rw [step, hs', map_some], hinv⟩
  | select_init => exact ⟨_, rfl, h.of_eq rfl rfl rfl⟩
  | select_batch env =>
    obtain ⟨s', b, hs', hinv, -⟩ := select_batch_spec h env
    exact ⟨s', by rw [step, hs', map_some], hinv⟩
  | discard force num =>
    obtain ⟨s', frames, hs', hinv⟩ := discardLoop_spec h force (Nat.le_refl num)
    exact ⟨s', by rw [step, ol_tx_queue_discard, hs', map_some], hinv⟩
  | free q =>
    obtain ⟨s', hs', hinv⟩ := queue_free_spec h (beq_iff_eq.mp hok)
    exact ⟨s', by rw [step, hs', map_some], hinv⟩
  | pause peer tid => exact pause_spec h (of_decide_eq_true hok)
  | unpause peer tid => exact unpause_spec h peer tid
  | set_wmm_param weight => exact ⟨_, rfl, h.of_eq rfl rfl rfl⟩

theorem init_inv (T : TidToAc) (cfg : Cat → Specs) : Inv T (Pdev.init cfg) := by
  refine ⟨fun _ => ⟨rfl, rfl, fun _ => ⟨rfl, rfl⟩, ?_, ?_, Nat.two_pow_pos 8⟩, fun _ => nodup_nil,
    fun c q => ?_, fun _ => rfl, fun _ => rfl, fun c => ?_, rfl⟩
  · intro hf; exact absurd hf (by simp [Pdev.init])
  · intro hf; exact absurd hf (by simp [Pdev.init])
  · simp [Pdev.init]
  · simp [Pdev.init]

end Runs

structure Consistent (s : Pdev) : Prop where
  frms : ∀ c, (s.cat c).frms = ((s.cat c).head.map fun q => ((s.txq q).frms : Int)).sum
  bytes : ∀ c, (s.cat c).bytes = ((s.cat c).head.map fun q => ((s.txq q).bytes : Int)).sum
  linked : ∀ q, (s.txq q).flag = .active ↔ ∃! c, q ∈ (s.cat c).head
  once : ∀ c q, (s.cat c).head.count q ≤ 1
  schedulable : ∀ c, ∀ q ∈ (s.cat c).head, 0 < (s.txq q).frms ∧ (s.txq q).paused_count = 0
  paused : ∀ q, (s.txq q).flag = .paused ↔ 0 < (s.txq q).paused_count
  active : ∀ c, (s.cat c).active = true ↔ 0 < (s.cat c).frms

theorem tally_cast (f : Txq → Nat) (m : TxqId → Txq) (l : List TxqId) :
    (tally f m l : Int) = (l.map fun q => (f (m q) : Int)).sum := by
  induction l with
  | nil => rfl
  | cons q l ih => rw [tally_cons, map_cons, sum_cons, ← ih]; exact Int.natCast_add _ _

theorem Inv.consistent {T : TidToAc} {s : Pdev} (h : Inv T s) : Consistent s := by
  refine ⟨fun c => ?_, fun c => ?_, fun q => ?_, fun c q => ?_, fun c q hq => ?_, fun q => ?_,
    h.active⟩
  · rw [h.frms, tally_cast]
  · rw [h.bytes, tally_cast]
  · constructor
    · intro hq
      refine ⟨T.cat q, (h.mem _ q).mpr ⟨rfl, hq⟩, fun c hc => ?_⟩
      exact ((h.mem c q).mp hc).1.symm
    · rintro ⟨c, hc, -⟩; exact ((h.mem c q).mp hc).2
  · exact nodup_iff_count_le_one.mp (h.nodup c) q
  · exact (h.queue q).active ((h.mem c q).mp hq).2
  · refine ⟨(h.queue q).paused, fun hpos => ?_⟩
    cases hf : (s.txq q).flag with
    | empty => have := ((h.queue q).empty hf).2; omega
    | active => have := ((h.queue q).active hf).2; omega
    | paused => rfl

theorem Inv.flag_paused {T : TidToAc} {s : Pdev} (h : Inv T s) {q : TxqId}
    (hq : (s.txq q).paused_count ≠ 0) : (s.txq q).flag = .paused :=
  (h.consistent.paused q).mpr (Nat.pos_of_ne_zero hq)

theorem not_consistent_of_not_stepOk {T : TidToAc} {cfg : Cat → Specs} {s s' : Pdev} (h : Inv T s)
    {e : Op} (hok : stepOk s e = false) (hs : step T cfg s e = some s') : ¬ Consistent s' := by
  intro hc
  cases e with
  | free q =>
    have hcount : (s.txq q).paused_count ≠ 0 := by
      intro hz
      rw [stepOk, hz] at hok; exact absurd hok (by decide)
    have hp := h.flag_paused hcount
    rw [step, ol_tx_queue_free, ol_tx_sched_notify, if_neg (by rw [hp]; simp), bind_some] at hs
    dsimp only at hs
    split at hs
    · cases hs
      have hflag := (hc.paused q).mpr (by
        rw [setTxq_self]; exact Nat.pos_of_ne_zero hcount)
      rw [setTxq_self] at hflag; exact absurd hflag (by simp)
    · exact absurd hs (by simp)
  | pause peer tid =>
    have hcount : (s.txq (.peer peer tid)).paused_count = 2 ^ 8 - 1 := by
      have hsmall := (h.queue (.peer peer tid)).small
      have hge := of_decide_eq_false hok
      omega
    have hp := h.flag_paused (q := .peer peer tid) (by rw [hcount]; decide)
    rw [step, ol_txrx_peer_tid_pause_base] at hs
    rw [if_neg (by rw [hcount]; decide)] at hs
    cases hs
    have hpos := (hc.paused (.peer peer tid)).mp (by rw [setTxq_self]; exact hp)
    rw [setTxq_self] at hpos
    dsimp only at hpos
    rw [hcount] at hpos; exact absurd hpos (by decide)
  | enqueue q d low => exact absurd hok (by simp [stepOk])
  | select_init => exact absurd hok (by simp [stepOk])
  | select_batch env => exact absurd hok (by simp [stepOk])
  | discard force num => exact absurd hok (by simp [stepOk])
  | unpause peer tid => exact absurd hok (by simp [stepOk])
  | set_wmm_param weight => exact absurd hok (by simp [stepOk])

/-- **The tx queues and the scheduler agree** in every state of every run in which no queue is
freed while it is paused and no pause counter wraps. -/
theorem sched_consistent (T : TidToAc) (cfg : Cat → Specs) (es : List Op) (s : Pdev)
    (h : run (guarded (fun s e => stepOk s e = true) (step T cfg)) (Pdev.init cfg) es = some s) :
    Consistent s ∧
      (∀ e, stepOk s e = true → ∃ s', step T cfg s e = some s' ∧ Consistent s') ∧
      (∀ e s', stepOk s e = false → step T cfg s e = some s' → ¬ Consistent s') ∧
      ∀ env, ∃ s' b, ol_tx_sched_select_batch_wrr_adv s env = some (s', b) ∧
        (∀ c, b ≠ .noTxq c) ∧
        ∀ q frames, b = .served q frames → (s.txq q).paused_count = 0 := by
  have hinv : Inv T s := by
    refine guarded_run_invariant (fun t e t' hi hok hst => ?_) (init_inv T cfg) h
    obtain ⟨u, hu, hinv⟩ := step_spec hi hok
    rw [hst] at hu; rwa [some.inj hu]
  refine ⟨hinv.consistent, fun e hok => ?_,
    fun e s' hok hst => not_consistent_of_not_stepOk hinv hok hst, fun env => ?_⟩
  · obtain ⟨s', hs', hinv'⟩ := step_spec hinv hok; exact ⟨s', hs', hinv'.consistent⟩
  · obtain ⟨s', b, hb, -, hok⟩ := select_batch_spec hinv env
    refine ⟨s', b, hb, ?_, ?_⟩
    · rintro c rfl; exact hok
    · rintro q frames rfl; exact hok

def tidZero : Fin OL_TX_NUM_TIDS := ⟨0, zero_lt_num_tids⟩

def someQueue : TxqId := .peer 0 tidZero

def mcastQueue : TxqId := .vdev 0 ⟨0, by decide⟩

def freeEnv : BatchEnv := ⟨100, true, fun _ credit => credit, fun _ => none⟩

/-- A pause is nested, frames are queued, some are sent and some discarded. -/
theorem sched_consistent_nested :
    ∃ s, run (guarded (fun s e => stepOk s e = true) (step .zeroed specsSdio))
        (Pdev.init specsSdio)
        [.enqueue someQueue ⟨0, 100, 1⟩ none, .pause 0 tidZero, .pause 0 tidZero,
          .enqueue someQueue ⟨1, 200, 1⟩ none, .unpause 0 tidZero, .enqueue mcastQueue ⟨2, 50, 1⟩ none,
          .select_init, .select_batch freeEnv, .unpause 0 tidZero, .discard false 1,
          .free mcastQueue] = some s ∧
      (s.txq someQueue).flag = .active ∧ (s.cat .BE).frms = 1 ∧ (s.cat .BE).bytes = 200 ∧
      Consistent s := by
  exact exists_of_tested (fun s => _ ∧ _ ∧ _) (by decide +kernel) fun s hs ⟨hflag, hfrms, hbytes⟩ =>
    ⟨hflag, hfrms, hbytes, (sched_consistent .zeroed specsSdio _ s hs).1⟩

/-- A queue is flushed while it is paused. The next frame puts it into the list of
its category, and the scheduler downloads from it. -/
theorem flushed_while_paused :
    ∃ s, run (step .zeroed specsSdio) (Pdev.init specsSdio)
        [.enqueue someQueue ⟨0, 100, 1⟩ none, .pause 0 tidZero, .free someQueue,
          .enqueue someQueue ⟨1, 200, 1⟩ none] = some s ∧
      ¬ Consistent s ∧ (s.txq someQueue).paused_count = 1 ∧
      ∃ s', ol_tx_sched_select_batch_wrr_adv s freeEnv
        = some (s', .served someQueue [⟨1, 200, 1⟩]) := by
  refine exists_of_tested (fun s => (s.txq someQueue).flag = .active ∧
      (s.txq someQueue).paused_count = 1 ∧
      (ol_tx_sched_select_batch_wrr_adv s freeEnv).map Prod.snd =
        some (.served someQueue [⟨1, 200, 1⟩]))
    (by decide +kernel) fun s hs ⟨hflag, hcount, hserved⟩ => ?_
  obtain ⟨⟨s', b⟩, hbatch, hb⟩ := Option.map_eq_some_iff.mp hserved
  refine ⟨fun hc => ?_, hcount, s', by rw [hbatch, ← hb]⟩
  have hpaused := (hc.paused someQueue).mpr (by omega)
  rw [hflag] at hpaused; exact absurd hpaused (by simp)

end

/-! A category that is active is passed over until that has happened as often as its skip weight
asks for. -/

/-! ## The loop -/

def passedOver : Nat → Pdev → Nat → List Cat
  | 0, _, _ => []
  | fuel + 1, s, index =>
    if index < Cat.all.length then
      match s.order[index]? with
      | none => []
      | some c =>
        if (s.cat c).active = false then passedOver fuel s (index + 1)
        else if s.wrr_count c + 1 < (s.specs c).wrr_skip_weight then
          c :: passedOver fuel { s with
            wrr_count := update s.wrr_count c (s.wrr_count c + 1)
            order := rotateToTail s.order index c } index
        else []
    else []

def Pdev.passed (s : Pdev) : List Cat := passedOver s.selectFuel s s.index

def Pdev.turn (s : Pdev) : Option Cat := (selectLoop s.selectFuel s s.index).bind fun r => r.2.2

variable {T : TidToAc} {cfg : Cat → Specs} {s s' : Pdev} {fuel index i : Nat} {r : Option Cat}
variable {c : Cat} {env : BatchEnv} {b : Batch}

theorem rotateToTail_perm {order : List Cat} {idx : Nat} (h : order[idx]? = some c) :
    (rotateToTail order idx c).Perm order := by
  obtain ⟨hi, rfl⟩ := List.getElem?_eq_some_iff.mp h
  exact (perm_append_singleton _ _).trans (getElem_cons_eraseIdx_perm hi)

/-- What the loop does to the counts and the order: a category's count goes up by one whenever it is
passed over, and by one more if it is its turn. -/
theorem selectLoop_turns (h : selectLoop fuel s index = some (s', i, r)) :
    s'.specs = s.specs ∧ s'.order.Perm s.order ∧
      (∀ c, s'.wrr_count c =
        s.wrr_count c + (passedOver fuel s index).count c + if r = some c then 1 else 0) ∧
      ∀ c, r = some c → s'.order[i]? = some c := by
  induction fuel generalizing s index with
  | zero => cases h
  | succ fuel ih =>
    rw [selectLoop] at h
    rw [passedOver]
    by_cases hi : index < Cat.all.length
    · rw [if_pos hi] at h ⊢
      obtain ⟨c, hc, h⟩ := bind_eq_some_iff.mp h
      rw [hc]
      dsimp only
      by_cases hact : (s.cat c).active = false
      · rw [if_pos hact] at h ⊢
        exact ih h
      · rw [if_neg hact] at h ⊢
        by_cases hw : s.wrr_count c + 1 < (s.specs c).wrr_skip_weight
        · rw [if_pos hw] at h ⊢
          obtain ⟨hspecs, horder, hcount, hturn⟩ := ih h
          refine ⟨hspecs, horder.trans (rotateToTail_perm hc), fun d => ?_, hturn⟩
          rw [hcount d]
          by_cases hd : d = c
          · rw [hd, count_cons_self]
            dsimp only
            rw [update_self]; omega
          · rw [count_cons_of_ne (Ne.symm hd)]
            dsimp only
            rw [update_of_ne hd]
        · rw [if_neg hw] at h ⊢
          obtain ⟨rfl, hir⟩ := Prod.mk.inj (some.inj h)
          obtain ⟨rfl, rfl⟩ := Prod.mk.inj hir
          refine ⟨rfl, Perm.refl _, fun d => ?_, fun d hd => ?_⟩
          · by_cases hd : c = d
            · rw [if_pos (congrArg some hd), ← hd]; exact update_self _ _ _
            · rw [if_neg (fun he => hd (some.inj he))]; exact update_of_ne (Ne.symm hd) _ _
          · exact hc.trans hd
    · rw [if_neg hi] at h ⊢
      obtain ⟨rfl, hir⟩ := Prod.mk.inj (some.inj h)
      obtain ⟨rfl, rfl⟩ := Prod.mk.inj hir
      exact ⟨rfl, Perm.refl _, fun d => rfl, fun d hd => absurd hd (by simp)⟩

/-- **Nobody is passed over too often**: after it was passed over, a category has still not been as
often as its weight. -/
theorem passedOver_lt (hc : c ∈ passedOver fuel s index) :
    s.wrr_count c + (passedOver fuel s index).count c < (s.specs c).wrr_skip_weight := by
  induction fuel generalizing s index with
  | zero => cases hc
  | succ fuel ih =>
    rw [passedOver] at hc ⊢
    split at hc
    · next hi =>
      rw [if_pos hi]
      split at hc
      · cases hc
      · next d hd =>
        split at hc
        · next hact => rw [if_pos hact]; exact ih hc
        · next hact =>
          rw [if_neg hact]
          split at hc
          · next hw =>
            rw [if_pos hw]
            by_cases hdc : c = d
            · subst hdc
              rw [count_cons_self]
              by_cases hmore : c ∈ passedOver fuel { s with
                  wrr_count := update s.wrr_count c (s.wrr_count c + 1)
                  order := rotateToTail s.order index c } index
              · have hlt := ih hmore
                dsimp only at hlt
                rw [update_self] at hlt; omega
              · rw [count_eq_zero_of_not_mem hmore]; exact hw
            · have hlt := ih ((mem_cons.mp hc).resolve_left hdc)
              dsimp only at hlt
              rw [update_of_ne hdc] at hlt; rwa [count_cons_of_ne (Ne.symm hdc)]
          · cases hc
    · cases hc

theorem selectLoop_ends (horder : s.order.length = Cat.all.length) (index : Nat) :
    ∃ s' i r, ∀ fuel, s.passes index < fuel → selectLoop fuel s index = some (s', i, r) := by
  obtain ⟨s', i, r, hloop, -⟩ := selectLoop_spec horder (Nat.lt_succ_self (s.passes index))
  have hmono : ∀ fuel (t : Pdev) index v, selectLoop fuel t index = some v →
      selectLoop (fuel + 1) t index = some v := by
    intro fuel
    induction fuel with
    | zero => intro t index v hv; cases hv
    | succ fuel ih =>
      intro t index v hv
      rw [selectLoop] at hv ⊢
      split at hv
      · next hi =>
        rw [if_pos hi]
        obtain ⟨c, hc, hv⟩ := bind_eq_some_iff.mp hv
        rw [hc, bind_some]
        split at hv
        · next hact => rw [if_pos hact]; exact ih _ _ _ hv
        · next hact =>
          rw [if_neg hact]
          split at hv
          · next hw => rw [if_pos hw]; exact ih _ _ _ hv
          · next hw => rw [if_neg hw]; exact hv
      · next hi => rw [if_neg hi]; exact hv
  refine ⟨s', i, r, fun fuel hfuel => ?_⟩
  obtain ⟨k, rfl⟩ := Nat.exists_eq_add_of_lt hfuel
  induction k with
  | zero => exact hloop
  | succ k ih => exact hmono _ _ _ _ (ih (by omega))

theorem selectLoop_finds (horder : s.order.Perm Cat.all) (hact : (s.cat c).active = true)
    (hbefore : ∀ j < index, ∀ d, s.order[j]? = some d → (s.cat d).active = false)
    (h : selectLoop fuel s index = some (s', i, r)) : ∃ d, r = some d ∧ (s.cat d).active = true := by
  induction fuel generalizing s index with
  | zero => cases h
  | succ fuel ih =>
    rw [selectLoop] at h
    split at h
    · next hi =>
      obtain ⟨d, hd, h⟩ := bind_eq_some_iff.mp h
      split at h
      · next hd' =>
        refine ih horder hact (fun j hj e he => ?_) h
        rcases Nat.lt_succ_iff_lt_or_eq.mp hj with hj | rfl
        · exact hbefore j hj e he
        · exact some.inj (hd.symm.trans he) ▸ hd'
      · next hd' =>
        split at h
        · have hlen : index < s.order.length := (List.getElem?_eq_some_iff.mp hd).1
          refine ih (s := { s with
            wrr_count := update s.wrr_count d (s.wrr_count d + 1)
            order := rotateToTail s.order index d }) ((rotateToTail_perm hd).trans horder) hact
            (fun j hj e he => ?_) h
          rw [rotateToTail, getElem?_append_left (by
            rw [length_eraseIdx_of_lt hlen]; omega),
            getElem?_eraseIdx_of_lt hj] at he
          exact hbefore j hj e he
        · obtain ⟨rfl, hir⟩ := Prod.mk.inj (some.inj h)
          obtain ⟨rfl, rfl⟩ := Prod.mk.inj hir
          exact ⟨d, rfl, (Bool.not_eq_false _).mp hd'⟩
    · next hi =>
      -- every place of the order has been seen
      obtain ⟨j, hj⟩ := mem_iff_getElem?.mp (horder.mem_iff.mpr (Cat.mem_all c))
      have hlt : j < s.order.length := (List.getElem?_eq_some_iff.mp hj).1
      rw [horder.length_eq] at hlt
      have hno := hbefore j (by omega) c hj
      rw [hact] at hno
      cases hno

/-! ## A batch -/

/-- The category that the batch serves: its turn is there, and the credit is enough for it. -/
def Pdev.serviced (s : Pdev) (env : BatchEnv) : Option Cat :=
  s.turn.bind fun c => if env.credit < (s.specs c).credit_threshold then none else some c

theorem serveCategory_turns (h : serveCategory s env c = some (s', b)) :
    s'.wrr_count = s.wrr_count ∧ s'.order = s.order := by
  unfold serveCategory at h
  dsimp only at h
  split at h
  · cases h; exact ⟨rfl, rfl⟩
  · split at h
    · obtain ⟨t, -, ht⟩ := map_eq_some_iff.mp h
      obtain ⟨rfl, -⟩ := Prod.mk.inj ht
      exact ⟨rfl, rfl⟩
    · split at h
      · cases h; exact ⟨rfl, rfl⟩
      · cases h; exact ⟨rfl, rfl⟩

/-- What a batch does to the counts and the order, also where the credit is too low for the category
whose turn it is. -/
theorem select_batch_turns (h : ol_tx_sched_select_batch_wrr_adv s env = some (s', b)) :
    s'.order.Perm s.order ∧
      ∀ c, s'.wrr_count c = if s.serviced env = some c then
        0 else s.wrr_count c + s.passed.count c := by
  obtain ⟨⟨s₁, i, r⟩, hloop, h⟩ := bind_eq_some_iff.mp h
  obtain ⟨hspecs, horder, hcount, hplace⟩ := selectLoop_turns hloop
  have hturn : s.turn = r := by rw [Pdev.turn, hloop]; rfl
  cases r with
  | none =>
    cases h
    refine ⟨horder, fun c => ?_⟩
    rw [Pdev.serviced, hturn, bind_none, if_neg (by simp), hcount c, if_neg (by simp)]; rfl
  | some c =>
    dsimp only at h
    split at h
    · next hlow =>
      cases h
      refine ⟨horder, fun d => ?_⟩
      rw [Pdev.serviced, hturn, bind_some, ← hspecs, if_pos hlow, if_neg (by simp)]
      dsimp only
      by_cases hd : d = c
      · -- the turn is given back
        rw [hd, update_self, hcount c, if_pos rfl]; rfl
      · rw [update_of_ne hd, hcount d, if_neg (fun he => hd (some.inj he).symm)]; rfl
    · next hcredit =>
      obtain ⟨hw, ho⟩ := serveCategory_turns h
      refine ⟨?_, fun d => ?_⟩
      · rw [ho]; exact (rotateToTail_perm (hplace c rfl)).trans horder
      · rw [Pdev.serviced, hturn, bind_some, ← hspecs, if_neg hcredit, hw]
        dsimp only
        by_cases hd : d = c
        · rw [hd, if_pos rfl, update_self]
        · rw [if_neg (fun he => hd (some.inj he).symm), update_of_ne hd, hcount d,
            if_neg (fun he => hd (some.inj he).symm)]
          rfl

/-! ## The other operations -/

/-- What belongs to the turns of the categories. -/
def Pdev.turns (s : Pdev) : (Cat → Nat) × List Cat := (s.wrr_count, s.order)

theorem deactivate_turns {q : TxqId} {tid : Nat}
    (h : ol_tx_sched_txq_deactivate_wrr_adv T s q tid = some s') : s'.turns = s.turns := by
  unfold ol_tx_sched_txq_deactivate_wrr_adv at h
  dsimp only at h
  split at h
  · cases h; rfl
  · cases h

theorem notify_turns {q : TxqId} {ev : Event} (h : ol_tx_sched_notify T s q ev = some s') :
    s'.turns = s.turns := by
  cases ev with
  | enqueue_frame tid bytes => cases h; rfl
  | delete_queue tid =>
    rw [ol_tx_sched_notify] at h
    split at h
    · exact deactivate_turns h
    · cases h; rfl
  | pause_queue tid =>
    rw [ol_tx_sched_notify] at h
    split at h
    · exact deactivate_turns h
    · cases h; rfl
  | unpause_queue tid =>
    rw [ol_tx_sched_notify] at h
    split at h
    · cases h; rfl
    · cases h; rfl
  | discard_frames c frames bytes =>
    rw [ol_tx_sched_notify] at h
    unfold ol_tx_sched_txq_discard_wrr_adv at h
    dsimp only at h
    split at h
    · split at h
      · cases h; rfl
      · cases h
    · cases h; rfl

theorem discard_select_turns {frms : Nat} {force : Bool} {frames : List TxDesc}
    (h : ol_tx_sched_discard_select T s frms force = some (s', frames)) : s'.turns = s.turns := by
  unfold ol_tx_sched_discard_select at h
  dsimp only at h
  split at h
  · cases h; rfl
  · obtain ⟨r, -, h⟩ := bind_eq_some_iff.mp h
    obtain ⟨u, hu, hs⟩ := map_eq_some_iff.mp h
    obtain ⟨rfl, -⟩ := Prod.mk.inj hs
    have hn := notify_turns hu
    exact hn

theorem discardLoop_turns {force : Bool} {num : Nat} {frames : List TxDesc}
    (h : discardLoop T force fuel s num = some (s', frames)) : s'.turns = s.turns := by
  induction fuel generalizing s num frames with
  | zero =>
    rw [discardLoop] at h
    split at h
    · cases h; rfl
    · cases h
  | succ fuel ih =>
    rw [discardLoop] at h
    split at h
    · cases h; rfl
    · obtain ⟨r, hr, h⟩ := bind_eq_some_iff.mp h
      have hr' := discard_select_turns hr
      split at h
      · cases h; exact hr'
      · obtain ⟨r', hloop, hs⟩ := map_eq_some_iff.mp h
        obtain ⟨rfl, -⟩ := Prod.mk.inj hs
        exact (ih hloop).trans hr'

theorem enqueueFrame_turns {q : TxqId} {d : TxDesc} (h : enqueueFrame T s q d = some s') :
    s'.turns = s.turns := by
  unfold enqueueFrame at h
  dsimp only at h
  split at h
  · obtain ⟨u, hu, rfl⟩ := map_eq_some_iff.mp h
    have hn := notify_turns hu
    exact hn
  · cases h; rfl

theorem step_turns {op : Op} (hop : ∀ env, op ≠ .select_batch env)
    (h : step T cfg s op = some s') : s'.turns = s.turns := by
  cases op with
  | enqueue q d low =>
    obtain ⟨r, hr, rfl⟩ := map_eq_some_iff.mp h
    cases low with
    | none => obtain ⟨u, hu, rfl⟩ := map_eq_some_iff.mp hr; exact enqueueFrame_turns hu
    | some num =>
      obtain ⟨r', hr', hr⟩ := bind_eq_some_iff.mp hr
      obtain ⟨u, hu, rfl⟩ := map_eq_some_iff.mp hr
      exact (enqueueFrame_turns hu).trans (discardLoop_turns hr')
  | select_init => cases h; rfl
  | select_batch env => exact absurd rfl (hop env)
  | discard force num => obtain ⟨r, hr, rfl⟩ := map_eq_some_iff.mp h; exact discardLoop_turns hr
  | free q =>
    obtain ⟨r, hr, rfl⟩ := map_eq_some_iff.mp h
    obtain ⟨u, hu, hr⟩ := bind_eq_some_iff.mp hr
    dsimp only at hr
    split at hr
    · cases hr
      have hn := notify_turns hu
      exact hn
    · cases hr
  | pause peer tid =>
    rw [step, ol_txrx_peer_tid_pause_base] at h
    split at h
    · obtain ⟨u, hu, rfl⟩ := map_eq_some_iff.mp h
      have hn := notify_turns hu
      exact hn
    · cases h; rfl
  | unpause peer tid =>
    rw [step, ol_txrx_peer_tid_unpause_base] at h
    split at h
    · cases h; rfl
    · split at h
      · obtain ⟨u, hu, rfl⟩ := map_eq_some_iff.mp h
        have hn := notify_turns hu
        exact hn
      · cases h; rfl
  | set_wmm_param weight => cases h; rfl

/-! ## Runs -/

def sinceService (s : Pdev) (passes : Cat → Nat) : Op → Cat → Nat
  | .select_batch env => fun c =>
    if s.serviced env = some c then 0 else passes c + s.passed.count c
  | _ => passes

/-- `step`, with how often each category was passed over since it was last served. -/
def countedStep (T : TidToAc) (cfg : Cat → Specs) (p : Pdev × (Cat → Nat)) (op : Op) :
    Option (Pdev × (Cat → Nat)) :=
  (step T cfg p.1 op).map fun s' => (s', sinceService p.1 p.2 op)

/-- The order is one of all categories, and the counts do not fall short. -/
structure Turns (p : Pdev × (Cat → Nat)) : Prop where
  order : p.1.order.Perm Cat.all
  count : ∀ c, p.2 c ≤ p.1.wrr_count c

theorem Turns.step {p p' : Pdev × (Cat → Nat)} {op : Op} (h : Turns p)
    (hs : countedStep T cfg p op = some p') : Turns p' := by
  obtain ⟨s', hs', rfl⟩ := map_eq_some_iff.mp hs
  by_cases hop : ∃ env, op = .select_batch env
  · obtain ⟨env, rfl⟩ := hop
    obtain ⟨r, hr, rfl⟩ := map_eq_some_iff.mp hs'
    obtain ⟨horder, hcount⟩ := select_batch_turns hr
    refine ⟨horder.trans h.order, fun c => ?_⟩
    have hc := h.count c
    dsimp only [sinceService]
    rw [hcount c]
    split
    · exact Nat.le_refl _
    · omega
  · push Not at hop
    have hturns := step_turns hop hs'
    have hsince : sinceService p.1 p.2 op = p.2 := by
      cases op with
      | select_batch env => exact absurd rfl (hop env)
      | _ => rfl
    obtain ⟨hw, ho⟩ : s'.wrr_count = p.1.wrr_count ∧ s'.order = p.1.order := Prod.mk.inj hturns
    refine ⟨?_, fun c => ?_⟩
    · rw [ho]; exact h.order
    · rw [hsince, hw]; exact h.count c

/-- **Everybody has a turn.** In every run from any order of all categories, the order is one of
all categories. The loop of a batch ends, from the front at an active category if there is one;
and a category that it passes over has been passed over, since it was last served, less often than
its skip weight. -/
theorem selection_fair (T : TidToAc) (cfg : Cat → Specs) (s₀ s : Pdev) (passes : Cat → Nat)
    (es : List Op) (horder : s₀.order.Perm Cat.all)
    (h : run (countedStep T cfg) (s₀, fun _ => 0) es = some (s, passes)) :
    s.order.Perm Cat.all ∧
      (∃ s' i r, (∀ fuel, s.passes s.index < fuel →
          selectLoop fuel s s.index = some (s', i, r)) ∧ s'.order.Perm Cat.all ∧
        (s.index = 0 → (∃ c, (s.cat c).active = true) → ∃ c, r = some c ∧ (s.cat c).active = true)) ∧
      (∀ env s' b, ol_tx_sched_select_batch_wrr_adv s env = some (s', b) →
        s'.order.Perm Cat.all) ∧
      ∀ c ∈ s.passed, passes c + s.passed.count c < (s.specs c).wrr_skip_weight := by
  have hinv : Turns (s, passes) :=
    run_invariant (fun _ _ _ ht hst => ht.step hst) ⟨horder, fun _ => Nat.zero_le _⟩ h
  refine ⟨hinv.order, ?_, fun env s' b hb => ?_, fun c hc => ?_⟩
  · obtain ⟨s', i, r, hloop⟩ := selectLoop_ends hinv.order.length_eq s.index
    have hone := hloop _ (Nat.lt_succ_self _)
    refine ⟨s', i, r, hloop, (selectLoop_turns hone).2.1.trans hinv.order, fun h0 hact => ?_⟩
    obtain ⟨c, hc⟩ := hact
    exact selectLoop_finds hinv.order hc (fun j hj => absurd (h0 ▸ hj) (Nat.not_lt_zero j)) hone
  · exact (select_batch_turns hb).1.trans hinv.order
  · have hlt := passedOver_lt hc
    have hle := hinv.count c
    exact Nat.lt_of_le_of_lt (Nat.add_le_add_right hle _) hlt

/-- A batch serves the best-effort category, which goes to the end of the order. -/
theorem selection_fair_two :
    ∃ s passes, run (countedStep .zeroed specsSdio) (Pdev.init specsSdio, fun _ => 0)
        [.enqueue someQueue ⟨0, 100, 1⟩ none, .enqueue someQueue ⟨1, 200, 1⟩ none,
          .select_init, .select_batch freeEnv, .select_init] = some (s, passes) ∧
      s.order ≠ Cat.all ∧ s.order.Perm Cat.all := by
  exact exists_pair_of_tested (fun s _ => _) (by decide +kernel) fun s passes hs horder =>
    ⟨horder, (selection_fair .zeroed specsSdio _ s passes _ (by decide +kernel) hs).1⟩

end Qcacld.TxSched
