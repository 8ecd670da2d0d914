/-
The two references of a tx frame: `ol_tx_send.c`.

In high-latency systems with `tx_free_at_download` the target is not asked for a completion of
regular frames, and `ol_tx_download_done_hl_free` frees them itself. It does so whatever the
download's status is, also when the failed download has freed the frame already. The builds are
those without ATH_11AC_TXCOMPACT, where there are references.
-/
import Qcacld.TxDescHl

set_option autoImplicit false

namespace Qcacld.TxRefs

open Lib TxDescHl Function

/-! ## Descriptors -/

inductive Callback where
  | ll
  | hl_retain
  | hl_free
deriving DecidableEq

structure Cfg where
  tx_send_complete_part2 : Callback
  /-- `tx_data_callback.func` is set. -/
  tx_data_callback : Bool

structure TxDesc where
  pkt_type : PktType
  ref_cnt : Int
  /-- The tx status of the completion is `htt_tx_status_ok`. -/
  status_ok : Bool
  /-- HTT is to report the end of the download. -/
  download : Bool
  /-- The target is to report the completion. -/
  target : Bool
  /-- How often the netbuf was freed, or given back to its owner, since it was sent. -/
  nbuf_freed : Nat
  /-- How often the descriptor was put back to the pool since then. -/
  desc_freed : Nat

abbrev Pdev := Nat → TxDesc

/-- The target reports the completion: always in low-latency systems, on request else. -/
def completes (cfg : Cfg) (pkt_type : PktType) : Bool :=
  match cfg.tx_send_complete_part2, pkt_type with
  | .hl_free, .std => false
  | .hl_free, .tso => false
  | .hl_free, .no_free => cfg.tx_data_callback
  | _, _ => true

def TxDesc.free (d : TxDesc) : TxDesc :=
  { d with ref_cnt := 0, nbuf_freed := d.nbuf_freed + 1, desc_freed := d.desc_freed + 1 }

def ol_tx_desc_frame_free_nonstd (s : Pdev) (id : Nat) : Pdev := update s id (s id).free

def ol_tx_desc_frame_list_free (s : Pdev) (tx_descs : List Nat) : Pdev :=
  tx_descs.foldl ol_tx_desc_frame_free_nonstd s

/-! ## Sending -/

def TxDesc.init (cfg : Cfg) (d : TxDesc) (pkt_type : PktType) : TxDesc :=
  { d with
    pkt_type := pkt_type
    download := true
    target := completes cfg pkt_type
    nbuf_freed := 0
    desc_freed := 0 }

def ol_tx_send_base (s : Pdev) (id : Nat) : Pdev := update s id { s id with ref_cnt := 0 + 1 + 1 }

/-- `ol_tx_send` and `ol_tx_send_nonstd`; a frame that HTT does not take has no references. -/
def ol_tx_send (s : Pdev) (id : Nat) (failed : Bool) : Pdev :=
  let s := ol_tx_send_base s id
  if failed then
    ol_tx_desc_frame_free_nonstd (update s id { s id with download := false, target := false }) id
  else s

/-! ## Dropping the references -/

def TxDesc.drop (d : TxDesc) : TxDesc := { d with ref_cnt := d.ref_cnt - 1 }

def ol_tx_download_done_base (s : Pdev) (ok : Bool) (id : Nat) : Pdev :=
  if ok then
    let s := update s id { (s id).drop with download := false }
    if (s id).ref_cnt = 0 then ol_tx_desc_frame_free_nonstd s id else s
  else
    ol_tx_desc_frame_free_nonstd (update s id { s id with download := false, target := false }) id

def ol_tx_download_done_ll (s : Pdev) (ok : Bool) (id : Nat) : Pdev :=
  ol_tx_download_done_base s ok id

def ol_tx_download_done_hl_retain (s : Pdev) (ok : Bool) (id : Nat) : Pdev :=
  ol_tx_download_done_base s ok id

def ol_tx_download_done_hl_free (s : Pdev) (ok : Bool) (id : Nat) : Pdev :=
  let s := ol_tx_download_done_base s ok id
  if (s id).pkt_type.freedAtDownload then ol_tx_desc_frame_free_nonstd s id else s

def tx_send_complete_part2 (cfg : Cfg) (s : Pdev) (ok : Bool) (id : Nat) : Pdev :=
  match cfg.tx_send_complete_part2 with
  | .ll => ol_tx_download_done_ll s ok id
  | .hl_retain => ol_tx_download_done_hl_retain s ok id
  | .hl_free => ol_tx_download_done_hl_free s ok id

def completeLoop (status_ok : Bool) : Pdev → List Nat → Pdev × List Nat
  | s, [] => (s, [])
  | s, id :: ids =>
    let s := update s id { (s id).drop with status_ok := status_ok, target := false }
    if (s id).ref_cnt = 0 then
      if (s id).pkt_type = .std then
        ((completeLoop status_ok s ids).1, id :: (completeLoop status_ok s ids).2)
      else completeLoop status_ok (ol_tx_desc_frame_free_nonstd s id) ids
    else completeLoop status_ok s ids

def ol_tx_completion_handler (s : Pdev) (status_ok : Bool) (desc_ids : List Nat) : Pdev :=
  ol_tx_desc_frame_list_free (completeLoop status_ok s desc_ids).1
    (completeLoop status_ok s desc_ids).2

/-! ## Runs -/

inductive Op where
  | send (id : Nat) (pkt_type : PktType) (failed : Bool)
  | download_done (id : Nat) (ok : Bool)
  | completion (status_ok : Bool) (desc_ids : List Nat)

/-- A frame is sent with a descriptor from the pool; HTT reports what it accepted, and
the target what it is to report, once. -/
def step (cfg : Cfg) (s : Pdev) : Op → Option Pdev
  | .send id pkt_type failed =>
    if (s id).desc_freed = 0 then none
    else some (ol_tx_send (update s id ((s id).init cfg pkt_type)) id failed)
  | .download_done id ok =>
    if (s id).download = true then some (tx_send_complete_part2 cfg s ok id) else none
  | .completion status_ok desc_ids =>
    if desc_ids.Nodup ∧ ∀ id ∈ desc_ids, (s id).target = true then
      some (ol_tx_completion_handler s status_ok desc_ids)
    else none

def Pdev.init : Pdev := fun _ => ⟨.std, 0, true, false, false, 1, 1⟩

/-! ## What the handlers do to one descriptor -/

def TxDesc.settle (d : TxDesc) : TxDesc := if d.ref_cnt = 0 then d.free else d

def TxDesc.downloadBase (d : TxDesc) (ok : Bool) : TxDesc :=
  if ok then ({ d.drop with download := false } : TxDesc).settle
  else ({ d with download := false, target := false } : TxDesc).free

def TxDesc.complete (d : TxDesc) (status_ok : Bool) : TxDesc :=
  ({ d.drop with status_ok := status_ok, target := false } : TxDesc).settle

theorem download_done_base_eq (s : Pdev) (ok : Bool) (id : Nat) :
    ol_tx_download_done_base s ok id = update s id ((s id).downloadBase ok) := by
  unfold ol_tx_download_done_base TxDesc.downloadBase TxDesc.settle ol_tx_desc_frame_free_nonstd
  cases ok with
  | false => simp only [Bool.false_eq_true, if_false, update_self, update_idem]
  | true =>
    simp only [if_true, update_self]
    split
    · rw [update_idem]
    · rfl

theorem settle_pkt_type (d : TxDesc) : d.settle.pkt_type = d.pkt_type := by
  unfold TxDesc.settle
  split
  · rfl
  · rfl

theorem downloadBase_pkt_type (d : TxDesc) (ok : Bool) : (d.downloadBase ok).pkt_type = d.pkt_type := by
  cases ok with
  | false => rfl
  | true => exact settle_pkt_type _

theorem list_free_update {s : Pdev} {ids : List Nat} {id : Nat} (h : id ∉ ids) (d : TxDesc) :
    ol_tx_desc_frame_list_free (update s id d) ids =
      update (ol_tx_desc_frame_list_free s ids) id d := by
  induction ids generalizing s with
  | nil => rfl
  | cons a ids ih =>
    obtain ⟨hne, hids⟩ := not_or.mp (mt List.mem_cons.mpr h)
    have hswap : ol_tx_desc_frame_free_nonstd (update s id d) a
        = update (ol_tx_desc_frame_free_nonstd s a) id d := by
      unfold ol_tx_desc_frame_free_nonstd
      rw [update_of_ne (Ne.symm hne), update_comm hne]
    change ol_tx_desc_frame_list_free (ol_tx_desc_frame_free_nonstd (update s id d) a) ids = _
    rw [hswap, ih hids]; rfl

theorem completeLoop_subset (status_ok : Bool) (s : Pdev) (ids : List Nat) :
    (completeLoop status_ok s ids).2 ⊆ ids := by
  induction ids generalizing s with
  | nil => exact List.Subset.refl []
  | cons a ids ih =>
    rw [completeLoop]
    split
    · split
      · exact List.cons_subset_cons a (ih _)
      · exact List.subset_cons_of_subset a (ih _)
    · exact List.subset_cons_of_subset a (ih _)

theorem completeLoop_of_not_mem {status_ok : Bool} {s : Pdev} {ids : List Nat} {id : Nat}
    (h : id ∉ ids) : (completeLoop status_ok s ids).1 id = s id := by
  induction ids generalizing s with
  | nil => rfl
  | cons a ids ih =>
    obtain ⟨hne, hids⟩ := not_or.mp (mt List.mem_cons.mpr h)
    rw [completeLoop]
    split
    · split
      · rw [ih hids, update_of_ne hne]
      · rw [ih hids, ol_tx_desc_frame_free_nonstd, update_of_ne hne, update_of_ne hne]
    · rw [ih hids, update_of_ne hne]

theorem completion_handler_apply {status_ok : Bool} {s : Pdev} {ids : List Nat} (hnd : ids.Nodup)
    (id : Nat) :
    ol_tx_completion_handler s status_ok ids id
      = if id ∈ ids then (s id).complete status_ok else s id := by
  unfold ol_tx_completion_handler
  induction ids generalizing s with
  | nil => rfl
  | cons a ids ih =>
    obtain ⟨ha, hnd'⟩ := List.nodup_cons.mp hnd
    -- the other descriptors of the message are completed in the rest of the loop
    have hrest : ∀ s' : Pdev, s' a = (s a).complete status_ok → (∀ k, k ≠ a → s' k = s k) →
        ol_tx_desc_frame_list_free (completeLoop status_ok s' ids).1
            (completeLoop status_ok s' ids).2 id
          = if id ∈ a :: ids then (s id).complete status_ok else s id := by
      intro s' hself hother
      rw [ih hnd']
      by_cases hid : id = a
      · subst hid; rw [if_neg ha, if_pos List.mem_cons_self, hself]
      · rw [hother id hid]; simp [hid]
    rw [completeLoop]
    rw [update_self]
    have hother : ∀ (d : TxDesc) k, k ≠ a → update s a d k = s k := fun d k hk => update_of_ne hk _ _
    split
    · next hzero =>
      have hself : TxDesc.free { (s a).drop with status_ok := status_ok, target := false }
          = (s a).complete status_ok := (if_pos hzero).symm
      split
      · -- a regular frame: it is freed after the loop, which does not touch it again
        have hnot := fun s' => mt (@completeLoop_subset status_ok s' ids a) ha
        have hkeep : ∀ s', (completeLoop status_ok s' ids).1 a = s' a := fun s' =>
          completeLoop_of_not_mem ha
        change ol_tx_desc_frame_list_free (ol_tx_desc_frame_free_nonstd _ a) _ id = _
        rw [ol_tx_desc_frame_free_nonstd, list_free_update (hnot _), hkeep, update_self, hself]
        by_cases hid : id = a
        · subst hid; rw [update_self, if_pos List.mem_cons_self]
        · rw [update_of_ne hid, ih hnd', hother _ id hid]; simp [hid]
      -- another type of frame: it is freed on the spot
      · refine hrest _ ?_ ?_
        · rw [ol_tx_desc_frame_free_nonstd, update_self, update_self, hself]
        · intro k hk; rw [ol_tx_desc_frame_free_nonstd, update_of_ne hk, update_of_ne hk]
    · next hpos =>
      refine hrest _ ?_ (hother _)
      rw [update_self]; exact (if_neg hpos).symm

/-! ## One free for each frame -/

def TxDesc.outstanding (d : TxDesc) : Bool := d.download || d.target

def covered (cfg : Cfg) (d : TxDesc) : Bool :=
  completes cfg d.pkt_type || d.pkt_type.freedAtDownload

/-- **Freed once**: not as long as a reference is outstanding, and once when none is. -/
def Once (cfg : Cfg) (d : TxDesc) : Prop :=
  covered cfg d = true →
    (d.outstanding = true → d.nbuf_freed = 0 ∧ d.desc_freed = 0) ∧
    (d.outstanding = false → d.nbuf_freed = 1 ∧ d.desc_freed = 1)
deriving Decidable

/-- What holds of every descriptor. The count has one for each outstanding reference, and
one for a target that is not asked. -/
structure Good (cfg : Cfg) (d : TxDesc) : Prop where
  ref : d.outstanding = true →
    d.ref_cnt = d.download.toNat + d.target.toNat + (!completes cfg d.pkt_type).toNat
  early : d.outstanding = true → d.nbuf_freed = 0 ∧ d.desc_freed = 0
  done : covered cfg d = true → d.outstanding = false → d.nbuf_freed = 1 ∧ d.desc_freed = 1
  asked : d.target = true → completes cfg d.pkt_type = true

variable {cfg : Cfg} {d : TxDesc}

theorem Good.once (h : Good cfg d) : Once cfg d := fun hc => ⟨h.early, h.done hc⟩

theorem Good.free (hfreed : d.nbuf_freed = 0 ∧ d.desc_freed = 0) (hnone : d.outstanding = false) :
    Good cfg d.free := by
  have hnone' : d.free.outstanding = false := hnone
  refine ⟨?_, ?_, ?_, ?_⟩
  · intro ho
    rw [hnone'] at ho; exact absurd ho (by simp)
  · intro ho
    rw [hnone'] at ho; exact absurd ho (by simp)
  · intro _ _; simp [TxDesc.free, hfreed.1, hfreed.2]
  · intro ht
    rw [TxDesc.outstanding, Bool.or_eq_false_iff] at hnone'
    rw [hnone'.2] at ht; exact absurd ht (by simp)

theorem Good.sent (cfg : Cfg) (d : TxDesc) (pkt_type : PktType) :
    Good cfg { d.init cfg pkt_type with ref_cnt := 2 } := by
  have hout : TxDesc.outstanding { d.init cfg pkt_type with ref_cnt := 2 } = true := rfl
  refine ⟨fun _ => ?_, fun _ => ⟨rfl, rfl⟩, fun _ ho => ?_, fun ht => ht⟩
  · simp only [TxDesc.init]
    cases completes cfg pkt_type with
    | false => rfl
    | true => rfl
  · rw [hout] at ho; exact absurd ho (by simp)

theorem Good.complete (h : Good cfg d) (ht : d.target = true) (status_ok : Bool) :
    Good cfg (d.complete status_ok) := by
  have hout : d.outstanding = true := by rw [TxDesc.outstanding, ht, Bool.or_true]
  have href := h.ref hout
  rw [ht, h.asked ht] at href
  unfold TxDesc.complete TxDesc.settle
  split
  · next hzero =>
    -- the download was reported before
    refine Good.free (h.early hout) ?_
    cases hd : d.download with
    | false => simp [TxDesc.outstanding, TxDesc.drop, hd]
    | true => simp only [TxDesc.drop, href, hd] at hzero; exact absurd hzero (by decide)
  · next hpos =>
    have hd : d.download = true := by
      cases hd : d.download with
      | true => rfl
      | false => simp only [TxDesc.drop, href, hd] at hpos; exact absurd rfl hpos
    have hout' : TxDesc.outstanding { d.drop with status_ok := status_ok, target := false } = true := by
      simp only [TxDesc.outstanding, TxDesc.drop, hd, Bool.true_or]
    refine ⟨fun _ => ?_, fun _ => h.early hout, fun _ ho => ?_, fun hf => absurd hf (by simp)⟩
    · simp only [TxDesc.drop, href, hd, h.asked ht]; rfl
    · rw [hout'] at ho; exact absurd ho (by simp)

/-- The download is reported, and the target has still to complete the frame or does not
complete it at all. -/
theorem Good.downloadBase (h : Good cfg d) (hd : d.download = true)
    (hcov : completes cfg d.pkt_type = true ∨ covered cfg d = false) (ok : Bool) :
    Good cfg (d.downloadBase ok) := by
  have hout : d.outstanding = true := by rw [TxDesc.outstanding, hd, Bool.true_or]
  have href := h.ref hout
  rw [hd] at href
  unfold TxDesc.downloadBase
  cases ok with
  | false =>
    -- a download that fails frees the frame whatever the count
    exact Good.free (h.early hout) rfl
  | true =>
    rw [if_pos rfl]
    unfold TxDesc.settle
    split
    · next hzero =>
      refine Good.free (h.early hout) ?_
      cases ht : d.target with
      | false => simp [TxDesc.outstanding, TxDesc.drop, ht]
      | true =>
        simp only [TxDesc.drop, href, ht, h.asked ht] at hzero
        exact absurd hzero (by decide)
    · next hpos =>
      refine ⟨fun ho => ?_, fun _ => h.early hout, fun hc ho => ?_, fun ht => h.asked ht⟩
      · have ht : d.target = true := by simpa [TxDesc.outstanding, TxDesc.drop] using ho
        simp only [TxDesc.drop, href, ht, h.asked ht]
        rfl
      · -- nothing is outstanding: then the count was zero, or the frame is not covered
        have ht : d.target = false := by simpa [TxDesc.outstanding, TxDesc.drop] using ho
        rcases hcov with hcomp | hcov
        · simp only [TxDesc.drop, href, ht, hcomp] at hpos; exact absurd rfl hpos
        · rw [show covered cfg d = true from hc] at hcov; exact absurd hcov (by simp)

theorem Good.freeAtDownload (h : Good cfg d) (hd : d.download = true)
    (hcomp : completes cfg d.pkt_type = false) : Good cfg (d.downloadBase true).free := by
  have hout : d.outstanding = true := by rw [TxDesc.outstanding, hd, Bool.true_or]
  have ht : d.target = false := by
    rw [Bool.eq_false_iff]
    intro ht
    rw [h.asked ht] at hcomp; exact absurd hcomp (by simp)
  have href := h.ref hout
  rw [hd, ht, hcomp] at href
  have hpos : (d.drop).ref_cnt ≠ 0 := by simp only [TxDesc.drop, href]; decide
  unfold TxDesc.downloadBase TxDesc.settle
  rw [if_pos rfl, if_neg hpos]
  refine Good.free (h.early hout) ?_
  simp [TxDesc.outstanding, TxDesc.drop, ht]

/-! ## Runs -/

/-- A failed download that is reported to `ol_tx_download_done_hl_free`, for a frame that
this frees. -/
def freesTwice (cfg : Cfg) (s : Pdev) : Op → Bool
  | .download_done id ok =>
    decide (cfg.tx_send_complete_part2 = .hl_free) && !ok && (s id).pkt_type.freedAtDownload
  | _ => false

theorem completes_of_ne {pkt_type : PktType} (h : cfg.tx_send_complete_part2 ≠ .hl_free) :
    completes cfg pkt_type = true := by
  unfold completes
  cases hc : cfg.tx_send_complete_part2 with
  | ll => rfl
  | hl_retain => rfl
  | hl_free => exact absurd hc h

theorem completes_of_freedAtDownload {pkt_type : PktType}
    (h : cfg.tx_send_complete_part2 = .hl_free) (hp : pkt_type.freedAtDownload = true) :
    completes cfg pkt_type = false := by
  unfold completes
  rw [h]
  cases pkt_type with
  | std => rfl
  | tso => rfl
  | no_free => exact absurd hp (by simp [PktType.freedAtDownload])
  | mgmt t => exact absurd hp (by simp [PktType.freedAtDownload])

theorem good_update {s : Pdev} (h : ∀ id, Good cfg (s id)) {id : Nat} (hd : Good cfg d) :
    ∀ k, Good cfg (update s id d k) := by
  intro k
  by_cases hk : k = id
  · subst hk; rwa [update_self]
  · rw [update_of_ne hk]; exact h k

theorem download_done_good {s : Pdev} (h : ∀ id, Good cfg (s id)) {id : Nat} {ok : Bool}
    (hd : (s id).download = true) (hok : freesTwice cfg s (.download_done id ok) = false) :
    ∀ k, Good cfg (tx_send_complete_part2 cfg s ok id k) := by
  by_cases hcb : cfg.tx_send_complete_part2 = .hl_free
  · simp only [tx_send_complete_part2, hcb, ol_tx_download_done_hl_free, download_done_base_eq,
      update_self, downloadBase_pkt_type]
    split
    · next hp =>
      have hok' : ok = true := by simpa [freesTwice, hcb, hp] using hok
      subst hok'
      rw [ol_tx_desc_frame_free_nonstd, update_self, update_idem]
      exact good_update h ((h id).freeAtDownload hd (completes_of_freedAtDownload hcb hp))
    · next hp =>
      refine good_update h ((h id).downloadBase hd ?_ ok)
      cases hcomp : completes cfg (s id).pkt_type with
      | true => exact Or.inl rfl
      | false => exact Or.inr (by simpa [covered, hcomp] using hp)
  · have heq : tx_send_complete_part2 cfg s ok id = update s id ((s id).downloadBase ok) := by
      unfold tx_send_complete_part2
      cases hc : cfg.tx_send_complete_part2 with
      | ll => exact download_done_base_eq s ok id
      | hl_retain => exact download_done_base_eq s ok id
      | hl_free => exact absurd hc hcb
    rw [heq]; exact good_update h ((h id).downloadBase hd (Or.inl (completes_of_ne hcb)) ok)

theorem send_good {s : Pdev} (h : ∀ id, Good cfg (s id)) (id : Nat) (pkt_type : PktType)
    (failed : Bool) :
    ∀ k, Good cfg (ol_tx_send (update s id ((s id).init cfg pkt_type)) id failed k) := by
  unfold ol_tx_send ol_tx_send_base ol_tx_desc_frame_free_nonstd
  split
  · simp only [update_self, update_idem]; exact good_update h (Good.free ⟨rfl, rfl⟩ rfl)
  · simp only [update_self, update_idem]; exact good_update h (Good.sent cfg (s id) pkt_type)

theorem step_good {s s' : Pdev} {op : Op} (h : ∀ id, Good cfg (s id))
    (hok : freesTwice cfg s op = false) (hs : step cfg s op = some s') :
    ∀ id, Good cfg (s' id) := by
  cases op with
  | send id pkt_type failed =>
    rw [step] at hs
    split at hs
    · exact absurd hs (by simp)
    · cases hs; exact send_good h id pkt_type failed
  | download_done id ok =>
    rw [step] at hs
    split at hs
    · next hd => cases hs; exact download_done_good h hd hok
    · exact absurd hs (by simp)
  | completion status_ok desc_ids =>
    rw [step] at hs
    split at hs
    · next hids =>
      cases hs
      intro id
      rw [completion_handler_apply hids.1]
      split
      · next hmem => exact (h id).complete (hids.2 id hmem) status_ok
      · exact h id
    · exact absurd hs (by simp)

theorem not_once_of_freesTwice {s s' : Pdev} {op : Op} (h : ∀ id, Good cfg (s id))
    (hbad : freesTwice cfg s op = true) (hs : step cfg s op = some s') :
    ∃ id, ¬ Once cfg (s' id) := by
  cases op with
  | send id pkt_type failed => exact absurd hbad (by simp [freesTwice])
  | completion status_ok desc_ids => exact absurd hbad (by simp [freesTwice])
  | download_done id ok =>
    simp only [freesTwice, Bool.and_eq_true, decide_eq_true_eq, Bool.not_eq_true'] at hbad
    obtain ⟨⟨hcb, rfl⟩, hp⟩ := hbad
    rw [step] at hs
    split at hs
    · next hd =>
      cases hs
      have hearly := (h id).early (by rw [TxDesc.outstanding, hd, Bool.true_or])
      refine ⟨id, fun honce => ?_⟩
      simp only [tx_send_complete_part2, hcb, ol_tx_download_done_hl_free, download_done_base_eq,
        update_self, downloadBase_pkt_type, hp, if_true, ol_tx_desc_frame_free_nonstd] at honce
      have hfreed := (honce (by simp [covered, TxDesc.free, downloadBase_pkt_type, hp])).2 rfl
      simp only [TxDesc.free, TxDesc.downloadBase, hearly.1] at hfreed
      exact absurd hfreed.1 (by simp)
    · exact absurd hs (by simp)

/-- **The two-reference protocol** frees every frame once in a run in which
`ol_tx_download_done_hl_free` gets no failed download of a frame that it frees: in each of
its states, no frame with an outstanding reference was freed, and the netbuf and the
descriptor of each other frame were freed once. From such a state, every step leads to
one with this property if and only if it is not such a report. -/
theorem frame_freed_once (cfg : Cfg) (es : List Op) (s : Pdev)
    (h : run (guarded (fun s op => freesTwice cfg s op = false) (step cfg)) Pdev.init es = some s) :
    (∀ id, Once cfg (s id)) ∧
      ∀ op s', step cfg s op = some s' →
        ((∀ id, Once cfg (s' id)) ↔ freesTwice cfg s op = false) := by
  have hgood : ∀ id, Good cfg (s id) := by
    refine guarded_run_invariant (I := fun s : Pdev => ∀ id, Good cfg (s id))
      (fun _ _ _ hi hok hst => step_good hi hok hst) (fun id => ?_) h
    exact ⟨nofun, nofun, fun _ _ => ⟨rfl, rfl⟩, nofun⟩
  refine ⟨fun id => (hgood id).once, fun op s' hs => ⟨fun honce => ?_, fun hok id => ?_⟩⟩
  · by_contra hbad
    obtain ⟨id, hid⟩ := not_once_of_freesTwice hgood (by simpa using hbad) hs
    exact hid (honce id)
  · exact (step_good hgood hok hs id).once

/-- Three frames, the completion of one before its download is reported, and a failed one. -/
theorem frame_freed_once_three :
    ∃ s, run (guarded (fun s op => freesTwice ⟨.hl_retain, false⟩ s op = false)
        (step ⟨.hl_retain, false⟩)) Pdev.init
        [.send 0 .std false, .send 1 .std false, .send 2 .tso false, .completion true [1],
          .download_done 0 true, .download_done 1 true, .download_done 2 false,
          .completion true [0]] = some s ∧
      ((s 0).desc_freed, (s 1).desc_freed, (s 2).desc_freed) = (1, 1, 1) ∧
      ∀ id, Once ⟨.hl_retain, false⟩ (s id) := by
  exact exists_of_tested (fun s => _) (by decide +kernel) fun s hs hfreed =>
    ⟨hfreed, (frame_freed_once ⟨.hl_retain, false⟩ _ s hs).1⟩

/-- With `tx_free_at_download`, a regular frame whose download fails is freed twice. -/
theorem failed_download_freed_twice :
    ∃ s, run (step ⟨.hl_free, false⟩) Pdev.init [.send 0 .std false, .download_done 0 false] = some s ∧
      (s 0).outstanding = false ∧ (s 0).nbuf_freed = 2 ∧ (s 0).desc_freed = 2 ∧
      ¬ Once ⟨.hl_free, false⟩ (s 0) := by
  exact exists_of_tested _ (by decide +kernel) fun s _ hfreed => hfreed

end Qcacld.TxRefs
