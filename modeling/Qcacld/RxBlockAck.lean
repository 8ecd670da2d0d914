/-
Block-ack sessions: `ol_rx_addba_handler` and `ol_rx_delba_handler`.

An ADDBA points the tid at a new array and a DELBA frees the array and goes back to the embedded
slot. `sessionOk` is the condition under which nothing is replaced that holds anything: both events
find the slots of the tid empty, and an ADDBA finds the embedded slot in use.
-/
import Qcacld.RxReorderInv

set_option autoImplicit false

namespace Qcacld.RxReorder

open Lib Function List

/-! ## Sessions -/

/-- Reordering, with block-ack sessions that come and go. -/
inductive BaOp where
  | rx (e : Op)
  | addba (tid win_sz : Nat) (failed malloc_ok : Bool)
  | delba (tid : Nat)

def baStep (D : Desc) (p : Peer) : BaOp → Option Peer
  | .rx e => step D p e
  | .addba tid win_sz failed malloc_ok => ol_rx_addba_handler p tid win_sz failed malloc_ok
  | .delba tid => ol_rx_delba_handler p tid

/-- A peer that has just been attached: every tid has its embedded slot. -/
def Peer.attached : Peer := { Peer.init (fun _ => none) with nextArray := 0 }

def Peer.held (p : Peer) (tid : Nat) : List Nat :=
  ((range (p.win tid)).map (p.loc tid) ++ [Loc.base tid]).flatMap fun loc =>
    (walk p.next p.stored.length (p.elem loc).head).getD []

def FramesKept (p p' : Peer) (tid : Nat) : Prop :=
  ∀ m ∈ p.held tid,
    (∃ t, t < OL_TXRX_NUM_EXT_TIDS ∧ m ∈ p'.held t) ∨ m ∈ p'.delivered ∨ m ∈ p'.freed

/-- **The session contract**, as a predicate on states: the mask and the size of
each tid are those of the array in use, and an allocated array is in use by one
tid, or has been freed, once. -/
structure Sessions (p : Peer) : Prop where
  window : ∀ tid, tid < OL_TXRX_NUM_EXT_TIDS → Window p tid
  win_sz_le : ∀ tid, tid < OL_TXRX_NUM_EXT_TIDS → (p.tids_rx_reorder tid).win_sz ≤ p.win tid
  distinct : ∀ tid tid' a, tid < OL_TXRX_NUM_EXT_TIDS → tid' < OL_TXRX_NUM_EXT_TIDS →
    (p.tids_rx_reorder tid).array = .heap a → (p.tids_rx_reorder tid').array = .heap a →
    tid = tid'
  accounted : ∀ a, a < p.nextArray → a ∈ p.arraysFreed ∨
    ∃ tid, tid < OL_TXRX_NUM_EXT_TIDS ∧ (p.tids_rx_reorder tid).array = .heap a
  freed_once : p.arraysFreed.Nodup

def emptyTid (p : Peer) (tid : Nat) : Bool :=
  (range (p.win tid)).all fun idx => (p.elem (p.loc tid idx)).head.isNone

def sessionOk (p : Peer) : BaOp → Bool
  | .rx _ => true
  | .addba tid _ failed malloc_ok =>
    failed || (decide ((p.tids_rx_reorder tid).array = .base) && emptyTid p tid && malloc_ok)
  | .delba tid => emptyTid p tid

/-! ## The invariant -/

structure Arrays (p : Peer) : Prop where
  win_sz_le : ∀ tid, tid < OL_TXRX_NUM_EXT_TIDS → (p.tids_rx_reorder tid).win_sz ≤ p.win tid
  accounted : ∀ a, a < p.nextArray → a ∈ p.arraysFreed ∨
    ∃ tid, tid < OL_TXRX_NUM_EXT_TIDS ∧ (p.tids_rx_reorder tid).array = .heap a
  freed_once : p.arraysFreed.Nodup
  freed_lt : ∀ a ∈ p.arraysFreed, a < p.nextArray

theorem g_log2ceil_spec {w r : Nat} (h : g_log2ceil w = some r) : w ≤ r ∧ ∃ k, r = 2 ^ k := by
  unfold g_log2ceil at h
  split at h
  · cases h; exact ⟨by omega, 0, rfl⟩
  split at h
  · cases h; exact ⟨by omega, 1, rfl⟩
  split at h
  · cases h; exact ⟨by omega, 2, rfl⟩
  split at h
  · cases h; exact ⟨by omega, 3, rfl⟩
  split at h
  · cases h; exact ⟨by omega, 4, rfl⟩
  split at h
  · cases h; exact ⟨by omega, 5, rfl⟩
  split at h
  · cases h; exact ⟨by omega, 6, rfl⟩
  · exact absurd h (by simp)

section Events

variable {p p' : Peer} {S : Loc → List Nat} {lost : List Nat} {tid : Nat}

theorem emptyTid_iff (h : Slots p S) (tid : Nat) :
    emptyTid p tid = true ↔ ∀ idx, idx < p.win tid → S (p.loc tid idx) = [] := by
  unfold emptyTid
  rw [all_eq_true]
  constructor
  · intro hall idx hi
    have := hall idx (mem_range.mpr hi)
    rw [h.head] at this; exact head?_eq_none_iff.mp (Option.isNone_iff_eq_none.mp this)
  · intro hall idx hi
    rw [h.head, hall idx (mem_range.mp hi)]; rfl

theorem Inv.unused (h : Inv p S lost) {loc : Loc}
    (hloc : ∀ tid idx, tid < OL_TXRX_NUM_EXT_TIDS → idx < p.win tid → p.loc tid idx ≠ loc) :
    S loc = [] := by
  by_contra hne
  obtain ⟨tid, idx, ht, hi, he⟩ := h.used loc hne
  exact hloc tid idx ht hi he

theorem Inv.base_empty (h : Inv p S lost)
    (hempty : ∀ idx, idx < p.win tid → S (p.loc tid idx) = []) : S (.base tid) = [] := by
  by_contra hne
  obtain ⟨t, idx, ht, hi, he⟩ := h.used (.base tid) hne
  have htid : t = tid := by
    unfold Peer.loc at he
    split at he
    · exact absurd he (by simp)
    · exact Loc.base.inj he
  subst htid; exact hne (he ▸ hempty idx hi)

theorem Windows.live (h : Windows p) {a : Nat} (ht : tid < OL_TXRX_NUM_EXT_TIDS)
    (harr : (p.tids_rx_reorder tid).array = .heap a) : a < p.nextArray ∧ a ∉ p.arraysFreed := by
  rcases h.window tid ht with ⟨hbase, -⟩ | ⟨b, _, hb, hlt, hf, -⟩
  · rw [harr] at hbase; exact absurd hbase (by simp)
  · rw [harr] at hb
    rw [ArrayPtr.heap.inj hb]; exact ⟨hlt, hf⟩

theorem Inv.unallocated (h : Inv p S lost) {a : Nat} (ha : p.nextArray ≤ a) (idx : Nat) :
    S (.heap a idx) = [] := by
  apply h.unused
  intro t i ht hi he
  unfold Peer.loc at he
  split at he
  · next harr =>
    have hlt := (h.windows.live ht harr).1
    have := (Loc.heap.inj he).1
    omega
  · exact absurd he (by simp)

theorem held_eq_nil (h : Inv p S lost)
    (hempty : ∀ idx, idx < p.win tid → S (p.loc tid idx) = []) : p.held tid = [] := by
  refine flatMap_eq_nil_iff.mpr fun loc hloc => ?_
  have hS : S loc = [] := by
    rcases mem_append.mp hloc with hl | hl
    · obtain ⟨idx, hi, rfl⟩ := mem_map.mp hl; exact hempty idx (mem_range.mp hi)
    · rw [mem_singleton.mp hl]; exact h.base_empty hempty
  rw [h.slots.head, hS]
  unfold walk; rfl

theorem Window.of_other {p p' : Peer} {t : Nat} (h : Window p t)
    (hr : p'.tids_rx_reorder t = p.tids_rx_reorder t) (hn : p.nextArray ≤ p'.nextArray)
    (hlen : ∀ a, a < p.nextArray → p'.arrayLen a = p.arrayLen a)
    (hf : ∀ a, (p.tids_rx_reorder t).array = .heap a → a ∉ p.arraysFreed → a ∉ p'.arraysFreed) :
    Window p' t := by
  have hm : p'.mask t = p.mask t := by unfold Peer.mask; rw [hr]
  cases h with
  | base ha hmask => exact .base (by rw [hr]; exact ha) (by rw [hm]; exact hmask)
  | heap a k ha hlt hfr hl hk =>
    refine .heap a k (by rw [hr]; exact ha) (Nat.lt_of_lt_of_le hlt hn) (hf a ha hfr) ?_
      (by rw [hm]; exact hk)
    rw [hlen a hlt, hm, hl]

theorem Windows.replace (h : Windows p) (hwin : ∀ t, t < OL_TXRX_NUM_EXT_TIDS → Window p' t)
    (hother : ∀ t, t ≠ tid → p'.tids_rx_reorder t = p.tids_rx_reorder t)
    (hnew : ∀ t a, t < OL_TXRX_NUM_EXT_TIDS → (p.tids_rx_reorder t).array = .heap a →
      (p'.tids_rx_reorder tid).array ≠ .heap a) : Windows p' := by
  refine ⟨hwin, fun t t' a ht ht' hta hta' => ?_⟩
  by_cases hne : t = tid <;> by_cases hne' : t' = tid
  · rw [hne, hne']
  · rw [hother t' hne'] at hta'; exact absurd (hne ▸ hta) (hnew t' a ht' hta')
  · rw [hother t hne] at hta; exact absurd (hne' ▸ hta') (hnew t a ht hta)
  · rw [hother t hne] at hta
    rw [hother t' hne'] at hta'; exact h.distinct t t' a ht ht' hta hta'

theorem Slots.zero (h : Slots p S) {a : Nat} (ha : ∀ idx, S (.heap a idx) = []) :
    Slots { p with elem := zeroArray p.elem a } S := by
  have helem : ∀ loc, zeroArray p.elem a loc = p.elem loc ∨
      zeroArray p.elem a loc = Elem.empty ∧ S loc = [] := by
    intro loc
    cases loc with
    | base t => exact .inl rfl
    | heap b idx =>
      by_cases hb : b = a
      · subst hb; exact .inr ⟨if_pos rfl, ha idx⟩
      · exact .inl (if_neg hb)
  refine ⟨fun loc => ?_, fun loc => ?_, h.linked, h.nodup, h.disj⟩
  · show (zeroArray p.elem a loc).head = _
    rcases helem loc with he | ⟨he, hS⟩
    · rw [he]; exact h.head loc
    · rw [he, hS]; rfl
  · show (zeroArray p.elem a loc).tail = _
    rcases helem loc with he | ⟨he, hS⟩
    · rw [he]; exact h.tail loc
    · rw [he, hS]; rfl

/-- What `Inv` needs when the window of one tid, which holds nothing, is
replaced. -/
theorem Inv.replace (h : Inv p S lost)
    (hempty : ∀ idx, idx < p.win tid → S (p.loc tid idx) = []) (hslots : Slots p' S)
    (hwin : Windows p') (hother : ∀ t, t ≠ tid → p'.tids_rx_reorder t = p.tids_rx_reorder t)
    (hst : p'.stored = p.stored) (hproc : p'.rx_opt_proc = p.rx_opt_proc)
    (hfr : p'.freed = p.freed) : Inv p' S lost := by
  have hdel : p'.delivered = p.delivered := by unfold Peer.delivered; rw [hproc]
  refine ⟨hslots, hwin, ?_, ?_, fun m => ?_, fun loc hloc => ?_⟩
  · rw [hdel, hfr]; exact h.nodup
  · rw [hdel, hfr]; exact h.apart
  · rw [hdel, hfr, hst]; exact h.stored m
  · obtain ⟨t, idx, ht, hi, rfl⟩ := h.used loc hloc
    have hne : t ≠ tid := by rintro rfl; exact hloc (hempty idx hi)
    refine ⟨t, idx, ht, ?_, ?_⟩
    · unfold Peer.win Peer.mask at hi ⊢
      rw [hother t hne]; exact hi
    · unfold Peer.loc; rw [hother t hne]

theorem Arrays.win_sz_replace (ha : Arrays p)
    (hother : ∀ t, t ≠ tid → p'.tids_rx_reorder t = p.tids_rx_reorder t)
    (hself : (p'.tids_rx_reorder tid).win_sz ≤ p'.win tid) :
    ∀ t, t < OL_TXRX_NUM_EXT_TIDS → (p'.tids_rx_reorder t).win_sz ≤ p'.win t := by
  intro t ht
  by_cases hne : t = tid
  · rw [hne]; exact hself
  · unfold Peer.win Peer.mask
    rw [hother t hne]; exact ha.win_sz_le t ht

theorem addba_inv (h : Inv p S lost) (ha : Arrays p) {win_sz : Nat}
    (hbase : (p.tids_rx_reorder tid).array = .base)
    (hempty : ∀ idx, idx < p.win tid → S (p.loc tid idx) = [])
    (hs : ol_rx_addba_handler p tid win_sz false true = some p') : Inv p' S lost ∧ Arrays p' := by
  unfold ol_rx_addba_handler at hs
  rw [if_neg (by decide)] at hs
  split at hs
  swap
  · exact absurd hs (by simp)
  rename_i htid
  obtain ⟨r, hr, hp'⟩ := Option.map_eq_some_iff.mp hs
  obtain ⟨hle, k, hk⟩ := g_log2ceil_spec hr
  have hpos : 0 < r := hk ▸ Nat.two_pow_pos k
  rw [if_pos rfl] at hp'
  have hself : p'.tids_rx_reorder tid = ⟨win_sz, r - 1, .heap p.nextArray⟩ := by
    rw [← hp']; exact update_self _ _ _
  have hother : ∀ t, t ≠ tid → p'.tids_rx_reorder t = p.tids_rx_reorder t := by
    intro t hne
    rw [← hp']; exact update_of_ne hne _ _
  have hnext : p'.nextArray = p.nextArray + 1 := by rw [← hp']
  have hfreed : p'.arraysFreed = p.arraysFreed := by rw [← hp']
  have hmask : p'.mask tid + 1 = r := by
    unfold Peer.mask
    rw [hself]; exact Nat.sub_add_cancel hpos
  have hlen : ∀ a, p'.arrayLen a = if a = p.nextArray then r else p.arrayLen a := by
    intro a
    rw [← hp']; exact update_apply _ _ _ _
  have hnotFreed : p.nextArray ∉ p.arraysFreed := fun hf => Nat.lt_irrefl _ (ha.freed_lt _ hf)
  have hwindows : Windows p' := by
    refine h.windows.replace (fun t ht => ?_) hother fun t a ht hta hnew => ?_
    · by_cases hne : t = tid
      · subst hne
        refine .heap p.nextArray k (by rw [hself]) (by omega) (by rw [hfreed]; exact hnotFreed) ?_
          (hmask.trans hk)
        rw [hlen, if_pos rfl, hmask]
      · refine (h.windows.window t ht).of_other (hother t hne) (by omega) (fun a hlt => ?_)
          fun a _ hf => by rw [hfreed]; exact hf
        rw [hlen, if_neg (Nat.ne_of_lt hlt)]
    · -- the new array is not one of those in use
      rw [hself] at hnew
      have hlt := (h.windows.live ht hta).1
      have := ArrayPtr.heap.inj hnew
      omega
  have hslots : Slots p' S := by
    rw [← hp']; exact (h.slots.zero fun idx => h.unallocated (Nat.le_refl _) idx).of_eq rfl rfl
  refine ⟨h.replace hempty hslots hwindows hother (by rw [← hp']) (by rw [← hp']) (by rw [← hp']),
    ha.win_sz_replace hother ?_, fun a hlt => ?_, by rw [hfreed]; exact ha.freed_once,
    fun a hf => ?_⟩
  · rw [Peer.win, hmask, hself]; exact hle
  · by_cases hnew : a = p.nextArray
    · exact .inr ⟨tid, htid, by rw [hself, hnew]⟩
    · rcases ha.accounted a (by omega) with hf | ⟨t, ht, hta⟩
      · exact .inl (by rw [hfreed]; exact hf)
      · refine .inr ⟨t, ht, ?_⟩
        have hne : t ≠ tid := by
          rintro rfl
          rw [hbase] at hta; exact absurd hta (by simp)
        rw [hother t hne, hta]
  · rw [hfreed] at hf
    rw [hnext]; exact Nat.lt_succ_of_lt (ha.freed_lt a hf)

theorem delba_inv (h : Inv p S lost) (ha : Arrays p)
    (hempty : ∀ idx, idx < p.win tid → S (p.loc tid idx) = [])
    (hs : ol_rx_delba_handler p tid = some p') : Inv p' S lost ∧ Arrays p' := by
  unfold ol_rx_delba_handler at hs
  split at hs
  swap
  · exact absurd hs (by simp)
  rename_i htid
  -- both kinds of arrays: what is freed, and the rest as `ol_rx_reorder_init` leaves it
  obtain ⟨fr, hfr, hp'⟩ : ∃ fr, ((fr = [] ∧ (p.tids_rx_reorder tid).array = .base) ∨
        ∃ a, fr = [a] ∧ (p.tids_rx_reorder tid).array = .heap a) ∧
      p' = ol_rx_reorder_init { p with
        tids_next_rel_idx := update p.tids_next_rel_idx tid 0xffff
        arraysFreed := fr ++ p.arraysFreed } tid := by
    dsimp only at hs
    rcases h.windows.window tid htid with ⟨harr, -⟩ | ⟨a, k, harr, -, hf, -⟩
    · rw [harr] at hs; exact ⟨[], .inl ⟨rfl, harr⟩, (Option.some.inj hs).symm⟩
    · rw [harr] at hs
      dsimp only at hs
      rw [if_neg hf] at hs; exact ⟨[a], .inr ⟨a, rfl, harr⟩, (Option.some.inj hs).symm⟩
  have hself : p'.tids_rx_reorder tid = ⟨1, 0, .base⟩ := by rw [hp']; exact update_self _ _ _
  have hother : ∀ t, t ≠ tid → p'.tids_rx_reorder t = p.tids_rx_reorder t := by
    intro t hne
    rw [hp']; exact update_of_ne hne _ _
  have hnext : p'.nextArray = p.nextArray := by rw [hp']; rfl
  have hlen : p'.arrayLen = p.arrayLen := by rw [hp']; rfl
  have hfreed : p'.arraysFreed = fr ++ p.arraysFreed := by rw [hp']; rfl
  have hmask : p'.mask tid = 0 := by unfold Peer.mask; rw [hself]
  have hmine : ∀ a ∈ fr, (p.tids_rx_reorder tid).array = .heap a := by
    intro a hm
    rcases hfr with ⟨rfl, -⟩ | ⟨b, rfl, hb⟩
    · exact absurd hm (by simp)
    · rw [mem_singleton.mp hm]; exact hb
  have hwindows : Windows p' := by
    refine h.windows.replace (fun t ht => ?_) hother fun t a _ _ hnew => ?_
    · by_cases hne : t = tid
      · subst hne; exact .base (by rw [hself]) hmask
      · refine (h.windows.window t ht).of_other (hother t hne) (by omega) (fun a _ => by rw [hlen])
          fun a hta hf => ?_
        rw [hfreed, mem_append, not_or]
        exact ⟨fun hm => hne (h.windows.distinct t tid a ht htid hta (hmine a hm)), hf⟩
    · rw [hself] at hnew; exact absurd hnew (by simp)
  have hslots : Slots p' S := by
    have hclear := h.slots.clear (.base tid)
    rw [update_nil_of_empty (h.base_empty hempty)] at hclear
    rw [hp']; exact hclear.of_eq rfl rfl
  refine ⟨h.replace hempty hslots hwindows hother (by rw [hp']; rfl) (by rw [hp']; rfl)
    (by rw [hp']; rfl), ha.win_sz_replace hother ?_, fun a hlt => ?_, ?_, fun a hf => ?_⟩
  · rw [Peer.win, hmask, hself]
  · rw [hnext] at hlt
    rw [hfreed]
    rcases ha.accounted a hlt with hf | ⟨t, ht, hta⟩
    · exact .inl (mem_append_right _ hf)
    · by_cases hne : t = tid
      · left
        rw [hne] at hta
        rcases hfr with ⟨-, hb⟩ | ⟨b, rfl, hb⟩
        · rw [hb] at hta; exact absurd hta (by simp)
        · rw [hb] at hta
          rw [ArrayPtr.heap.inj hta]; exact mem_cons_self
      · exact .inr ⟨t, ht, by rw [hother t hne, hta]⟩
  · rw [hfreed]
    rcases hfr with ⟨rfl, -⟩ | ⟨b, rfl, hb⟩
    · exact ha.freed_once
    · exact nodup_cons.mpr ⟨(h.windows.live htid hb).2, ha.freed_once⟩
  · rw [hfreed] at hf
    rw [hnext]
    rcases mem_append.mp hf with hf | hf
    · exact (h.windows.live htid (hmine a hf)).1
    · exact ha.freed_lt a hf

end Events

/-! ## Runs -/

section Run

variable {p p' : Peer} {D : Desc}

theorem SameWindows.arrays (h : SameWindows p p') (ha : Arrays p) : Arrays p' := by
  refine ⟨fun t ht => ?_, fun a hlt => ?_, ?_, fun a hf => ?_⟩
  · rw [h.reorder, h.win]; exact ha.win_sz_le t ht
  · rw [h.nextArray] at hlt
    rw [h.arraysFreed, h.reorder]; exact ha.accounted a hlt
  · rw [h.arraysFreed]; exact ha.freed_once
  · rw [h.arraysFreed] at hf
    rw [h.nextArray]; exact ha.freed_lt a hf

def SessionInv (p : Peer) : Prop := (∃ S lost, Inv p S lost) ∧ Arrays p

theorem baStep_inv {e : BaOp} (h : SessionInv p) (hok : sessionOk p e = true)
    (hs : baStep D p e = some p') : SessionInv p' := by
  obtain ⟨⟨S, lost, hi⟩, ha⟩ := h
  cases e with
  | rx e =>
    obtain ⟨S', lost', hi', hsw, -⟩ := step_inv hi hs
    exact ⟨⟨S', lost', hi'⟩, hsw.arrays ha⟩
  | addba tid win_sz failed malloc_ok =>
    cases failed with
    | true => cases hs; exact ⟨⟨S, lost, hi⟩, ha⟩
    | false =>
      rw [sessionOk, Bool.false_or, Bool.and_eq_true, Bool.and_eq_true, decide_eq_true_eq] at hok
      obtain ⟨⟨hbase, hempty⟩, rfl⟩ := hok
      obtain ⟨hi', ha'⟩ := addba_inv hi ha hbase ((emptyTid_iff hi.slots tid).mp hempty) hs
      exact ⟨⟨S, lost, hi'⟩, ha'⟩
  | delba tid =>
    obtain ⟨hi', ha'⟩ := delba_inv hi ha ((emptyTid_iff hi.slots tid).mp hok) hs
    exact ⟨⟨S, lost, hi'⟩, ha'⟩

theorem attached_inv : SessionInv Peer.attached := by
  have h := init_inv fun _ => none
  refine ⟨⟨fun _ => [], [], ⟨h.slots.of_eq rfl rfl, ⟨fun t _ => .base rfl rfl, ?_⟩, h.nodup, h.apart,
    h.stored, fun loc hloc => absurd rfl hloc⟩⟩, fun t _ => Nat.le_refl 1,
    nofun, nodup_nil,
    fun a ha => absurd ha (by simp [Peer.attached, Peer.init])⟩
  intro t t' a _ _ hta; exact absurd hta (by simp [Peer.attached, Peer.init])

theorem SessionInv.sessions (h : SessionInv p) : Sessions p := by
  obtain ⟨⟨S, lost, hi⟩, ha⟩ := h
  exact ⟨hi.windows.window, ha.win_sz_le, hi.windows.distinct, ha.accounted, ha.freed_once⟩

end Run

/-- **Block-ack sessions.** In every state of every run in which sessions begin
and end with the slots of their tid empty, and begin on the embedded slot, the
windows describe the arrays in use and every other array has been freed once;
and no such event drops a MSDU that the tid holds. -/
theorem block_ack_sessions (D : Desc) (es : List BaOp) (p : Peer)
    (h : run (guarded (fun p e => sessionOk p e = true) (baStep D)) Peer.attached es = some p) :
    Sessions p ∧
      (∀ tid win_sz malloc_ok p', sessionOk p (.addba tid win_sz false malloc_ok) = true →
        baStep D p (.addba tid win_sz false malloc_ok) = some p' →
        FramesKept p p' tid ∧ Sessions p') ∧
      ∀ tid p', sessionOk p (.delba tid) = true → baStep D p (.delba tid) = some p' →
        FramesKept p p' tid ∧ Sessions p' := by
  have hinv : SessionInv p :=
    guarded_run_invariant (fun _ _ _ hi hok hst => baStep_inv hi hok hst) attached_inv h
  have hinv' := hinv
  obtain ⟨⟨S, lost, hi⟩, -⟩ := hinv'
  have hkept : ∀ tid p', emptyTid p tid = true → FramesKept p p' tid := by
    intro tid p' hempty m hm
    rw [held_eq_nil hi ((emptyTid_iff hi.slots tid).mp hempty)] at hm; exact absurd hm (by simp)
  refine ⟨hinv.sessions, fun tid win_sz malloc_ok p' hok hst => ⟨hkept tid p' ?_, ?_⟩,
    fun tid p' hok hst => ⟨hkept tid p' hok, ?_⟩⟩
  · rw [sessionOk, Bool.false_or, Bool.and_eq_true, Bool.and_eq_true] at hok; exact hok.1.2
  · exact (baStep_inv hinv hok hst).sessions
  · exact (baStep_inv hinv hok hst).sessions

/-- Two sessions one after the other on a tid. -/
theorem block_ack_sessions_twice :
    ∃ p, run (guarded (fun p e => sessionOk p e = true) (baStep plainDesc)) Peer.attached
        [.addba 3 6 false true, .rx (.store 3 0 [1]), .rx (.release 3 0 1), .delba 3,
          .addba 3 64 false true] = some p ∧
      p.mask 3 = 63 ∧ p.arraysFreed = [0] ∧ Sessions p := by
  exact exists_of_tested (fun p => _ ∧ _) (by decide +kernel) fun p hp ⟨hmask, hfreed⟩ =>
    ⟨hmask, hfreed, (block_ack_sessions plainDesc _ p hp).1⟩

/-- A DELBA with a frame in the window. -/
theorem delba_drops :
    ∃ p p', run (baStep plainDesc) Peer.attached
        [.addba 3 4 false true, .rx (.store 3 1 [7])] = some p ∧
      baStep plainDesc p (.delba 3) = some p' ∧ ¬ FramesKept p p' 3 := by
  obtain ⟨p, hp, hout⟩ := (Option.any_eq_true
    (fun p : Peer => decide (7 ∈ p.held 3) && (baStep plainDesc p (.delba 3)).any fun p' : Peer =>
      decide (7 ∉ p'.delivered) && decide (7 ∉ p'.freed) &&
        (range OL_TXRX_NUM_EXT_TIDS).all fun t => decide (7 ∉ p'.held t))
    (run (baStep plainDesc) Peer.attached
        [.addba 3 4 false true, .rx (.store 3 1 [7])])).mp (by decide +kernel)
  rw [Bool.and_eq_true, decide_eq_true_eq] at hout
  obtain ⟨hheld, hout⟩ := hout
  obtain ⟨p', hp', hout⟩ := (Option.any_eq_true _ _).mp hout
  simp only [Bool.and_eq_true, decide_eq_true_eq, all_eq_true, mem_range] at hout
  obtain ⟨⟨hd, hf⟩, hnot⟩ := hout
  refine ⟨p, p', hp, hp', fun hk => ?_⟩
  rcases hk 7 hheld with ⟨t, ht, hm⟩ | hm | hm
  · exact hnot t ht hm
  · exact hd hm
  · exact hf hm

end Qcacld.RxReorder
