/-
Where the MSDUs of a peer are.

`Inv p S lost` is what every operation keeps: memory holds the lists `S`, the windows are in order,
and every MSDU that was ever stored is in exactly one place: a slot, handed on, freed, or `lost`.
-/
import Qcacld.RxReorder
import Mathlib.Data.List.Flatten
import Mathlib.Data.List.Perm.Subperm

set_option autoImplicit false

namespace Qcacld.RxReorder

open Lib Function List Option

section

/-! ## Windows -/

/-- The window of a tid: the mask is that of a power of two, and of the array in
use. -/
inductive Window (p : Peer) (tid : Nat) : Prop where
  | base : (p.tids_rx_reorder tid).array = .base → p.mask tid = 0 → Window p tid
  | heap (a k : Nat) : (p.tids_rx_reorder tid).array = .heap a → a < p.nextArray →
      a ∉ p.arraysFreed → p.arrayLen a = p.mask tid + 1 → p.mask tid + 1 = 2 ^ k → Window p tid

structure Windows (p : Peer) : Prop where
  window : ∀ tid, tid < OL_TXRX_NUM_EXT_TIDS → Window p tid
  distinct : ∀ tid tid' a, tid < OL_TXRX_NUM_EXT_TIDS → tid' < OL_TXRX_NUM_EXT_TIDS →
    (p.tids_rx_reorder tid).array = .heap a → (p.tids_rx_reorder tid').array = .heap a →
    tid = tid'

/-- The address of a slot of a window. -/
def Peer.loc (p : Peer) (tid idx : Nat) : Loc :=
  match (p.tids_rx_reorder tid).array with
  | .heap a => .heap a idx
  | _ => .base tid

def Peer.win (p : Peer) (tid : Nat) : Nat := p.mask tid + 1

/-- The slots that a walk from `idx_start` to `idx_end` visits. -/
def Peer.visited (p : Peer) (tid idx_start idx_end : Nat) : List Nat :=
  visits (p.win tid) (idx_start % p.win tid) (idx_end % p.win tid)

section Windows

variable {p : Peer} {tid : Nat}

theorem Window.and_mask (h : Window p tid) (x : Nat) : x &&& p.mask tid = x % p.win tid := by
  unfold Peer.win
  cases h with
  | base _ hm => rw [hm, Nat.and_zero, Nat.mod_one]
  | heap a k _ _ _ _ hk => rw [hk, ← Nat.and_two_pow_sub_one_eq_mod, ← hk]; rfl

theorem win_pos : 0 < p.win tid := Nat.succ_pos _

theorem Window.slot (h : Window p tid) (ht : tid < OL_TXRX_NUM_EXT_TIDS) {idx : Nat}
    (hi : idx < p.win tid) : p.slot tid idx = some (p.loc tid idx) := by
  unfold Peer.slot Peer.loc
  rw [if_pos ht]
  unfold Peer.win at hi
  cases h with
  | base ha hm => rw [ha]; exact if_pos (by omega)
  | heap a k ha _ hf hlen _ => rw [ha]; exact if_pos ⟨by omega, hf⟩

theorem Window.loc_inj (h : Window p tid) {i j : Nat} (hi : i < p.win tid) (hj : j < p.win tid)
    (he : p.loc tid i = p.loc tid j) : i = j := by
  unfold Peer.loc at he
  unfold Peer.win at hi hj
  cases h with
  | base _ hm => omega
  | heap a k ha _ _ _ _ => rw [ha] at he; exact (Loc.heap.inj he).2

theorem Window.visited_lt (s e : Nat) : ∀ i ∈ p.visited tid s e, i < p.win tid :=
  visits_lt (Nat.mod_lt _ win_pos)

theorem Window.visited_nodup (h : Window p tid) (s e : Nat) :
    ((p.visited tid s e).map (p.loc tid)).Nodup := by
  refine List.Nodup.map_on (fun i hi j hj he => ?_) (visits_nodup (Nat.mod_lt _ win_pos))
  exact h.loc_inj (Window.visited_lt s e i hi) (Window.visited_lt s e j hj) he

theorem Window.visited_slot (h : Window p tid) (ht : tid < OL_TXRX_NUM_EXT_TIDS) (s e : Nat) :
    ∀ i ∈ p.visited tid s e, p.slot tid i = some (p.loc tid i) :=
  fun i hi => h.slot ht (Window.visited_lt s e i hi)

theorem Window.do_while {σ : Type} (h : Window p tid) (body : Nat → σ → Option σ) (s e : Nat)
    (x : σ) :
    ((body (s &&& p.mask tid) x).bind fun y =>
      ringWhile (p.mask tid) (e &&& p.mask tid) body (p.mask tid + 1)
        ((s &&& p.mask tid) + 1 &&& p.mask tid) y)
      = visitAll body (p.visited tid s e) x := by
  rw [h.and_mask s, h.and_mask e]
  exact do_while_eq h.and_mask (Nat.mod_lt _ win_pos) (Nat.mod_lt _ win_pos) (Nat.le_refl _) x

theorem Window.visited_eq_cons (s e : Nat) :
    p.visited tid s e = (s % p.win tid) :: (p.visited tid s e).tail := by
  unfold Peer.visited
  rw [visits_eq_cons (Nat.mod_lt _ win_pos) (Nat.mod_lt _ win_pos)]; rfl

theorem Window.while_eq {σ : Type} (h : Window p tid) (body : Nat → σ → Option σ) (s e : Nat)
    (x : σ) :
    ringWhile (p.mask tid) (e &&& p.mask tid) body (p.mask tid + 1)
        ((s &&& p.mask tid) + 1 &&& p.mask tid) x
      = visitAll body (p.visited tid s e).tail x := by
  have hlt : (s % p.win tid + 1) % p.win tid < p.win tid := Nat.mod_lt _ win_pos
  rw [h.and_mask s, h.and_mask e, h.and_mask]
  unfold Peer.visited
  rw [visits_eq_cons (Nat.mod_lt _ win_pos) (Nat.mod_lt _ win_pos)]
  exact ringWhile_eq h.and_mask (Nat.mod_lt _ win_pos) _ _ x hlt (ringDist_lt hlt)

end Windows

/-! ## Accounting -/

/-- Every stored frame is in one slot (`S`), delivered, freed or lost, and so only once. -/
structure Inv (p : Peer) (S : Loc → List Nat) (lost : List Nat) : Prop where
  slots : Slots p S
  windows : Windows p
  nodup : (p.delivered ++ p.freed ++ lost).Nodup
  apart : ∀ m ∈ p.delivered ++ p.freed ++ lost, ∀ loc, m ∉ S loc
  stored : ∀ m, m ∈ p.stored ↔ (∃ loc, m ∈ S loc) ∨ m ∈ p.delivered ++ p.freed ++ lost
  used : ∀ loc, S loc ≠ [] →
    ∃ tid idx, tid < OL_TXRX_NUM_EXT_TIDS ∧ idx < p.win tid ∧ p.loc tid idx = loc

structure SameWindows (p p' : Peer) : Prop where
  reorder : p'.tids_rx_reorder = p.tids_rx_reorder
  arrayLen : p'.arrayLen = p.arrayLen
  nextArray : p'.nextArray = p.nextArray
  arraysFreed : p'.arraysFreed = p.arraysFreed

section Account

variable {p p' : Peer} {S : Loc → List Nat} {lost : List Nat}

theorem SameWindows.mask (h : SameWindows p p') (tid : Nat) : p'.mask tid = p.mask tid := by
  unfold Peer.mask
  rw [h.reorder]

theorem SameWindows.win (h : SameWindows p p') (tid : Nat) : p'.win tid = p.win tid := by
  unfold Peer.win
  rw [h.mask]

theorem SameWindows.loc (h : SameWindows p p') (tid idx : Nat) :
    p'.loc tid idx = p.loc tid idx := by unfold Peer.loc; rw [h.reorder]

theorem SameWindows.trans {p'' : Peer} (h : SameWindows p p') (h' : SameWindows p' p'') :
    SameWindows p p'' :=
  ⟨h'.reorder.trans h.reorder, h'.arrayLen.trans h.arrayLen, h'.nextArray.trans h.nextArray,
    h'.arraysFreed.trans h.arraysFreed⟩

theorem Windows.of_same (h : Windows p) (hs : SameWindows p p') : Windows p' := by
  refine ⟨fun tid ht => ?_, fun tid tid' a ht ht' ha ha' => ?_⟩
  · cases h.window tid ht with
    | base ha hm => exact .base (by rw [hs.reorder]; exact ha) (by rw [hs.mask]; exact hm)
    | heap a k ha hlt hf hlen hk =>
      refine .heap a k (by rw [hs.reorder]; exact ha) (by rw [hs.nextArray]; exact hlt)
        (by rw [hs.arraysFreed]; exact hf) ?_ (by rw [hs.mask]; exact hk)
      rw [hs.arrayLen, hs.mask]; exact hlen
  · rw [hs.reorder] at ha ha'; exact h.distinct tid tid' a ht ht' ha ha'

theorem Inv.length_le (h : Inv p S lost) {l : List Nat} (hnd : l.Nodup)
    (hsub : ∀ m ∈ l, ∃ loc, m ∈ S loc) : l.length ≤ p.stored.length := by
  refine (subperm_of_subset hnd fun m hm => ?_).length_le
  exact (h.stored m).mpr (.inl (hsub m hm))

theorem Slots.flatMap_nodup (h : Slots p S) {L : List Loc} (hL : L.Nodup) :
    (L.flatMap S).Nodup := by
  refine nodup_flatMap.mpr ⟨fun loc _ => h.nodup loc, ?_⟩
  refine hL.imp fun {x y} hne => ?_
  intro m hx hy; exact hne (h.disj x y m hx hy)

theorem mem_cleared {L : List Loc} {m : Nat} {loc : Loc} :
    m ∈ cleared S L loc ↔ loc ∉ L ∧ m ∈ S loc := by
  unfold cleared
  by_cases h : loc ∈ L <;> simp [h]

/-- **Accounting for a walk.** The slots of `L` are emptied; of what they held,
`a` is handed on, `b` is freed and `c` is lost. -/
theorem settle (h : Inv p S lost) {L : List Loc} (hL : L.Nodup) {a b c : List Nat}
    (hs : Slots p' (cleared S L)) (hw : SameWindows p p') (hst : p'.stored = p.stored)
    (ha : p'.delivered = p.delivered ++ a) (hb : p'.freed = p.freed ++ b)
    (hperm : (a ++ b ++ c).Perm (L.flatMap S)) : Inv p' (cleared S L) (lost ++ c) := by
  have hplaces : (p'.delivered ++ p'.freed ++ (lost ++ c)).Perm
      ((p.delivered ++ p.freed ++ lost) ++ L.flatMap S) := by
    refine Perm.trans ?_ (hperm.append_left _)
    rw [ha, hb]
    rw [perm_iff_count]
    intro x
    simp only [count_append]
    omega
  have hmem : ∀ m, m ∈ p'.delivered ++ p'.freed ++ (lost ++ c) ↔
      m ∈ p.delivered ++ p.freed ++ lost ∨ ∃ loc ∈ L, m ∈ S loc := by
    intro m
    rw [hplaces.mem_iff, mem_append, mem_flatMap]
  refine ⟨hs, h.windows.of_same hw, ?_, fun m hm loc hc => ?_, fun m => ?_, fun loc hloc => ?_⟩
  · rw [hplaces.nodup_iff]
    refine nodup_append.mpr ⟨h.nodup, h.slots.flatMap_nodup hL, fun x hx y hy he => ?_⟩
    obtain ⟨loc, -, hy⟩ := mem_flatMap.mp hy
    exact h.apart x hx loc (he ▸ hy)
  · obtain ⟨hnL, hc⟩ := mem_cleared.mp hc
    rcases (hmem m).mp hm with hm | ⟨loc', hL', hm⟩
    · exact h.apart m hm loc hc
    · exact hnL (h.slots.disj loc loc' m hc hm ▸ hL')
  · rw [hst, h.stored, hmem]
    constructor
    · rintro (⟨loc, hm⟩ | hm)
      · by_cases hin : loc ∈ L
        · exact .inr (.inr ⟨loc, hin, hm⟩)
        · exact .inl ⟨loc, mem_cleared.mpr ⟨hin, hm⟩⟩
      · exact .inr (.inl hm)
    · rintro (⟨loc, hm⟩ | hm | ⟨loc, -, hm⟩)
      · exact .inl ⟨loc, (mem_cleared.mp hm).2⟩
      · exact .inr hm
      · exact .inl ⟨loc, hm⟩
  · have hne : S loc ≠ [] := by
      intro he
      unfold cleared at hloc
      rw [he, ite_self] at hloc; exact hloc rfl
    obtain ⟨tid, idx, ht, hi, he⟩ := h.used loc hne
    exact ⟨tid, idx, ht, by rw [hw.win]; exact hi, by rw [hw.loc]; exact he⟩

end Account

/-- What an operation on a tid has done with MSDUs: it has handed on the list `a`
and freed `b`. -/
structure Outcome (p p' : Peer) (tid : Nat) (a b : List Nat) : Prop where
  handed : p'.rx_opt_proc = p.rx_opt_proc ++ if a = [] then [] else [(tid, a)]
  freed : p'.freed = p.freed ++ b
  windows : SameWindows p p'
  stored : p'.stored = p.stored

section Outcome

variable {p p' : Peer} {S : Loc → List Nat} {lost a b : List Nat} {tid : Nat}

theorem Outcome.delivered (h : Outcome p p' tid a b) : p'.delivered = p.delivered ++ a := by
  unfold Peer.delivered
  rw [h.handed, flatMap_append]
  by_cases ha : a = []
  · simp [ha]
  · simp [ha]

theorem Outcome.inv (ho : Outcome p p' tid a b) (h : Inv p S lost) {L : List Loc} (hL : L.Nodup)
    (hs : Slots p' (cleared S L)) {c : List Nat} (hperm : (a ++ b ++ c).Perm (L.flatMap S)) :
    Inv p' (cleared S L) (lost ++ c) :=
  settle h hL hs ho.windows ho.stored ho.delivered ho.freed hperm

theorem Outcome.after {q : Peer} (hq : Outcome p q tid [] []) (ho : Outcome q p' tid a b) :
    Outcome p p' tid a b := by
  refine ⟨?_, ?_, hq.windows.trans ho.windows, ho.stored.trans hq.stored⟩
  · rw [ho.handed, hq.handed, if_pos rfl, append_nil]
  · rw [ho.freed, hq.freed, append_nil]

theorem SameBut.outcome {q : Peer} (h : SameBut p q) : Outcome p q tid [] [] := by
  rw [h]; exact ⟨(append_nil _).symm, (append_nil _).symm, ⟨rfl, rfl, rfl, rfl⟩, rfl⟩

theorem deliver_eq {head : Option Nat} {l : List Nat} (hl : Linked p.next head l none)
    (hlen : l.length ≤ p.stored.length) :
    p.deliver tid head = some { p with rx_opt_proc := p.rx_opt_proc ++ [(tid, l)] } := by
  rw [Peer.deliver, walk_eq _ hl hlen, map_some]

theorem frames_free_eq {head : Option Nat} {l : List Nat} (hl : Linked p.next head l none)
    (hlen : l.length ≤ p.stored.length) :
    ol_rx_frames_free p head = some { p with freed := p.freed ++ l } := by
  rw [ol_rx_frames_free, walk_eq _ hl hlen, map_some]

end Outcome

/-! ## Flushes -/

section Flush

variable {p : Peer} {S : Loc → List Nat} {lost : List Nat} {tid : Nat} {D : Desc}

/-- What a flush hands on, and what it frees. -/
def FlushAction.handed (action : FlushAction) (l : List Nat) : List Nat :=
  match action with
  | .release => l
  | .discard => []

def FlushAction.dropped (action : FlushAction) (l : List Nat) : List Nat :=
  match action with
  | .release => []
  | .discard => l

/-- `tids_last_seq` once a list has been flushed: that of its first MSDU. -/
def flushedSeq (D : Desc) (last_seq : Nat) : Option Nat → Nat
  | some head => D.seq_num head
  | none => last_seq

theorem flush_finish_spec {c : Collect} {l : List Nat} (action : FlushAction)
    (h : Slots c.peer S) (hh : Hand c.peer S c.head_msdu c.tail_msdu l)
    (hlen : l.length ≤ c.peer.stored.length) :
    ∃ p', flush_finish D tid action c = some p' ∧ Slots p' S ∧
      Outcome c.peer p' tid (action.handed l) (action.dropped l) ∧
      p'.tids_last_seq tid = flushedSeq D (c.peer.tids_last_seq tid) l.head? := by
  unfold flush_finish
  by_cases hne : l = []
  · subst hne
    have hhead : c.head_msdu = none := hh.head_eq
    rw [hhead]
    refine ⟨c.peer, rfl, h, ⟨?_, ?_, ⟨rfl, rfl, rfl, rfl⟩, rfl⟩, rfl⟩ <;> cases action <;>
      simp [FlushAction.handed, FlushAction.dropped]
  · obtain ⟨m, t, hm, ht, htS, hterm⟩ := hh.ends hne
    rw [hm]
    dsimp only
    rw [ht, bind_some]
    let p₁ : Peer := { c.peer with
      tids_last_seq := update c.peer.tids_last_seq tid (D.seq_num m) }
    have hseq : p₁.tids_last_seq tid = flushedSeq D (c.peer.tids_last_seq tid) l.head? := by
      rw [← hh.head_eq, hm]; exact update_self ..
    cases action with
    | release =>
      refine ⟨_, deliver_eq (p := p₁.set_next t none) hterm hlen,
        (h.set_next htS none).of_eq rfl rfl, ⟨?_, ?_, ⟨rfl, rfl, rfl, rfl⟩, rfl⟩, hseq⟩
      · rw [FlushAction.handed, if_neg hne]; rfl
      · exact (append_nil _).symm
    | discard =>
      refine ⟨_, frames_free_eq (p := p₁.set_next t none) hterm hlen,
        (h.set_next htS none).of_eq rfl rfl, ⟨?_, rfl, ⟨rfl, rfl, rfl, rfl⟩, rfl⟩, hseq⟩
      exact (append_nil _).symm

def flushEnd (idx_start idx_end : Nat) : Nat := if idx_end = 0xffff then idx_start else idx_end

/-- **`ol_rx_reorder_flush`** comes to an end and empties the slots it visits;
their lists are handed on as one list, or freed. -/
theorem flush_spec (h : Inv p S lost) (ht : tid < OL_TXRX_NUM_EXT_TIDS) (s e : Nat)
    (action : FlushAction) :
    ∃ p', ol_rx_reorder_flush D p tid s e action = some p' ∧
      Inv p' (cleared S ((p.visited tid s (flushEnd s e)).map (p.loc tid))) lost ∧
      Outcome p p' tid
        (action.handed (((p.visited tid s (flushEnd s e)).map (p.loc tid)).flatMap S))
        (action.dropped (((p.visited tid s (flushEnd s e)).map (p.loc tid)).flatMap S)) ∧
      p'.tids_last_seq tid = flushedSeq D (p.tids_last_seq tid)
        (((p.visited tid s (flushEnd s e)).map (p.loc tid)).flatMap S).head? := by
  have hw := h.windows.window tid ht
  let p₁ : Peer := { p with
    tids_next_rel_idx := update p.tids_next_rel_idx tid (if e = 0xffff then 0 else e % 2 ^ 16) }
  have h₁ : Slots p₁ S := h.slots.of_eq rfl rfl
  obtain ⟨c, hc, hS, hh, hsame⟩ := visitAll_flush (p.visited tid s (flushEnd s e)) (p.loc tid)
    (c := ⟨p₁, none, none⟩) h₁ (Hand.nil _ _) (hw.visited_slot ht s _) (hw.visited_nodup s _)
  have hnd := h.slots.flatMap_nodup (hw.visited_nodup s (flushEnd s e))
  have hlen : (((p.visited tid s (flushEnd s e)).map (p.loc tid)).flatMap S).length
      ≤ c.peer.stored.length := by
    have hst : c.peer.stored = p.stored := by rw [hsame]
    rw [hst]
    refine h.length_le hnd fun m hm => ?_
    obtain ⟨loc, -, hm⟩ := mem_flatMap.mp hm
    exact ⟨loc, hm⟩
  obtain ⟨p', hp', hS', ho, hseq⟩ := flush_finish_spec (D := D) action hS hh hlen
  have hkept : c.peer.tids_last_seq = p.tids_last_seq := by rw [hsame]
  rw [hkept] at hseq
  have hstart : Outcome p p₁ tid [] [] :=
    ⟨(append_nil _).symm, (append_nil _).symm, ⟨rfl, rfl, rfl, rfl⟩, rfl⟩
  have ho := (hstart.after hsame.outcome).after ho
  refine ⟨p', ?_, ?_, ho, hseq⟩
  · have hwalk := hw.do_while (flush_slot tid) s (flushEnd s e) ⟨p₁, none, none⟩
    rw [hc] at hwalk
    exact (congrArg (Option.bind · (flush_finish D tid action)) hwalk).trans hp'
  · have hi := ho.inv h (hw.visited_nodup s (flushEnd s e)) hS' (c := []) (by
      cases action <;> simp [FlushAction.handed, FlushAction.dropped])
    rwa [append_nil] at hi

end Flush

/-! ## Releases -/

section Release

variable {p p' : Peer} {S : Loc → List Nat} {lost : List Nat} {tid : Nat} {D : Desc}

def Peer.released (p : Peer) (tid s e : Nat) : List Loc := (p.visited tid s e).map (p.loc tid)

/-- A release of a window whose first slot is not empty: what it hands on is the front of what the
visited slots held, and all of it if none of them was empty. -/
theorem release_walk (h : Inv p S lost) (ht : tid < OL_TXRX_NUM_EXT_TIDS) (s e : Nat)
    (hne : S (p.loc tid (s % p.win tid)) ≠ []) :
    ∃ q tail a c w head, Slots q (cleared S (p.released tid s e)) ∧
      Outcome p q tid [] [] ∧
      Releasing q (cleared S (p.released tid s e)) (some head) tail a c w ∧
      a ++ c = (p.released tid s e).flatMap S ∧
      ((∀ loc ∈ p.released tid s e, S loc ≠ []) → w = true) ∧
      ol_rx_reorder_release D p tid s e = release_deliver D q tid (some head) tail := by
  have hw := h.windows.window tid ht
  let loc₀ := p.loc tid (s % p.win tid)
  let p₁ : Peer := { p with
    tids_next_rel_idx := update p.tids_next_rel_idx tid (e % 2 ^ 16) }
  have h₁ : Slots p₁ S := h.slots.of_eq rfl rfl
  obtain ⟨hS₁, hh₁⟩ := take_first h₁
  have hcons := @Window.visited_eq_cons p tid s e
  have hnd := hw.visited_nodup s e
  have hslot := hw.visited_slot ht s e
  rw [hcons, map_cons, nodup_cons] at hnd
  obtain ⟨q, tail, a, c, w, hrun, hS, hsame, hr, hac, hww⟩ :=
    visitAll_release (p.visited tid s e).tail (p.loc tid) hS₁ (.whole hh₁ hne)
      (fun i hi => hslot i (mem_of_mem_tail hi)) hnd.2
  have hrel : p.released tid s e = loc₀ :: (p.visited tid s e).tail.map (p.loc tid) := by
    unfold Peer.released
    rw [hcons]; rfl
  obtain ⟨m, hm⟩ : ∃ m, (p.elem loc₀).head = some m := by
    rw [h.slots.head]; exact isSome_iff_exists.mp (isSome_head?.mpr hne)
  rw [cleared_cons, ← hrel] at hS hr
  have hm₁ : (p₁.elem loc₀).head = some m := hm
  rw [hm₁] at hr
  refine ⟨q, tail, a, c, w, m, hS, ?_, hr, ?_, fun hall => ?_, ?_⟩
  · have hstart : Outcome p p₁ tid [] [] :=
      ⟨(append_nil _).symm, (append_nil _).symm, ⟨rfl, rfl, rfl, rfl⟩, rfl⟩
    have hset : SameBut p₁ (p₁.setElem loc₀ Elem.empty) := rfl
    exact hstart.after (hset.trans hsame).outcome
  · rw [hac, hrel, flatMap_cons, append_nil, flatMap_update_of_notMem hnd.1]
  · refine hww rfl fun i hi => ?_
    have hmem : p.loc tid i ∈ (p.visited tid s e).tail.map (p.loc tid) := mem_map_of_mem hi
    have hi' : p.loc tid i ≠ loc₀ := by
      intro he
      rw [he] at hmem; exact hnd.1 hmem
    rw [update_of_ne hi']; exact hall _ (hrel ▸ mem_cons_of_mem _ (mem_map_of_mem hi))
  · have hfirst : p₁.slot tid (s &&& p.mask tid) = some loc₀ := by
      rw [hw.and_mask]; exact hw.slot ht (Nat.mod_lt _ win_pos)
    have hwhile := hw.while_eq (release_slot tid) s e (p₁.setElem loc₀ Elem.empty, (p₁.elem loc₀).tail)
    rw [hrun] at hwhile
    change (p₁.slot tid (s &&& p.mask tid)).bind _ = _
    rw [hfirst, bind_some]
    change (ringWhile (p.mask tid) (e &&& p.mask tid) (release_slot tid) (p.mask tid + 1)
      ((s &&& p.mask tid) + 1 &&& p.mask tid)
      (p₁.setElem loc₀ Elem.empty, (p₁.elem loc₀).tail)).bind _ = _
    rw [hwhile, bind_some, hm₁]

theorem Inv.front_length_le (h : Inv p S lost) {L : List Loc} (hL : L.Nodup) {a c : List Nat}
    (hac : a ++ c = L.flatMap S) : a.length ≤ p.stored.length := by
  have hnd := h.slots.flatMap_nodup hL
  rw [← hac] at hnd
  refine h.length_le (nodup_append.mp hnd).1 fun m hm => ?_
  have hm : m ∈ L.flatMap S := hac ▸ mem_append_left c hm
  obtain ⟨loc, -, hm⟩ := mem_flatMap.mp hm
  exact ⟨loc, hm⟩

theorem release_deliver_eq {q : Peer} {T : Loc → List Nat} {head t : Nat} {a c : List Nat}
    {w : Bool} (hT : Slots q T) (hr : Releasing q T (some head) (some t) a c w)
    (hne : a ≠ []) (hlen : a.length ≤ q.stored.length) :
    ∃ p', release_deliver D q tid (some head) (some t) = some p' ∧ Slots p' T ∧
      Outcome q p' tid a [] := by
  obtain ⟨hterm, htT⟩ := hr.terminate rfl
  let q₁ : Peer := { q with tids_last_seq := update q.tids_last_seq tid (D.seq_num head) }
  refine ⟨_, deliver_eq (p := q₁.set_next t none) hterm hlen, (hT.set_next htT none).of_eq rfl rfl,
    ?_, (append_nil _).symm, ⟨rfl, rfl, rfl, rfl⟩, rfl⟩
  rw [if_neg hne]; rfl

theorem Releasing.ne_nil {q : Peer} {T : Loc → List Nat} {head tail : Option Nat} {a c : List Nat}
    {w : Bool} (hr : Releasing q T head tail a c w) : a ≠ [] := by
  cases hr with
  | whole _ hne => exact hne
  | cut _ _ _ _ hne => exact hne

/-- **`ol_rx_reorder_release`**, when it has a result. -/
theorem release_spec (h : Inv p S lost) (ht : tid < OL_TXRX_NUM_EXT_TIDS) (s e : Nat)
    (hrun : ol_rx_reorder_release D p tid s e = some p') :
    ∃ a c, Inv p' (cleared S (p.released tid s e)) (lost ++ c) ∧ Outcome p p' tid a [] ∧
      a ++ c = (p.released tid s e).flatMap S ∧
      ((∀ loc ∈ p.released tid s e, S loc ≠ []) → c = []) := by
  have hw := h.windows.window tid ht
  have hnd : (p.released tid s e).Nodup := hw.visited_nodup s e
  by_cases hne : S (p.loc tid (s % p.win tid)) = []
  · -- the first slot is empty: its NULL head is dereferenced
    exfalso
    have hhead : (p.elem (p.loc tid (s % p.win tid))).head = none := by
      rw [h.slots.head, hne]; rfl
    obtain ⟨loc, hloc, hrun⟩ := bind_eq_some_iff.mp hrun
    obtain ⟨x, -, hx⟩ := bind_eq_some_iff.mp hrun
    have hslot : p.slot tid (s &&& p.mask tid) = some (p.loc tid (s % p.win tid)) := by
      rw [hw.and_mask]; exact hw.slot ht (Nat.mod_lt _ win_pos)
    have hloc : p.slot tid (s &&& p.mask tid) = some loc := hloc
    rw [hslot] at hloc
    rw [← some.inj hloc, hhead] at hx; exact absurd hx (by simp [release_deliver])
  · obtain ⟨q, tail, a, c, w, m, hS, ho, hr, hac, hall, heq⟩ := release_walk (D := D) h ht s e hne
    rw [heq] at hrun
    cases tail with
    | none => exact absurd hrun (by simp [release_deliver])
    | some t =>
      have hlen : a.length ≤ q.stored.length := by
        rw [ho.stored]; exact h.front_length_le hnd hac
      obtain ⟨p'', hp'', hS', ho'⟩ := release_deliver_eq (D := D) hS hr hr.ne_nil hlen
      rw [hp''] at hrun
      cases hrun
      have ho := ho.after ho'
      refine ⟨a, c, ho.inv h hnd hS' ?_, ho, hac, fun hg => ?_⟩
      · rw [append_nil, hac]
      · have hw := hall hg
        subst hw
        cases hr with
        | whole _ _ => rfl

theorem release_total (h : Inv p S lost) (ht : tid < OL_TXRX_NUM_EXT_TIDS) (s e : Nat)
    (hall : ∀ loc ∈ p.released tid s e, S loc ≠ []) :
    ∃ p', ol_rx_reorder_release D p tid s e = some p' := by
  have hw := h.windows.window tid ht
  have hnd : (p.released tid s e).Nodup := hw.visited_nodup s e
  have hne : S (p.loc tid (s % p.win tid)) ≠ [] := by
    apply hall
    unfold Peer.released
    rw [Window.visited_eq_cons]; exact mem_cons_self
  obtain ⟨q, tail, a, c, w, m, hS, ho, hr, hac, hwhole, heq⟩ := release_walk (D := D) h ht s e hne
  have hwt := hwhole hall
  subst hwt
  cases hr with
  | whole hh hne =>
    obtain ⟨t, hta⟩ : ∃ t, a.getLast? = some t := ⟨_, getLast?_eq_some_getLast hne⟩
    have htail : tail = some t := hh.tail_eq.trans hta
    subst htail
    have hlen : a.length ≤ q.stored.length := by rw [ho.stored]; exact h.front_length_le hnd hac
    obtain ⟨p', hp', -⟩ := release_deliver_eq (D := D) hS (.whole hh hne) hne hlen
    exact ⟨p', heq.trans hp'⟩

end Release

/-! ## The other operations -/

section Others

variable {p p' : Peer} {S : Loc → List Nat} {lost : List Nat} {tid : Nat} {D : Desc}

theorem flush_frag_spec (h : Inv p S lost) (ht : tid < OL_TXRX_NUM_EXT_TIDS) (s : Nat) :
    ∃ p', ol_rx_reorder_flush_frag p tid s = some p' ∧
      Inv p' (cleared S [p.loc tid (s % p.win tid)]) lost ∧
      Outcome p p' tid [] (S (p.loc tid (s % p.win tid))) := by
  have hw := h.windows.window tid ht
  generalize hloc : p.loc tid (s % p.win tid) = loc
  have hslot : p.slot tid (s &&& p.mask tid) = some loc := by
    rw [hw.and_mask, ← hloc]; exact hw.slot ht (Nat.mod_lt _ win_pos)
  have hclear : cleared S [loc] = update S loc [] := (cleared_cons S loc []).symm
  unfold ol_rx_reorder_flush_frag
  rw [hslot, bind_some]
  by_cases hne : S loc = []
  · have hhead : (p.elem loc).head = none := by rw [h.slots.head, hne]; rfl
    rw [hhead, hclear, update_nil_of_empty hne, hne]
    exact ⟨p, rfl, h, (SameBut.refl p).outcome⟩
  · obtain ⟨m, hm⟩ : ∃ m, (p.elem loc).head = some m := by
      rw [h.slots.head]; exact isSome_iff_exists.mp (isSome_head?.mpr hne)
    have hlink := h.slots.linked loc
    rw [← h.slots.head, hm] at hlink
    have hlen : (S loc).length ≤ p.stored.length :=
      h.length_le (h.slots.nodup loc) fun x hx => ⟨loc, hx⟩
    rw [hm]
    dsimp only
    rw [frames_free_eq hlink hlen, map_some]
    have ho : Outcome p ({ p with freed := p.freed ++ S loc }.setElem loc Elem.empty) tid []
        (S loc) := ⟨(append_nil _).symm, rfl, ⟨rfl, rfl, rfl, rfl⟩, rfl⟩
    refine ⟨_, rfl, ?_, ho⟩
    have hS : Slots ({ p with freed := p.freed ++ S loc }.setElem loc Elem.empty)
        (cleared S [loc]) := by rw [hclear]; exact (h.slots.clear loc).of_eq rfl rfl
    have hi := ho.inv h (nodup_singleton loc) hS (c := []) (by simp)
    rwa [append_nil] at hi

def handOn (tid : Nat) (c : PnCollect) : Option Peer :=
  match c.head_msdu with
  | none => some c.peer
  | some head => c.tail_msdu.bind fun tail =>
    (c.peer.set_next tail none).deliver tid (some head)

theorem handOn_spec {c : PnCollect} {l : List Nat} (h : Slots c.peer S)
    (hh : Hand c.peer S c.head_msdu c.tail_msdu l) (hlen : l.length ≤ c.peer.stored.length) :
    ∃ p', handOn tid c = some p' ∧ Slots p' S ∧ Outcome c.peer p' tid l [] := by
  unfold handOn
  by_cases hne : l = []
  · subst hne
    have hhead : c.head_msdu = none := hh.head_eq
    rw [hhead]; exact ⟨c.peer, rfl, h, (SameBut.refl c.peer).outcome⟩
  · obtain ⟨m, t, hm, ht, htS, hterm⟩ := hh.ends hne
    rw [hm]
    dsimp only
    rw [ht, bind_some, deliver_eq (p := c.peer.set_next t none) hterm hlen]
    refine ⟨_, rfl, (h.set_next htS none).of_eq rfl rfl, ?_, (append_nil _).symm,
      ⟨rfl, rfl, rfl, rfl⟩, rfl⟩
    rw [if_neg hne]; rfl

/-- **`ol_rx_pn_ind_handler`** empties the slots it visits; the lists of the
slots that the message names are freed, the others are handed on. -/
theorem pn_ind_spec (h : Inv p S lost) (ht : tid < OL_TXRX_NUM_EXT_TIDS) (s e : Nat)
    (pn_ie : List Nat) :
    ∃ p', ol_rx_pn_ind_handler p tid s e pn_ie = some p' ∧
      Inv p' (cleared S (p.released tid s e)) lost ∧
      Outcome p p' tid (pnSplit (fun i => S (p.loc tid i)) pn_ie (p.visited tid s e)).1
        (pnSplit (fun i => S (p.loc tid i)) pn_ie (p.visited tid s e)).2 := by
  have hw := h.windows.window tid ht
  let p₁ : Peer := { p with fw_pn_check := true }
  have h₁ : Slots p₁ S := h.slots.of_eq rfl rfl
  obtain ⟨c, hc, hS, hh, hfreed, hsame⟩ := visitAll_pn_ind (p.visited tid s e) (p.loc tid)
    (c := ⟨⟨p₁, none, none⟩, pn_ie⟩) h₁ (Hand.nil _ _) (hw.visited_slot ht s e)
    (hw.visited_nodup s e) fun loc => h.length_le (h.slots.nodup loc) fun x hx => ⟨loc, hx⟩
  rw [nil_append] at hh
  have hperm := pnSplit_perm (fun i => S (p.loc tid i)) pn_ie (p.visited tid s e)
  rw [show (p.visited tid s e).flatMap (fun i => S (p.loc tid i))
    = (p.released tid s e).flatMap S from (flatMap_map ..).symm] at hperm
  generalize hsplit : pnSplit (fun i => S (p.loc tid i)) pn_ie (p.visited tid s e) = ab
    at hperm hh hfreed ⊢
  have hwalk := hw.do_while (pn_ind_slot tid) s e ⟨⟨p₁, none, none⟩, pn_ie⟩
  rw [hc] at hwalk
  have hstored : c.peer.stored = p.stored := by rw [hsame]
  have hlen : ab.1.length ≤ c.peer.stored.length := by
    rw [hstored]
    refine h.length_le hh.nodup fun x hx => ?_
    have hx := hperm.subset (mem_append_left ab.2 hx)
    obtain ⟨loc, -, hx⟩ := mem_flatMap.mp hx
    exact ⟨loc, hx⟩
  obtain ⟨p', hp', hS', ho'⟩ := @handOn_spec _ tid c _ hS hh hlen
  have hsw : SameWindows p c.peer := by rw [hsame]; exact ⟨rfl, rfl, rfl, rfl⟩
  have hproc : c.peer.rx_opt_proc = p.rx_opt_proc := by rw [hsame]
  have ho : Outcome p p' tid ab.1 ab.2 := by
    refine ⟨?_, ?_, hsw.trans ho'.windows, ho'.stored.trans hstored⟩
    · rw [ho'.handed, hproc]
    · rw [ho'.freed, append_nil, hfreed]
  refine ⟨p', ?_, ?_, ho⟩
  · exact (congrArg (Option.bind · (handOn tid)) hwalk).trans hp'
  · have hi := ho.inv h (hw.visited_nodup s e) hS' (c := []) (by rw [append_nil]; exact hperm)
    rwa [append_nil] at hi

theorem flush_handler_eq (h : Inv p S lost) (ht : tid < OL_TXRX_NUM_EXT_TIDS) (s e : Nat)
    (action : FlushAction) :
    ol_rx_flush_handler D p tid s e action
      = if (S (p.loc tid (s % p.win tid))).head?.any D.is_frag
          then ol_rx_reorder_flush_frag p tid s else ol_rx_reorder_flush D p tid s e action := by
  have hw := h.windows.window tid ht
  unfold ol_rx_flush_handler
  rw [hw.and_mask, hw.slot ht (Nat.mod_lt _ win_pos), bind_some, h.slots.head]

theorem cleanup_walk (tids : List Nat) (htids : ∀ tid ∈ tids, tid < OL_TXRX_NUM_EXT_TIDS)
    (h : Inv p S lost) :
    ∃ p' S', visitAll (fun tid p => ol_rx_reorder_flush D p tid 0 0 .discard) tids p = some p' ∧
      Inv p' S' lost ∧ SameWindows p p' ∧ p'.rx_opt_proc = p.rx_opt_proc ∧
      p'.stored = p.stored ∧ (∀ loc, S loc = [] → S' loc = []) ∧
      ∀ tid ∈ tids, ∀ idx, idx < p.win tid → S' (p.loc tid idx) = [] := by
  induction tids generalizing p S with
  | nil =>
    exact ⟨p, S, rfl, h, ⟨rfl, rfl, rfl, rfl⟩, rfl, rfl, fun _ he => he,
      fun tid hm => absurd hm (by simp)⟩
  | cons tid tids ih =>
    have ht := htids tid mem_cons_self
    obtain ⟨q, hq, hinv, ho, -⟩ := flush_spec (D := D) h ht 0 0 .discard
    obtain ⟨p', S', hrun, hinv', hsw, hproc, hst, hsub, hall⟩ := ih
      (fun t hm => htids t (mem_cons_of_mem tid hm)) hinv
    have hempty : ∀ idx, idx < p.win tid →
        cleared S ((p.visited tid 0 (flushEnd 0 0)).map (p.loc tid)) (p.loc tid idx) = [] := by
      intro idx hidx
      have hmem : idx ∈ p.visited tid 0 (flushEnd 0 0) :=
        mem_visits_self (Nat.mod_lt _ win_pos) hidx
      unfold cleared
      rw [if_pos (mem_map_of_mem hmem)]
    refine ⟨p', S', by rw [visitAll, hq, bind_some, hrun], hinv', ho.windows.trans hsw,
      ?_, hst.trans ho.stored, fun loc he => hsub loc ?_, fun t hm idx hidx => ?_⟩
    · rw [hproc, ho.handed, FlushAction.handed, if_pos rfl, append_nil]
    · unfold cleared; rw [he, ite_self]
    · rcases mem_cons.mp hm with rfl | hm
      · exact hsub _ (hempty idx hidx)
      · have := hall t hm idx (by rw [ho.windows.win]; exact hidx)
        rwa [ho.windows.loc] at this

/-- **`ol_rx_reorder_peer_cleanup`** comes to an end, and no slot holds anything
any more. -/
theorem peer_cleanup_spec (h : Inv p S lost) :
    ∃ p' S', ol_rx_reorder_peer_cleanup D p = some p' ∧ Inv p' S' lost ∧ SameWindows p p' ∧
      p'.rx_opt_proc = p.rx_opt_proc ∧ ∀ loc, S' loc = [] := by
  obtain ⟨p', S', hrun, hinv, hsw, hproc, -, hsub, hall⟩ := cleanup_walk (D := D)
    (range OL_TXRX_NUM_EXT_TIDS) (fun _ hm => mem_range.mp hm) h
  refine ⟨p', S', hrun, hinv, hsw, hproc, fun loc => ?_⟩
  by_cases hne : S loc = []
  · exact hsub loc hne
  · obtain ⟨tid, idx, ht, hi, rfl⟩ := h.used loc hne; exact hall tid (mem_range.mpr ht) idx hi

end Others

/-! ## Storing -/

section Store

variable {p p' : Peer} {S : Loc → List Nat} {lost : List Nat} {tid : Nat}

theorem linkMsdus_of_notMem {next : Nat → Option Nat} {l : List Nat} {m : Nat} (hm : m ∉ l) :
    linkMsdus next l m = next m := by
  induction l with
  | nil => rfl
  | cons x l ih =>
    rw [mem_cons, not_or] at hm
    cases l with
    | nil => exact update_of_ne hm.1 _ _
    | cons y l => rw [linkMsdus, update_of_ne hm.1]; exact ih hm.2

theorem linkMsdus_linked (next : Nat → Option Nat) {l : List Nat} (hnd : l.Nodup) :
    Linked (linkMsdus next l) l.head? l none := by
  induction l with
  | nil => rfl
  | cons x l ih =>
    rw [nodup_cons] at hnd
    cases l with
    | nil => exact ⟨rfl, update_self _ _ _⟩
    | cons y l =>
      refine ⟨rfl, ?_⟩
      rw [linkMsdus, update_self]; exact (linked_update_of_notMem hnd.1).mpr (ih hnd.2)

/-- The slots once `l` has been put behind what is at `loc`. -/
def stored (S : Loc → List Nat) (loc : Loc) (l : List Nat) : Loc → List Nat :=
  update S loc (S loc ++ l)

theorem mem_stored {loc x : Loc} {l : List Nat} {m : Nat} :
    m ∈ stored S loc l x ↔ m ∈ S x ∨ x = loc ∧ m ∈ l := by
  unfold stored
  by_cases hx : x = loc
  · subst hx; simp
  · simp [hx]

theorem store_slots {q : Peer} {loc : Loc} {l : List Nat} {a z : Nat} (h : Slots q S)
    (hl : Linked q.next l.head? l none) (hnd : l.Nodup) (hnew : ∀ m ∈ l, ∀ x, m ∉ S x)
    (ha : l.head? = some a) (hz : l.getLast? = some z) {idx : Nat}
    (hslot : q.slot tid (idx &&& q.mask tid) = some loc) :
    ∃ q', ol_rx_reorder_store q tid idx a z = some q' ∧ Slots q' (stored S loc l) ∧
      SameBut q q' := by
  have hne : l ≠ [] := by
    intro he
    rw [he] at ha; exact absurd ha (by simp)
  have hnodup : (S loc ++ l).Nodup :=
    nodup_append.mpr ⟨h.nodup loc, hnd, fun m hm n hn he => hnew n hn loc (he ▸ hm)⟩
  have hdisj : ∀ m ∈ S loc ++ l, ∀ x, x ≠ loc → m ∉ S x := by
    intro m hm x hx hmx
    rcases mem_append.mp hm with hm | hm
    · exact hx (h.disj x loc m hmx hm)
    · exact hnew m hm x hmx
  unfold ol_rx_reorder_store
  rw [hslot, bind_some]
  dsimp only
  by_cases hS : S loc = []
  · have hhead : (q.elem loc).head = none := by rw [h.head, hS]; rfl
    have happ : S loc ++ l = l := by rw [hS, nil_append]
    rw [hhead]
    refine ⟨_, rfl, h.replace rfl ?_ ?_ ?_ (fun x _ => h.linked x) hnodup hdisj, rfl⟩
    · rw [happ, ha]
    · rw [happ, hz]
    · rw [happ]; exact hl
  · -- the last buffer of the slot is pointed at the first new one
    obtain ⟨b, hb⟩ : ∃ b, (q.elem loc).head = some b := by
      rw [h.head]; exact isSome_iff_exists.mp (isSome_head?.mpr hS)
    obtain ⟨t, ht⟩ : ∃ t, (S loc).getLast? = some t := ⟨_, getLast?_eq_some_getLast hS⟩
    have htail : (q.elem loc).tail = some t := (h.tail loc).trans ht
    obtain ⟨l', hl'⟩ := getLast?_eq_some_iff.mp ht
    have htmem : t ∈ S loc := mem_of_getLast? ht
    have hndS := h.nodup loc
    rw [hl', nodup_append] at hndS
    rw [hb]
    rw [htail, map_some]
    refine ⟨_, rfl, h.replace rfl ?_ ?_ ?_ (fun x hx => ?_) hnodup hdisj, rfl⟩
    · rw [← hb, h.head, head?_append_of_ne_nil _ hS]
    · rw [getLast?_append_of_ne_nil _ hne, hz]
    · rw [head?_append_of_ne_nil _ hS]
      refine linked_append.mpr ⟨some a, ?_, ?_⟩
      · have hlink := h.linked loc
        rw [hl'] at hlink ⊢
        exact linked_concat_update hlink (fun hm => hndS.2.2 t hm t mem_cons_self rfl) _
      · rw [← ha]; exact (linked_update_of_notMem fun hm => hnew t hm loc htmem).mpr hl
    · refine (linked_update_of_notMem fun hm => ?_).mpr (h.linked x)
      exact hx (h.disj x loc t hm htmem)

/-- **`ol_rx_reorder_store`** puts a MPDU of new MSDUs behind what is in its
slot. -/
theorem store_spec (h : Inv p S lost) (ht : tid < OL_TXRX_NUM_EXT_TIDS) (idx : Nat)
    {msdus : List Nat} (hne : msdus ≠ []) (hnd : msdus.Nodup) (hnew : ∀ m ∈ msdus, m ∉ p.stored) :
    ∃ p', storeMpdu p tid idx msdus = some p' ∧
      Inv p' (stored S (p.loc tid (idx % p.win tid)) msdus) lost ∧ SameWindows p p' ∧
      p'.rx_opt_proc = p.rx_opt_proc ∧ p'.freed = p.freed ∧ p'.stored = p.stored ++ msdus := by
  have hw := h.windows.window tid ht
  obtain ⟨a, ha⟩ : ∃ a, msdus.head? = some a :=
    isSome_iff_exists.mp (isSome_head?.mpr hne)
  obtain ⟨z, hz⟩ : ∃ z, msdus.getLast? = some z := ⟨_, getLast?_eq_some_getLast hne⟩
  have hnewS : ∀ m ∈ msdus, ∀ x, m ∉ S x :=
    fun m hm x hx => hnew m hm ((h.stored m).mpr (.inl ⟨x, hx⟩))
  let q : Peer := { p with next := linkMsdus p.next msdus, stored := p.stored ++ msdus }
  have hq : Slots q S := by
    refine ⟨h.slots.head, h.slots.tail, fun loc => ?_, h.slots.nodup, h.slots.disj⟩
    refine (linked_congr fun m hm => ?_).mpr (h.slots.linked loc)
    exact linkMsdus_of_notMem fun hl => hnewS m hl loc hm
  have hslot : q.slot tid (idx &&& q.mask tid) = some (p.loc tid (idx % p.win tid)) := by
    change p.slot tid (idx &&& p.mask tid) = _
    rw [hw.and_mask]; exact hw.slot ht (Nat.mod_lt _ win_pos)
  obtain ⟨p', hp', hS, hsame⟩ := store_slots hq (linkMsdus_linked p.next hnd) hnd hnewS ha hz hslot
  have hsw : SameWindows p p' := by rw [hsame]; exact ⟨rfl, rfl, rfl, rfl⟩
  have hdel : p'.delivered = p.delivered := by unfold Peer.delivered; rw [hsame]
  have hfr : p'.freed = p.freed := by rw [hsame]
  have hst : p'.stored = p.stored ++ msdus := by rw [hsame]
  refine ⟨p', ?_, ⟨hS, h.windows.of_same hsw, ?_, ?_, fun m => ?_, fun loc hloc => ?_⟩, hsw,
    by rw [hsame], hfr, hst⟩
  · unfold storeMpdu
    rw [ha, hz]
    dsimp only
    rw [if_pos ⟨hnd, hnew⟩]; exact hp'
  · rw [hdel, hfr]; exact h.nodup
  · rw [hdel, hfr]
    intro m hm x hx
    rcases mem_stored.mp hx with hx | ⟨-, hx⟩
    · exact h.apart m hm x hx
    · exact hnew m hx ((h.stored m).mpr (.inr hm))
  · rw [hst, hdel, hfr, mem_append, h.stored]
    constructor
    · rintro ((⟨loc, hm⟩ | hm) | hm)
      · exact .inl ⟨loc, mem_stored.mpr (.inl hm)⟩
      · exact .inr hm
      · exact .inl ⟨_, mem_stored.mpr (.inr ⟨rfl, hm⟩)⟩
    · rintro (⟨loc, hm⟩ | hm)
      · rcases mem_stored.mp hm with hm | ⟨-, hm⟩
        · exact .inl (.inl ⟨loc, hm⟩)
        · exact .inr hm
      · exact .inl (.inr hm)
  · by_cases hl : loc = p.loc tid (idx % p.win tid)
    · refine ⟨tid, idx % p.win tid, ht, by rw [hsw.win]; exact Nat.mod_lt _ win_pos, ?_⟩
      rw [hsw.loc]; exact hl.symm
    · rw [stored, update_of_ne hl] at hloc
      obtain ⟨t, i, ht', hi, he⟩ := h.used loc hloc
      exact ⟨t, i, ht', by rw [hsw.win]; exact hi, by rw [hsw.loc]; exact he⟩

end Store

end

/-! Conservation: an empty slot in the middle cuts the list that `ol_rx_reorder_release` makes
(`released_gap`); an empty first or last slot is a NULL dereference. -/

/-! ## The contract -/

inductive OnePlace (p : Peer) (S : Loc → List Nat) (m : Nat) : Prop where
  | slot (tid idx : Nat) : tid < OL_TXRX_NUM_EXT_TIDS → idx < p.win tid →
      (S (p.loc tid idx)).count m = 1 → (∀ loc, loc ≠ p.loc tid idx → m ∉ S loc) →
      m ∉ p.delivered → m ∉ p.freed → OnePlace p S m
  | delivered : (∀ loc, m ∉ S loc) → p.delivered.count m = 1 → m ∉ p.freed → OnePlace p S m
  | freed : (∀ loc, m ∉ S loc) → m ∉ p.delivered → p.freed.count m = 1 → OnePlace p S m

/-- The lists `S` are what memory holds, and every MSDU is in one place. -/
structure Conserved (p : Peer) (S : Loc → List Nat) : Prop where
  slots : Slots p S
  one : ∀ m ∈ p.stored, OnePlace p S m

/-- A walk over the slots `v` of a tid leaves them empty and the other slots as
they were, hands on `a` and frees `b`. -/
structure Walked (p p' : Peer) (S : Loc → List Nat) (tid : Nat) (v a b : List Nat) : Prop where
  emptied : Slots p' (cleared S (v.map (p.loc tid)))
  outcome : Outcome p p' tid a b

/-- The lists of the slots `v` of a tid, in this order. -/
def Peer.contents (p : Peer) (S : Loc → List Nat) (tid : Nat) (v : List Nat) : List Nat :=
  (v.map (p.loc tid)).flatMap S

def releaseOk (p : Peer) : Op → Bool
  | .release tid s e => (p.visited tid s e).all fun i => (p.elem (p.loc tid i)).head.isSome
  | _ => true

/-! ## Steps -/

section Step

variable {p p' : Peer} {S : Loc → List Nat} {lost : List Nat} {D : Desc}

theorem releaseOk_iff (h : Slots p S) (tid s e : Nat) :
    releaseOk p (.release tid s e) = true ↔ ∀ loc ∈ p.released tid s e, S loc ≠ [] := by
  unfold releaseOk Peer.released
  rw [List.all_eq_true]
  constructor
  · intro hall loc hloc
    obtain ⟨i, hi, rfl⟩ := mem_map.mp hloc
    have := hall i hi
    rw [h.head] at this; exact isSome_head?.mp this
  · intro hall i hi
    rw [h.head]; exact isSome_head?.mpr (hall _ (mem_map_of_mem hi))

theorem slot_eq_none {tid : Nat} (ht : ¬ tid < OL_TXRX_NUM_EXT_TIDS) (idx : Nat) :
    p.slot tid idx = none := by unfold Peer.slot; rw [if_neg ht]

def Op.tid : Op → Option Nat
  | .store tid _ _ => some tid
  | .release tid _ _ => some tid
  | .flush tid _ _ _ => some tid
  | .flush_frag tid _ => some tid
  | .flush_handler tid _ _ _ => some tid
  | .pn_ind tid _ _ _ => some tid
  | .peer_cleanup => none

theorem tid_lt_of_step {e : Op} (hs : step D p e = some p') {tid : Nat} (he : e.tid = some tid) :
    tid < OL_TXRX_NUM_EXT_TIDS := by
  by_contra ht
  have hnone : ∀ (q : Peer) (idx : Nat), q.slot tid idx = none := fun q idx => slot_eq_none ht idx
  cases e with
  | store t idx msdus =>
    cases he
    rw [step, storeMpdu] at hs
    split at hs
    · split at hs
      · rw [ol_rx_reorder_store, hnone] at hs; exact absurd hs (by simp)
      · exact absurd hs (by simp)
    · exact absurd hs (by simp)
  | release t s e =>
    cases he
    unfold step ol_rx_reorder_release at hs
    dsimp only at hs
    rw [hnone] at hs; exact absurd hs (by simp)
  | flush t s e action =>
    cases he
    unfold step ol_rx_reorder_flush flush_slot at hs
    dsimp only at hs
    rw [hnone] at hs; exact absurd hs (by simp)
  | flush_frag t seq =>
    cases he
    rw [step, ol_rx_reorder_flush_frag, hnone] at hs; exact absurd hs (by simp)
  | flush_handler t s e action =>
    cases he
    rw [step, ol_rx_flush_handler, hnone] at hs; exact absurd hs (by simp)
  | pn_ind t s e pn_ie =>
    cases he
    unfold step ol_rx_pn_ind_handler pn_ind_slot at hs
    dsimp only at hs
    rw [hnone] at hs; exact absurd hs (by simp)
  | peer_cleanup => exact absurd he (by simp [Op.tid])

theorem step_inv {e : Op} (h : Inv p S lost) (hs : step D p e = some p') :
    ∃ S' lost', Inv p' S' lost' ∧ SameWindows p p' ∧ (releaseOk p e = true → lost' = lost) := by
  have ht : ∀ tid, e.tid = some tid → tid < OL_TXRX_NUM_EXT_TIDS := fun _ he => tid_lt_of_step hs he
  cases e with
  | store tid idx msdus =>
    have hne : msdus ≠ [] ∧ msdus.Nodup ∧ ∀ m ∈ msdus, m ∉ p.stored := by
      rw [step, storeMpdu] at hs
      split at hs
      · next a z ha hz =>
        split at hs
        · next hc =>
          refine ⟨fun hnil => ?_, hc⟩
          rw [hnil] at ha; exact absurd ha (by simp)
        · exact absurd hs (by simp)
      · exact absurd hs (by simp)
    obtain ⟨q, hq, hinv, hsw, -⟩ := store_spec h (ht tid rfl) idx hne.1 hne.2.1 hne.2.2
    rw [step, hq] at hs
    cases hs
    exact ⟨_, lost, hinv, hsw, fun _ => rfl⟩
  | release tid s e =>
    obtain ⟨a, c, hinv, ho, -, hc⟩ := release_spec h (ht tid rfl) s e hs
    refine ⟨_, lost ++ c, hinv, ho.windows, fun hok => ?_⟩
    rw [hc ((releaseOk_iff h.slots tid s e).mp hok), append_nil]
  | flush tid s e action =>
    obtain ⟨q, hq, hinv, ho, -⟩ := flush_spec (D := D) h (ht tid rfl) s e action
    rw [step, hq] at hs
    cases hs
    exact ⟨_, lost, hinv, ho.windows, fun _ => rfl⟩
  | flush_frag tid seq =>
    obtain ⟨q, hq, hinv, ho⟩ := flush_frag_spec h (ht tid rfl) seq
    rw [step, hq] at hs
    cases hs
    exact ⟨_, lost, hinv, ho.windows, fun _ => rfl⟩
  | flush_handler tid s e action =>
    rw [step, flush_handler_eq h (ht tid rfl)] at hs
    split at hs
    · obtain ⟨q, hq, hinv, ho⟩ := flush_frag_spec h (ht tid rfl) s
      rw [hq] at hs
      cases hs
      exact ⟨_, lost, hinv, ho.windows, fun _ => rfl⟩
    · obtain ⟨q, hq, hinv, ho, -⟩ := flush_spec (D := D) h (ht tid rfl) s e action
      rw [hq] at hs
      cases hs
      exact ⟨_, lost, hinv, ho.windows, fun _ => rfl⟩
  | pn_ind tid s e pn_ie =>
    obtain ⟨q, hq, hinv, ho⟩ := pn_ind_spec h (ht tid rfl) s e pn_ie
    rw [step, hq] at hs
    cases hs
    exact ⟨_, lost, hinv, ho.windows, fun _ => rfl⟩
  | peer_cleanup =>
    obtain ⟨q, S', hq, hinv, hsw, -⟩ := peer_cleanup_spec (D := D) h
    rw [step, hq] at hs
    cases hs
    exact ⟨S', lost, hinv, hsw, fun _ => rfl⟩

theorem init_inv (win : Nat → Option Nat) : Inv (Peer.init win) (fun _ => []) [] := by
  refine ⟨⟨fun _ => rfl, fun _ => rfl, fun _ => rfl, fun _ => nodup_nil,
    fun _ _ m hm => absurd hm (by simp)⟩, ⟨fun tid ht => ?_, fun tid tid' a ht ht' ha ha' => ?_⟩,
    nodup_nil, fun m hm => absurd hm (by simp [Peer.init, Peer.delivered]),
    fun m => by simp [Peer.init, Peer.delivered], fun loc hloc => absurd rfl hloc⟩
  · cases hw : win tid with
    | none =>
      refine .base ?_ ?_
      · simp only [Peer.init, hw]
      · simp only [Peer.mask, Peer.init, hw]
    | some k =>
      have hpos : 0 < 2 ^ k := Nat.two_pow_pos k
      refine .heap tid k ?_ ht (by simp [Peer.init]) ?_ ?_
      · simp only [Peer.init, hw]
      · simp only [Peer.mask, Peer.init, hw, Option.getD_some]; omega
      · simp only [Peer.mask, Peer.init, hw]; omega
  · have harr : ∀ t b, ((Peer.init win).tids_rx_reorder t).array = .heap b → t = b := by
      intro t b hb
      simp only [Peer.init] at hb
      split at hb
      · exact absurd hb (by simp)
      · exact ArrayPtr.heap.inj hb
    rw [harr tid a ha, harr tid' a ha']

theorem Inv.onePlace (h : Inv p S []) {m : Nat} (hm : m ∈ p.stored) : OnePlace p S m := by
  have hnd := h.nodup
  rw [append_nil, nodup_append] at hnd
  rcases (h.stored m).mp hm with ⟨loc, hloc⟩ | hout
  · obtain ⟨tid, idx, ht, hi, rfl⟩ := h.used loc fun he => by
      rw [he] at hloc; exact absurd hloc (by simp)
    have hnot : m ∉ p.delivered ++ p.freed ++ [] := fun ho => h.apart m ho _ hloc
    rw [append_nil, mem_append, not_or] at hnot
    refine .slot tid idx ht hi ?_ (fun x hx hmx => hx (h.slots.disj x _ m hmx hloc)) hnot.1 hnot.2
    exact count_eq_one_of_mem (h.slots.nodup _) hloc
  · have hslots : ∀ loc, m ∉ S loc := h.apart m hout
    rw [append_nil, mem_append] at hout
    rcases hout with hd | hf
    · exact .delivered hslots (count_eq_one_of_mem hnd.1 hd) fun hf => hnd.2.2 m hd m hf rfl
    · exact .freed hslots (fun hd => hnd.2.2 m hd m hf rfl) (count_eq_one_of_mem hnd.2.1 hf)

end Step

/-- **Rx reorder conservation and order.** In every state of every run whose releases find no slot
empty, every MSDU is in one place. There, a release that finds no slot empty, and a flush and a PN
indication in any case, come to an end, empty exactly the slots from the start up to the end
(`visits`), and hand on (or free) their lists in that order. -/
theorem reorder_conserved (D : Desc) (win : Nat → Option Nat) (es : List Op) (p : Peer)
    (h : run (guarded (fun p e => releaseOk p e = true) (step D)) (Peer.init win) es = some p) :
    ∃ S, Conserved p S ∧ ∀ tid, tid < OL_TXRX_NUM_EXT_TIDS → ∀ s e,
      (releaseOk p (.release tid s e) = true → ∃ p',
        step D p (.release tid s e) = some p' ∧
          Walked p p' S tid (p.visited tid s e) (p.contents S tid (p.visited tid s e)) []) ∧
      (∀ action, ∃ p', step D p (.flush tid s e action) = some p' ∧
        Walked p p' S tid (p.visited tid s (flushEnd s e))
          (action.handed (p.contents S tid (p.visited tid s (flushEnd s e))))
          (action.dropped (p.contents S tid (p.visited tid s (flushEnd s e))))) ∧
      ∀ pn_ie, ∃ p', step D p (.pn_ind tid s e pn_ie) = some p' ∧
        Walked p p' S tid (p.visited tid s e)
          (pnSplit (fun i => S (p.loc tid i)) pn_ie (p.visited tid s e)).1
          (pnSplit (fun i => S (p.loc tid i)) pn_ie (p.visited tid s e)).2 := by
  have hinv : ∃ S, Inv p S [] :=
    guarded_run_invariant (I := fun p => ∃ S, Inv p S [])
      (fun p e p' ⟨S, hi⟩ hok hst => by
        obtain ⟨S', lost', hi', -, hl⟩ := step_inv hi hst
        exact ⟨S', hl hok ▸ hi'⟩)
      ⟨fun _ => [], init_inv win⟩ h
  obtain ⟨S, hi⟩ := hinv
  refine ⟨S, ⟨hi.slots, fun m hm => hi.onePlace hm⟩, fun tid ht s e => ⟨fun hok => ?_,
    fun action => ?_, fun pn_ie => ?_⟩⟩
  · have hall := (releaseOk_iff hi.slots tid s e).mp hok
    obtain ⟨p', hp'⟩ := release_total (D := D) hi ht s e hall
    obtain ⟨a, c, hinv', ho, hac, hc⟩ := release_spec hi ht s e hp'
    rw [hc hall, append_nil] at hac
    rw [hac] at ho; exact ⟨p', hp', hinv'.slots, ho⟩
  · obtain ⟨p', hp', hinv', ho, -⟩ := flush_spec (D := D) hi ht s e action
    exact ⟨p', hp', hinv'.slots, ho⟩
  · obtain ⟨p', hp', hinv', ho⟩ := pn_ind_spec hi ht s e pn_ie; exact ⟨p', hp', hinv'.slots, ho⟩

def plainDesc : Desc := ⟨fun _ => 0, fun _ => false⟩

def fourSlots : Nat → Option Nat := fun tid => if tid = 0 then some 2 else none

/-- Two slots are released, and the whole window is flushed. -/
theorem reorder_conserved_four_slots :
    ∃ p, run (guarded (fun p e => releaseOk p e = true) (step plainDesc)) (Peer.init fourSlots)
        [.store 0 5 [1, 2], .store 0 6 [3], .release 0 5 7, .store 0 3 [4],
          .flush 0 2 0xffff .discard] = some p ∧
      p.rx_opt_proc = [(0, [1, 2, 3])] ∧ p.freed = [4] ∧ ∃ S, Conserved p S := by
  refine exists_of_tested (fun p => p.rx_opt_proc = [(0, [1, 2, 3])] ∧ p.freed = [4])
    (by decide +kernel) fun p hp ⟨hproc, hfreed⟩ => ?_
  obtain ⟨S, hS, -⟩ := reorder_conserved plainDesc fourSlots _ p hp
  exact ⟨hproc, hfreed, S, hS⟩

/-- A release over the slots 0, 1 and 2, of which 1 is empty. -/
theorem released_gap :
    ∃ p, run (step plainDesc) (Peer.init fourSlots)
        [.store 0 0 [1], .store 0 2 [2], .release 0 0 3] = some p ∧
      ¬ ∃ S, Conserved p S := by
  refine exists_of_tested (fun p => 2 ∈ p.stored ∧ 2 ∉ p.delivered ∧ 2 ∉ p.freed ∧
      ∀ tid < OL_TXRX_NUM_EXT_TIDS, ∀ idx < p.win tid, (p.elem (p.loc tid idx)).head = none)
    (by decide +kernel) fun p hp ⟨hst, hnd, hnf, hempty⟩ ⟨S, hS⟩ => ?_
  rcases hS.one 2 hst with ⟨tid, idx, ht, hi, hcount, -⟩ | ⟨-, hcount, -⟩ | ⟨-, -, hcount⟩
  · have hmem : 2 ∈ S (p.loc tid idx) := count_pos_iff.mp (by omega)
    have hhead := hempty tid ht idx hi
    rw [hS.slots.head, head?_eq_none_iff] at hhead
    rw [hhead] at hmem; exact absurd hmem (by simp)
  · exact hnd (count_pos_iff.mp (by omega))
  · exact hnf (count_pos_iff.mp (by omega))

end Qcacld.RxReorder
