/-
Rx reordering: `ol_rx_reorder.c`, with `ol_rx_reorder_flush_frag` of `ol_rx_defrag.c`.

A slot holds a list of MSDUs, as pointers to its first and its last one; the MSDUs are linked
through their buffers. The memory is explicit: `next` for the buffers, `elem` for the slots, where a
slot is at an address `Loc`. NULL dereferences, accesses beyond an array or to a freed one, and
calls that the caller may not make have no result. `stored`, `rx_opt_proc` and `freed` are not in
the source: the MSDUs that were given to `ol_rx_reorder_store`, the lists that were handed to
`peer->rx_opt_proc`, with their tids, and the buffers that were freed.
-/
import Qcacld.Lib.Run
import Qcacld.Lib.Chain
import Qcacld.Lib.Ring

set_option autoImplicit false

namespace Qcacld.RxReorder

open Lib Function

/-! ## Data -/

def OL_TXRX_NUM_EXT_TIDS : Nat := 19
def IEEE80211_SEQ_MAX : Nat := 4096

structure Elem where
  head : Option Nat
  tail : Option Nat

def Elem.empty : Elem := ⟨none, none⟩

/-- Where a slot is: the embedded one of a tid, or in an allocated array. -/
inductive Loc where
  | base (tid : Nat)
  | heap (array idx : Nat)
deriving DecidableEq

/-- `rx_reorder->array`. -/
inductive ArrayPtr where
  | base
  | null
  | heap (array : Nat)
deriving DecidableEq

/-- `struct ol_rx_reorder_t`, less the embedded slot, which is in `Peer.elem`. -/
structure Reorder where
  win_sz : Nat
  win_sz_mask : Nat
  array : ArrayPtr

structure Desc where
  seq_num : Nat → Nat
  is_frag : Nat → Bool

structure Peer where
  next : Nat → Option Nat
  elem : Loc → Elem
  /-- The lengths of the arrays allocated so far, which are those below
  `nextArray`. -/
  arrayLen : Nat → Nat
  nextArray : Nat
  arraysFreed : List Nat
  tids_rx_reorder : Nat → Reorder
  tids_next_rel_idx : Nat → Nat
  tids_last_seq : Nat → Nat
  fw_pn_check : Bool
  stored : List Nat
  rx_opt_proc : List (Nat × List Nat)
  freed : List Nat

/-- The MSDUs that were handed on, in order. -/
def Peer.delivered (p : Peer) : List Nat := p.rx_opt_proc.flatMap Prod.snd

/-- The address `&peer->tids_rx_reorder[tid].array[idx]`. -/
def Peer.slot (p : Peer) (tid idx : Nat) : Option Loc :=
  if tid < OL_TXRX_NUM_EXT_TIDS then
    match (p.tids_rx_reorder tid).array with
    | .base => if idx = 0 then some (.base tid) else none
    | .null => none
    | .heap a => if idx < p.arrayLen a ∧ a ∉ p.arraysFreed then some (.heap a idx) else none
  else none

def Peer.mask (p : Peer) (tid : Nat) : Nat := (p.tids_rx_reorder tid).win_sz_mask

def Peer.set_next (p : Peer) (m : Nat) (q : Option Nat) : Peer :=
  { p with next := update p.next m q }

def Peer.setElem (p : Peer) (loc : Loc) (e : Elem) : Peer :=
  { p with elem := update p.elem loc e }

/-- `peer->rx_opt_proc(vdev, peer, tid, head_msdu)`: the list from `head_msdu`
to NULL is handed on. -/
def Peer.deliver (p : Peer) (tid : Nat) (head_msdu : Option Nat) : Option Peer :=
  (walk p.next p.stored.length head_msdu).map fun msdus =>
    { p with rx_opt_proc := p.rx_opt_proc ++ [(tid, msdus)] }

/-- `ol_rx_frames_free`, and the loop at the end of `ol_rx_reorder_flush`: the
buffers from `head_msdu` to NULL are freed. -/
def ol_rx_frames_free (p : Peer) (head_msdu : Option Nat) : Option Peer :=
  (walk p.next p.stored.length head_msdu).map fun msdus => { p with freed := p.freed ++ msdus }

/-! ## Storing -/

def linkMsdus (next : Nat → Option Nat) : List Nat → Nat → Option Nat
  | [] => next
  | [m] => update next m none
  | m :: m' :: l => update (linkMsdus next (m' :: l)) m (some m')

def ol_rx_reorder_store (p : Peer) (tid idx head_msdu tail_msdu : Nat) : Option Peer :=
  (p.slot tid (idx &&& p.mask tid)).bind fun loc =>
    let e := p.elem loc
    match e.head with
    | some _ => e.tail.map fun tail =>
      (p.set_next tail (some head_msdu)).setElem loc { e with tail := some tail_msdu }
    | none => some (p.setElem loc ⟨some head_msdu, some tail_msdu⟩)

/-- A MPDU of the MSDUs `msdus`, which have not been seen before, arrives and is
stored. -/
def storeMpdu (p : Peer) (tid idx : Nat) (msdus : List Nat) : Option Peer :=
  match msdus.head?, msdus.getLast? with
  | some head_msdu, some tail_msdu =>
    if msdus.Nodup ∧ ∀ m ∈ msdus, m ∉ p.stored then
      ol_rx_reorder_store
        { p with next := linkMsdus p.next msdus, stored := p.stored ++ msdus }
        tid idx head_msdu tail_msdu
    else none
  | _, _ => none

/-! ## Releasing -/

/-- One pass of the loop of `ol_rx_reorder_release`: the slot's list is appended,
if there is a tail to append it to. -/
def release_slot (tid idx : Nat) (s : Peer × Option Nat) : Option (Peer × Option Nat) :=
  (s.1.slot tid idx).map fun loc =>
    let e := s.1.elem loc
    let p := match s.2 with
      | some tail_msdu => s.1.set_next tail_msdu e.head
      | none => s.1
    (p.setElem loc Elem.empty, e.tail)

/-- The end of `ol_rx_reorder_release`; the pointers are known to be non-NULL. -/
def release_deliver (D : Desc) (p : Peer) (tid : Nat) (head_msdu tail_msdu : Option Nat) :
    Option Peer :=
  head_msdu.bind fun head => tail_msdu.bind fun tail =>
    ({ p with tids_last_seq := update p.tids_last_seq tid (D.seq_num head) }.set_next tail
      none).deliver tid (some head)

def ol_rx_reorder_release (D : Desc) (p : Peer) (tid idx_start idx_end : Nat) : Option Peer :=
  let p := { p with tids_next_rel_idx := update p.tids_next_rel_idx tid (idx_end % 2 ^ 16) }
  let win_sz_mask := p.mask tid
  let idx_start := idx_start &&& win_sz_mask
  let idx_end := idx_end &&& win_sz_mask
  (p.slot tid idx_start).bind fun loc =>
    let head_msdu := (p.elem loc).head
    let tail_msdu := (p.elem loc).tail
    (ringWhile win_sz_mask idx_end (release_slot tid) (win_sz_mask + 1)
      ((idx_start + 1) &&& win_sz_mask) (p.setElem loc Elem.empty, tail_msdu)).bind fun s =>
        release_deliver D s.1 tid head_msdu s.2

/-! ## Flushing -/

inductive FlushAction where
  | release
  | discard

structure Collect where
  peer : Peer
  head_msdu : Option Nat
  tail_msdu : Option Nat

def Collect.append (c : Collect) (e : Elem) : Option Collect :=
  match c.head_msdu with
  | none => some { c with head_msdu := e.head, tail_msdu := e.tail }
  | some _ => c.tail_msdu.map fun tail_msdu =>
    { c with peer := c.peer.set_next tail_msdu e.head, tail_msdu := e.tail }

def flush_slot (tid idx : Nat) (c : Collect) : Option Collect :=
  (c.peer.slot tid idx).bind fun loc =>
    let e := c.peer.elem loc
    if e.head.isSome then
      (c.append e).map fun c => { c with peer := c.peer.setElem loc Elem.empty }
    else some c

def flush_finish (D : Desc) (tid : Nat) (action : FlushAction) (c : Collect) : Option Peer :=
  match c.head_msdu with
  | none => some c.peer
  | some head => c.tail_msdu.bind fun tail =>
    let p := { c.peer with tids_last_seq := update c.peer.tids_last_seq tid (D.seq_num head) }
    let p := p.set_next tail none
    match action with
    | .release => p.deliver tid (some head)
    | .discard => ol_rx_frames_free p (some head)

def ol_rx_reorder_flush (D : Desc) (p : Peer) (tid idx_start idx_end : Nat)
    (action : FlushAction) : Option Peer :=
  let win_sz_mask := p.mask tid
  let p := { p with
    tids_next_rel_idx := update p.tids_next_rel_idx tid
      (if idx_end = 0xffff then 0 else idx_end % 2 ^ 16) }
  let idx_end := if idx_end = 0xffff then idx_start else idx_end
  let idx_start := idx_start &&& win_sz_mask
  let idx_end := idx_end &&& win_sz_mask
  ((flush_slot tid idx_start ⟨p, none, none⟩).bind fun c =>
    ringWhile win_sz_mask idx_end (flush_slot tid) (win_sz_mask + 1)
      ((idx_start + 1) &&& win_sz_mask) c).bind fun c => flush_finish D tid action c

def ol_rx_reorder_flush_frag (p : Peer) (tid seq_num : Nat) : Option Peer :=
  (p.slot tid (seq_num &&& p.mask tid)).bind fun loc =>
    match (p.elem loc).head with
    | none => some p
    | some head => (ol_rx_frames_free p (some head)).map fun p => p.setElem loc Elem.empty

/-- `ol_rx_flush_handler`, for a peer that exists. -/
def ol_rx_flush_handler (D : Desc) (p : Peer) (tid idx_start idx_end : Nat)
    (action : FlushAction) : Option Peer :=
  (p.slot tid (idx_start &&& p.mask tid)).bind fun loc =>
    if (p.elem loc).head.any D.is_frag then ol_rx_reorder_flush_frag p tid idx_start
    else ol_rx_reorder_flush D p tid idx_start idx_end action

def ol_rx_reorder_peer_cleanup (D : Desc) (p : Peer) : Option Peer :=
  visitAll (fun tid p => ol_rx_reorder_flush D p tid 0 0 .discard)
    (List.range OL_TXRX_NUM_EXT_TIDS) p

/-! ## PN indications -/

/-- The loop variables of `ol_rx_pn_ind_handler`: the list so far, and the
entries of `pn_ie` that have not been met yet. -/
structure PnCollect extends Collect where
  pn_ie : List Nat

/-- One pass of the loop: a slot that the message names is freed, from its first
MSDU to its last. -/
def pn_ind_slot (tid seq_num : Nat) (c : PnCollect) : Option PnCollect :=
  (c.peer.slot tid seq_num).bind fun loc =>
    let e := c.peer.elem loc
    match e.head with
    | none => some c
    | some msdu =>
      if c.pn_ie.head? = some seq_num then
        e.tail.bind fun mpdu_tail =>
          (walkTo c.peer.next mpdu_tail c.peer.stored.length msdu).map fun msdus =>
            { c with
              pn_ie := c.pn_ie.tail
              peer := { c.peer with freed := c.peer.freed ++ msdus }.setElem loc Elem.empty }
      else
        (c.append e).map fun d =>
          { d with peer := d.peer.setElem loc Elem.empty, pn_ie := c.pn_ie }

/-- `ol_rx_pn_ind_handler`, for a peer that exists. -/
def ol_rx_pn_ind_handler (p : Peer) (tid seq_num_start seq_num_end : Nat) (pn_ie : List Nat) :
    Option Peer :=
  let p := { p with fw_pn_check := true }
  let win_sz_mask := p.mask tid
  let seq_num_start := seq_num_start &&& win_sz_mask
  let seq_num_end := seq_num_end &&& win_sz_mask
  ((pn_ind_slot tid seq_num_start ⟨⟨p, none, none⟩, pn_ie⟩).bind fun c =>
    ringWhile win_sz_mask seq_num_end (pn_ind_slot tid) (win_sz_mask + 1)
      ((seq_num_start + 1) &&& win_sz_mask) c).bind fun c =>
        match c.head_msdu with
        | none => some c.peer
        | some head => c.tail_msdu.bind fun tail =>
          (c.peer.set_next tail none).deliver tid (some head)

/-! ## Block ack sessions -/

/-- `OL_RX_REORDER_ROUND_PWR2`, a table of 65 entries. -/
def g_log2ceil (value : Nat) : Option Nat :=
  if value ≤ 1 then some 1
  else if value ≤ 2 then some 2
  else if value ≤ 4 then some 4
  else if value ≤ 8 then some 8
  else if value ≤ 16 then some 16
  else if value ≤ 32 then some 32
  else if value ≤ 64 then some 64
  else none

def ol_rx_reorder_init (p : Peer) (tid : Nat) : Peer :=
  { p with
    tids_rx_reorder := update p.tids_rx_reorder tid ⟨1, 0, .base⟩
    elem := update p.elem (.base tid) Elem.empty }

def zeroArray (elem : Loc → Elem) (a : Nat) : Loc → Elem
  | .base tid => elem (.base tid)
  | .heap a' idx => if a' = a then Elem.empty else elem (.heap a' idx)

/-- `ol_rx_addba_handler`, for a peer that exists. -/
def ol_rx_addba_handler (p : Peer) (tid win_sz : Nat) (failed malloc_ok : Bool) : Option Peer :=
  if failed then some p
  else if tid < OL_TXRX_NUM_EXT_TIDS then
    (g_log2ceil win_sz).map fun round_pwr2_win_sz =>
      let p := { p with
        tids_last_seq := update p.tids_last_seq tid IEEE80211_SEQ_MAX
        tids_next_rel_idx := update p.tids_next_rel_idx tid 0 }
      if malloc_ok then
        { p with
          tids_rx_reorder := update p.tids_rx_reorder tid
            ⟨win_sz, round_pwr2_win_sz - 1, .heap p.nextArray⟩
          elem := zeroArray p.elem p.nextArray
          arrayLen := update p.arrayLen p.nextArray round_pwr2_win_sz
          nextArray := p.nextArray + 1 }
      else
        { p with
          tids_rx_reorder := update p.tids_rx_reorder tid
            ⟨win_sz, round_pwr2_win_sz - 1, .null⟩ }
  else none

/-- `ol_rx_delba_handler`, for a peer that exists. -/
def ol_rx_delba_handler (p : Peer) (tid : Nat) : Option Peer :=
  if tid < OL_TXRX_NUM_EXT_TIDS then
    let p := { p with tids_next_rel_idx := update p.tids_next_rel_idx tid 0xffff }
    match (p.tids_rx_reorder tid).array with
    | .base => some (ol_rx_reorder_init p tid)
    | .null => some (ol_rx_reorder_init p tid)
    | .heap a =>
      if a ∈ p.arraysFreed then none
      else some (ol_rx_reorder_init { p with arraysFreed := a :: p.arraysFreed } tid)
  else none

/-! ## Runs -/

/-- A peer with nothing stored. Tid `tid` has the embedded slot if `win tid` is
`none`, and otherwise an array of `2 ^ k` slots, at the address `tid`. -/
def Peer.init (win : Nat → Option Nat) : Peer where
  next := fun _ => none
  elem := fun _ => Elem.empty
  arrayLen := fun a => 2 ^ (win a).getD 0
  nextArray := OL_TXRX_NUM_EXT_TIDS
  arraysFreed := []
  tids_rx_reorder := fun tid =>
    match win tid with
    | none => ⟨1, 0, .base⟩
    | some k => ⟨2 ^ k, 2 ^ k - 1, .heap tid⟩
  tids_next_rel_idx := fun _ => 0
  tids_last_seq := fun _ => IEEE80211_SEQ_MAX
  fw_pn_check := false
  stored := []
  rx_opt_proc := []
  freed := []

/-- What happens to the slots of a peer while its windows stay as they are. -/
inductive Op where
  | store (tid idx : Nat) (msdus : List Nat)
  | release (tid idx_start idx_end : Nat)
  | flush (tid idx_start idx_end : Nat) (action : FlushAction)
  | flush_frag (tid seq_num : Nat)
  | flush_handler (tid idx_start idx_end : Nat) (action : FlushAction)
  | pn_ind (tid seq_num_start seq_num_end : Nat) (pn_ie : List Nat)
  | peer_cleanup

def step (D : Desc) (p : Peer) : Op → Option Peer
  | .store tid idx msdus => storeMpdu p tid idx msdus
  | .release tid s e => ol_rx_reorder_release D p tid s e
  | .flush tid s e action => ol_rx_reorder_flush D p tid s e action
  | .flush_frag tid seq_num => ol_rx_reorder_flush_frag p tid seq_num
  | .flush_handler tid s e action => ol_rx_flush_handler D p tid s e action
  | .pn_ind tid s e pn_ie => ol_rx_pn_ind_handler p tid s e pn_ie
  | .peer_cleanup => ol_rx_reorder_peer_cleanup D p

open List Option

/-! `Slots p S` says that in memory the slot at each address `loc` is the list `S loc` of MSDUs:
head and tail point at its ends, its buffers are linked and NULL-terminated, and no buffer is in
two. -/

/-! ## Slots and the list in hand -/

structure Slots (p : Peer) (S : Loc → List Nat) : Prop where
  head : ∀ loc, (p.elem loc).head = (S loc).head?
  tail : ∀ loc, (p.elem loc).tail = (S loc).getLast?
  linked : ∀ loc, Linked p.next (S loc).head? (S loc) none
  nodup : ∀ loc, (S loc).Nodup
  disj : ∀ loc loc' m, m ∈ S loc → m ∈ S loc' → loc = loc'

structure Hand (p : Peer) (S : Loc → List Nat) (head tail : Option Nat) (l : List Nat) : Prop where
  head_eq : head = l.head?
  tail_eq : tail = l.getLast?
  linked : ∃ r, Linked p.next head l r
  nodup : l.Nodup
  apart : ∀ m ∈ l, ∀ loc, m ∉ S loc

/-- The states differ in the memory only. -/
def SameBut (p p' : Peer) : Prop := p' = { p with next := p'.next, elem := p'.elem }

section Memory

variable {p p' : Peer} {S : Loc → List Nat} {loc : Loc} {l : List Nat} {head tail : Option Nat}

theorem SameBut.refl (p : Peer) : SameBut p p := rfl

theorem SameBut.trans {p'' : Peer} (h : SameBut p p') (h' : SameBut p' p'') : SameBut p p'' := by
  unfold SameBut at *
  rw [h', h]

theorem SameBut.slot (h : SameBut p p') (tid idx : Nat) : p'.slot tid idx = p.slot tid idx := by
  rw [h]; rfl

theorem Slots.replace (h : Slots p S) {l : List Nat} {e : Elem}
    (helem : p'.elem = update p.elem loc e) (hhead : e.head = l.head?)
    (htail : e.tail = l.getLast?) (hlinked : Linked p'.next l.head? l none)
    (hothers : ∀ x, x ≠ loc → Linked p'.next (S x).head? (S x) none) (hnodup : l.Nodup)
    (hdisj : ∀ m ∈ l, ∀ x, x ≠ loc → m ∉ S x) : Slots p' (update S loc l) := by
  refine ⟨fun x => ?_, fun x => ?_, fun x => ?_, fun x => ?_, fun x y m hx hy => ?_⟩
  · rw [helem]
    by_cases hx : x = loc
    · rw [hx, update_self, update_self, hhead]
    · rw [update_of_ne hx, update_of_ne hx, h.head]
  · rw [helem]
    by_cases hx : x = loc
    · rw [hx, update_self, update_self, htail]
    · rw [update_of_ne hx, update_of_ne hx, h.tail]
  · by_cases hx : x = loc
    · rw [hx, update_self]; exact hlinked
    · rw [update_of_ne hx]; exact hothers x hx
  · by_cases hx : x = loc
    · rw [hx, update_self]; exact hnodup
    · rw [update_of_ne hx]; exact h.nodup x
  · by_cases hxl : x = loc <;> by_cases hyl : y = loc
    · rw [hxl, hyl]
    · rw [hxl, update_self] at hx
      rw [update_of_ne hyl] at hy; exact absurd hy (hdisj m hx y hyl)
    · rw [hyl, update_self] at hy
      rw [update_of_ne hxl] at hx; exact absurd hx (hdisj m hy x hxl)
    · rw [update_of_ne hxl] at hx
      rw [update_of_ne hyl] at hy; exact h.disj x y m hx hy

theorem Slots.clear (h : Slots p S) (loc : Loc) :
    Slots (p.setElem loc Elem.empty) (update S loc []) :=
  h.replace rfl rfl rfl rfl (fun x _ => h.linked x) nodup_nil
    nofun

theorem Slots.set_next (h : Slots p S) {m : Nat} (hm : ∀ loc, m ∉ S loc) (q : Option Nat) :
    Slots (p.set_next m q) S :=
  ⟨h.head, h.tail, fun loc => (linked_update_of_notMem (hm loc)).mpr (h.linked loc),
    h.nodup, h.disj⟩

theorem Slots.of_eq (h : Slots p S) (hn : p'.next = p.next) (he : p'.elem = p.elem) :
    Slots p' S := by
  refine ⟨fun loc => ?_, fun loc => ?_, fun loc => ?_, h.nodup, h.disj⟩
  · rw [he]; exact h.head loc
  · rw [he]; exact h.tail loc
  · rw [hn]; exact h.linked loc

theorem not_mem_update (h : Slots p S) {m : Nat} (hm : m ∈ S loc) (x : Loc) :
    m ∉ update S loc [] x := by
  intro hx
  by_cases he : x = loc
  · rw [he, update_self] at hx; exact absurd hx (by simp)
  · rw [update_of_ne he] at hx; exact he (h.disj x loc m hx hm)

theorem mem_of_mem_update {m : Nat} {x : Loc} (hx : m ∈ update S loc [] x) : m ∈ S x := by
  by_cases he : x = loc
  · rw [he, update_self] at hx; exact absurd hx (by simp)
  · rwa [update_of_ne he] at hx

theorem update_nil_of_empty (h : S loc = []) : update S loc [] = S := by
  rw [← h, update_eq_self]

theorem take_first (h : Slots p S) :
    Slots (p.setElem loc Elem.empty) (update S loc []) ∧
      Hand (p.setElem loc Elem.empty) (update S loc []) (p.elem loc).head (p.elem loc).tail
        (S loc) := by
  refine ⟨h.clear loc, h.head loc, h.tail loc, ⟨none, ?_⟩, h.nodup loc,
    fun m hm => not_mem_update h hm⟩
  rw [h.head]; exact h.linked loc

theorem take_behind (h : Slots p S) (hh : Hand p S head tail l) {t : Nat} (ht : tail = some t) :
    Slots ((p.set_next t (p.elem loc).head).setElem loc Elem.empty) (update S loc []) ∧
      (S loc ≠ [] → Hand ((p.set_next t (p.elem loc).head).setElem loc Elem.empty)
        (update S loc []) head (p.elem loc).tail (l ++ S loc)) := by
  have hlast : l.getLast? = some t := hh.tail_eq ▸ ht
  obtain ⟨l', rfl⟩ := getLast?_eq_some_iff.mp hlast
  have htS : ∀ x, t ∉ S x := hh.apart t (mem_append_right _ mem_cons_self)
  have hnd := nodup_append.mp hh.nodup
  refine ⟨(h.set_next htS _).clear loc, fun hne => ⟨?_, ?_, ⟨none, ?_⟩, ?_, ?_⟩⟩
  · rw [hh.head_eq]
    cases l' <;> rfl
  · rw [h.tail, getLast?_append_of_ne_nil _ hne]
  · obtain ⟨r, hr⟩ := hh.linked
    refine linked_append.mpr ⟨(p.elem loc).head, ?_, ?_⟩
    · exact linked_concat_update hr (fun hm => hnd.2.2 t hm t mem_cons_self rfl) _
    · rw [h.head]; exact (linked_update_of_notMem (htS loc)).mpr (h.linked loc)
  · exact nodup_append.mpr ⟨hh.nodup, h.nodup loc, fun a ha b hb he =>
      hh.apart a ha loc (he ▸ hb)⟩
  · intro m hm x hx
    rcases mem_append.mp hm with hm | hm
    · exact hh.apart m hm x (mem_of_mem_update hx)
    · exact not_mem_update h hm x hx

theorem Hand.nil (p : Peer) (S : Loc → List Nat) : Hand p S none none [] :=
  ⟨rfl, rfl, ⟨none, rfl⟩, nodup_nil, fun _ hm => absurd hm (by simp)⟩

theorem Hand.terminate (hh : Hand p S head tail l) {t : Nat} (ht : tail = some t) :
    Linked (p.set_next t none).next head l none := by
  have hlast : l.getLast? = some t := hh.tail_eq ▸ ht
  obtain ⟨l', rfl⟩ := getLast?_eq_some_iff.mp hlast
  obtain ⟨r, hr⟩ := hh.linked
  have hnd := nodup_append.mp hh.nodup
  exact linked_concat_update hr (fun hm => hnd.2.2 t hm t mem_cons_self rfl) none

theorem Hand.ends (hh : Hand p S head tail l) (hne : l ≠ []) :
    ∃ m t, head = some m ∧ tail = some t ∧ (∀ loc, t ∉ S loc) ∧
      Linked (p.set_next t none).next (some m) l none := by
  obtain ⟨m, hm⟩ : ∃ m, head = some m := by
    rw [hh.head_eq]; exact isSome_iff_exists.mp (isSome_head?.mpr hne)
  obtain ⟨t, hlast⟩ : ∃ t, l.getLast? = some t := ⟨_, getLast?_eq_some_getLast hne⟩
  have ht : tail = some t := hh.tail_eq.trans hlast
  refine ⟨m, t, hm, ht, hh.apart t (mem_of_getLast? hlast), ?_⟩
  have hterm := hh.terminate ht
  rwa [hm] at hterm

end Memory

/-! ## Walks that empty slots -/

def cleared (S : Loc → List Nat) (L : List Loc) : Loc → List Nat :=
  fun loc => if loc ∈ L then [] else S loc

theorem cleared_cons (S : Loc → List Nat) (loc : Loc) (L : List Loc) :
    cleared (update S loc []) L = cleared S (loc :: L) := by
  funext x
  unfold cleared
  by_cases hx : x = loc
  · subst hx; simp
  · simp [hx]

theorem flatMap_update_of_notMem {S : Loc → List Nat} {loc : Loc} {L : List Loc} (h : loc ∉ L) :
    L.flatMap (update S loc []) = L.flatMap S := by
  induction L with
  | nil => rfl
  | cons x L ih =>
    rw [mem_cons, not_or] at h
    rw [flatMap_cons, flatMap_cons, ih h.2, update_of_ne (Ne.symm h.1)]

section Flush

variable {S : Loc → List Nat} {tid : Nat} {l : List Nat}

theorem append_spec {c : Collect} {loc : Loc} (h : Slots c.peer S)
    (hh : Hand c.peer S c.head_msdu c.tail_msdu l) (hne : S loc ≠ []) :
    ∃ c', c.append (c.peer.elem loc) = some c' ∧
      Slots (c'.peer.setElem loc Elem.empty) (update S loc []) ∧
      Hand (c'.peer.setElem loc Elem.empty) (update S loc []) c'.head_msdu c'.tail_msdu
        (l ++ S loc) ∧
      SameBut c.peer c'.peer := by
  unfold Collect.append
  cases hc : c.head_msdu with
  | none =>
    have hl : l = [] := by
      have := hh.head_eq
      rw [hc] at this; exact head?_eq_none_iff.mp this.symm
    subst hl
    obtain ⟨h1, h2⟩ := take_first h
    exact ⟨_, rfl, h1, h2, SameBut.refl _⟩
  | some x =>
    have hl : l ≠ [] := by
      intro hl
      have := hh.head_eq
      rw [hc, hl] at this; exact absurd this (by simp)
    obtain ⟨t, ht⟩ : ∃ t, c.tail_msdu = some t := by
      rw [hh.tail_eq]; exact ⟨_, getLast?_eq_some_getLast hl⟩
    obtain ⟨h1, h2⟩ := take_behind h hh ht
    refine ⟨{ c with
      peer := c.peer.set_next t (c.peer.elem loc).head
      tail_msdu := (c.peer.elem loc).tail }, by rw [ht, hc]; rfl, h1, h2 hne, rfl⟩

theorem flush_slot_spec {c : Collect} {idx : Nat} {loc : Loc} (h : Slots c.peer S)
    (hh : Hand c.peer S c.head_msdu c.tail_msdu l) (hloc : c.peer.slot tid idx = some loc) :
    ∃ c', flush_slot tid idx c = some c' ∧ Slots c'.peer (update S loc []) ∧
      Hand c'.peer (update S loc []) c'.head_msdu c'.tail_msdu (l ++ S loc) ∧
      SameBut c.peer c'.peer := by
  unfold flush_slot
  rw [hloc, bind_some]
  by_cases hne : S loc = []
  · have hhead : (c.peer.elem loc).head = none := by rw [h.head, hne]; rfl
    refine ⟨c, by simp [hhead], ?_, ?_, SameBut.refl _⟩
    · rwa [update_nil_of_empty hne]
    · rwa [update_nil_of_empty hne, hne, append_nil]
  · obtain ⟨c', hc', h1, h2, h3⟩ := append_spec h hh hne
    have hhead : (c.peer.elem loc).head.isSome = true := by
      rw [h.head]; exact isSome_head?.mpr hne
    refine ⟨{ c' with peer := c'.peer.setElem loc Elem.empty }, ?_, h1, h2, h3.trans rfl⟩
    rw [if_pos hhead, hc', map_some]

theorem visitAll_flush (v : List Nat) (locOf : Nat → Loc) {c : Collect} (h : Slots c.peer S)
    (hh : Hand c.peer S c.head_msdu c.tail_msdu l)
    (hloc : ∀ idx ∈ v, c.peer.slot tid idx = some (locOf idx)) (hnd : (v.map locOf).Nodup) :
    ∃ c', visitAll (flush_slot tid) v c = some c' ∧
      Slots c'.peer (cleared S (v.map locOf)) ∧
      Hand c'.peer (cleared S (v.map locOf)) c'.head_msdu c'.tail_msdu
        (l ++ (v.map locOf).flatMap S) ∧
      SameBut c.peer c'.peer := by
  induction v generalizing c S l with
  | nil =>
    refine ⟨c, rfl, h, ?_, SameBut.refl _⟩
    rw [map_nil, flatMap_nil, append_nil]; exact hh
  | cons idx v ih =>
    rw [map_cons, nodup_cons] at hnd
    obtain ⟨d, hd, h1, h2, h3⟩ := flush_slot_spec h hh (hloc idx mem_cons_self)
    obtain ⟨c', hc', h4, h5, h6⟩ := ih h1 h2
      (fun i hi => by rw [h3.slot]; exact hloc i (mem_cons_of_mem idx hi)) hnd.2
    rw [map_cons, ← cleared_cons, flatMap_cons, ← append_assoc]
    rw [flatMap_update_of_notMem hnd.1] at h5
    exact ⟨c', by rw [visitAll, hd, bind_some, hc'], h4, h5, h3.trans h6⟩

end Flush

/-! ## PN indications -/

/-- What a PN indication that names the slots `pn_ie` does with the lists `T` of
the visited slots: those it hands on, and those it frees. A slot can be named
only after the ones before it in the message have been met. -/
def pnSplit (T : Nat → List Nat) : List Nat → List Nat → List Nat × List Nat
  | _, [] => ([], [])
  | pn_ie, idx :: v =>
    if T idx ≠ [] ∧ pn_ie.head? = some idx then
      ((pnSplit T pn_ie.tail v).1, T idx ++ (pnSplit T pn_ie.tail v).2)
    else (T idx ++ (pnSplit T pn_ie v).1, (pnSplit T pn_ie v).2)

theorem pnSplit_perm (T : Nat → List Nat) (pn_ie v : List Nat) :
    ((pnSplit T pn_ie v).1 ++ (pnSplit T pn_ie v).2).Perm (v.flatMap T) := by
  induction v generalizing pn_ie with
  | nil => exact Perm.refl _
  | cons idx v ih =>
    rw [pnSplit, flatMap_cons]
    split
    · refine Perm.trans ?_ ((ih pn_ie.tail).append_left (T idx))
      rw [← append_assoc, ← append_assoc]; exact perm_append_comm.append_right _
    · rw [append_assoc]; exact (ih pn_ie).append_left (T idx)

theorem pnSplit_congr {T T' : Nat → List Nat} {v : List Nat} (h : ∀ idx ∈ v, T idx = T' idx)
    (pn_ie : List Nat) : pnSplit T pn_ie v = pnSplit T' pn_ie v := by
  induction v generalizing pn_ie with
  | nil => rfl
  | cons idx v ih =>
    have hv := ih fun i hi => h i (mem_cons_of_mem idx hi)
    rw [pnSplit, pnSplit, h idx mem_cons_self, hv, hv]

def SameButFreed (p p' : Peer) : Prop :=
  p' = { p with next := p'.next, elem := p'.elem, freed := p'.freed }

section PnInd

variable {S : Loc → List Nat} {tid : Nat} {l : List Nat}

theorem SameBut.toFreed {p p' : Peer} (h : SameBut p p') : SameButFreed p p' := by
  unfold SameButFreed
  rw [h]

theorem SameButFreed.trans {p p' p'' : Peer} (h : SameButFreed p p') (h' : SameButFreed p' p'') :
    SameButFreed p p'' := by
  unfold SameButFreed at *
  rw [h', h]

theorem SameButFreed.slot {p p' : Peer} (h : SameButFreed p p') (tid idx : Nat) :
    p'.slot tid idx = p.slot tid idx := by rw [h]; rfl

theorem pn_ind_slot_spec {c : PnCollect} {idx : Nat} {loc : Loc} (h : Slots c.peer S)
    (hh : Hand c.peer S c.head_msdu c.tail_msdu l) (hloc : c.peer.slot tid idx = some loc)
    (hfuel : (S loc).length ≤ c.peer.stored.length) :
    ∃ c', pn_ind_slot tid idx c = some c' ∧ Slots c'.peer (update S loc []) ∧
      SameButFreed c.peer c'.peer ∧
      if S loc ≠ [] ∧ c.pn_ie.head? = some idx then
        Hand c'.peer (update S loc []) c'.head_msdu c'.tail_msdu l ∧
          c'.peer.freed = c.peer.freed ++ S loc ∧ c'.pn_ie = c.pn_ie.tail
      else
        Hand c'.peer (update S loc []) c'.head_msdu c'.tail_msdu (l ++ S loc) ∧
          c'.peer.freed = c.peer.freed ∧ c'.pn_ie = c.pn_ie := by
  unfold pn_ind_slot
  rw [hloc, bind_some]
  dsimp only
  by_cases hne : S loc = []
  · have hhead : (c.peer.elem loc).head = none := by rw [h.head, hne]; rfl
    rw [hhead, update_nil_of_empty hne]
    refine ⟨c, rfl, h, rfl, ?_⟩
    rw [if_neg fun hc => hc.1 hne, hne, append_nil]; exact ⟨hh, rfl, rfl⟩
  · obtain ⟨m, hm⟩ : ∃ m, (c.peer.elem loc).head = some m := by
      rw [h.head]; exact isSome_iff_exists.mp (isSome_head?.mpr hne)
    rw [hm]
    dsimp only
    by_cases hpn : c.pn_ie.head? = some idx
    · -- freed, from the first MSDU to the last
      rw [if_pos hpn]
      obtain ⟨t, ht⟩ : ∃ t, (S loc).getLast? = some t := ⟨_, getLast?_eq_some_getLast hne⟩
      obtain ⟨l', hl'⟩ := getLast?_eq_some_iff.mp ht
      have hlink := h.linked loc
      have hnd := h.nodup loc
      have hhead := h.head loc
      rw [hm] at hhead
      rw [← hhead, hl'] at hlink
      rw [hl', nodup_append] at hnd
      have hwalk : walkTo c.peer.next t c.peer.stored.length m = some (S loc) := by
        rw [hl', length_append, length_singleton] at hfuel
        rw [hl']
        exact walkTo_eq _ hlink (fun hm => hnd.2.2 t hm t mem_cons_self rfl) (by omega)
      rw [h.tail, ht, bind_some, hwalk, map_some]
      refine ⟨_, rfl, (h.clear loc).of_eq rfl rfl, rfl, ?_⟩
      rw [if_pos ⟨hne, hpn⟩]
      refine ⟨⟨hh.head_eq, hh.tail_eq, hh.linked, hh.nodup, fun x hx y hy => ?_⟩, rfl, rfl⟩
      exact hh.apart x hx y (mem_of_mem_update hy)
    · rw [if_neg hpn]
      obtain ⟨c', hc', h1, h2, h3⟩ := append_spec h hh hne
      rw [hc', map_some]
      refine ⟨_, rfl, h1, h3.toFreed.trans rfl, ?_⟩
      rw [if_neg fun hc => hpn hc.2]
      refine ⟨h2, ?_, rfl⟩
      show c'.peer.freed = c.peer.freed
      rw [h3]

/-- **A PN indication** empties the slots it visits and splits their lists. -/
theorem visitAll_pn_ind (v : List Nat) (locOf : Nat → Loc) {c : PnCollect} (h : Slots c.peer S)
    (hh : Hand c.peer S c.head_msdu c.tail_msdu l)
    (hloc : ∀ idx ∈ v, c.peer.slot tid idx = some (locOf idx)) (hnd : (v.map locOf).Nodup)
    (hfuel : ∀ loc, (S loc).length ≤ c.peer.stored.length) :
    ∃ c', visitAll (pn_ind_slot tid) v c = some c' ∧
      Slots c'.peer (cleared S (v.map locOf)) ∧
      Hand c'.peer (cleared S (v.map locOf)) c'.head_msdu c'.tail_msdu
        (l ++ (pnSplit (fun idx => S (locOf idx)) c.pn_ie v).1) ∧
      c'.peer.freed = c.peer.freed ++ (pnSplit (fun idx => S (locOf idx)) c.pn_ie v).2 ∧
      SameButFreed c.peer c'.peer := by
  induction v generalizing c S l with
  | nil =>
    refine ⟨c, rfl, h, ?_, ?_, rfl⟩
    · rw [pnSplit, append_nil]; exact hh
    · rw [pnSplit, append_nil]
  | cons idx v ih =>
    rw [map_cons, nodup_cons] at hnd
    have hrest : ∀ i ∈ v, update S (locOf idx) [] (locOf i) = S (locOf i) := by
      intro i hi
      have hne : locOf i ≠ locOf idx := fun he => hnd.1 (he ▸ mem_map_of_mem hi)
      exact update_of_ne hne _ _
    obtain ⟨d, hd, h1, h2, h3⟩ := pn_ind_slot_spec h hh (hloc idx mem_cons_self) (hfuel (locOf idx))
    have hfuel' : ∀ loc, (update S (locOf idx) [] loc).length ≤ d.peer.stored.length := by
      intro loc
      rw [h2]
      by_cases he : loc = locOf idx
      · rw [he, update_self]; exact Nat.zero_le _
      · rw [update_of_ne he]; exact hfuel loc
    have hslot : ∀ i ∈ v, d.peer.slot tid i = some (locOf i) := by
      intro i hi
      rw [h2.slot]; exact hloc i (mem_cons_of_mem idx hi)
    rw [map_cons, ← cleared_cons, pnSplit, visitAll, hd, bind_some]
    split at h3
    · next hc =>
      obtain ⟨h4, h5, h6⟩ := h3
      obtain ⟨c', hc', h7, h8, h9, h10⟩ := ih h1 h4 hslot hnd.2 hfuel'
      rw [pnSplit_congr hrest, h6] at h8 h9
      rw [if_pos hc]
      refine ⟨c', hc', h7, h8, ?_, h2.trans h10⟩
      rw [h9, h5, append_assoc]
    · next hc =>
      obtain ⟨h4, h5, h6⟩ := h3
      obtain ⟨c', hc', h7, h8, h9, h10⟩ := ih h1 h4 hslot hnd.2 hfuel'
      rw [pnSplit_congr hrest, h6] at h8 h9
      rw [if_neg hc]
      refine ⟨c', hc', h7, ?_, ?_, h2.trans h10⟩
      · rwa [append_assoc] at h8
      · rw [h9, h5]

end PnInd

/-! ## Releases

A release appends without looking: an empty slot cuts the list, and what is
appended behind it belongs to no list any more. -/

/-- The loop variables of a release, with the list `l` that starts at `head` and
what has been lost: either nothing, and the last buffer of `l` is in `tail`, or
the list is closed and `tail` is none of its buffers. -/
inductive Releasing (p : Peer) (S : Loc → List Nat) (head tail : Option Nat) (l : List Nat) :
    List Nat → Bool → Prop where
  | whole : Hand p S head tail l → l ≠ [] → Releasing p S head tail l [] true
  | cut {lost} : Linked p.next head l none → (∀ t, tail = some t → t ∉ l ∧ ∀ loc, t ∉ S loc) →
      (∀ m ∈ l, ∀ loc, m ∉ S loc) → l.Nodup → l ≠ [] → Releasing p S head tail l lost false

section Release

variable {p : Peer} {S : Loc → List Nat} {tid : Nat} {head tail : Option Nat} {l lost : List Nat}
  {w : Bool}

theorem release_slot_spec {idx : Nat} {loc : Loc} (h : Slots p S)
    (hr : Releasing p S head tail l lost w) (hloc : p.slot tid idx = some loc) :
    ∃ p' tail' l' lost' w', release_slot tid idx (p, tail) = some (p', tail') ∧
      Slots p' (update S loc []) ∧ SameBut p p' ∧
      Releasing p' (update S loc []) head tail' l' lost' w' ∧
      l' ++ lost' = l ++ lost ++ S loc ∧ (w = true → S loc ≠ [] → w' = true) := by
  unfold release_slot
  rw [hloc, map_some]
  cases hr with
  | whole hh hne =>
    obtain ⟨t, ht⟩ : ∃ t, tail = some t := by
      rw [hh.tail_eq]; exact ⟨_, getLast?_eq_some_getLast hne⟩
    obtain ⟨h1, h2⟩ := take_behind h hh ht
    rw [append_nil]
    rw [ht]
    by_cases hS : S loc = []
    · -- the list is cut here, at its last buffer
      have hhead : (p.elem loc).head = none := by rw [h.head, hS]; rfl
      have htail : (p.elem loc).tail = none := by rw [h.tail, hS]; rfl
      refine ⟨_, _, l, [], false, rfl, h1, rfl, .cut ?_ ?_ ?_ hh.nodup hne, ?_,
        fun _ hne => absurd hS hne⟩
      · rw [hhead]; exact hh.terminate ht
      · intro u hu
        rw [htail] at hu; exact absurd hu (by simp)
      · exact fun m hm x hx => hh.apart m hm x (mem_of_mem_update hx)
      · rw [hS]
    · refine ⟨_, _, l ++ S loc, [], true, rfl, h1, rfl, .whole (h2 hS) ?_, ?_, fun _ _ => rfl⟩
      · exact append_ne_nil_of_left_ne_nil hne _
      · rw [append_nil]
  | cut hl ht ha hnd hne =>
    -- what is appended behind the cut is in no list any more
    have htail' : ∀ u, (p.elem loc).tail = some u → u ∉ l ∧ ∀ x, u ∉ update S loc [] x := by
      intro u hu
      have hmem : u ∈ S loc := by rw [h.tail] at hu; exact mem_of_getLast? hu
      exact ⟨fun hul => ha u hul loc hmem, not_mem_update h hmem⟩
    have ha' : ∀ m ∈ l, ∀ x, m ∉ update S loc [] x :=
      fun m hm x hx => ha m hm x (mem_of_mem_update hx)
    cases htl : tail with
    | none =>
      exact ⟨_, _, l, lost ++ S loc, false, rfl, h.clear loc, rfl,
        .cut hl htail' ha' hnd hne, (append_assoc _ _ _).symm, fun hw => absurd hw (by simp)⟩
    | some t =>
      obtain ⟨htl1, htS⟩ := ht t htl
      refine ⟨_, _, l, lost ++ S loc, false, rfl, (h.set_next htS _).clear loc, rfl,
        .cut ?_ htail' ha' hnd hne, (append_assoc _ _ _).symm, fun hw => absurd hw (by simp)⟩
      exact (linked_update_of_notMem htl1).mpr hl

theorem visitAll_release (v : List Nat) (locOf : Nat → Loc) (h : Slots p S)
    (hr : Releasing p S head tail l lost w)
    (hloc : ∀ idx ∈ v, p.slot tid idx = some (locOf idx)) (hnd : (v.map locOf).Nodup) :
    ∃ p' tail' l' lost' w', visitAll (release_slot tid) v (p, tail) = some (p', tail') ∧
      Slots p' (cleared S (v.map locOf)) ∧ SameBut p p' ∧
      Releasing p' (cleared S (v.map locOf)) head tail' l' lost' w' ∧
      l' ++ lost' = l ++ lost ++ (v.map locOf).flatMap S ∧
      (w = true → (∀ idx ∈ v, S (locOf idx) ≠ []) → w' = true) := by
  induction v generalizing p S tail l lost w with
  | nil =>
    refine ⟨p, tail, l, lost, w, rfl, h, SameBut.refl _, hr, ?_, fun hw _ => hw⟩
    rw [map_nil, flatMap_nil, append_nil]
  | cons idx v ih =>
    rw [map_cons, nodup_cons] at hnd
    obtain ⟨p₁, tail₁, l₁, lost₁, w₁, hrun₁, hS₁, hsame₁, hr₁, hl₁, hw₁⟩ :=
      release_slot_spec h hr (hloc idx mem_cons_self)
    obtain ⟨p', tail', l', lost', w', hrun, hS', hsame, hr', hl', hw'⟩ := ih hS₁ hr₁
      (fun i hi => by rw [hsame₁.slot]; exact hloc i (mem_cons_of_mem idx hi)) hnd.2
    rw [map_cons, ← cleared_cons, flatMap_cons, visitAll, hrun₁, bind_some]
    refine ⟨p', tail', l', lost', w', hrun, hS', hsame₁.trans hsame, hr', ?_, fun hw hne => ?_⟩
    · rw [hl', hl₁, flatMap_update_of_notMem hnd.1, append_assoc, append_assoc]
    · refine hw' (hw₁ hw (hne idx mem_cons_self)) fun i hi => ?_
      have hi' : locOf i ≠ locOf idx := fun he => hnd.1 (he ▸ mem_map_of_mem hi)
      rw [update_of_ne hi']; exact hne i (mem_cons_of_mem idx hi)

theorem Releasing.terminate (hr : Releasing p S head tail l lost w) {t : Nat}
    (ht : tail = some t) : Linked (p.set_next t none).next head l none ∧ ∀ loc, t ∉ S loc := by
  cases hr with
  | whole hh hne =>
    refine ⟨hh.terminate ht, hh.apart t ?_⟩
    exact mem_of_getLast? (hh.tail_eq ▸ ht)
  | cut hl htl _ _ _ =>
    obtain ⟨h1, h2⟩ := htl t ht
    exact ⟨(linked_update_of_notMem h1).mpr hl, h2⟩

end Release

end Qcacld.RxReorder
