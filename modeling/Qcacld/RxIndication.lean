/-
Rx indications: `ol_rx_indication_handler` of `ol_rx.c`, with `ol_rx_seq_num_check` of
`ol_rx_reorder.c`.

`process_reorder` clears `rx_ind_release` when it frees a MPDU ("there's nothing to release"), but
the flag is its own copy: the caller releases regardless, and a duplicate is a NULL dereference
(`duplicate_released`). The rx statistics, the RSSI and OCB fields of the peer, the MIC error
reports and the refill of the rx ring are not modelled; nothing below reads them.
-/
import Qcacld.RxReorderInv

set_option autoImplicit false

namespace Qcacld.RxIndication

open Lib RxReorder Function List

/-! ## Data -/

def OL_RX_MCAST_TID : Nat := 18
def HTT_INVALID_TID : Nat := 31

inductive RxStatus where
  | unknown
  | ok
  | err_fcs
  | err_dup
  | err_replay
  | err_inv_peer
  | ctrl_mgmt_null
  | tkip_mic_err
  | err_misc
deriving DecidableEq

/-- What `htt_rx_amsdu_pop` returns for a MPDU, and what is read of its rx
descriptor. -/
structure Mpdu where
  msdus : List Nat
  msdu_chaining : Bool
  reorder_idx : Nat
  seq_num : Nat
  tid : Nat
  retry : Bool

structure MpduRange where
  status : RxStatus
  mpdus : List Mpdu

/-- A rx indication; `flush` and `release` are the ranges of sequence numbers, if
their valid bits are set. -/
structure Ind where
  peer_id : Nat
  tid : Nat
  flush : Option (Nat × Nat)
  release : Option (Nat × Nat)
  ranges : List MpduRange

/-- A peer. `discarded` is not in the source: the MSDUs that were freed without
having been stored. -/
structure RxPeer where
  reorder : Peer
  tids_mcast_last_seq : Nat → Nat
  discarded : List Nat

structure Pdev where
  /-- `pdev->rx.flags.dup_check`. -/
  dup_check : Bool
  peer_id_to_obj_map : Nat → Option Nat
  ocb_peer : Option Nat
  peers : Nat → RxPeer

/-! ## Sequence numbers -/

def ol_rx_reorder_seq_num_check (p : Peer) (tid seq_num : Nat) : RxStatus :=
  if p.tids_last_seq tid = IEEE80211_SEQ_MAX then .ok
  else
    let seq_num_delta : Int := ((seq_num : Int) - 1 - p.tids_last_seq tid) % IEEE80211_SEQ_MAX
    if seq_num_delta > IEEE80211_SEQ_MAX / 2 then .err_replay else .ok

def ol_rx_seq_num_check (r : RxPeer) (tid : Nat) (m : Mpdu) : RxStatus × RxPeer :=
  if tid = OL_RX_MCAST_TID then
    if m.tid ≥ OL_TXRX_NUM_EXT_TIDS then (.ok, r)
    else if m.retry && m.seq_num == r.tids_mcast_last_seq m.tid then (.err_replay, r)
    else (.ok, { r with tids_mcast_last_seq := update r.tids_mcast_last_seq m.tid m.seq_num })
  else (ol_rx_reorder_seq_num_check r.reorder tid m.seq_num, r)

/-- The macro `OL_RX_SEQ_NUM_CHECK`: only tids without aggregation are
checked. -/
def OL_RX_SEQ_NUM_CHECK (dup_check : Bool) (r : RxPeer) (tid : Nat) (m : Mpdu) :
    RxStatus × RxPeer :=
  if dup_check && r.reorder.mask tid == 0 then ol_rx_seq_num_check r tid m else (.ok, r)

/-! ## MPDUs -/

/-- `discard_msdus`, `chain_msdus` and the loop for invalid frames, which all
free the MSDUs of a MPDU. -/
def discard_msdus (r : RxPeer) (m : Mpdu) : RxPeer :=
  { r with discarded := r.discarded ++ m.msdus }

/-- `process_reorder`. Its last argument, `rx_ind_release`, is passed by value,
so that what is assigned to it is not seen by the caller. -/
def process_reorder (dup_check : Bool) (tid : Nat) (r : RxPeer) (m : Mpdu) : Option RxPeer :=
  let c := OL_RX_SEQ_NUM_CHECK dup_check r tid m
  if c.1 = .ok then
    (storeMpdu c.2.reorder tid m.reorder_idx m.msdus).map fun p =>
      { c.2 with
        reorder :=
          if p.mask tid = 0 then
            { p with tids_last_seq := update p.tids_last_seq tid m.seq_num }
          else p }
  else some (discard_msdus c.2 m)

def rx_mpdu (dup_check : Bool) (tid : Nat) (r : RxPeer) (m : Mpdu) : Option RxPeer :=
  if m.msdu_chaining then some (discard_msdus r m) else process_reorder dup_check tid r m

/-- The body of the loop over the MPDU ranges, for a peer that was found. -/
def rx_mpdu_range (dup_check : Bool) (tid : Nat) (r : RxPeer) (range : MpduRange) :
    Option RxPeer :=
  if range.status = .ok then run (rx_mpdu dup_check tid) r range.mpdus
  else some (range.mpdus.foldl discard_msdus r)

/-! ## Indications -/

/-- The flush that the indication asks for. -/
def rx_ind_flush (D : Desc) (r : RxPeer) (ind : Ind) : Option RxPeer :=
  match ind.flush with
  | none => some r
  | some (seq_num_start, seq_num_end) =>
    (if ind.tid = HTT_INVALID_TID then ol_rx_reorder_peer_cleanup D r.reorder
      else ol_rx_reorder_flush D r.reorder ind.tid seq_num_start seq_num_end .release).map
        fun p => { r with reorder := p }

/-- The handler up to the release: the flush, and the MPDUs. -/
def rx_ind_fill (D : Desc) (dup_check : Bool) (r : RxPeer) (ind : Ind) : Option RxPeer :=
  (rx_ind_flush D r ind).bind fun r => run (rx_mpdu_range dup_check ind.tid) r ind.ranges

/-- The release that the indication asks for. -/
def rx_ind_release (D : Desc) (r : RxPeer) (ind : Ind) : Option RxPeer :=
  match ind.release with
  | none => some r
  | some (seq_num_start, seq_num_end) =>
    (ol_rx_reorder_release D r.reorder ind.tid seq_num_start seq_num_end).map
      fun p => { r with reorder := p }

def Pdev.peer (s : Pdev) (ind : Ind) : Option Nat :=
  (s.peer_id_to_obj_map ind.peer_id).or s.ocb_peer

def ol_rx_indication_handler (D : Desc) (s : Pdev) (ind : Ind) : Option Pdev :=
  match s.peer ind with
  | none => some s
  | some a =>
    ((rx_ind_fill D s.dup_check (s.peers a) ind).bind fun r => rx_ind_release D r ind).map
      fun r => { s with peers := update s.peers a r }

/-- The case of `htt_t2h_msg_handler` for rx indications. -/
def htt_t2h_rx_ind (D : Desc) (s : Pdev) (ind : Ind) : Option Pdev :=
  if ind.tid ≥ OL_TXRX_NUM_EXT_TIDS then some s else ol_rx_indication_handler D s ind

/-! ## Runs -/

/-- What happens on the rx path: rx indications, the other operations on the
slots of a peer, and changes of the peer table. -/
inductive RxOp where
  | ind (ind : Ind)
  | peer (a : Nat) (op : Op)
  | map (peer_id : Nat) (a : Option Nat)
  | ocb (a : Option Nat)

def rxStep (D : Desc) (s : Pdev) : RxOp → Option Pdev
  | .ind ind => htt_t2h_rx_ind D s ind
  | .peer a op => (step D (s.peers a).reorder op).map fun p =>
    { s with peers := update s.peers a { s.peers a with reorder := p } }
  | .map peer_id a => some { s with peer_id_to_obj_map := update s.peer_id_to_obj_map peer_id a }
  | .ocb a => some { s with ocb_peer := a }

def Pdev.init (dup_check : Bool) (win : Nat → Nat → Option Nat) : Pdev where
  dup_check := dup_check
  peer_id_to_obj_map := fun _ => none
  ocb_peer := none
  peers := fun a => ⟨Peer.init (win a), fun _ => IEEE80211_SEQ_MAX, []⟩

/-! ## The contract -/

/-- The head of the slot that a release from `seq_num_start` looks at first. -/
def startHead (p : Peer) (tid seq_num_start : Nat) : Option Nat :=
  (p.slot tid (seq_num_start &&& p.mask tid)).bind fun loc => (p.elem loc).head

def Ind.valid (ind : Ind) : List Mpdu :=
  (ind.ranges.filter fun range => range.status == .ok).flatMap MpduRange.mpdus

/-- MPDUs as HTT hands them over: each has a MSDU, and no buffer is one that the
peer has been given before. -/
structure New (p : Peer) (ms : List Mpdu) : Prop where
  ne_nil : ∀ m ∈ ms, m.msdus ≠ []
  nodup : (ms.flatMap Mpdu.msdus).Nodup
  fresh : ∀ x ∈ ms.flatMap Mpdu.msdus, x ∉ p.stored

/-- When the release of `ind` is run, the head of its first slot is not NULL. -/
def ReleaseSafe (D : Desc) (s : Pdev) (ind : Ind) : Prop :=
  ∀ a seq_num_start seq_num_end r, s.peer ind = some a →
    ind.release = some (seq_num_start, seq_num_end) →
    rx_ind_fill D s.dup_check (s.peers a) ind = some r →
    (startHead r.reorder ind.tid seq_num_start).isSome = true

def flushVisits (p : Peer) (ind : Ind) : List Nat :=
  match ind.flush with
  | none => []
  | some (seq_num_start, seq_num_end) =>
    p.visited ind.tid seq_num_start (flushEnd seq_num_start seq_num_end)

/-- The peer with the `tids_last_seq` that the flush of the indication leaves: the
sequence number of the first MSDU in the slots it visits. -/
def RxPeer.flushed (D : Desc) (r : RxPeer) (ind : Ind) : RxPeer :=
  let head := (flushVisits r.reorder ind).findSome? fun idx =>
    (r.reorder.elem (r.reorder.loc ind.tid idx)).head
  { r with
    reorder := { r.reorder with
      tids_last_seq := update r.reorder.tids_last_seq ind.tid
        (flushedSeq D (r.reorder.tids_last_seq ind.tid) head) } }

/-- A MPDU that `process_reorder` puts into the slot of `seq_num_start`. -/
def fills (dup_check : Bool) (r : RxPeer) (tid seq_num_start : Nat) (m : Mpdu) : Bool :=
  !m.msdu_chaining &&
    (m.reorder_idx &&& r.reorder.mask tid) == (seq_num_start &&& r.reorder.mask tid) &&
    (OL_RX_SEQ_NUM_CHECK dup_check r tid m).1 == .ok

/-- The condition on the state before: if there is a peer and something to
release, the first slot is occupied and is not flushed, or a valid MPDU of the
message goes into it. -/
def startFilled (D : Desc) (s : Pdev) (ind : Ind) : Bool :=
  match s.peer ind, ind.release with
  | some a, some (seq_num_start, _) =>
    let r := s.peers a
    (startHead r.reorder ind.tid seq_num_start).isSome &&
        !(flushVisits r.reorder ind).contains (seq_num_start &&& r.reorder.mask ind.tid) ||
      ind.valid.any (fills s.dup_check (r.flushed D ind) ind.tid seq_num_start)
  | _, _ => true

/-! ## One MPDU -/

def taken (dup_check : Bool) (tid : Nat) (r : RxPeer) (m : Mpdu) : Bool :=
  !m.msdu_chaining && (OL_RX_SEQ_NUM_CHECK dup_check r tid m).1 == .ok

section Mpdu

variable {dup_check : Bool} {tid : Nat} {r r' : RxPeer} {S : Loc → List Nat} {lost : List Nat}

theorem taken_congr (hm : r'.reorder.mask tid = r.reorder.mask tid)
    (hl : r'.reorder.tids_last_seq tid = r.reorder.tids_last_seq tid)
    (hc : r'.tids_mcast_last_seq = r.tids_mcast_last_seq) :
    taken dup_check tid r' = taken dup_check tid r := by
  funext m
  have hcheck : (OL_RX_SEQ_NUM_CHECK dup_check r' tid m).1
      = (OL_RX_SEQ_NUM_CHECK dup_check r tid m).1 := by
    unfold OL_RX_SEQ_NUM_CHECK
    rw [hm]
    split
    · unfold ol_rx_seq_num_check ol_rx_reorder_seq_num_check
      rw [hl, hc]
      split
      · split
        · rfl
        · split <;> rfl
      · rfl
    · rfl
  rw [taken, taken, hcheck]

theorem check_reorder (m : Mpdu) : (OL_RX_SEQ_NUM_CHECK dup_check r tid m).2.reorder = r.reorder := by
  unfold OL_RX_SEQ_NUM_CHECK ol_rx_seq_num_check
  split
  · split
    · split
      · rfl
      · split <;> rfl
    · rfl
  · rfl

theorem check_failed {m : Mpdu} (h : (OL_RX_SEQ_NUM_CHECK dup_check r tid m).1 ≠ .ok) :
    (OL_RX_SEQ_NUM_CHECK dup_check r tid m).2 = r := by
  revert h
  unfold OL_RX_SEQ_NUM_CHECK ol_rx_seq_num_check
  split
  · split
    · split
      · intro _; rfl
      · split
        · intro _; rfl
        · intro h; exact absurd rfl h
    · intro _; rfl
  · intro _; rfl

theorem taken_of_mask (h : r.reorder.mask tid ≠ 0) (m : Mpdu) :
    taken dup_check tid r m = !m.msdu_chaining := by
  have hb : (r.reorder.mask tid == 0) = false := beq_false_of_ne h
  unfold taken OL_RX_SEQ_NUM_CHECK
  rw [hb, Bool.and_false]; simp

theorem inv_setSeq {p : Peer} (h : Inv p S lost) (f : Nat → Nat) :
    Inv { p with tids_last_seq := f } S lost :=
  ⟨h.slots.of_eq rfl rfl, h.windows.of_same ⟨rfl, rfl, rfl, rfl⟩, h.nodup, h.apart, h.stored,
    h.used⟩

end Mpdu

/-! ## The MPDUs of a message -/

/-- What the loops over the MPDUs `ms` do to a peer. The slots fill up with the
MPDUs that are taken, and which ones are can be told from the state before: the
sequence numbers that the checks compare with only change when a MPDU is taken,
and then the only slot of the tid is occupied. -/
structure Filled (dup_check : Bool) (tid : Nat) (ms : List Mpdu) (lost : List Nat)
    (r : RxPeer) (S : Loc → List Nat) (r' : RxPeer) (S' : Loc → List Nat) : Prop where
  inv : Inv r'.reorder S' lost
  windows : SameWindows r.reorder r'.reorder
  stored : ∀ x ∈ r'.reorder.stored, x ∈ r.reorder.stored ∨ x ∈ ms.flatMap Mpdu.msdus
  slot : ∀ i, i < r.reorder.win tid → (S' (r.reorder.loc tid i) ≠ [] ↔
    S (r.reorder.loc tid i) ≠ [] ∨
      ∃ m ∈ ms, taken dup_check tid r m = true ∧ m.reorder_idx % r.reorder.win tid = i)
  kept : (∀ m ∈ ms, taken dup_check tid r m = false) ∨ r.reorder.mask tid ≠ 0 →
    taken dup_check tid r' = taken dup_check tid r

section Fill

variable {dup_check : Bool} {tid : Nat} {r r' r'' : RxPeer} {S S' S'' : Loc → List Nat}
  {lost : List Nat} {ms ms' : List Mpdu}

theorem Filled.discard (h : Inv r.reorder S lost) (hr : r'.reorder = r.reorder)
    (hc : r'.tids_mcast_last_seq = r.tids_mcast_last_seq)
    (hms : ∀ m ∈ ms, taken dup_check tid r m = false) : Filled dup_check tid ms lost r S r' S := by
  refine ⟨by rw [hr]; exact h, by rw [hr]; exact ⟨rfl, rfl, rfl, rfl⟩, fun x hx => ?_,
    fun i _ => ⟨.inl, ?_⟩, fun _ => taken_congr (by rw [hr]) (by rw [hr]) hc⟩
  · rw [hr] at hx; exact .inl hx
  · rintro (hne | ⟨m, hm, ht, -⟩)
    · exact hne
    · rw [hms m hm] at ht; exact absurd ht (by simp)

theorem Filled.trans (h : Filled dup_check tid ms lost r S r' S')
    (h' : Filled dup_check tid ms' lost r' S' r'' S'') :
    Filled dup_check tid (ms ++ ms') lost r S r'' S'' := by
  refine ⟨h'.inv, h.windows.trans h'.windows, fun x hx => ?_, fun i hi => ?_, fun hnone => ?_⟩
  · rw [flatMap_append, mem_append]
    rcases h'.stored x hx with hx | hx
    · rcases h.stored x hx with hx | hx
      · exact .inl hx
      · exact .inr (.inl hx)
    · exact .inr (.inr hx)
  · have hslot := h'.slot i (by rw [h.windows.win]; exact hi)
    rw [h.windows.loc, h.windows.win] at hslot
    rw [hslot, h.slot i hi]
    by_cases hcase : (∀ m ∈ ms, taken dup_check tid r m = false) ∨ r.reorder.mask tid ≠ 0
    · rw [h.kept hcase]; simp only [mem_append, or_and_right, exists_or, or_assoc]
    · -- a MPDU has been taken, and there is only one slot
      rw [not_or, not_not] at hcase
      obtain ⟨hsome, hmask⟩ := hcase
      rw [not_forall] at hsome
      obtain ⟨m, hm⟩ := hsome
      rw [Classical.not_imp, Bool.not_eq_false] at hm
      have hwin : r.reorder.win tid = 1 := by unfold Peer.win; rw [hmask]
      have hidx : m.reorder_idx % r.reorder.win tid = i := by
        rw [hwin] at hi ⊢
        omega
      constructor
      · intro _; exact .inr ⟨m, mem_append_left ms' hm.1, hm.2, hidx⟩
      · intro _; exact .inl (.inr ⟨m, hm.1, hm.2, hidx⟩)
  · have hkept : taken dup_check tid r' = taken dup_check tid r := by
      refine h.kept (hnone.imp_left fun hms m hm => hms m (mem_append_left ms' hm))
    rw [← hkept]
    refine h'.kept (hnone.imp (fun hms m hm => ?_) fun hmask => ?_)
    · rw [hkept]; exact hms m (mem_append_right ms hm)
    · rw [h.windows.mask]; exact hmask

theorem New.head {p : Peer} {m : Mpdu} (h : New p (m :: ms)) :
    m.msdus ≠ [] ∧ m.msdus.Nodup ∧ ∀ x ∈ m.msdus, x ∉ p.stored := by
  have hnd := h.nodup
  rw [flatMap_cons, nodup_append] at hnd
  refine ⟨h.ne_nil m mem_cons_self, hnd.1, fun x hx => h.fresh x ?_⟩
  exact mem_append_left _ hx

theorem New.later (h : New r.reorder (ms ++ ms')) (hf : Filled dup_check tid ms lost r S r' S') :
    New r'.reorder ms' := by
  have hnd := h.nodup
  rw [flatMap_append, nodup_append] at hnd
  refine ⟨fun m hm => h.ne_nil m (mem_append_right ms hm), hnd.2.1, fun x hx hst => ?_⟩
  rcases hf.stored x hst with hst | hst
  · refine h.fresh x ?_ hst
    rw [flatMap_append]; exact mem_append_right _ hx
  · exact hnd.2.2 x hst x hx rfl

theorem New.left {p : Peer} (h : New p (ms ++ ms')) : New p ms := by
  have hnd := h.nodup
  rw [flatMap_append, nodup_append] at hnd
  refine ⟨fun m hm => h.ne_nil m (mem_append_left ms' hm), hnd.1, fun x hx => h.fresh x ?_⟩
  rw [flatMap_append]; exact mem_append_left _ hx

theorem rx_mpdu_spec (h : Inv r.reorder S lost) (ht : tid < OL_TXRX_NUM_EXT_TIDS) {m : Mpdu}
    (hnew : New r.reorder [m]) :
    ∃ r' S', rx_mpdu dup_check tid r m = some r' ∧ Filled dup_check tid [m] lost r S r' S' := by
  unfold rx_mpdu
  by_cases hch : m.msdu_chaining = true
  · rw [if_pos hch]
    refine ⟨_, S, rfl, .discard h rfl rfl fun x hx => ?_⟩
    rw [mem_singleton.mp hx, taken, hch, Bool.not_true, Bool.false_and]
  rw [if_neg hch]
  unfold process_reorder
  by_cases hok : (OL_RX_SEQ_NUM_CHECK dup_check r tid m).1 = .ok
  · rw [if_pos hok, check_reorder]
    obtain ⟨hne, hnd, hfresh⟩ := hnew.head
    obtain ⟨p, hp, hinv, hsw, -, -, hst⟩ := store_spec h ht m.reorder_idx hne hnd hfresh
    rw [hp, Option.map_some]
    have htaken : taken dup_check tid r m = true := by rw [taken, hok]; simpa using hch
    refine ⟨_, stored S (r.reorder.loc tid (m.reorder_idx % r.reorder.win tid)) m.msdus, rfl,
      ?_, ?_, fun x hx => ?_, fun i hi => ?_, fun hnone => ?_⟩
    · split
      · exact inv_setSeq hinv _
      · exact hinv
    · split
      · exact hsw.trans ⟨rfl, rfl, rfl, rfl⟩
      · exact hsw
    · have hx : x ∈ p.stored := by
        split at hx <;> exact hx
      rw [hst, mem_append] at hx; simpa using hx
    · have hw := h.windows.window tid ht
      unfold RxReorder.stored
      by_cases hi' : m.reorder_idx % r.reorder.win tid = i
      · rw [hi', update_self]
        exact ⟨fun _ => .inr ⟨m, mem_cons_self, htaken, hi'⟩,
          fun _ => append_ne_nil_of_right_ne_nil _ hne⟩
      · have hloc : r.reorder.loc tid i ≠ r.reorder.loc tid (m.reorder_idx % r.reorder.win tid) :=
          fun he => hi' (hw.loc_inj hi (Nat.mod_lt _ win_pos) he).symm
        rw [update_of_ne hloc]
        refine ⟨.inl, ?_⟩
        rintro (hne | ⟨m', hm', -, hidx⟩)
        · exact hne
        · rw [mem_singleton.mp hm'] at hidx; exact absurd hidx hi'
    · rcases hnone with hnone | hmask
      · rw [hnone m mem_cons_self] at htaken; exact absurd htaken (by simp)
      · funext x
        rw [taken_of_mask hmask, taken_of_mask]
        rw [hsw.mask, if_neg hmask, hsw.mask]; exact hmask
  · rw [if_neg hok, check_failed hok]
    refine ⟨_, S, rfl, .discard h rfl rfl fun x hx => ?_⟩
    rw [mem_singleton.mp hx, taken]; simp [hok]

theorem run_mpdus (h : Inv r.reorder S lost) (ht : tid < OL_TXRX_NUM_EXT_TIDS)
    (hnew : New r.reorder ms) :
    ∃ r' S', run (rx_mpdu dup_check tid) r ms = some r' ∧
      Filled dup_check tid ms lost r S r' S' := by
  induction ms generalizing r S with
  | nil => exact ⟨r, S, rfl, .discard h rfl rfl fun _ hm => absurd hm (by simp)⟩
  | cons m ms ih =>
    obtain ⟨r₁, S₁, hr₁, hf₁⟩ := rx_mpdu_spec h ht hnew.left
    obtain ⟨r₂, S₂, hr₂, hf₂⟩ := ih hf₁.inv (hnew.later hf₁)
    exact ⟨r₂, S₂, run_cons_eq_some.mpr ⟨r₁, hr₁, hr₂⟩, hf₁.trans hf₂⟩

theorem foldl_discard_reorder (r : RxPeer) (ms : List Mpdu) :
    (ms.foldl discard_msdus r).reorder = r.reorder ∧
      (ms.foldl discard_msdus r).tids_mcast_last_seq = r.tids_mcast_last_seq := by
  induction ms generalizing r with
  | nil => exact ⟨rfl, rfl⟩
  | cons m ms ih => exact ih (discard_msdus r m)

variable (dup_check) in
theorem run_ranges (h : Inv r.reorder S lost) (ht : tid < OL_TXRX_NUM_EXT_TIDS)
    (ranges : List MpduRange)
    (hnew : New r.reorder ((ranges.filter fun range => range.status == .ok).flatMap
      MpduRange.mpdus)) :
    ∃ r' S', run (rx_mpdu_range dup_check tid) r ranges = some r' ∧
      Filled dup_check tid ((ranges.filter fun range => range.status == .ok).flatMap
        MpduRange.mpdus) lost r S r' S' := by
  induction ranges generalizing r S with
  | nil => exact ⟨r, S, rfl, .discard h rfl rfl fun _ hm => absurd hm (by simp)⟩
  | cons range ranges ih =>
    by_cases hok : range.status = .ok
    · rw [filter_cons_of_pos (by simpa using hok), flatMap_cons] at hnew ⊢
      obtain ⟨r₁, S₁, hr₁, hf₁⟩ := run_mpdus h ht hnew.left
      obtain ⟨r₂, S₂, hr₂, hf₂⟩ := ih hf₁.inv (hnew.later hf₁)
      refine ⟨r₂, S₂, run_cons_eq_some.mpr ⟨r₁, ?_, hr₂⟩, hf₁.trans hf₂⟩
      rw [rx_mpdu_range, if_pos hok, hr₁]
    · rw [filter_cons_of_neg (by simpa using hok)] at hnew ⊢
      have hd := foldl_discard_reorder r range.mpdus
      have hf₁ : Filled dup_check tid [] lost r S (range.mpdus.foldl discard_msdus r) S :=
        .discard h hd.1 hd.2 fun _ hm => absurd hm (by simp)
      obtain ⟨r₂, S₂, hr₂, hf₂⟩ := ih hf₁.inv (New.later hnew hf₁)
      refine ⟨r₂, S₂, run_cons_eq_some.mpr ⟨_, ?_, hr₂⟩, hf₁.trans hf₂⟩
      rw [rx_mpdu_range, if_neg hok]

end Fill

/-! ## The state at the release -/

section Release

variable {dup_check : Bool} {r : RxPeer} {S : Loc → List Nat} {lost : List Nat} {D : Desc}

theorem startHead_isSome {p : Peer} {tid : Nat} (h : Inv p S lost)
    (ht : tid < OL_TXRX_NUM_EXT_TIDS) (s : Nat) :
    (startHead p tid s).isSome = true ↔ S (p.loc tid (s % p.win tid)) ≠ [] := by
  have hw := h.windows.window tid ht
  unfold startHead
  rw [hw.and_mask, hw.slot ht (Nat.mod_lt _ win_pos), Option.bind_some, h.slots.head, isSome_head?]

variable (dup_check) in
theorem rx_ind_flush_spec (h : Inv r.reorder S lost) {ind : Ind}
    (ht : ind.tid < OL_TXRX_NUM_EXT_TIDS) :
    ∃ r', rx_ind_flush D r ind = some r' ∧
      Inv r'.reorder (cleared S ((flushVisits r.reorder ind).map (r.reorder.loc ind.tid))) lost ∧
      SameWindows r.reorder r'.reorder ∧ r'.reorder.stored = r.reorder.stored ∧
      taken dup_check ind.tid r' = taken dup_check ind.tid (r.flushed D ind) := by
  unfold rx_ind_flush RxPeer.flushed flushVisits
  cases hfl : ind.flush with
  | none =>
    have hclear : cleared S [] = S := rfl
    refine ⟨r, rfl, by rw [map_nil, hclear]; exact h, ⟨rfl, rfl, rfl, rfl⟩, rfl, ?_⟩
    refine taken_congr rfl ?_ rfl
    dsimp only
    rw [update_self]; rfl
  | some range =>
    obtain ⟨s, e⟩ := range
    dsimp only
    have hne : ind.tid ≠ HTT_INVALID_TID := fun he => absurd (he ▸ ht) (by decide)
    obtain ⟨p, hp, hinv, ho, hseq⟩ := flush_spec (D := D) h ht s e .release
    rw [if_neg hne, hp, Option.map_some]
    refine ⟨_, rfl, hinv, ho.windows, ho.stored, taken_congr (ho.windows.mask _) ?_ rfl⟩
    refine hseq.trans ?_
    rw [head?_flatMap, findSome?_map]
    simp only [Function.comp_def, ← h.slots.head]
    rw [update_self]

theorem rx_ind_fill_spec (h : Inv r.reorder S lost) {ind : Ind}
    (ht : ind.tid < OL_TXRX_NUM_EXT_TIDS) (hnew : New r.reorder ind.valid) :
    ∃ r' S', rx_ind_fill D dup_check r ind = some r' ∧ Inv r'.reorder S' lost ∧
      SameWindows r.reorder r'.reorder ∧
      ∀ i, i < r.reorder.win ind.tid → (S' (r.reorder.loc ind.tid i) ≠ [] ↔
        (S (r.reorder.loc ind.tid i) ≠ [] ∧ i ∉ flushVisits r.reorder ind) ∨
          ∃ m ∈ ind.valid, taken dup_check ind.tid (r.flushed D ind) m = true ∧
            m.reorder_idx % r.reorder.win ind.tid = i) := by
  obtain ⟨r₁, hr₁, hinv₁, hsw, hst, htaken⟩ :=
    rx_ind_flush_spec dup_check (D := D) h ht
  have hnew₁ : New r₁.reorder ind.valid := by
    refine ⟨hnew.ne_nil, hnew.nodup, fun x hx => ?_⟩
    rw [hst]; exact hnew.fresh x hx
  obtain ⟨r', S', hr', hf⟩ := run_ranges dup_check hinv₁ ht ind.ranges hnew₁
  refine ⟨r', S', ?_, hf.inv, hsw.trans hf.windows, fun i hi => ?_⟩
  · rw [rx_ind_fill, hr₁, Option.bind_some, hr']
  · have hslot := hf.slot i (by rw [hsw.win]; exact hi)
    rw [hsw.loc, hsw.win, htaken] at hslot
    have hcleared : cleared S ((flushVisits r.reorder ind).map (r.reorder.loc ind.tid))
        (r.reorder.loc ind.tid i) ≠ [] ↔
          S (r.reorder.loc ind.tid i) ≠ [] ∧ i ∉ flushVisits r.reorder ind := by
      have hmem : r.reorder.loc ind.tid i ∈
          (flushVisits r.reorder ind).map (r.reorder.loc ind.tid) ↔
            i ∈ flushVisits r.reorder ind := by
        refine ⟨fun hm => ?_, mem_map_of_mem⟩
        obtain ⟨j, hj, hloc⟩ := mem_map.mp hm
        have hjlt : j < r.reorder.win ind.tid := by
          unfold flushVisits at hj
          split at hj
          · exact absurd hj (by simp)
          · exact Window.visited_lt _ _ j hj
        rwa [← (h.windows.window ind.tid ht).loc_inj hjlt hi hloc]
      unfold cleared
      by_cases hv : i ∈ flushVisits r.reorder ind
      · rw [if_pos (hmem.mpr hv)]; simp [hv]
      · rw [if_neg (mt hmem.mp hv)]; simp [hv]
    rw [hslot, hcleared]; rfl

end Release

/-! ## Runs -/

section Runs

variable {D : Desc} {s s' : Pdev}

def PdevInv (s : Pdev) : Prop := ∀ a, ∃ S lost, Inv (s.peers a).reorder S lost

theorem PdevInv.update (h : PdevInv s) (a : Nat) {r : RxPeer} {S : Loc → List Nat}
    {lost : List Nat} (hr : Inv r.reorder S lost) :
    PdevInv { s with peers := update s.peers a r } := by
  intro b
  by_cases hb : b = a
  · rw [hb]
    dsimp only
    rw [update_self]; exact ⟨S, lost, hr⟩
  · dsimp only
    rw [update_of_ne hb]; exact h b

theorem rx_mpdu_inv {dup_check : Bool} {tid : Nat} {r r' : RxPeer} {m : Mpdu}
    (h : ∃ S lost, Inv r.reorder S lost) (hs : rx_mpdu dup_check tid r m = some r') :
    ∃ S lost, Inv r'.reorder S lost := by
  unfold rx_mpdu process_reorder at hs
  dsimp only at hs
  split at hs
  · cases hs; exact h
  · split at hs
    · rw [check_reorder] at hs
      obtain ⟨p, hp, rfl⟩ := Option.map_eq_some_iff.mp hs
      obtain ⟨S, lost, hi⟩ := h
      obtain ⟨S', lost', hi', -⟩ := step_inv (D := plainDesc) (e := .store _ _ _) hi hp
      refine ⟨S', lost', ?_⟩
      split
      · exact inv_setSeq hi' _
      · exact hi'
    · cases hs
      dsimp only [discard_msdus]
      rw [check_reorder]; exact h

theorem rx_mpdu_range_inv {dup_check : Bool} {tid : Nat} {r r' : RxPeer} {range : MpduRange}
    (h : ∃ S lost, Inv r.reorder S lost) (hs : rx_mpdu_range dup_check tid r range = some r') :
    ∃ S lost, Inv r'.reorder S lost := by
  unfold rx_mpdu_range at hs
  split at hs
  · exact run_invariant (I := fun r : RxPeer => ∃ S lost, Inv r.reorder S lost)
      (fun _ _ _ hi hst => rx_mpdu_inv hi hst) h hs
  · cases hs
    rw [(foldl_discard_reorder r range.mpdus).1]; exact h

theorem rx_ind_inv {ind : Ind} (h : PdevInv s) (hs : htt_t2h_rx_ind D s ind = some s') :
    PdevInv s' := by
  unfold htt_t2h_rx_ind ol_rx_indication_handler at hs
  split at hs
  · cases hs; exact h
  next ht =>
  split at hs
  · cases hs; exact h
  next a ha =>
  obtain ⟨r', hr', rfl⟩ := Option.map_eq_some_iff.mp hs
  obtain ⟨r₁, hfill, hrel⟩ := Option.bind_eq_some_iff.mp hr'
  obtain ⟨r₀, hflush, hrun⟩ := Option.bind_eq_some_iff.mp hfill
  obtain ⟨S, lost, hi⟩ := h a
  obtain ⟨r₀', hr₀', hi₀, -⟩ := rx_ind_flush_spec true (D := D) hi (not_le.mp ht)
  rw [hr₀'] at hflush
  cases hflush
  obtain ⟨S₁, lost₁, hi₁⟩ := run_invariant
    (I := fun r : RxPeer => ∃ S lost, Inv r.reorder S lost)
    (fun _ _ _ hi hst => rx_mpdu_range_inv hi hst) ⟨_, _, hi₀⟩ hrun
  unfold rx_ind_release at hrel
  split at hrel
  · cases hrel; exact h.update a hi₁
  · obtain ⟨p, hp, rfl⟩ := Option.map_eq_some_iff.mp hrel
    obtain ⟨S₂, lost₂, hi₂, -⟩ := step_inv (D := D) (e := .release _ _ _) hi₁ hp
    exact h.update a (r := { r₁ with reorder := p }) hi₂

theorem rxStep_inv {e : RxOp} (h : PdevInv s) (hs : rxStep D s e = some s') : PdevInv s' := by
  cases e with
  | ind ind => exact rx_ind_inv h hs
  | peer a op =>
    obtain ⟨p, hp, rfl⟩ := Option.map_eq_some_iff.mp hs
    obtain ⟨S, lost, hi⟩ := h a
    obtain ⟨S', lost', hi', -⟩ := step_inv hi hp
    exact h.update a (r := { s.peers a with reorder := p }) hi'
  | map peer_id a => cases hs; exact h
  | ocb a => cases hs; exact h

theorem pdev_init_inv (dup_check : Bool) (win : Nat → Nat → Option Nat) :
    PdevInv (Pdev.init dup_check win) :=
  fun a => ⟨_, _, init_inv (win a)⟩

end Runs

/-- **Rx indications.** In every state of every run, every indication gets to its
release, and the first slot of the release is occupied there exactly if
`startFilled` holds of the state before. -/
theorem release_start_filled (D : Desc) (dup_check : Bool) (win : Nat → Nat → Option Nat)
    (es : List RxOp) (s : Pdev) (h : run (rxStep D) (Pdev.init dup_check win) es = some s)
    (ind : Ind) (ht : ind.tid < OL_TXRX_NUM_EXT_TIDS)
    (hnew : ∀ a, s.peer ind = some a → New (s.peers a).reorder ind.valid) :
    (∀ a, s.peer ind = some a → ∃ r, rx_ind_fill D s.dup_check (s.peers a) ind = some r) ∧
      (ReleaseSafe D s ind ↔ startFilled D s ind = true) := by
  have hinv : PdevInv s :=
    run_invariant (fun _ _ _ hi hst => rxStep_inv hi hst) (pdev_init_inv dup_check win) h
  constructor
  · intro a ha
    obtain ⟨S, lost, hi⟩ := hinv a
    obtain ⟨r, S', hr, -⟩ := rx_ind_fill_spec (D := D) hi ht (hnew a ha)
    exact ⟨r, hr⟩
  cases ha : s.peer ind with
  | none => unfold ReleaseSafe startFilled; simp [ha]
  | some a =>
  cases hrel : ind.release with
  | none => unfold ReleaseSafe startFilled; simp [ha, hrel]
  | some range =>
  obtain ⟨st, en⟩ := range
  obtain ⟨S, lost, hi⟩ := hinv a
  obtain ⟨r, S', hr, hi', hsw, hslot⟩ := rx_ind_fill_spec (D := D) hi ht (hnew a ha)
  have hw := hi.windows.window ind.tid ht
  have hsafe : ReleaseSafe D s ind ↔ (startHead r.reorder ind.tid st).isSome = true := by
    constructor
    · intro hsafe; exact hsafe a st en r ha hrel hr
    · intro hsome a' st' en' r' ha' hrel' hr'
      obtain rfl := Option.some.inj (ha.symm.trans ha')
      obtain ⟨rfl, rfl⟩ := Prod.mk.inj (Option.some.inj (hrel.symm.trans hrel'))
      obtain rfl := Option.some.inj (hr.symm.trans hr')
      exact hsome
  rw [hsafe, startHead_isSome hi' ht, hsw.loc, hsw.win, hslot _ (Nat.mod_lt _ win_pos)]
  unfold startFilled
  rw [ha, hrel]
  simp only [Bool.or_eq_true, Bool.and_eq_true, Bool.not_eq_true', any_eq_true,
    startHead_isSome hi ht, contains_eq_mem, decide_eq_false_iff_not]
  refine or_congr ?_ (exists_congr fun m => and_congr_right fun _ => ?_)
  · rw [hw.and_mask]
  · unfold fills taken
    have hmask : (RxPeer.flushed D (s.peers a) ind).reorder.mask ind.tid
        = (s.peers a).reorder.mask ind.tid := rfl
    rw [hmask, hw.and_mask, hw.and_mask]
    simp only [Bool.and_eq_true, beq_iff_eq]
    tauto

/-- Descriptors of unfragmented MSDUs, whose sequence number is their name. -/
def seqDesc : Desc := ⟨fun msdu => msdu, fun _ => false⟩

def oneMpdu (msdu seq_num : Nat) : Ind where
  peer_id := 7
  tid := 0
  flush := none
  release := some (0, 1)
  ranges := [⟨.ok, [⟨[msdu], false, 0, seq_num, 0, false⟩]⟩]

def afterFive : List RxOp := [.map 7 (some 0), .ind (oneMpdu 5 5)]

/-- The next MPDU has the sequence number 6. -/
theorem release_start_filled_six :
    ∃ s, run (rxStep seqDesc) (Pdev.init true fun _ _ => none) afterFive = some s ∧
      ReleaseSafe seqDesc s (oneMpdu 6 6) := by
  refine exists_of_tested (fun s => s.peer (oneMpdu 6 6) = some 0 ∧
      (s.peers 0).reorder.stored = [5] ∧ startFilled seqDesc s (oneMpdu 6 6) = true)
    (by decide +kernel) fun s hs ⟨hpeer, hst, hfilled⟩ => ?_
  refine (release_start_filled seqDesc true _ _ s hs (oneMpdu 6 6) (by decide) fun a ha => ?_).2.mpr
    hfilled
  obtain rfl := Option.some.inj (hpeer.symm.trans ha)
  exact ⟨by decide, by decide, by rw [hst]; decide⟩

/-- The MPDU with the sequence number 5 is sent once more. -/
theorem duplicate_released :
    ∃ s, run (rxStep seqDesc) (Pdev.init true fun _ _ => none) afterFive = some s ∧
      New (s.peers 0).reorder (oneMpdu 6 5).valid ∧ s.peer (oneMpdu 6 5) = some 0 ∧
      ¬ ReleaseSafe seqDesc s (oneMpdu 6 5) ∧ htt_t2h_rx_ind seqDesc s (oneMpdu 6 5) = none := by
  refine exists_of_tested (fun s => s.peer (oneMpdu 6 5) = some 0 ∧
      (s.peers 0).reorder.stored = [5] ∧
      (rx_ind_fill seqDesc s.dup_check (s.peers 0) (oneMpdu 6 5)).map (fun r : RxPeer =>
        (startHead r.reorder 0 0).isSome) = some false ∧
      (htt_t2h_rx_ind seqDesc s (oneMpdu 6 5)).isNone)
    (by decide +kernel) fun s hs ⟨hpeer, hst, hfill, hnone⟩ => ?_
  obtain ⟨r, hr, hempty⟩ := Option.map_eq_some_iff.mp hfill
  refine ⟨⟨by decide, by decide, by rw [hst]; decide⟩, hpeer, fun hsafe => ?_,
    Option.isNone_iff_eq_none.mp hnone⟩
  have hsome := hsafe 0 0 1 r hpeer rfl hr
  change (startHead r.reorder 0 0).isSome = true at hsome
  rw [hempty] at hsome; exact absurd hsome (by simp)

end Qcacld.RxIndication
