/-
Flow control of bad peers on high-latency systems: `ol_tx_queue.c`.

`paused` counts by how much the calls that pause the queues of a peer, but that of management, are
more than those that unpause them. `applied` has the entries of reports that were acted on, the last
one first. The code does not have these two. What the scheduler does when the timer calls it is not
here.
-/
import Mathlib.Data.List.Induction
import Mathlib.Data.List.Nodup
import Qcacld.Lib.SwapRemove
import Mathlib.Data.List.TakeWhile

set_option autoImplicit false

namespace Qcacld.TxPeerBal

open Function

section

section

def MAX_NO_PEERS_IN_LIMIT : Nat := 2 * 10 + 2

def TXRX_IEEE11_AC : Nat := 3

inductive TimerState where
  | ol_tx_peer_bal_timer_disable
  | ol_tx_peer_bal_timer_active
  | ol_tx_peer_bal_timer_inactive
  deriving DecidableEq

structure LimitPeer where
  limit_flag : Bool
  peer_id : UInt16
  limit : UInt16
  deriving DecidableEq

structure Threshold where
  tput_thresh : UInt32
  tx_limit : UInt32

structure Peer where
  tx_limit_flag : Bool
  tx_limit : UInt16
  tx_pause_flag : Bool

structure RateReport where
  id : UInt16
  phy : Fin 16
  rate : UInt32
  deriving DecidableEq

/-- `pdev->tx_peer_bal`, and the peers. -/
structure Pdev (ι : Type) where
  enabled : Bool
  peer_num : Nat
  limit_list : Nat → LimitPeer
  peer_bal_timer_state : TimerState
  ctl_thresh : Nat → Threshold
  find : UInt16 → Option ι
  peer : ι → Peer
  paused : ι → Int
  applied : List RateReport

variable {ι : Type} [DecidableEq ι]

def Pdev.listed (s : Pdev ι) : List LimitPeer := (List.range s.peer_num).map s.limit_list

def Pdev.setPeer (s : Pdev ι) (p : ι) (peer : Peer) : Pdev ι :=
  { s with peer := update s.peer p peer }

/-! ## The limit list -/

def Pdev.findListed (s : Pdev ι) (peer_id : UInt16) : Option Nat :=
  (List.range s.peer_num).find? fun i => (s.limit_list i).peer_id = peer_id

def startTimer (s : Pdev ι) : Pdev ι :=
  if s.peer_bal_timer_state = .ol_tx_peer_bal_timer_inactive then
    { s with peer_bal_timer_state := .ol_tx_peer_bal_timer_active }
  else s

def ol_txrx_peer_bal_add_limit_peer (s : Pdev ι) (peer_id peer_limit : UInt16) : Pdev ι :=
  match s.findListed peer_id with
  | some _ => startTimer s
  | none =>
    if s.peer_num ≥ MAX_NO_PEERS_IN_LIMIT then s
    else
      let s := { s with
        limit_list := update s.limit_list s.peer_num ⟨true, peer_id, peer_limit⟩
        peer_num := s.peer_num + 1 }
      let s := match s.find peer_id with
        | some p => s.setPeer p
            { s.peer p with tx_limit_flag := true, tx_limit := peer_limit }
        | none => s
      startTimer s

def stopTimer (s : Pdev ι) : Pdev ι :=
  if s.peer_num = 0 then { s with peer_bal_timer_state := .ol_tx_peer_bal_timer_inactive } else s

def ol_txrx_peer_bal_remove_limit_peer (s : Pdev ι) (peer_id : UInt16) : Pdev ι :=
  match s.findListed peer_id with
  | some i =>
    let s := { s with
      limit_list := update s.limit_list i (s.limit_list (s.peer_num - 1))
      peer_num := s.peer_num - 1 }
    let s := match s.find peer_id with
      | some p => s.setPeer p { s.peer p with tx_limit_flag := false }
      | none => s
    stopTimer s
  | none => stopTimer s

/-! ## The timer -/

def balEntry (s : Pdev ι) (i : Nat) : Pdev ι :=
  let e := s.limit_list i
  if e.limit_flag then
    match s.find e.peer_id with
    | some p => s.setPeer p { s.peer p with tx_limit := e.limit }
    | none => ol_txrx_peer_bal_remove_limit_peer s e.peer_id
  else s

def balLoop : Nat → Nat → Pdev ι → Pdev ι
  | 0, _, s => s
  | n + 1, i, s => if i < s.peer_num then balLoop n (i + 1) (balEntry s i) else s

/-- What the timer does before it calls the scheduler and is started again, which it is if a peer is
listed. The list does not grow, so that there are no more rounds than peers. -/
def ol_tx_pdev_peer_bal_timer (s : Pdev ι) : Pdev ι := balLoop s.peer_num 0 s

/-! ## Reports -/

def ol_txrx_peer_pause_but_no_mgmt_q (s : Pdev ι) (p : ι) : Pdev ι :=
  { s with paused := update s.paused p (s.paused p + 1) }

def ol_txrx_peer_unpause_but_no_mgmt_q (s : Pdev ι) (p : ι) : Pdev ι :=
  { s with paused := update s.paused p (s.paused p - 1) }

/-- The limit for a peer with this entry, or zero. -/
def Pdev.peerLimit (s : Pdev ι) (p : ι) (r : RateReport) : UInt16 :=
  let t := s.ctl_thresh r.phy
  if ((s.peer p).tx_pause_flag || (s.peer p).tx_limit_flag) = true ∧ r.rate ≠ 0 ∧
      r.rate < t.tput_thresh then t.tx_limit.toUInt16
  else 0

def Pdev.limitPeer (s : Pdev ι) (p : ι) (r : RateReport) : Pdev ι :=
  if s.peerLimit p r ≠ 0 then ol_txrx_peer_bal_add_limit_peer s r.id (s.peerLimit p r)
  else if s.peer_num ≠ 0 then ol_txrx_peer_bal_remove_limit_peer s r.id
  else s

def Pdev.pausePeer (s : Pdev ι) (p : ι) (r : RateReport) : Pdev ι :=
  if r.rate = 0 ∧ (s.peer p).tx_pause_flag = false then
    ol_txrx_peer_pause_but_no_mgmt_q (s.setPeer p { s.peer p with tx_pause_flag := true }) p
  else if (s.peer p).tx_pause_flag then
    ol_txrx_peer_unpause_but_no_mgmt_q (s.setPeer p { s.peer p with tx_pause_flag := false }) p
  else s

def Pdev.applyEntry (s : Pdev ι) (r : RateReport) : Pdev ι :=
  let s := { s with applied := r :: s.applied }
  match s.find r.id with
  | some p => (s.limitPeer p r).pausePeer p r
  | none => ol_txrx_peer_bal_remove_limit_peer s r.id

def reportLoop : Nat → List RateReport → Pdev ι → Pdev ι
  | 0, _, s => s
  | _ + 1, [], s => s
  | n + 1, r :: peer_link_status, s =>
    if r.phy.val > TXRX_IEEE11_AC then reportLoop n (r :: peer_link_status) s
    else reportLoop n peer_link_status (s.applyEntry r)

/-- A report of `peer_num` entries. -/
def ol_txrx_peer_link_status_handler (s : Pdev ι) (peer_link_status : List RateReport) : Pdev ι :=
  let peer_num := peer_link_status.length
  if s.enabled then
    if peer_num > MAX_NO_PEERS_IN_LIMIT then s
    else reportLoop peer_num peer_link_status s
  else s

end

open List Option
open Lib

/-! The timer: for each entry that is gone it leaves one at the back out (`visited`). -/

variable {ι : Type} {s : Pdev ι} {front t : List LimitPeer} {e : LimitPeer}

/-! ## The list -/

def Pdev.ids (s : Pdev ι) : List UInt16 := s.listed.map (·.peer_id)

theorem length_listed (s : Pdev ι) : s.listed.length = s.peer_num := by
  rw [Pdev.listed, length_map, length_range]

theorem getElem?_listed {i : Nat} (hi : i < s.peer_num) : s.listed[i]? = some (s.limit_list i) := by
  rw [Pdev.listed, getElem?_map, getElem?_range hi]; rfl

theorem mem_listed : e ∈ s.listed ↔ ∃ i, i < s.peer_num ∧ s.limit_list i = e := by
  rw [Pdev.listed, List.mem_map]; simp only [mem_range]

theorem limit_list_front (h : s.listed = front ++ e :: t) : s.limit_list front.length = e := by
  have hlen := length_listed s
  rw [h, length_append, length_cons] at hlen
  have hget := getElem?_listed (s := s) (i := front.length) (by omega)
  rw [h, getElem?_append_right (Nat.le_refl _), Nat.sub_self, getElem?_cons_zero] at hget
  exact (some.inj hget).symm

theorem findListed_eq_none {id : UInt16} : s.findListed id = none ↔ id ∉ s.ids := by
  rw [Pdev.findListed, find?_eq_none, Pdev.ids, List.mem_map]
  simp only [mem_listed, mem_range, decide_eq_true_eq]
  constructor
  · rintro h ⟨e, ⟨i, hi, rfl⟩, hid⟩; exact h i hi hid
  · intro h i hi hid; exact h ⟨_, ⟨i, hi, rfl⟩, hid⟩

theorem findListed_front (hnd : s.ids.Nodup) (h : s.listed = front ++ e :: t) :
    s.findListed e.peer_id = some front.length := by
  have hlen := length_listed s
  rw [h, length_append, length_cons] at hlen
  have hids : s.ids = front.map (·.peer_id) ++ e.peer_id :: t.map (·.peer_id) := by
    rw [Pdev.ids, h, map_append, map_cons]
  rw [Pdev.findListed, find?_range_eq_some]
  refine ⟨?_, ?_, ?_⟩
  · rw [limit_list_front h, decide_eq_true_eq]
  · rw [mem_range]; omega
  · intro j hj
    rw [Bool.not_eq_true', decide_eq_false_iff_not]
    intro hid
    have hget := getElem?_listed (s := s) (i := j) (by omega)
    rw [h, getElem?_append_left hj] at hget
    have hmem : e.peer_id ∈ front.map (·.peer_id) := by
      rw [← hid]; exact mem_map_of_mem (mem_of_getElem? hget)
    rw [hids] at hnd; exact List.disjoint_of_nodup_append hnd hmem mem_cons_self

theorem map_update_range {α : Type} (f : Nat → α) (i n : Nat) (a : α) :
    (range n).map (update f i a) = ((range n).map f).set i a := by
  apply ext_getElem?
  intro j
  rw [getElem?_set, getElem?_map, getElem?_map, length_map, length_range]
  by_cases hj : j < n
  · rw [getElem?_range hj]
    by_cases hij : i = j
    · subst hij; rw [if_pos rfl, if_pos hj, map_some, update_self]
    · rw [if_neg hij, map_some, map_some, update_of_ne (Ne.symm hij)]
  · rw [getElem?_eq_none (by rw [length_range]; omega), map_none, map_none]
    split
    · rw [if_neg (by omega)]
    · rfl

theorem listed_removed (h : s.listed = front ++ e :: t) :
    (range (s.peer_num - 1)).map
        (update s.limit_list front.length (s.limit_list (s.peer_num - 1))) =
      front ++ closeUp t := by
  have hlen := length_listed s
  rw [h, length_append, length_cons] at hlen
  obtain ⟨m, hm⟩ : ∃ m, s.peer_num = m + 1 := ⟨s.peer_num - 1, by omega⟩
  have hlast : s.listed.getLast? = some (s.limit_list m) := by
    rw [Pdev.listed, hm, range_succ, map_append, map_singleton, getLast?_concat]
  have hdrop : ((range (m + 1)).map
      (update s.limit_list front.length (s.limit_list m))).dropLast =
        (range m).map (update s.limit_list front.length (s.limit_list m)) := by
    rw [range_succ, map_append, map_singleton, dropLast_concat]
  rw [← swapRemove_eq front t e, ← h, swapRemove, hlast, hm, Nat.add_sub_cancel, ← hdrop,
    map_update_range, ← hm]
  rfl

/-! ## One entry -/

theorem stopTimer_eq (s : Pdev ι) :
    stopTimer s = { s with
      peer_bal_timer_state :=
        if s.peer_num = 0 then .ol_tx_peer_bal_timer_inactive else s.peer_bal_timer_state } := by
  rw [stopTimer]
  split <;> rfl

section Loop

variable [DecidableEq ι]

theorem remove_eq (hnd : s.ids.Nodup) (h : s.listed = front ++ e :: t) :
    (ol_txrx_peer_bal_remove_limit_peer s e.peer_id).listed = front ++ closeUp t ∧
      (ol_txrx_peer_bal_remove_limit_peer s e.peer_id).find = s.find ∧
      (s.find e.peer_id = none →
        (ol_txrx_peer_bal_remove_limit_peer s e.peer_id).peer = s.peer) := by
  rw [ol_txrx_peer_bal_remove_limit_peer, findListed_front hnd h]
  dsimp only
  rw [stopTimer_eq]
  cases hfind : s.find e.peer_id with
  | none => exact ⟨listed_removed h, rfl, fun _ => rfl⟩
  | some p => exact ⟨listed_removed h, rfl, nofun⟩

def gone (find : UInt16 → Option ι) (e : LimitPeer) : Bool :=
  e.limit_flag && (find e.peer_id).isNone

def settle (find : UInt16 → Option ι) (peer : ι → Peer) (e : LimitPeer) : ι → Peer :=
  if e.limit_flag then
    match find e.peer_id with
    | some p => update peer p { peer p with tx_limit := e.limit }
    | none => peer
  else peer

theorem balEntry_spec (hnd : s.ids.Nodup) (h : s.listed = front ++ e :: t) :
    (balEntry s front.length).listed =
        (if gone s.find e then front ++ closeUp t else front ++ e :: t) ∧
      (balEntry s front.length).peer = settle s.find s.peer e ∧
      (balEntry s front.length).find = s.find := by
  rw [balEntry, limit_list_front h, gone, settle]
  cases e.limit_flag with
  | true =>
    cases hfind : s.find e.peer_id with
    | some p => exact ⟨h, rfl, rfl⟩
    | none =>
      obtain ⟨hlisted, hsame, hpeer⟩ := remove_eq hnd h
      exact ⟨hlisted, hpeer hfind, hsame⟩
  | false => exact ⟨h, rfl, rfl⟩

theorem balEntry_nodup (hnd : s.ids.Nodup) (h : s.listed = front ++ e :: t) :
    (balEntry s front.length).ids.Nodup := by
  have hlisted := (balEntry_spec hnd h).1
  rw [Pdev.ids, h] at hnd
  rw [Pdev.ids, hlisted]
  split
  · -- the others, in another order
    have hperm := (((closeUp_perm t).append_left front).map (·.peer_id)).nodup_iff
    rw [hperm]; exact Nodup.sublist (((sublist_cons_self e t).append_left front).map _) hnd
  · exact hnd

/-! ## The loop -/

theorem balLoop_spec (n : Nat) (hnd : s.ids.Nodup) (h : s.listed = front ++ t) (hn : t.length ≤ n) :
    (balLoop n front.length s).listed = front ++ swept (gone s.find) n t ∧
      (balLoop n front.length s).peer =
        (visited (gone s.find) n t).foldl (settle s.find) s.peer ∧
      (balLoop n front.length s).find = s.find := by
  induction n generalizing s front t with
  | zero => exact ⟨h, rfl, rfl⟩
  | succ n ih =>
    have hlen := length_listed s
    rw [h, length_append] at hlen
    rw [balLoop]
    cases t with
    | nil =>
      rw [if_neg (by rw [length_nil] at hlen; omega)]
      exact ⟨h, rfl, rfl⟩
    | cons e t =>
      rw [length_cons] at hn hlen
      rw [if_pos (by omega)]
      obtain ⟨hlisted, hpeer, hfind⟩ := balEntry_spec hnd h
      have hnd' := balEntry_nodup hnd h
      have hnext : front.length + 1 = (front ++ [e]).length := by
        rw [length_append, length_singleton]
      rw [visited, foldl_cons, ← hpeer]
      cases hgone : gone s.find e with
      | true =>
        rw [hgone, if_pos rfl] at hlisted
        rw [if_pos rfl, ← hfind]
        rcases eq_nil_or_concat' t with rfl | ⟨mid, z, rfl⟩
        · -- it was the last one, and the index is behind the list
          have hend : (balEntry s front.length).listed = front ++ [] := hlisted
          have hlen' := length_listed (balEntry s front.length)
          rw [hend, append_nil] at hlen'
          have hstop : balLoop n (front.length + 1) (balEntry s front.length) =
              balEntry s front.length := by
            cases n with
            | zero => rfl
            | succ n => rw [balLoop, if_neg (by omega)]
          have hnone : visited (gone (balEntry s front.length).find) n
              ([] : List LimitPeer).dropLast = [] := by
            cases n with
            | zero => rfl
            | succ n => rfl
          rw [hstop, hnone, hend, hfind, swept_gone_nil hgone]; exact ⟨rfl, rfl, rfl⟩
        · -- the index after it is that of the element behind the moved one
          rw [closeUp_concat] at hlisted
          have hsplit : (balEntry s front.length).listed = (front ++ [z]) ++ mid := by
            rw [hlisted, append_assoc, singleton_append]
          have hlast : front.length + 1 = (front ++ [z]).length := by
            rw [length_append, length_singleton]
          rw [length_append, length_singleton] at hn
          obtain ⟨h₁, h₂, h₃⟩ := ih hnd' hsplit (by omega)
          rw [dropLast_concat, hlast]
          refine ⟨?_, h₂, h₃⟩
          rw [h₁, hfind, swept_gone_concat hgone, append_assoc, singleton_append]
      | false =>
        rw [hgone, if_neg Bool.false_ne_true] at hlisted
        rw [if_neg Bool.false_ne_true, swept_stays hgone, hnext, ← hfind]
        have hsplit : (balEntry s front.length).listed = (front ++ [e]) ++ t := by
          rw [hlisted, append_assoc, singleton_append]
        obtain ⟨h₁, h₂, h₃⟩ := ih hnd' hsplit (by omega)
        refine ⟨?_, h₂, h₃⟩
        rw [h₁, append_assoc, singleton_append]

/-! ## What the timer keeps -/

def Pdev.reached (s : Pdev ι) : List LimitPeer := visited (gone s.find) s.peer_num s.listed

def lastLimit (find : UInt16 → Option ι) (l : List LimitPeer) (p : ι) : Option UInt16 :=
  (l.filter fun e => e.limit_flag && decide (find e.peer_id = some p)).getLast?.map (·.limit)

theorem foldl_settle (find : UInt16 → Option ι) (peer : ι → Peer) (l : List LimitPeer) (p : ι) :
    l.foldl (settle find) peer p =
      { peer p with tx_limit := (lastLimit find l p).getD (peer p).tx_limit } := by
  induction l using List.reverseRecOn with
  | nil => rfl
  | append_singleton l e ih =>
    rw [foldl_append, foldl_cons, foldl_nil, settle, lastLimit, filter_append]
    by_cases hflag : e.limit_flag = true
    · rw [if_pos hflag]
      cases hfind : find e.peer_id with
      | none =>
        dsimp only
        rw [ih, filter_cons_of_neg (by rw [hfind]; simp), filter_nil, append_nil]
        rfl
      | some q =>
        dsimp only
        by_cases hpq : p = q
        · subst hpq
          rw [update_self, filter_cons_of_pos (by rw [hfind, hflag]; simp), filter_nil,
            getLast?_concat, ih]
          rfl
        · rw [update_of_ne hpq, ih, filter_cons_of_neg, filter_nil, append_nil]
          · rfl
          · rw [hfind, Bool.and_eq_true, decide_eq_true_eq, some.injEq]
            exact fun h => hpq h.2.symm
    · rw [if_neg hflag, ih, filter_cons_of_neg (by simp [hflag]), filter_nil, append_nil]; rfl

theorem timer_spec (hnd : s.ids.Nodup) :
    (ol_tx_pdev_peer_bal_timer s).listed = swept (gone s.find) s.peer_num s.listed ∧
      (ol_tx_pdev_peer_bal_timer s).peer = s.reached.foldl (settle s.find) s.peer :=
  have hnil : s.listed = [] ++ s.listed := rfl
  have h := balLoop_spec s.peer_num hnd hnil (Nat.le_of_eq (length_listed s))
  ⟨h.1, h.2.1⟩

omit [DecidableEq ι] in
theorem reached_append (s : Pdev ι) : s.reached ++ s.listed.drop s.reached.length = s.listed := by
  have hprefix : visited (gone s.find) s.peer_num s.listed <+: s.listed := visited_start _ _
  have htake := prefix_iff_eq_take.mp hprefix
  rw [Pdev.reached]
  conv_lhs => rw [htake]
  rw [length_take, Nat.min_eq_left hprefix.length_le, take_append_drop]

theorem mem_timer (hnd : s.ids.Nodup) :
    e ∈ (ol_tx_pdev_peer_bal_timer s).listed ↔
      e ∈ s.reached ∧ gone s.find e = false ∨ e ∈ s.listed.drop s.reached.length := by
  rw [(timer_spec hnd).1]; exact mem_swept (Nat.le_of_eq (length_listed s))

structure Kept (s s' : Pdev ι) : Prop where
  /-- The peers that are there get their frames. -/
  reset : ∀ e ∈ s.listed, ∀ p, s.find e.peer_id = some p → (s'.peer p).tx_limit = e.limit
  noneGone : ∀ e ∈ s'.listed, s.find e.peer_id ≠ none
  unique : s'.ids.Nodup
  counted : s'.peer_num = s'.listed.length ∧ s'.peer_num ≤ MAX_NO_PEERS_IN_LIMIT
  notDropped : ∀ e ∈ s.listed, s.find e.peer_id ≠ none → e ∈ s'.listed
  notAdded : ∀ e ∈ s'.listed, e ∈ s.listed

/-- The entries whose peers are gone are reached, and the last of the reached entries with a peer
has the limit of each entry with it; where none is reached, the peer has its frames already. -/
def Reaches (s : Pdev ι) : Prop :=
  (∀ e ∈ s.listed, s.find e.peer_id = none → e.limit_flag = true ∧ e ∈ s.reached) ∧
    ∀ e ∈ s.listed, ∀ p ∈ s.find e.peer_id,
      (lastLimit s.find s.reached p).getD (s.peer p).tx_limit = e.limit

/-- **The timer of the bad peers.** -/
theorem bal_timer_iff (s : Pdev ι) (hnd : s.ids.Nodup) (hmax : s.peer_num ≤ MAX_NO_PEERS_IN_LIMIT) :
    Kept s (ol_tx_pdev_peer_bal_timer s) ↔ Reaches s := by
  have hmem : ∀ e, e ∈ (ol_tx_pdev_peer_bal_timer s).listed ↔ _ := fun e => mem_timer hnd
  have hlisted : ∀ e, e ∈ s.listed ↔ e ∈ s.reached ∨ e ∈ s.listed.drop s.reached.length := by
    intro e
    rw [← mem_append, reached_append]
  have hpeer : ∀ p, ((ol_tx_pdev_peer_bal_timer s).peer p).tx_limit =
      (lastLimit s.find s.reached p).getD (s.peer p).tx_limit := by
    intro p
    rw [(timer_spec hnd).2, foldl_settle]
  have hgone : ∀ e, s.find e.peer_id = none → (gone s.find e = false ↔ ¬e.limit_flag = true) := by
    intro e hnone
    rw [gone, hnone, isNone_none, Bool.and_true, Bool.not_eq_true]
  constructor
  · intro h
    refine ⟨fun e he hnone => ?_, fun e he p hp => ?_⟩
    · have hnot := mt (h.noneGone e) (not_not.mpr hnone)
      rw [hmem, not_or, not_and] at hnot
      have hreached := ((hlisted e).mp he).resolve_right hnot.2
      refine ⟨?_, hreached⟩
      by_contra hflag
      exact hnot.1 hreached ((hgone e hnone).mpr hflag)
    · rw [← hpeer]; exact h.reset e he p hp
  · rintro ⟨hreached, hlimit⟩
    have hperm : swept (gone s.find) s.peer_num s.listed ~ _ :=
      swept_perm (Nat.le_of_eq (length_listed s))
    rw [← Pdev.reached, ← (timer_spec hnd).1] at hperm
    have hsub : (s.reached.filter fun e => !gone s.find e) ++ s.listed.drop s.reached.length <+
        s.listed := by
      calc _ <+ s.reached ++ s.listed.drop s.reached.length := filter_sublist.append_right _
        _ = s.listed := reached_append s
    refine ⟨fun e he p hp => ?_, fun e he hnone => ?_, ?_, ⟨(length_listed _).symm, ?_⟩,
      fun e he hfind => ?_, fun e he => ?_⟩
    · rw [hpeer]; exact hlimit e he p hp
    · -- one that is gone is reached, and so it is not among the others
      have hin : e ∈ s.listed := hsub.subset (hperm.subset he)
      obtain ⟨hflag, hr⟩ := hreached e hin hnone
      rcases (hmem e).mp he with ⟨-, hstays⟩ | hrest
      · exact (hgone e hnone).mp hstays hflag
      · have hnd' : s.listed.Nodup := Nodup.of_map _ hnd
        rw [← reached_append s] at hnd'; exact List.disjoint_of_nodup_append hnd' hr hrest
    · rw [Pdev.ids, (hperm.map _).nodup_iff]; exact Nodup.sublist (hsub.map _) hnd
    · have hle := hsub.length_le
      rw [length_listed] at hle
      rw [← length_listed, hperm.length_eq]; exact Nat.le_trans hle hmax
    · rw [hmem]
      refine ((hlisted e).mp he).imp_left fun hr => ⟨hr, ?_⟩
      rw [gone, isNone_eq_false_iff.mpr (isSome_iff_ne_none.mpr hfind), Bool.and_false]
    · exact hsub.subset (hperm.subset he)

end Loop

/-! ## Lists of two peers and three -/

/-- Peers that have used up their frames are listed with these ids; those below `n` are there. -/
def listOf (ids : List UInt16) (n : Nat) : Pdev Nat where
  enabled := true
  peer_num := ids.length
  limit_list i := ⟨true, ids.getD i 0, 10⟩
  peer_bal_timer_state := .ol_tx_peer_bal_timer_active
  ctl_thresh _ := ⟨0, 0⟩
  find id := if id.toNat < n then some id.toNat else none
  peer _ := ⟨true, 0, false⟩
  paused _ := 0
  applied := []

/-- The last peer of the list is gone. -/
theorem bal_timer_iff_last :
    (listOf [1, 2, 5] 3).ids.Nodup ∧ Reaches (listOf [1, 2, 5] 3) ∧
      Kept (listOf [1, 2, 5] 3) (ol_tx_pdev_peer_bal_timer (listOf [1, 2, 5] 3)) := by
  have hreaches : Reaches (listOf [1, 2, 5] 3) := by
    constructor
    · decide +kernel
    · decide +kernel
  exact ⟨by decide +kernel, hreaches,
    (bal_timer_iff _ (by decide +kernel) (by decide +kernel)).mpr hreaches⟩

/-- Of two peers that are gone, the second one stays on the list; a peer behind one that is gone
does not get its frames. -/
theorem bal_timer_skips :
    (ol_tx_pdev_peer_bal_timer (listOf [5, 6] 3)).ids = [6] ∧
      ((ol_tx_pdev_peer_bal_timer (listOf [5, 1] 3)).peer 1).tx_limit = 0 ∧
      ¬Kept (listOf [5, 6] 3) (ol_tx_pdev_peer_bal_timer (listOf [5, 6] 3)) ∧
      ¬Kept (listOf [5, 1] 3) (ol_tx_pdev_peer_bal_timer (listOf [5, 1] 3)) := by
  refine ⟨by decide +kernel, by decide +kernel, fun h => ?_, fun h => ?_⟩
  · exact h.noneGone ⟨true, 6, 10⟩ (by decide +kernel) (by decide +kernel)
  · have hreset := h.reset ⟨true, 1, 10⟩ (by decide +kernel) 1 (by decide +kernel)
    exact absurd hreset (by decide +kernel)

end

open Lib List Option

/-! Reports: no entry behind one with an illegal PHY is applied, and of a peer's entries with rate
zero every other one pauses. -/

def RateReport.Valid (r : RateReport) : Prop := r.phy.val ≤ TXRX_IEEE11_AC

instance (r : RateReport) : Decidable r.Valid := inferInstanceAs (Decidable (_ ≤ _))

variable {ι : Type} [DecidableEq ι]

/-! ## Which entries are applied -/

theorem reportLoop_eq (n : Nat) (l : List RateReport) (s : Pdev ι) (hn : l.length ≤ n) :
    reportLoop n l s = (l.takeWhile (·.Valid)).foldl Pdev.applyEntry s := by
  induction n generalizing l s with
  | zero => rw [length_eq_zero_iff.mp (Nat.le_zero.mp hn)]; rfl
  | succ n ih =>
    cases l with
    | nil => rfl
    | cons r l =>
      rw [length_cons] at hn
      rw [reportLoop]
      by_cases hvalid : r.Valid
      · rw [if_neg (Nat.not_lt.mpr hvalid), takeWhile_cons, if_pos (decide_eq_true hvalid),
          foldl_cons, ih l _ (by omega)]
      · -- the same entry again, for all rounds that are left
        have hstuck : ∀ m, reportLoop m (r :: l) s = s := by
          intro m
          induction m with
          | zero => rfl
          | succ m hm => rw [reportLoop, if_pos (Nat.not_le.mp hvalid), hm]
        rw [if_pos (Nat.not_le.mp hvalid), hstuck, takeWhile_cons,
          if_neg (fun h => hvalid (of_decide_eq_true h))]
        rfl

/-! ## Pausing -/

/-- What an entry does to the pause flag. A zero pauses a peer that is not paused, and any rate
unpauses one that is, zero included. -/
def toggle (b : Bool) (rate : UInt32) : Bool := decide (rate = 0) && !b

/-- No zero among the rates comes for a peer that is paused by then. -/
def Fresh : Bool → List UInt32 → Prop
  | _, [] => True
  | b, rate :: rates => (rate = 0 → b = false) ∧ Fresh (toggle b rate) rates

/-- As long as no zero meets a paused peer, the flag says whether the rate before was zero. -/
theorem Fresh.foldl {b : Bool} {rates : List UInt32} (h : Fresh b rates) :
    rates.foldl toggle b = (rates.getLast?.map fun rate => decide (rate = 0)).getD b := by
  induction rates generalizing b with
  | nil => rfl
  | cons rate rates ih =>
    have hlast : toggle b rate = decide (rate = 0) := by
      rw [toggle]
      by_cases hzero : rate = 0
      · rw [h.1 hzero, Bool.not_false, Bool.and_true]
      · rw [decide_eq_false hzero, Bool.false_and]
    rw [foldl_cons, ih h.2, hlast, getLast?_cons]
    cases rates.getLast? with
    | none => rfl
    | some last => rfl

/-! ## What one entry changes -/

/-- What the limit list has nothing to do with. -/
structure Frame (s s' : Pdev ι) : Prop where
  enabled : s'.enabled = s.enabled
  find : s'.find = s.find
  ctl_thresh : s'.ctl_thresh = s.ctl_thresh
  pause_flag : ∀ p, (s'.peer p).tx_pause_flag = (s.peer p).tx_pause_flag
  paused : s'.paused = s.paused
  applied : s'.applied = s.applied

variable {s s' s'' : Pdev ι} {r : RateReport} {p : ι}

omit [DecidableEq ι] in
theorem Frame.refl (s : Pdev ι) : Frame s s := ⟨rfl, rfl, rfl, fun _ => rfl, rfl, rfl⟩

omit [DecidableEq ι] in
theorem Frame.trans (h : Frame s s') (h' : Frame s' s'') : Frame s s'' :=
  ⟨h'.enabled.trans h.enabled, h'.find.trans h.find, h'.ctl_thresh.trans h.ctl_thresh,
    fun p => (h'.pause_flag p).trans (h.pause_flag p), h'.paused.trans h.paused,
    h'.applied.trans h.applied⟩

omit [DecidableEq ι] in
theorem frame_startTimer (s : Pdev ι) : Frame s (startTimer s) := by
  rw [startTimer]
  split
  · exact ⟨rfl, rfl, rfl, fun _ => rfl, rfl, rfl⟩
  · exact Frame.refl s

omit [DecidableEq ι] in
theorem frame_stopTimer (s : Pdev ι) : Frame s (stopTimer s) := by
  rw [stopTimer_eq]; exact ⟨rfl, rfl, rfl, fun _ => rfl, rfl, rfl⟩

theorem setPeer_peer (s : Pdev ι) (p : ι) (peer : Peer) :
    (s.setPeer p peer).peer = update s.peer p peer := rfl

theorem frame_setPeer (s : Pdev ι) {p : ι} {peer : Peer}
    (h : peer.tx_pause_flag = (s.peer p).tx_pause_flag) : Frame s (s.setPeer p peer) := by
  refine ⟨rfl, rfl, rfl, fun q => ?_, rfl, rfl⟩
  rw [setPeer_peer]
  by_cases hq : q = p
  · rw [hq, update_self, h]
  · rw [update_of_ne hq]

theorem frame_add (s : Pdev ι) (id limit : UInt16) :
    Frame s (ol_txrx_peer_bal_add_limit_peer s id limit) := by
  rw [ol_txrx_peer_bal_add_limit_peer]
  split
  · exact frame_startTimer s
  · split
    · exact Frame.refl s
    · have hlist : Frame s { s with
          limit_list := update s.limit_list s.peer_num ⟨true, id, limit⟩
          peer_num := s.peer_num + 1 } := ⟨rfl, rfl, rfl, fun _ => rfl, rfl, rfl⟩
      refine Frame.trans (hlist.trans ?_) (frame_startTimer _)
      split
      · exact frame_setPeer _ rfl
      · exact Frame.refl _

theorem frame_remove (s : Pdev ι) (id : UInt16) :
    Frame s (ol_txrx_peer_bal_remove_limit_peer s id) := by
  rw [ol_txrx_peer_bal_remove_limit_peer]
  split
  · next i _ =>
    have hlist : Frame s { s with
        limit_list := update s.limit_list i (s.limit_list (s.peer_num - 1))
        peer_num := s.peer_num - 1 } := ⟨rfl, rfl, rfl, fun _ => rfl, rfl, rfl⟩
    refine Frame.trans (hlist.trans ?_) (frame_stopTimer _)
    split
    · exact frame_setPeer _ rfl
    · exact Frame.refl _
  · exact frame_stopTimer s

theorem frame_limitPeer (s : Pdev ι) (p : ι) (r : RateReport) : Frame s (s.limitPeer p r) := by
  rw [Pdev.limitPeer]
  split
  · exact frame_add s _ _
  · split
    · exact frame_remove s _
    · exact Frame.refl s

/-- A flag as a number of pauses. -/
def pauses (b : Bool) : Int := if b then 1 else 0

theorem pausePeer_eq (s : Pdev ι) (p : ι) (r : RateReport) :
    s.pausePeer p r = { s with
      peer := update s.peer p
        { s.peer p with tx_pause_flag := toggle (s.peer p).tx_pause_flag r.rate }
      paused := update s.paused p
        (s.paused p + (pauses (toggle (s.peer p).tx_pause_flag r.rate) -
          pauses (s.peer p).tx_pause_flag)) } := by
  rw [Pdev.pausePeer]
  cases hflag : (s.peer p).tx_pause_flag with
  | true =>
    rw [if_neg (fun h => nomatch h.2), if_pos rfl, toggle, Bool.not_true, Bool.and_false]; rfl
  | false =>
    by_cases hzero : r.rate = 0
    · rw [if_pos ⟨hzero, rfl⟩, toggle, decide_eq_true hzero]; rfl
    · have hsame : ({ s.peer p with tx_pause_flag := false } : Peer) = s.peer p := by
        rw [← hflag]
      rw [if_neg (fun h => hzero h.1), if_neg Bool.false_ne_true, toggle, decide_eq_false hzero,
        Bool.false_and, hsame, Int.sub_self, Int.add_zero, update_eq_self, update_eq_self]

theorem applyEntry_frame (s : Pdev ι) (r : RateReport) :
    (s.applyEntry r).enabled = s.enabled ∧ (s.applyEntry r).find = s.find ∧
      (s.applyEntry r).applied = r :: s.applied := by
  rw [Pdev.applyEntry]
  split
  · next p _ =>
    have hframe := frame_limitPeer { s with applied := r :: s.applied } p r
    rw [pausePeer_eq]; exact ⟨hframe.enabled, hframe.find, hframe.applied⟩
  · have hframe := frame_remove { s with applied := r :: s.applied } r.id
    exact ⟨hframe.enabled, hframe.find, hframe.applied⟩

theorem applyEntry_flag (s : Pdev ι) (r : RateReport) (p : ι) :
    ((s.applyEntry r).peer p).tx_pause_flag =
      if s.find r.id = some p then toggle (s.peer p).tx_pause_flag r.rate
      else (s.peer p).tx_pause_flag := by
  rw [Pdev.applyEntry]
  cases hfind : s.find r.id with
  | some q =>
    have hframe := frame_limitPeer { s with applied := r :: s.applied } q r
    dsimp only
    rw [pausePeer_eq]
    dsimp only
    by_cases hp : p = q
    · rw [hp, update_self, if_pos rfl]; exact congrArg (toggle · r.rate) (hframe.pause_flag q)
    · rw [update_of_ne hp, if_neg (fun h => hp (Option.some.inj h).symm)]
      exact hframe.pause_flag p
  | none => exact (frame_remove { s with applied := r :: s.applied } r.id).pause_flag p

theorem applyEntry_paused (s : Pdev ι) (r : RateReport) (p : ι) :
    (s.applyEntry r).paused p - pauses ((s.applyEntry r).peer p).tx_pause_flag =
      s.paused p - pauses (s.peer p).tx_pause_flag := by
  rw [Pdev.applyEntry]
  split
  · next q _ =>
    have hframe := frame_limitPeer { s with applied := r :: s.applied } q r
    rw [pausePeer_eq]
    dsimp only
    by_cases hp : p = q
    · rw [hp, update_self, update_self, hframe.paused, hframe.pause_flag]
      dsimp only
      omega
    · rw [update_of_ne hp, update_of_ne hp, hframe.paused, hframe.pause_flag]
  · have hframe := frame_remove { s with applied := r :: s.applied } r.id
    rw [hframe.paused, hframe.pause_flag]

/-! ## What a report changes -/

def rates (find : UInt16 → Option ι) (l : List RateReport) (p : ι) : List UInt32 :=
  (l.filter fun r => find r.id = some p).map (·.rate)

variable (l : List RateReport)

theorem foldl_frame (s : Pdev ι) :
    (l.foldl Pdev.applyEntry s).enabled = s.enabled ∧
      (l.foldl Pdev.applyEntry s).find = s.find ∧
      (l.foldl Pdev.applyEntry s).applied = l.reverse ++ s.applied := by
  induction l generalizing s with
  | nil => exact ⟨rfl, rfl, rfl⟩
  | cons r l ih =>
    obtain ⟨henabled, hfind, happlied⟩ := applyEntry_frame s r
    obtain ⟨h₁, h₂, h₃⟩ := ih (s.applyEntry r)
    refine ⟨h₁.trans henabled, h₂.trans hfind, ?_⟩
    rw [foldl_cons, h₃, happlied, reverse_cons, append_assoc, singleton_append]

theorem foldl_flag (s : Pdev ι) (p : ι) :
    ((l.foldl Pdev.applyEntry s).peer p).tx_pause_flag =
      (rates s.find l p).foldl toggle (s.peer p).tx_pause_flag := by
  induction l generalizing s with
  | nil => rfl
  | cons r l ih =>
    rw [foldl_cons, ih, applyEntry_flag, (applyEntry_frame s r).2.1, rates, rates, filter_cons]
    by_cases hfind : s.find r.id = some p
    · rw [if_pos hfind, if_pos (decide_eq_true hfind), map_cons, foldl_cons]
    · rw [if_neg hfind, if_neg (fun h => hfind (of_decide_eq_true h))]

theorem foldl_paused (s : Pdev ι) (p : ι) :
    (l.foldl Pdev.applyEntry s).paused p -
        pauses ((l.foldl Pdev.applyEntry s).peer p).tx_pause_flag =
      s.paused p - pauses (s.peer p).tx_pause_flag := by
  induction l generalizing s with
  | nil => rfl
  | cons r l ih => exact (ih (s.applyEntry r)).trans (applyEntry_paused s r p)

/-! ## The flags and the list -/

/-- The limit list has no id twice, the timer runs if somebody is listed, and of the ids in `named`
no two name one peer, whose flag says whether the id is listed. The code keeps a flag for each peer
and lists ids, so that with two ids of one peer on the list the flag cannot agree with both. -/
structure Consistent (named : Set UInt16) (s : Pdev ι) : Prop where
  unique : s.ids.Nodup
  oneId : ∀ {id id' p}, id ∈ named → id' ∈ named →
    s.find id = some p → s.find id' = some p → id = id'
  flag : ∀ {id p}, id ∈ named → s.find id = some p →
    ((s.peer p).tx_limit_flag = true ↔ id ∈ s.ids)
  timer : s.peer_bal_timer_state =
    if s.peer_num = 0 then .ol_tx_peer_bal_timer_inactive else .ol_tx_peer_bal_timer_active

/-- All that a change of the list from `s` to `s'` does, when it is about `id`, which is listed
after it if `b` says so. -/
structure Lists (id : UInt16) (b : Bool) (s s' : Pdev ι) : Prop where
  find : s'.find = s.find
  ctl_thresh : s'.ctl_thresh = s.ctl_thresh
  flag : ∀ q, (s'.peer q).tx_limit_flag =
    if s.find id = some q then b else (s.peer q).tx_limit_flag
  mem : ∀ x, x ∈ s'.ids ↔ x = id ∧ b = true ∨ x ≠ id ∧ x ∈ s.ids
  unique : s'.ids.Nodup
  timer : s'.peer_bal_timer_state =
    if s'.peer_num = 0 then .ol_tx_peer_bal_timer_inactive else .ol_tx_peer_bal_timer_active

variable {id : UInt16} {b : Bool} {named : Set UInt16}

theorem Consistent.lists (h : Consistent named s) (hid : id ∈ named) (hl : Lists id b s s') :
    Consistent named s' := by
  refine ⟨hl.unique, fun hx hx' hfind hfind' => ?_, fun {x p} hx hfind => ?_, hl.timer⟩
  · rw [hl.find] at hfind hfind'; exact h.oneId hx hx' hfind hfind'
  · rw [hl.find] at hfind
    rw [hl.flag, hl.mem]
    by_cases hp : s.find id = some p
    · rw [if_pos hp, h.oneId hx hid hfind hp]
      simp only [true_and, ne_eq, not_true_eq_false, false_and, or_false]
    · have hne : x ≠ id := fun heq => hp (heq ▸ hfind)
      rw [if_neg hp, h.flag hx hfind]
      simp only [hne, false_and, false_or, ne_eq, not_false_eq_true, true_and]

theorem Consistent.same (h : Consistent named s) (hid : id ∈ named)
    (hb : b = true ↔ id ∈ s.ids) : Lists id b s s := by
  refine ⟨rfl, rfl, fun q => ?_, fun x => ?_, h.unique, h.timer⟩
  · split
    · next hq => exact Bool.eq_iff_iff.mpr ((h.flag hid hq).trans hb.symm)
    · rfl
  · rw [hb]
    by_cases hx : x = id
    · simp only [hx, true_and, ne_eq, not_true_eq_false, false_and, or_false]
    · simp only [hx, false_and, false_or, ne_eq, not_false_eq_true, true_and]

omit [DecidableEq ι] in
theorem Consistent.stop (h : Consistent named s) : stopTimer s = s := by
  have htimer := h.timer
  rw [stopTimer]
  split
  · next hzero => rw [if_pos hzero] at htimer; rw [← htimer]
  · rfl

omit [DecidableEq ι] in
theorem Consistent.start (h : Consistent named s) (hne : s.peer_num ≠ 0) : startTimer s = s := by
  have htimer := h.timer
  rw [if_neg hne] at htimer
  rw [startTimer, htimer, if_neg (by decide)]

omit [DecidableEq ι] in
theorem listed_ne_zero (h : id ∈ s.ids) : s.peer_num ≠ 0 := by
  obtain ⟨e, he, -⟩ := mem_map.mp h
  obtain ⟨i, hi, -⟩ := mem_listed.mp he
  omega

theorem Consistent.remove (h : Consistent named s) (hnamed : id ∈ named) :
    Lists id false s (ol_txrx_peer_bal_remove_limit_peer s id) := by
  by_cases hid : id ∈ s.ids
  · obtain ⟨e, he, rfl⟩ := mem_map.mp hid
    obtain ⟨front, t, hsplit⟩ := append_of_mem he
    have hframe := frame_remove s e.peer_id
    have hlisted := (remove_eq h.unique hsplit).1
    have hids : (ol_txrx_peer_bal_remove_limit_peer s e.peer_id).ids ~
        front.map (·.peer_id) ++ t.map (·.peer_id) := by
      rw [Pdev.ids, hlisted, map_append]; exact ((closeUp_perm t).map _).append_left _
    have hold : s.ids = front.map (·.peer_id) ++ e.peer_id :: t.map (·.peer_id) := by
      rw [Pdev.ids, hsplit, map_append, map_cons]
    have hunique := h.unique
    rw [hold] at hunique
    have hnew := (nodup_middle.mp hunique)
    refine ⟨hframe.find, hframe.ctl_thresh, fun q => ?_, fun x => ?_, ?_, ?_⟩
    · rw [ol_txrx_peer_bal_remove_limit_peer, findListed_front h.unique hsplit]
      dsimp only
      rw [stopTimer_eq]
      cases hfind : s.find e.peer_id with
      | none => exact (if_neg (by intro h; cases h)).symm
      | some p =>
        rw [setPeer_peer]
        by_cases hq : q = p
        · rw [hq, update_self, if_pos rfl]
        · rw [update_of_ne hq, if_neg (fun h => hq (Option.some.inj h).symm)]
    · rw [hids.mem_iff, hold]
      simp only [Bool.false_eq_true, and_false, false_or, mem_append, mem_cons, ne_eq]
      constructor
      · intro hx
        refine ⟨?_, hx.imp_right .inr⟩
        rintro rfl; exact (nodup_cons.mp hnew).1 (mem_append.mpr hx)
      · rintro ⟨hne, hx⟩; exact hx.imp_right fun hx => hx.resolve_left hne
    · rw [hids.nodup_iff]; exact (nodup_cons.mp hnew).2
    · have htimer := h.timer
      rw [if_neg (listed_ne_zero hid)] at htimer
      obtain ⟨t, ht, heq⟩ : ∃ t : Pdev ι,
          t.peer_bal_timer_state = .ol_tx_peer_bal_timer_active ∧
            ol_txrx_peer_bal_remove_limit_peer s e.peer_id = stopTimer t := by
        rw [ol_txrx_peer_bal_remove_limit_peer, findListed_front h.unique hsplit]
        refine ⟨_, ?_, rfl⟩
        split
        · exact htimer
        · exact htimer
      rw [heq, stopTimer_eq, ht]
  · rw [ol_txrx_peer_bal_remove_limit_peer, findListed_eq_none.mpr hid]
    rw [h.stop]; exact h.same hnamed (iff_of_false Bool.false_ne_true hid)

theorem Consistent.add (h : Consistent named s) (hnamed : id ∈ named) (hp : s.find id = some p)
    (limit : UInt16) : ∃ b, Lists id b s (ol_txrx_peer_bal_add_limit_peer s id limit) := by
  rw [ol_txrx_peer_bal_add_limit_peer]
  cases hlisted : s.findListed id with
  | some i =>
    have hid : id ∈ s.ids := by
      by_contra hnot
      rw [findListed_eq_none.mpr hnot] at hlisted
      cases hlisted
    rw [h.start (listed_ne_zero hid)]; exact ⟨true, h.same hnamed (iff_of_true rfl hid)⟩
  | none =>
    have hid := findListed_eq_none.mp hlisted
    dsimp only
    by_cases hfull : s.peer_num ≥ MAX_NO_PEERS_IN_LIMIT
    · rw [if_pos hfull]; exact ⟨false, h.same hnamed (iff_of_false Bool.false_ne_true hid)⟩
    · rw [if_neg hfull, hp]
      have hids : ((range (s.peer_num + 1)).map
          (update s.limit_list s.peer_num ⟨true, id, limit⟩)).map (·.peer_id) =
            s.ids ++ [id] := by
        rw [range_succ, map_append, map_append, map_singleton, map_singleton, update_self,
          map_update_range, set_eq_of_length_le (by rw [length_map, length_range])]
        rfl
      have hstart : ∀ t : Pdev ι, t.peer_num ≠ 0 →
          (t.peer_bal_timer_state = .ol_tx_peer_bal_timer_inactive ∨
            t.peer_bal_timer_state = .ol_tx_peer_bal_timer_active) →
          startTimer t =
            { t with peer_bal_timer_state := .ol_tx_peer_bal_timer_active } := by
        rintro t - (hinactive | hactive)
        · rw [startTimer, if_pos hinactive]
        · rw [startTimer, hactive, if_neg (by decide), ← hactive]
      rw [hstart _ (Nat.add_one_ne_zero _)]
      · refine ⟨true, rfl, rfl, fun q => ?_, fun x => ?_, ?_, rfl⟩
        · rw [hp, setPeer_peer]
          by_cases hq : q = p
          · rw [hq, update_self, if_pos rfl]
          · rw [update_of_ne hq, if_neg (fun h => hq (Option.some.inj h).symm)]
        · refine (iff_of_eq (congrArg (x ∈ ·) hids)).trans ?_
          rw [mem_append, mem_singleton]
          by_cases hx : x = id
          · simp only [hx, or_true, and_true, true_or]
          · simp only [hx, or_false, false_and, false_or, ne_eq, not_false_eq_true, true_and]
        · exact (congrArg List.Nodup hids).mpr
            ((perm_append_singleton id s.ids).nodup_iff.mpr (nodup_cons.mpr ⟨hid, h.unique⟩))
      · have htimer := h.timer
        split at htimer
        · exact .inl htimer
        · exact .inr htimer

theorem Consistent.limit (h : Consistent named s) (hnamed : r.id ∈ named)
    (hp : s.find r.id = some p) :
    ∃ b, Lists r.id b s (s.limitPeer p r) ∧ (b = true → s.peerLimit p r ≠ 0) := by
  rw [Pdev.limitPeer]
  by_cases hlimit : s.peerLimit p r ≠ 0
  · rw [if_pos hlimit]
    obtain ⟨b, hb⟩ := h.add hnamed hp (s.peerLimit p r)
    exact ⟨b, hb, fun _ => hlimit⟩
  · rw [if_neg hlimit]
    refine ⟨false, ?_, nofun⟩
    by_cases hzero : s.peer_num ≠ 0
    · rw [if_pos hzero]; exact h.remove hnamed
    · rw [if_neg hzero]
      exact h.same hnamed (iff_of_false Bool.false_ne_true fun hid => hzero (listed_ne_zero hid))

/-! ## The same entries again -/

def Pdev.Slow (s : Pdev ι) (r : RateReport) : Prop :=
  r.rate ≠ 0 ∧ r.rate < (s.ctl_thresh r.phy).tput_thresh ∧
    (s.ctl_thresh r.phy).tx_limit.toUInt16 ≠ 0

/-- Nothing is left to do for an entry: its peer is gone and not listed, or not paused and, if it is
limited, slow. -/
def Pdev.Done (s : Pdev ι) (r : RateReport) : Prop :=
  (s.find r.id = none → r.id ∉ s.ids) ∧
    ∀ p, s.find r.id = some p → (s.peer p).tx_pause_flag = false ∧
      ((s.peer p).tx_limit_flag = true → s.Slow r)

omit [DecidableEq ι] in
theorem peerLimit_ne_zero :
    s.peerLimit p r ≠ 0 ↔
      ((s.peer p).tx_pause_flag = true ∨ (s.peer p).tx_limit_flag = true) ∧ s.Slow r := by
  rw [Pdev.peerLimit, Pdev.Slow, ← Bool.or_eq_true]
  split
  · next h => simp only [h.1, h.2.1, h.2.2, true_and, ne_eq, not_false_eq_true]
  · next h =>
    refine iff_of_false (not_not.mpr rfl) fun hslow => h ⟨hslow.1, hslow.2.1, hslow.2.2.1⟩

/-- An entry changes the list as to its own id only, and lists it only if there is a limit for its
peer. -/
theorem Consistent.applyEntry (h : Consistent named s) (hnamed : r.id ∈ named) :
    ∃ b, Lists r.id b s (s.applyEntry r) ∧ (b = true → s.find r.id ≠ none) ∧
      ∀ p, s.find r.id = some p → b = true → s.peerLimit p r ≠ 0 := by
  have happlied : Consistent named { s with applied := r :: s.applied } :=
    ⟨h.unique, h.oneId, h.flag, h.timer⟩
  rw [Pdev.applyEntry]
  cases hfind : s.find r.id with
  | none =>
    obtain ⟨h₁, h₂, h₃, h₄, h₅, h₆⟩ := happlied.remove hnamed
    exact ⟨false, ⟨h₁, h₂, h₃, h₄, h₅, h₆⟩, nofun, fun p hp => nomatch hp⟩
  | some p =>
    dsimp only
    obtain ⟨b, ⟨h₁, h₂, h₃, h₄, h₅, h₆⟩, hb⟩ := happlied.limit hnamed hfind
    rw [pausePeer_eq]
    refine ⟨b, ⟨h₁, h₂, fun q => ?_, h₄, h₅, h₆⟩, fun _ => Option.some_ne_none p,
      fun q hq hbt => ?_⟩
    · dsimp only
      by_cases hq : q = p
      · rw [hq, update_self]; exact h₃ p
      · rw [update_of_ne hq]; exact h₃ q
    · cases hq; exact hb hbt

theorem Consistent.done (h : Consistent named s) (hnamed : r.id ∈ named)
    (hrate : ∀ p, s.find r.id = some p → r.rate ≠ 0) : (s.applyEntry r).Done r := by
  obtain ⟨b, hl, hnone, hlimit⟩ := h.applyEntry hnamed
  refine ⟨fun hn => ?_, fun p hp => ?_⟩
  · rw [hl.find] at hn
    rw [hl.mem]
    rintro (⟨-, hb⟩ | ⟨hne, -⟩)
    · exact hnone hb hn
    · exact hne rfl
  · rw [hl.find] at hp
    rw [applyEntry_flag, if_pos hp, hl.flag, if_pos hp, toggle, decide_eq_false (hrate p hp)]
    refine ⟨rfl, fun hb => ?_⟩
    rw [Pdev.Slow, hl.ctl_thresh]; exact (peerLimit_ne_zero.mp (hlimit p hp hb)).2

theorem Consistent.stays_done (h : Consistent named s) (hnamed : r.id ∈ named) {r' : RateReport}
    (hrate : ∀ p, s.find r.id = some p → r.rate ≠ 0) (hdone : s.Done r') :
    (s.applyEntry r).Done r' := by
  obtain ⟨b, hl, hnone, hlimit⟩ := h.applyEntry hnamed
  refine ⟨fun hn => ?_, fun p hp => ?_⟩
  · rw [hl.find] at hn
    rw [hl.mem]
    rintro (⟨heq, hb⟩ | ⟨-, hmem⟩)
    · exact hnone hb (heq ▸ hn)
    · exact hdone.1 hn hmem
  · rw [hl.find] at hp
    obtain ⟨hpause, hslow⟩ := hdone.2 p hp
    have hslow' : (s.applyEntry r).Slow r' ↔ s.Slow r' := by
      rw [Pdev.Slow, Pdev.Slow, hl.ctl_thresh]
    rw [applyEntry_flag, hl.flag, hslow']
    by_cases hsame : s.find r.id = some p
    · rw [if_pos hsame, if_pos hsame, toggle, decide_eq_false (hrate p hsame)]
      refine ⟨rfl, fun hb => hslow ?_⟩
      exact (peerLimit_ne_zero.mp (hlimit p hsame hb)).1.resolve_left
        (by rw [hpause]; exact Bool.false_ne_true)
    · rw [if_neg hsame, if_neg hsame]; exact ⟨hpause, hslow⟩

theorem Consistent.applyEntry_done (h : Consistent named s) (hnamed : r.id ∈ named)
    (hdone : s.Done r) (hrate : ∀ p, s.find r.id = some p → r.rate ≠ 0) :
    s.applyEntry r = { s with applied := r :: s.applied } := by
  have happlied : Consistent named { s with applied := r :: s.applied } :=
    ⟨h.unique, h.oneId, h.flag, h.timer⟩
  have hremove : r.id ∉ s.ids →
      ol_txrx_peer_bal_remove_limit_peer { s with applied := r :: s.applied } r.id =
        { s with applied := r :: s.applied } := by
    intro hid
    have hnone : ({ s with applied := r :: s.applied } : Pdev ι).findListed r.id = none :=
      findListed_eq_none.mpr hid
    rw [ol_txrx_peer_bal_remove_limit_peer, hnone]; exact happlied.stop
  rw [Pdev.applyEntry]
  cases hfind : s.find r.id with
  | none => exact hremove (hdone.1 hfind)
  | some p =>
    obtain ⟨hpause, hslow⟩ := hdone.2 p hfind
    have hpausePeer : ({ s with applied := r :: s.applied } : Pdev ι).pausePeer p r =
        { s with applied := r :: s.applied } := by
      rw [Pdev.pausePeer, if_neg (fun hz => hrate p hfind hz.1)]
      rw [hpause, if_neg Bool.false_ne_true]
    have hlimit : ({ s with applied := r :: s.applied } : Pdev ι).limitPeer p r =
        { s with applied := r :: s.applied } := by
      rw [Pdev.limitPeer]
      by_cases hflag : (s.peer p).tx_limit_flag = true
      · -- it is listed already
        have hid := (h.flag hnamed hfind).mp hflag
        have hne : ({ s with applied := r :: s.applied } : Pdev ι).peerLimit p r ≠ 0 :=
          peerLimit_ne_zero.mpr ⟨.inr hflag, hslow hflag⟩
        rw [if_pos hne, ol_txrx_peer_bal_add_limit_peer]
        cases hlisted : ({ s with applied := r :: s.applied } : Pdev ι).findListed r.id with
        | none => exact absurd hid (findListed_eq_none.mp hlisted)
        | some i => exact happlied.start (listed_ne_zero hid)
      · have hzero : ¬({ s with applied := r :: s.applied } : Pdev ι).peerLimit p r ≠ 0 := by
          rw [peerLimit_ne_zero]
          rintro ⟨hp | hl, -⟩
          · exact Bool.false_ne_true (hpause.symm.trans hp)
          · exact hflag hl
        rw [if_neg hzero]
        split
        · exact hremove (mt (h.flag hnamed hfind).mpr hflag)
        · rfl
    dsimp only
    rw [hlimit, hpausePeer]

/-- Entry by entry the flags stay in agreement with the list. -/
theorem Consistent.foldl (h : Consistent named s) (hnamed : ∀ r ∈ l, r.id ∈ named) :
    Consistent named (l.foldl Pdev.applyEntry s) := by
  induction l generalizing s with
  | nil => exact h
  | cons r l ih =>
    have hid := hnamed r mem_cons_self
    obtain ⟨b, hl, -⟩ := h.applyEntry hid
    exact ih (h.lists hid hl) fun r' hr' => hnamed r' (mem_cons_of_mem _ hr')

/-- What is done for an entry stays done while the others follow, and so it is done for all. -/
theorem Consistent.foldl_done (h : Consistent named s) (hnamed : ∀ r ∈ l, r.id ∈ named)
    (hrate : ∀ r ∈ l, ∀ p, s.find r.id = some p → r.rate ≠ 0) (done : List RateReport)
    (hdone : ∀ r ∈ done, s.Done r) : ∀ r ∈ done ++ l, (l.foldl Pdev.applyEntry s).Done r := by
  induction l generalizing s done with
  | nil => rw [append_nil]; exact hdone
  | cons r l ih =>
    have hid := hnamed r mem_cons_self
    have hr := hrate r mem_cons_self
    obtain ⟨b, hl, -⟩ := h.applyEntry hid
    rw [foldl_cons, ← singleton_append, ← append_assoc]
    refine ih (h.lists hid hl) (fun r' hr' => hnamed r' (mem_cons_of_mem _ hr'))
      (fun r' hr' p hp => ?_) (done ++ [r]) fun r' hr' => ?_
    · rw [hl.find] at hp; exact hrate r' (mem_cons_of_mem _ hr') p hp
    · rcases mem_append.mp hr' with hin | hin
      · exact h.stays_done hid hr (hdone r' hin)
      · rw [mem_singleton.mp hin]; exact h.done hid hr

theorem Consistent.foldl_same (h : Consistent named s) (hnamed : ∀ r ∈ l, r.id ∈ named)
    (hrate : ∀ r ∈ l, ∀ p, s.find r.id = some p → r.rate ≠ 0) (hdone : ∀ r ∈ l, s.Done r) :
    l.foldl Pdev.applyEntry s = { s with applied := l.reverse ++ s.applied } := by
  induction l generalizing s with
  | nil => rfl
  | cons r l ih =>
    have hrest := ih (s := { s with applied := r :: s.applied })
      ⟨h.unique, h.oneId, h.flag, h.timer⟩ (fun r' hr' => hnamed r' (mem_cons_of_mem _ hr'))
      (fun r' hr' => hrate r' (mem_cons_of_mem _ hr'))
      (fun r' hr' => hdone r' (mem_cons_of_mem _ hr'))
    rw [foldl_cons, h.applyEntry_done (hnamed r mem_cons_self) (hdone r mem_cons_self)
      (hrate r mem_cons_self), hrest, reverse_cons, append_assoc, singleton_append]

/-- The entries with a PHY that is known. -/
def legal (l : List RateReport) : List RateReport := l.filter (·.Valid)

/-- The report reaches the loop: the flow control is enabled and the report is not too long, and no
legal entry is behind an illegal one, at which the loop stays. -/
structure Heard (s : Pdev ι) (l : List RateReport) : Prop where
  enabled : s.enabled = true
  short : l.length ≤ MAX_NO_PEERS_IN_LIMIT
  ahead : ∀ r ∈ l.dropWhile (·.Valid), ¬r.Valid

/-- The legal entries of a report have done their work. -/
structure Applied (s : Pdev ι) (l : List RateReport) : Prop where
  once : (ol_txrx_peer_link_status_handler s l).applied = (legal l).reverse ++ s.applied
  /-- A peer is paused if the last rate of it is zero, and one without a rate stays as it is. -/
  flag : ∀ p, Fresh (s.peer p).tx_pause_flag (rates s.find (legal l) p) →
    ((ol_txrx_peer_link_status_handler s l).peer p).tx_pause_flag =
      ((rates s.find (legal l) p).getLast?.map fun rate => decide (rate = 0)).getD
        (s.peer p).tx_pause_flag
  /-- Its queues are paused with the flag. -/
  queues : ∀ p, (ol_txrx_peer_link_status_handler s l).paused p - s.paused p =
    pauses ((ol_txrx_peer_link_status_handler s l).peer p).tx_pause_flag -
      pauses (s.peer p).tx_pause_flag
  /-- The same report again does not change who is paused. -/
  again : ∀ p, Fresh (s.peer p).tx_pause_flag (rates s.find (legal l) p) →
    Fresh ((ol_txrx_peer_link_status_handler s l).peer p).tx_pause_flag
      (rates s.find (legal l) p) →
    ((ol_txrx_peer_link_status_handler (ol_txrx_peer_link_status_handler s l) l).peer
        p).tx_pause_flag =
      ((ol_txrx_peer_link_status_handler s l).peer p).tx_pause_flag

theorem handler_eq (s : Pdev ι) (l : List RateReport) :
    ol_txrx_peer_link_status_handler s l =
      if s.enabled = true ∧ l.length ≤ MAX_NO_PEERS_IN_LIMIT then
        (l.takeWhile (·.Valid)).foldl Pdev.applyEntry s
      else s := by
  rw [ol_txrx_peer_link_status_handler]
  cases s.enabled with
  | false => rw [if_neg Bool.false_ne_true, if_neg (fun h => nomatch h.1)]
  | true =>
    rw [if_pos rfl]
    by_cases hlen : l.length ≤ MAX_NO_PEERS_IN_LIMIT
    · rw [if_neg (Nat.not_lt.mpr hlen), if_pos ⟨rfl, hlen⟩, reportLoop_eq _ _ _ (Nat.le_refl _)]
    · rw [if_pos (Nat.not_le.mp hlen), if_neg (fun h => hlen h.2)]

theorem legal_split : legal l = l.takeWhile (·.Valid) ++ legal (l.dropWhile (·.Valid)) := by
  have htake : (l.takeWhile (·.Valid)).filter (·.Valid) = l.takeWhile (·.Valid) := by
    rw [filter_eq_self]
    intro r hr; exact mem_takeWhile_imp (p := fun r : RateReport => decide r.Valid) hr
  conv_lhs => rw [legal, ← takeWhile_append_dropWhile (p := (·.Valid)) (l := l)]
  rw [filter_append, htake, legal]

theorem legal_eq_nil {l : List RateReport} : legal l = [] ↔ ∀ r ∈ l, ¬r.Valid := by
  rw [legal, filter_eq_nil_iff]; simp only [decide_eq_true_eq]

omit [DecidableEq ι] in
/-- Without a legal entry behind an illegal one, the entries up to the first illegal one are the
legal ones. -/
theorem Heard.takeWhile {l : List RateReport} (h : Heard s l) :
    l.takeWhile (·.Valid) = legal l := by rw [legal_split, legal_eq_nil.mpr h.ahead, append_nil]

theorem Heard.handler {l : List RateReport} (h : Heard s l) :
    ol_txrx_peer_link_status_handler s l = (legal l).foldl Pdev.applyEntry s := by
  rw [handler_eq, if_pos ⟨h.enabled, h.short⟩, h.takeWhile]

/-- A report that is heard once is heard again. -/
theorem Heard.again {l : List RateReport} (h : Heard s l) :
    Heard (ol_txrx_peer_link_status_handler s l) l := by
  refine ⟨?_, h.short, h.ahead⟩
  rw [h.handler]; exact (foldl_frame (legal l) s).1.trans h.enabled

theorem Heard.applied {l : List RateReport} (h : Heard s l) : Applied s l := by
  obtain ⟨-, hfind, happlied⟩ := foldl_frame (legal l) s
  have hflag (p : ι) := foldl_flag (legal l) s p
  have hpaused (p : ι) := foldl_paused (legal l) s p
  have hflag' (p : ι) := foldl_flag (legal l) (ol_txrx_peer_link_status_handler s l) p
  rw [← h.handler] at hfind happlied
  simp only [← h.handler] at hflag hpaused
  simp only [← h.again.handler, hfind] at hflag'
  refine ⟨happlied, fun p hfresh => ?_, fun p => ?_, fun p hfresh hfresh' => ?_⟩
  · rw [hflag, hfresh.foldl]
  · have hp := hpaused p; omega
  · -- the last rate decides both times, and without one nothing changes
    rw [hflag', hfresh'.foldl, hflag, hfresh.foldl]
    cases (rates s.find (legal l) p).getLast? with
    | none => rfl
    | some rate => rfl

/-- A report that is too long, or comes while the flow control is off, is passed over. -/
theorem handler_unheard (s : Pdev ι) (l : List RateReport)
    (h : s.enabled = false ∨ MAX_NO_PEERS_IN_LIMIT < l.length) :
    ol_txrx_peer_link_status_handler s l = s := by
  rw [handler_eq, if_neg]
  rintro ⟨henabled, hlen⟩
  rcases h with hoff | hlong
  · exact Bool.false_ne_true (hoff.symm.trans henabled)
  · exact Nat.not_lt.mpr hlen hlong

theorem Consistent.handler (h : Consistent named s) (l : List RateReport)
    (hnamed : ∀ r ∈ legal l, r.id ∈ named) :
    Consistent named (ol_txrx_peer_link_status_handler s l) := by
  rw [handler_eq]
  split
  · refine h.foldl _ fun r hr => hnamed r ?_
    rw [legal_split]; exact mem_append_left _ hr
  · exact h

/-- Without zeros for peers that are there, and with flags that go with the list, the report changes
nothing the second time. -/
theorem Consistent.handler_again (h : Consistent named s) (l : List RateReport)
    (hnamed : ∀ r ∈ legal l, r.id ∈ named)
    (hrate : ∀ r ∈ legal l, ∀ p, s.find r.id = some p → r.rate ≠ 0) :
    ol_txrx_peer_link_status_handler (ol_txrx_peer_link_status_handler s l) l =
      { ol_txrx_peer_link_status_handler s l with
        applied := (ol_txrx_peer_link_status_handler
          (ol_txrx_peer_link_status_handler s l) l).applied } := by
  have heq := handler_eq s l
  by_cases hready : s.enabled = true ∧ l.length ≤ MAX_NO_PEERS_IN_LIMIT
  · rw [if_pos hready] at heq
    obtain ⟨henabled, hfind, -⟩ := foldl_frame (l.takeWhile (·.Valid)) s
    rw [← heq] at henabled hfind
    have hlegal : ∀ r ∈ l.takeWhile (·.Valid), r ∈ legal l := by
      intro r hr
      rw [legal_split]; exact mem_append_left _ hr
    have hid : ∀ r ∈ l.takeWhile (·.Valid), r.id ∈ named := fun r hr => hnamed r (hlegal r hr)
    have hrate' : ∀ r ∈ l.takeWhile (·.Valid), ∀ p, s.find r.id = some p → r.rate ≠ 0 :=
      fun r hr => hrate r (hlegal r hr)
    have hc := h.foldl _ hid
    have hdone := h.foldl_done _ hid hrate' [] (nofun)
    rw [← heq] at hc hdone
    have hagain := handler_eq (ol_txrx_peer_link_status_handler s l) l
    rw [if_pos ⟨henabled.trans hready.1, hready.2⟩, hc.foldl_same _ hid (by rwa [hfind]) hdone]
      at hagain
    rw [hagain]
  · rw [if_neg hready] at heq; rw [heq, heq]

/-- **Reports of rates.** A report that cannot be heard is passed over as a whole. One that is heard
has its legal entries applied, each once and in their order, and a peer is paused then if the last
rate of it is zero. The limit flags stay in agreement with the list, and where they are, a report
without a zero for a peer that is there changes nothing when it comes a second time. -/
theorem link_status (s : Pdev ι) (l : List RateReport) :
    (s.enabled = false ∨ MAX_NO_PEERS_IN_LIMIT < l.length →
        ol_txrx_peer_link_status_handler s l = s) ∧
      (Heard s l → Applied s l) ∧
      ∀ named, Consistent named s → (∀ r ∈ legal l, r.id ∈ named) →
        Consistent named (ol_txrx_peer_link_status_handler s l) ∧
          ((∀ r ∈ legal l, ∀ p, s.find r.id = some p → r.rate ≠ 0) →
            ol_txrx_peer_link_status_handler (ol_txrx_peer_link_status_handler s l) l =
              { ol_txrx_peer_link_status_handler s l with
                applied := (ol_txrx_peer_link_status_handler
                  (ol_txrx_peer_link_status_handler s l) l).applied }) :=
  ⟨handler_unheard s l, Heard.applied, fun _ h hnamed =>
    ⟨h.handler l hnamed, h.handler_again l hnamed⟩⟩

/-! ## Reports of a few entries -/

/-- Three peers, of which the first is paused and the second on the limit list. -/
def threePeers : Pdev Nat where
  enabled := true
  peer_num := 1
  limit_list _ := ⟨true, 1, 10⟩
  peer_bal_timer_state := .ol_tx_peer_bal_timer_active
  ctl_thresh _ := ⟨100, 10⟩
  find id := if id.toNat < 3 then some id.toNat else none
  peer p := ⟨decide (p = 1), 10, decide (p = 0)⟩
  paused p := if p = 0 then 1 else 0
  applied := []

/-- Peer 0 is slow and goes from paused to limited, peer 1 is fast again, peer 2 is paused, and
what is behind them has no legal PHY; without the zero the same report does nothing more. -/
theorem link_status_three :
    Applied threePeers [⟨0, 0, 50⟩, ⟨1, 1, 500⟩, ⟨2, 3, 0⟩, ⟨1, 4, 0⟩] ∧
      (ol_txrx_peer_link_status_handler threePeers
        [⟨0, 0, 50⟩, ⟨1, 1, 500⟩, ⟨2, 3, 0⟩, ⟨1, 4, 0⟩]).ids = [0] ∧
      (ol_txrx_peer_link_status_handler
        (ol_txrx_peer_link_status_handler threePeers [⟨0, 0, 50⟩, ⟨1, 1, 500⟩])
          [⟨0, 0, 50⟩, ⟨1, 1, 500⟩]).peer_num = 1 := by
  have hconsistent : Consistent {0, 1} threePeers := by
    refine ⟨by decide +kernel, fun hid hid' hp hp' => ?_, fun hid hp => ?_, by decide +kernel⟩
    · rcases hid with rfl | rfl <;> rcases hid' with rfl | rfl
      · rfl
      · exact absurd (hp.trans hp'.symm) (by decide +kernel)
      · exact absurd (hp.trans hp'.symm) (by decide +kernel)
      · rfl
    · rcases hid with rfl | rfl
      · cases hp; decide +kernel
      · cases hp; decide +kernel
  have hnamed : ∀ r ∈ legal [⟨0, 0, 50⟩, ⟨1, 1, 500⟩], r.id = 0 ∨ r.id = 1 := by decide +kernel
  have hrate : ∀ r ∈ legal [⟨0, 0, 50⟩, ⟨1, 1, 500⟩], r.rate ≠ 0 := by decide +kernel
  have hagain := ((link_status threePeers [⟨0, 0, 50⟩, ⟨1, 1, 500⟩]).2.2 {0, 1} hconsistent
    hnamed).2 fun r hr _ _ => hrate r hr
  refine ⟨(link_status threePeers _).2.1 ⟨by decide +kernel, by decide +kernel, ?_⟩,
    by decide +kernel, ?_⟩
  · decide +kernel
  · decide +kernel

/-- Two ids that name one peer, both listed. -/
def twoIds : Pdev Nat where
  enabled := true
  peer_num := 2
  limit_list i := ⟨true, if i = 0 then 1 else 2, 10⟩
  peer_bal_timer_state := .ol_tx_peer_bal_timer_active
  ctl_thresh phy := if phy = 0 then ⟨20, 10⟩ else ⟨0, 0⟩
  find id := if id.toNat < 3 then some 0 else none
  peer _ := ⟨true, 10, false⟩
  paused _ := 0
  applied := []

/-- A report of 23 entries is passed over. The second of two entries is not applied when the first
has no legal PHY. A peer with rate zero in two reports is not paused. With two ids of one peer the
list shrinks to one id at the first report and to none at the same report again. -/
theorem report_lost :
    (ol_txrx_peer_link_status_handler threePeers (replicate 23 ⟨2, 0, 0⟩)).applied = [] ∧
      ((ol_txrx_peer_link_status_handler threePeers (replicate 23 ⟨2, 0, 0⟩)).peer
        2).tx_pause_flag = false ∧
      (ol_txrx_peer_link_status_handler threePeers [⟨1, 4, 0⟩, ⟨2, 0, 0⟩]).applied = [] ∧
      ((ol_txrx_peer_link_status_handler (ol_txrx_peer_link_status_handler threePeers
        [⟨2, 0, 0⟩]) [⟨2, 0, 0⟩]).peer 2).tx_pause_flag = false ∧
      (ol_txrx_peer_link_status_handler twoIds [⟨1, 0, 5⟩, ⟨2, 0, 50⟩]).ids = [1] ∧
      (ol_txrx_peer_link_status_handler (ol_txrx_peer_link_status_handler twoIds
        [⟨1, 0, 5⟩, ⟨2, 0, 50⟩]) [⟨1, 0, 5⟩, ⟨2, 0, 50⟩]).ids = [] := by decide +kernel

end Qcacld.TxPeerBal
