/-
The host log buffers: `wlan_logging_sock_svc.c`.

A step of the model is what a function does under the lock, or between two times; the thread is at
one of the places of `Sender` then. The thread may run at any time: what wakes it up is left out,
and so is the radio number, which is 0. A buffer is the text from the end of its header on, so that
`filled_length` is the length of the text.
-/
import Qcacld.Lib.Run
import Mathlib.Data.List.Count

set_option autoImplicit false

namespace Qcacld.WlanLogging

open Function
open Lib

def ANI_NL_MSG_LOG_TYPE : UInt16 := 89
def MAX_LOGMSG_LENGTH : Nat := 4096

/-- `sizeof(tAniHdr)`: the type and the length, two bytes each. -/
def SIZEOF_tAniHdr : Nat := 4
def SIZEOF_radio : Nat := 4
def NLMSG_HDRLEN : Nat := 16
def SIZEOF_tAniNlHdr : Nat := NLMSG_HDRLEN + SIZEOF_radio + SIZEOF_tAniHdr

def NLMSG_ALIGN (len : Nat) : Nat := (len + 3) / 4 * 4
def NLMSG_SPACE (len : Nat) : Nat := NLMSG_ALIGN (NLMSG_HDRLEN + len)

/-! ## State -/

structure AniHdr where
  type : UInt16
  length : UInt16
  deriving DecidableEq

structure LogMsg where
  hdr : AniHdr
  text : List UInt8
  deriving DecidableEq

def LogMsg.filled_length (m : LogMsg) : Nat := m.text.length

/-- Where `send_filled_buffers_to_user` is. A buffer is given with its number among all that have
been filled. -/
inductive Sender where
  | idle
  /-- The list was not empty; a netlink message is to be allocated. -/
  | alloc
  /-- A buffer was taken off; there is room for `tailroom` bytes. -/
  | copy (node number tailroom : Nat)
  | send (number : Nat) (msg : LogMsg)
  deriving DecidableEq

structure State where
  num_buf : Nat
  msgs : Nat → LogMsg
  pcur_node : Nat
  free_list : List Nat
  filled_list : List Nat
  drop_count : UInt32
  exit : Bool
  sender : Sender
  /-- What was put on `filled_list`, in order, and how many of these have left it; what has
  reached user space, and the numbers of the buffers that were lost. The code does not have
  these. -/
  queued : List LogMsg
  left : Nat
  sent : List (Nat × LogMsg)
  lost : List Nat

def State.init (num_buf : Nat) : State where
  num_buf := num_buf
  msgs := fun _ => ⟨⟨0, 0⟩, []⟩
  pcur_node := num_buf - 1
  free_list := (List.range (num_buf - 1)).reverse
  filled_list := []
  drop_count := 0
  exit := false
  sender := .idle
  queued := []
  left := 0
  sent := []
  lost := []

def State.cur (s : State) : LogMsg := s.msgs s.pcur_node

def State.setMsg (s : State) (node : Nat) (m : LogMsg) : State :=
  { s with msgs := update s.msgs node m }

/-! ## Filling -/

def ani_header (m : LogMsg) : LogMsg :=
  { m with hdr := ⟨ANI_NL_MSG_LOG_TYPE, UInt16.ofNat m.filled_length⟩ }

def State.addFilled (s : State) : State :=
  { s.setMsg s.pcur_node (ani_header s.cur) with
    filled_list := s.filled_list ++ [s.pcur_node]
    queued := s.queued ++ [ani_header s.cur] }

def State.nextNode (s : State) : State :=
  match s.free_list with
  | node :: free => { s with pcur_node := node, free_list := free }
  | [] =>
    match s.filled_list with
    | node :: filled =>
      { s with
        pcur_node := node
        filled_list := filled
        drop_count := s.drop_count + 1
        left := s.left + 1
        lost := s.lost ++ [s.left] }
    | [] => s

def wlan_queue_logmsg_for_app (s : State) : State :=
  let s := s.addFilled.nextNode
  s.setMsg s.pcur_node { s.cur with text := [] }

def scnprintf (size : Nat) (text : List UInt8) : List UInt8 := text.take (size - 1)

/-- There is no room for `total_log_len` bytes in the current buffer. -/
def State.full (s : State) (total_log_len : Nat) : Prop :=
  MAX_LOGMSG_LENGTH ≤ s.cur.filled_length + SIZEOF_tAniNlHdr ∨
    MAX_LOGMSG_LENGTH - (s.cur.filled_length + SIZEOF_tAniNlHdr) < total_log_len
deriving Decidable

/-- `stamp` is the text of the time stamp. -/
def wlan_log_to_user (s : State) (multicast : Bool) (stamp to_be_sent : List UInt8) : State :=
  if multicast = false then s
  else
    let tbuf := scnprintf 50 stamp
    let length := to_be_sent.length
    let total_log_len := length + tbuf.length + 1 + 1
    let s := if s.full total_log_len then wlan_queue_logmsg_for_app s else s
    let total_log_len :=
      if MAX_LOGMSG_LENGTH < SIZEOF_tAniNlHdr + total_log_len then
        MAX_LOGMSG_LENGTH - SIZEOF_tAniNlHdr - 2
      else total_log_len
    let copied := to_be_sent.take (min length (total_log_len - tbuf.length))
    s.setMsg s.pcur_node { s.cur with text := s.cur.text ++ tbuf ++ copied ++ [10] }

/-- What `wlan_logging_proc_sock_rx_msg` does with the buffers. -/
def wlan_logging_proc_sock_rx_msg (s : State) : State :=
  if s.cur.filled_length ≠ 0 then wlan_queue_logmsg_for_app s else s

/-! ## Sending -/

def payload_len (m : LogMsg) : Nat := m.filled_length + SIZEOF_radio + SIZEOF_tAniHdr

def copyMsg (s : State) (node number tailroom : Nat) : State :=
  let free := s.free_list ++ [node]
  if tailroom < NLMSG_SPACE (payload_len (s.msgs node)) then
    { s with
      free_list := free
      drop_count := s.drop_count + 1
      lost := s.lost ++ [number]
      sender := .idle }
  else
    { s with
      free_list := free
      sender := .send number (s.msgs node) }

/-- `nl_srv_bcast` has returned; where the message was not sent, the count of drops goes up each
64th time. -/
def sendMsg (s : State) (number : Nat) (msg : LogMsg) (ok : Bool) : State :=
  if ok then { s with sent := s.sent ++ [(number, msg)], sender := .idle }
  else
    { s with
      drop_count := if s.drop_count % 0x40 = 0 then s.drop_count + 1 else s.drop_count
      lost := s.lost ++ [number]
      sender := .idle }

/-! ## Steps -/

inductive Step where
  | log (multicast : Bool) (stamp to_be_sent : List UInt8)
  | rx_msg
  | exit
  /-- The condition of the loop. -/
  | check
  | alloc_failed
  | take (tailroom : Nat)
  | copy
  | sent (ok : Bool)

/-- There is no next state where the thread is at another place, and where it would take a buffer
off an empty list. `dev_alloc_skb` gives at least the room it is asked for. -/
def step (s : State) : Step → Option State
  | .log multicast stamp to_be_sent => some (wlan_log_to_user s multicast stamp to_be_sent)
  | .rx_msg => some (wlan_logging_proc_sock_rx_msg s)
  | .exit => some { s with exit := true }
  | .check =>
    if s.sender = .idle then
      if s.filled_list ≠ [] ∧ s.exit = false then some { s with sender := .alloc } else some s
    else none
  | .alloc_failed => if s.sender = .alloc then some { s with sender := .idle } else none
  | .take tailroom =>
    if s.sender = .alloc ∧ MAX_LOGMSG_LENGTH ≤ tailroom then
      match s.filled_list with
      | [] => none
      | node :: filled =>
        some { s with
          filled_list := filled
          left := s.left + 1
          sender := .copy node s.left tailroom }
    else none
  | .copy =>
    match s.sender with
    | .copy node number tailroom => some (copyMsg s node number tailroom)
    | _ => none
  | .sent ok =>
    match s.sender with
    | .send number msg => some (sendMsg s number msg ok)
    | _ => none

open List Option

/-! Every buffer is in one place (`Conserved`), and no text is too long (`Bounded`). -/

variable {s s' : State}

/-! ## What is to hold -/

def Sender.held : Sender → List Nat
  | .copy node _ _ => [node]
  | _ => []

def Sender.numbers : Sender → List Nat
  | .copy _ number _ => [number]
  | .send number _ => [number]
  | _ => []

def State.places (s : State) (node : Nat) : Nat :=
  [s.pcur_node].count node + s.free_list.count node + s.filled_list.count node +
    s.sender.held.count node

def Conserved (s : State) : Prop :=
  ∀ node, s.places node = if node < s.num_buf then 1 else 0

def Bounded (s : State) : Prop :=
  ∀ node, (s.msgs node).filled_length + SIZEOF_tAniNlHdr < MAX_LOGMSG_LENGTH

/-- What has been filled, in order: `filled_list` has the last ones, and each of the others was
sent, is lost, or is with the thread. -/
structure InOrder (s : State) : Prop where
  filled : s.filled_list.map s.msgs = s.queued.drop s.left
  fate : ∀ k, (s.sent.map Prod.fst).count k + s.lost.count k + s.sender.numbers.count k =
    if k < s.left then 1 else 0
  order : (s.sent.map Prod.fst).Pairwise (· < ·)
  content : ∀ p ∈ s.sent, s.queued[p.1]? = some p.2

def Fits (s : State) : Prop :=
  ∀ node number tailroom, s.sender = .copy node number tailroom →
    NLMSG_SPACE (payload_len (s.msgs node)) ≤ tailroom

def Counted (s : State) : Prop := s.drop_count = UInt32.ofNat s.lost.length

def Counts (s : State) : Step → Prop
  | .sent ok => ok = true ∨ s.drop_count % 0x40 = 0
  | _ => True

instance (s : State) (e : Step) : Decidable (Counts s e) := by
  unfold Counts
  split <;> infer_instance

structure SenderOk (s : State) : Prop where
  alloc : s.sender = .alloc → s.filled_list ≠ []
  copy : ∀ {node number tailroom}, s.sender = .copy node number tailroom →
    s.queued[number]? = some (s.msgs node) ∧ MAX_LOGMSG_LENGTH ≤ tailroom
  send : ∀ {number msg}, s.sender = .send number msg → s.queued[number]? = some msg
  newer : ∀ number ∈ s.sender.numbers, ∀ k ∈ s.sent.map Prod.fst, k < number

structure Inv (s : State) : Prop where
  conserved : Conserved s
  bounded : Bounded s
  inOrder : InOrder s
  left_le : s.left ≤ s.queued.length
  sender : SenderOk s

/-! ## The next current buffer -/

/-- What `wlan_queue_logmsg_for_app` does. -/
inductive Queue (s : State) : State → Prop where
  | free (node : Nat) (free : List Nat) (m : LogMsg) (h : s.free_list = node :: free)
      (hm : m.text = []) :
      Queue s
        { s with
          msgs := update (update s.msgs s.pcur_node (ani_header s.cur)) node m
          pcur_node := node
          free_list := free
          filled_list := s.filled_list ++ [s.pcur_node]
          queued := s.queued ++ [ani_header s.cur] }
  | filled (node : Nat) (filled : List Nat) (m : LogMsg) (hfree : s.free_list = [])
      (h : s.filled_list ++ [s.pcur_node] = node :: filled) (hm : m.text = []) :
      Queue s
        { s with
          msgs := update (update s.msgs s.pcur_node (ani_header s.cur)) node m
          pcur_node := node
          filled_list := filled
          queued := s.queued ++ [ani_header s.cur]
          drop_count := s.drop_count + 1
          left := s.left + 1
          lost := s.lost ++ [s.left] }

theorem queue_wlan_queue (s : State) : Queue s (wlan_queue_logmsg_for_app s) := by
  rw [wlan_queue_logmsg_for_app]
  rcases hfree : s.free_list with _ | ⟨node, free⟩
  · rcases hfilled : s.filled_list ++ [s.pcur_node] with _ | ⟨node, filled⟩
    · exact absurd hfilled (append_ne_nil_of_right_ne_nil _ (cons_ne_nil _ _))
    · have hnext : s.addFilled.nextNode =
          { s.addFilled with
            pcur_node := node
            filled_list := filled
            drop_count := s.drop_count + 1
            left := s.left + 1
            lost := s.lost ++ [s.left] } := by
        simp only [State.nextNode, State.addFilled, State.setMsg, hfree, hfilled]
      rw [hnext]; exact .filled node filled _ hfree hfilled rfl
  · have hnext : s.addFilled.nextNode =
        { s.addFilled with pcur_node := node, free_list := free } := by
      simp only [State.nextNode, State.addFilled, State.setMsg, hfree]
    rw [hnext]; exact .free node free _ hfree rfl

theorem Queue.msgs_eq (h : Queue s s') :
    ∃ m : LogMsg, m.filled_length = 0 ∧
      s'.msgs = update (update s.msgs s.pcur_node (ani_header s.cur)) s'.pcur_node m := by
  cases h with
  | free node free m hfree hm => exact ⟨m, length_eq_zero_iff.mpr hm, rfl⟩
  | filled node filled m hfree hlist hm => exact ⟨m, length_eq_zero_iff.mpr hm, rfl⟩

/-! ## Places -/

theorem Conserved.places_le (h : Conserved s) (node : Nat) : s.places node ≤ 1 := by
  rw [h node]
  split <;> omega

theorem Conserved.pcur_apart (h : Conserved s) :
    s.pcur_node ∉ s.filled_list ∧ s.pcur_node ∉ s.sender.held := by
  have hle := h.places_le s.pcur_node
  rw [State.places, count_singleton_self] at hle
  constructor <;> rw [← count_eq_zero] <;> omega

theorem Conserved.held_apart (h : Conserved s) {node : Nat} (hnode : node ∈ s.sender.held) :
    node ≠ s.pcur_node ∧ node ∉ s.free_list ∧ node ∉ s.filled_list := by
  have hle := h.places_le node
  have hpos := count_pos_iff.mpr hnode
  rw [State.places] at hle
  refine ⟨?_, ?_, ?_⟩
  · rintro rfl
    rw [count_singleton_self] at hle; omega
  all_goals
    rw [← count_eq_zero]; omega

theorem conserved_init {num_buf : Nat} (h : 0 < num_buf) : Conserved (State.init num_buf) := by
  intro node
  change _ = if node < num_buf then 1 else 0
  simp only [State.places, State.init, Sender.held, count_nil, count_reverse,
    count_range, count_singleton, beq_iff_eq]
  split_ifs <;> omega

theorem Queue.places (h : Queue s s') (node : Nat) : s'.places node = s.places node := by
  cases h with
  | free next free m hfree hm =>
    simp only [State.places, hfree, count_append, count_cons, count_nil]
    omega
  | filled next filled m hfree hfilled hm =>
    have hcount := congrArg (List.count node) hfilled
    simp only [count_append, count_cons, count_nil] at hcount
    simp only [State.places, hfree, count_cons, count_nil]
    omega

theorem Queue.next_apart (h : Queue s s') (hs : Conserved s) :
    s'.pcur_node ∉ s'.filled_list ∧ s'.pcur_node ∉ s.sender.held := by
  have hs' : Conserved s' := by
    intro node
    rw [h.places node, hs node]
    cases h <;> rfl
  have hsender : s'.sender = s.sender := by cases h <;> rfl
  rw [← hsender]; exact hs'.pcur_apart

/-! ## Order -/

theorem map_update_of_notMem {α β : Type} [DecidableEq α] {f : α → β} {a : α} {b : β}
    {l : List α} (h : a ∉ l) : l.map (update f a b) = l.map f := by
  apply map_congr_left
  intro x hx
  apply update_of_ne
  rintro rfl; exact h hx

theorem Inv.map_addFilled (h : Inv s) (m : LogMsg) :
    (s.filled_list ++ [s.pcur_node]).map (update s.msgs s.pcur_node m) =
      (s.queued ++ [m]).drop s.left := by
  rw [map_append, map_update_of_notMem h.conserved.pcur_apart.1, h.inOrder.filled,
    map_singleton, update_self, drop_append_of_le_length h.left_le]

theorem Inv.queue_filled (h : Inv s) (hq : Queue s s') :
    s'.filled_list.map s'.msgs = s'.queued.drop s'.left := by
  have hmap := h.map_addFilled (ani_header s.cur)
  have hnext := (hq.next_apart h.conserved).1
  cases hq with
  | free node free m hfree hm => rw [map_update_of_notMem hnext, hmap]
  | filled node filled m hfree hfilled hm =>
    rw [hfilled, map_cons] at hmap
    rw [map_update_of_notMem hnext, ← tail_drop, ← hmap, tail_cons]

theorem fate_succ {left k n m : Nat} (h : n = if k < left then 1 else 0)
    (hm : m = n + [left].count k) : m = if k < left + 1 then 1 else 0 := by
  subst hm
  subst h
  simp only [count_singleton, beq_iff_eq]
  split_ifs <;> omega

theorem getElem?_of_append {α : Type} {l : List α} {n : Nat} {a b : α} (h : l[n]? = some a) :
    (l ++ [b])[n]? = some a := by
  obtain ⟨hn, -⟩ := List.getElem?_eq_some_iff.mp h
  rwa [getElem?_append_left hn]

/-! ## Filling -/

theorem Inv.queue_inOrder (h : Inv s) (hq : Queue s s') : InOrder s' := by
  have hfilled := h.queue_filled hq
  cases hq with
  | free node free m hfree hm =>
    exact ⟨hfilled, h.inOrder.fate, h.inOrder.order,
      fun p hp => getElem?_of_append (h.inOrder.content p hp)⟩
  | filled node filled m hfree hlist hm =>
    refine ⟨hfilled, fun k => ?_, h.inOrder.order,
      fun p hp => getElem?_of_append (h.inOrder.content p hp)⟩
    apply fate_succ (h.inOrder.fate k)
    dsimp only
    rw [count_append]; omega

theorem Inv.queue_sender (h : Inv s) (hq : Queue s s') : SenderOk s' := by
  have hnext := (hq.next_apart h.conserved).2
  have hsender : s'.sender = s.sender := by cases hq <;> rfl
  have hqueued : s'.queued = s.queued ++ [ani_header s.cur] := by cases hq <;> rfl
  have hsent : s'.sent = s.sent := by cases hq <;> rfl
  -- the buffer of the thread is neither the one that was current nor the one that is
  have hmsgs : ∀ node ∈ s.sender.held, s'.msgs node = s.msgs node := by
    intro node hnode
    have hcur : node ≠ s.pcur_node := (h.conserved.held_apart hnode).1
    have hnew : node ≠ s'.pcur_node := by rintro rfl; exact hnext hnode
    obtain ⟨m, -, hmsgs⟩ := hq.msgs_eq
    rw [hmsgs, update_of_ne hnew, update_of_ne hcur]
  refine ⟨?_, ?_, ?_, ?_⟩
  · intro halloc
    rw [hsender] at halloc
    have hne := h.sender.alloc halloc
    cases hq with
    | free => exact append_ne_nil_of_left_ne_nil hne _
    | filled node filled m hfree hlist hm =>
      rintro rfl
      have hlen := congrArg List.length hlist
      rw [length_append, length_singleton, length_singleton] at hlen
      exact hne (length_eq_zero_iff.mp (by omega))
  · intro node number tailroom hcopy
    rw [hsender] at hcopy
    obtain ⟨hmsg, hroom⟩ := h.sender.copy hcopy
    have hheld : node ∈ s.sender.held := by rw [hcopy]; exact mem_singleton_self node
    rw [hqueued, hmsgs node hheld]; exact ⟨getElem?_of_append hmsg, hroom⟩
  · intro number msg hsend
    rw [hsender] at hsend
    rw [hqueued]; exact getElem?_of_append (h.sender.send hsend)
  · rw [hsender, hsent]; exact h.sender.newer

theorem Inv.queue_bounded (h : Inv s) (hq : Queue s s') : Bounded s' := by
  intro node
  obtain ⟨m, hm, hmsgs⟩ := hq.msgs_eq
  rw [hmsgs, update_apply, update_apply]
  split_ifs
  · rw [hm]; decide
  · exact h.bounded s.pcur_node
  · exact h.bounded node

theorem Inv.of_queue (h : Inv s) (hq : Queue s s') : Inv s' := by
  refine ⟨?_, h.queue_bounded hq, h.queue_inOrder hq, ?_, h.queue_sender hq⟩
  · intro node
    rw [hq.places node, h.conserved node]
    cases hq <;> rfl
  · have hle := h.left_le
    cases hq with
    | free =>
      dsimp only
      rw [length_append]; omega
    | filled =>
      dsimp only
      rw [length_append, length_singleton]; omega

theorem Inv.queue (h : Inv s) : Inv (wlan_queue_logmsg_for_app s) :=
  h.of_queue (queue_wlan_queue s)

theorem Inv.setCur (h : Inv s) {m : LogMsg}
    (hm : m.filled_length + SIZEOF_tAniNlHdr < MAX_LOGMSG_LENGTH) :
    Inv (s.setMsg s.pcur_node m) := by
  obtain ⟨hfilled, hheld⟩ := h.conserved.pcur_apart
  refine ⟨h.conserved, fun node => ?_, ?_, h.left_le, ?_⟩
  · simp only [State.setMsg, update_apply]
    split
    · exact hm
    · exact h.bounded node
  · refine { h.inOrder with filled := ?_ }
    simp only [State.setMsg]
    rw [map_update_of_notMem hfilled, h.inOrder.filled]
  · refine { h.sender with copy := ?_ }
    intro node number tailroom hcopy
    have hne : node ≠ s.pcur_node := by
      rintro rfl
      apply hheld
      rw [show s.sender = _ from hcopy]; exact mem_singleton_self _
    simp only [State.setMsg]
    rw [update_of_ne hne]; exact h.sender.copy hcopy

theorem filled_length_queue (s : State) : (wlan_queue_logmsg_for_app s).cur.filled_length = 0 := by
  simp only [wlan_queue_logmsg_for_app, State.cur, State.setMsg, update_self,
    LogMsg.filled_length, length_nil]

theorem length_scnprintf (size : Nat) (text : List UInt8) :
    (scnprintf size text).length ≤ size - 1 := length_take_le _ _

theorem appended_lt {filled tlen length total : Nat} (htlen : tlen ≤ 49)
    (htotal : total = length + tlen + 1 + 1)
    (h : filled = 0 ∨ filled + SIZEOF_tAniNlHdr + total ≤ MAX_LOGMSG_LENGTH) :
    filled + tlen + min length ((if MAX_LOGMSG_LENGTH < SIZEOF_tAniNlHdr + total then
      MAX_LOGMSG_LENGTH - SIZEOF_tAniNlHdr - 2 else total) - tlen) + 1 + SIZEOF_tAniNlHdr <
        MAX_LOGMSG_LENGTH := by
  by_cases hcut : MAX_LOGMSG_LENGTH < SIZEOF_tAniNlHdr + total
  · rw [if_pos hcut]
    simp only [SIZEOF_tAniNlHdr, NLMSG_HDRLEN, SIZEOF_radio, SIZEOF_tAniHdr, MAX_LOGMSG_LENGTH] at *
    omega
  · omega

theorem Inv.log (h : Inv s) (multicast : Bool) (stamp to_be_sent : List UInt8) :
    Inv (wlan_log_to_user s multicast stamp to_be_sent) := by
  rw [wlan_log_to_user]
  split
  · exact h
  · have htlen := length_scnprintf 50 stamp
    generalize scnprintf 50 stamp = tbuf at htlen
    dsimp only
    generalize htotal : to_be_sent.length + tbuf.length + 1 + 1 = total
    -- the message goes to an empty buffer, or to one that has room for it
    have hroom : ∀ t : State, Inv t → (t.cur.filled_length = 0 ∨
        t.cur.filled_length + SIZEOF_tAniNlHdr + total ≤ MAX_LOGMSG_LENGTH) →
        Inv (t.setMsg t.pcur_node { t.cur with
          text := t.cur.text ++ tbuf ++ to_be_sent.take (min to_be_sent.length
            ((if MAX_LOGMSG_LENGTH < SIZEOF_tAniNlHdr + total then
              MAX_LOGMSG_LENGTH - SIZEOF_tAniNlHdr - 2 else total) - tbuf.length)) ++ [10] }) := by
      intro t ht hfit
      apply ht.setCur
      have hlt := appended_lt htlen htotal.symm hfit
      simp only [LogMsg.filled_length, length_append, length_take, length_singleton] at hlt ⊢
      omega
    by_cases hfull : s.full total
    · rw [if_pos hfull]; exact hroom _ h.queue (.inl (filled_length_queue s))
    · rw [if_neg hfull]
      refine hroom s h (.inr ?_)
      rw [State.full, not_or] at hfull; omega

theorem Inv.rx_msg (h : Inv s) : Inv (wlan_logging_proc_sock_rx_msg s) := by
  rw [wlan_logging_proc_sock_rx_msg]
  split
  · exact h.queue
  · exact h

/-! ## Sending -/

theorem Inv.init {num_buf : Nat} (h : 0 < num_buf) : Inv (State.init num_buf) where
  conserved := conserved_init h
  bounded := fun _ => (by decide : 0 + SIZEOF_tAniNlHdr < MAX_LOGMSG_LENGTH)
  inOrder := ⟨rfl, fun _ => rfl, Pairwise.nil, fun p hp => (nomatch hp)⟩
  left_le := Nat.le_refl 0
  sender := ⟨fun hs => (nomatch hs), fun hs => (nomatch hs), fun hs => (nomatch hs),
    fun number hn => (nomatch hn)⟩

theorem Inv.setSender (h : Inv s) {sender : Sender} (hheld : s.sender.held = [])
    (hnumbers : s.sender.numbers = [])
    (hsender : sender = .idle ∨ sender = .alloc ∧ s.filled_list ≠ []) :
    Inv { s with sender := sender } := by
  have hnone : sender.held = [] ∧ sender.numbers = [] := by
    rcases hsender with rfl | ⟨rfl, -⟩ <;> exact ⟨rfl, rfl⟩
  refine ⟨fun node => ?_, h.bounded, ?_, h.left_le, ?_⟩
  · rw [← h.conserved node, State.places, State.places, hheld, hnone.1]
  · refine { h.inOrder with fate := fun k => ?_ }; rw [← h.inOrder.fate k, hnumbers, hnone.2]
  · refine ⟨?_, ?_, ?_, ?_⟩
    · intro halloc
      rcases hsender with rfl | ⟨-, hne⟩
      · cases halloc
      · exact hne
    · rintro node number tailroom rfl; cases hnone.1
    · rintro number msg rfl; cases hnone.2
    · intro number hn
      rw [hnone.2] at hn
      cases hn

theorem Inv.take (h : Inv s) {node tailroom : Nat} {filled : List Nat} (halloc : s.sender = .alloc)
    (hroom : MAX_LOGMSG_LENGTH ≤ tailroom) (hlist : s.filled_list = node :: filled) :
    Inv { s with
      filled_list := filled
      left := s.left + 1
      sender := .copy node s.left tailroom } := by
  have hmap := h.inOrder.filled
  rw [hlist, map_cons] at hmap
  have hlt : s.left < s.queued.length := by
    by_contra hge
    rw [drop_of_length_le (Nat.le_of_not_lt hge)] at hmap
    cases hmap
  refine ⟨fun x => ?_, h.bounded, ⟨?_, fun k => ?_, h.inOrder.order, h.inOrder.content⟩, hlt, ?_⟩
  · rw [← h.conserved x, State.places, State.places]
    simp only [hlist, halloc, Sender.held, count_cons, count_nil]
    omega
  · rw [← tail_drop, ← hmap, tail_cons]
  · apply fate_succ (h.inOrder.fate k)
    simp only [halloc, Sender.numbers, count_nil]
    omega
  · refine ⟨fun hs => (nomatch hs), ?_, fun hs => (nomatch hs), ?_⟩
    · intro node' number tailroom' hcopy
      cases hcopy
      refine ⟨?_, hroom⟩
      have hhead := congrArg List.head? hmap
      rw [head?_drop, head?_cons] at hhead; exact hhead.symm
    · -- what was sent has left the list before
      intro number hn k hk
      rw [Sender.numbers, mem_singleton] at hn
      subst hn
      have hfate := h.inOrder.fate k
      have hpos : 0 < (s.sent.map Prod.fst).count k := count_pos_iff.mpr hk
      by_contra hge
      rw [if_neg hge] at hfate; omega

theorem Inv.fits (h : Inv s) : Fits s := by
  intro node number tailroom hcopy
  have hb := h.bounded node
  have hroom := (h.sender.copy hcopy).2
  simp only [NLMSG_SPACE, NLMSG_ALIGN, payload_len, SIZEOF_tAniNlHdr, NLMSG_HDRLEN, SIZEOF_radio,
    SIZEOF_tAniHdr, MAX_LOGMSG_LENGTH] at *
  omega

theorem Inv.copy (h : Inv s) {node number tailroom : Nat}
    (hcopy : s.sender = .copy node number tailroom) : Inv (copyMsg s node number tailroom) := by
  rw [copyMsg, if_neg (Nat.not_lt.mpr (h.fits node number tailroom hcopy))]
  refine ⟨fun x => ?_, h.bounded, { h.inOrder with fate := fun k => ?_ }, h.left_le, ?_⟩
  · rw [← h.conserved x, State.places, State.places]
    simp only [hcopy, Sender.held, count_append, count_nil]
    omega
  · rw [← h.inOrder.fate k, hcopy]; rfl
  · refine ⟨fun hs => (nomatch hs), fun hs => (nomatch hs), ?_, ?_⟩
    · intro number' msg hsend
      cases hsend
      exact (h.sender.copy hcopy).1
    · have hnewer := h.sender.newer
      rw [hcopy] at hnewer; exact hnewer

theorem Inv.sent (h : Inv s) {number : Nat} {msg : LogMsg} (hsend : s.sender = .send number msg)
    (ok : Bool) : Inv (sendMsg s number msg ok) := by
  have hfate : ∀ k, (s.sent.map Prod.fst).count k + s.lost.count k + [number].count k =
      if k < s.left then 1 else 0 := by
    intro k
    rw [← h.inOrder.fate k, hsend]; rfl
  have hnewer : ∀ k ∈ s.sent.map Prod.fst, k < number := by
    apply h.sender.newer
    rw [hsend]; exact mem_singleton_self number
  have hidle : ∀ t : State, t.sender = .idle → SenderOk t := by
    intro t ht
    refine ⟨fun hs => ?_, fun hs => ?_, fun hs => ?_, fun number hn => ?_⟩
    · rw [ht] at hs; cases hs
    · rw [ht] at hs; cases hs
    · rw [ht] at hs; cases hs
    · rw [ht] at hn; cases hn
  rw [sendMsg]
  split
  · refine ⟨fun x => ?_, h.bounded, ⟨h.inOrder.filled, fun k => ?_, ?_, ?_⟩, h.left_le, hidle _ rfl⟩
    · rw [← h.conserved x, State.places, State.places, hsend]; rfl
    · rw [← hfate k]
      simp only [Sender.numbers, map_append, map_singleton, count_append, count_nil]
      omega
    · rw [map_append, pairwise_append]
      refine ⟨h.inOrder.order, pairwise_singleton _ _, fun k hk m hm => ?_⟩
      rw [map_singleton, mem_singleton] at hm; exact hm ▸ hnewer k hk
    · intro p hp
      rcases mem_append.mp hp with hold | hnew
      · exact h.inOrder.content p hold
      · rw [mem_singleton.mp hnew]; exact h.sender.send hsend
  · refine ⟨fun x => ?_, h.bounded, { h.inOrder with fate := fun k => ?_ }, h.left_le, hidle _ rfl⟩
    · rw [← h.conserved x, State.places, State.places, hsend]; rfl
    · rw [← hfate k]
      simp only [Sender.numbers, count_append, count_nil]
      omega

/-! ## Runs -/

theorem Inv.step (h : Inv s) (e : Step) (hstep : step s e = some s') : Inv s' := by
  cases e with
  | log multicast stamp to_be_sent => cases hstep; exact h.log multicast stamp to_be_sent
  | rx_msg => cases hstep; exact h.rx_msg
  | exit =>
    cases hstep
    exact ⟨h.conserved, h.bounded, { h.inOrder with }, h.left_le, { h.sender with }⟩
  | check =>
    obtain ⟨hidle, hif⟩ := ite_none_right_eq_some.mp hstep
    split at hif
    next hne =>
      cases hif
      exact h.setSender (by rw [hidle]; rfl) (by rw [hidle]; rfl) (.inr ⟨rfl, hne.1⟩)
    next => exact some.inj hif ▸ h
  | alloc_failed =>
    obtain ⟨halloc, heq⟩ := ite_none_right_eq_some.mp hstep
    cases heq
    exact h.setSender (by rw [halloc]; rfl) (by rw [halloc]; rfl) (.inl rfl)
  | take tailroom =>
    obtain ⟨⟨halloc, hroom⟩, hmatch⟩ := ite_none_right_eq_some.mp hstep
    split at hmatch
    next => cases hmatch
    next node filled hlist => cases hmatch; exact h.take halloc hroom hlist
  | copy =>
    rw [WlanLogging.step] at hstep
    split at hstep
    next node number tailroom hcopy => exact some.inj hstep ▸ h.copy hcopy
    next => cases hstep
  | sent ok =>
    rw [WlanLogging.step] at hstep
    split at hstep
    next number msg hsend => exact some.inj hstep ▸ h.sent hsend ok
    next => cases hstep

theorem Counted.succ (h : Counted s) (hdrop : s'.drop_count = s.drop_count + 1) {number : Nat}
    (hlost : s'.lost = s.lost ++ [number]) : Counted s' := by
  rw [Counted, hdrop, h, hlost, length_append, length_singleton, UInt32.ofNat_add]; rfl

theorem Counted.queue (h : Counted s) : Counted (wlan_queue_logmsg_for_app s) := by
  have hq := queue_wlan_queue s
  generalize wlan_queue_logmsg_for_app s = s' at hq
  cases hq with
  | free => exact h
  | filled => exact h.succ rfl rfl

theorem Counted.log (h : Counted s) (multicast : Bool) (stamp to_be_sent : List UInt8) :
    Counted (wlan_log_to_user s multicast stamp to_be_sent) := by
  rw [wlan_log_to_user]
  split
  · exact h
  · dsimp only
    split
    · exact h.queue
    · exact h

theorem Counted.step (h : Counted s) (e : Step) (hcounts : Counts s e)
    (hstep : step s e = some s') : Counted s' := by
  cases e with
  | log multicast stamp to_be_sent => cases hstep; exact h.log multicast stamp to_be_sent
  | rx_msg =>
    cases hstep
    rw [wlan_logging_proc_sock_rx_msg]
    split
    · exact h.queue
    · exact h
  | exit => cases hstep; exact h
  | check =>
    obtain ⟨-, hif⟩ := ite_none_right_eq_some.mp hstep
    split at hif <;> cases hif <;> exact h
  | alloc_failed =>
    obtain ⟨-, heq⟩ := ite_none_right_eq_some.mp hstep
    cases heq
    exact h
  | take tailroom =>
    obtain ⟨-, hmatch⟩ := ite_none_right_eq_some.mp hstep
    split at hmatch
    next => cases hmatch
    next => cases hmatch; exact h
  | copy =>
    rw [WlanLogging.step] at hstep
    split at hstep
    next =>
      cases hstep
      rw [copyMsg]
      split
      · exact h.succ rfl rfl
      · exact h
    next => cases hstep
  | sent ok =>
    rw [WlanLogging.step] at hstep
    split at hstep
    next =>
      cases hstep
      rw [sendMsg]
      split
      next => exact h
      next hok => have hdrop := hcounts.resolve_left hok; exact h.succ (if_pos hdrop) rfl
    next => cases hstep

/-- **The log buffers.** In every run every buffer is in one place, no text is too long, the
netlink message of a buffer fits, and the filled buffers go to user space in order; the thread
never takes a buffer off an empty list. If the messages that fail to be sent do so where
`drop_count` is a multiple of 64, every buffer that was lost is counted. -/
theorem log_kept {num_buf : Nat} (hpos : 0 < num_buf) (es : List Step) (s : State) :
    (run step (State.init num_buf) es = some s →
      Conserved s ∧ Bounded s ∧ InOrder s ∧ Fits s ∧
        (s.sender = .alloc → s.filled_list ≠ [])) ∧
    (run (guarded Counts step) (State.init num_buf) es = some s → Counted s) := by
  constructor
  · intro h
    have hinv : Inv s := run_invariant (fun _ e _ hs hstep => hs.step e hstep) (Inv.init hpos) h
    exact ⟨hinv.conserved, hinv.bounded, hinv.inOrder, hinv.fits, hinv.sender.alloc⟩
  · exact guarded_run_invariant (fun _ e _ hs hc hstep => hs.step e hc hstep) rfl

def oneBuffer (c : UInt8) (ok : Bool) : List Step :=
  [.log true [91, 93] [c], .rx_msg, .check, .take 4096, .copy, .sent ok]

/-- The second buffer is lost, and a message that is too long for a buffer is cut. -/
theorem log_kept_one_lost :
    ∃ s, run (guarded Counts step) (State.init 4)
      (oneBuffer 65 true ++ oneBuffer 66 false ++ oneBuffer 67 true ++
        [.log true [] (replicate 5000 68)]) = some s ∧
      s.sent.map (fun p => (p.1, p.2.text)) = [(0, [91, 93, 65, 10]), (2, [91, 93, 67, 10])] ∧
      s.cur.filled_length = 4071 ∧ s.drop_count = 1 ∧
      (Conserved s ∧ Bounded s ∧ InOrder s ∧ Fits s ∧ (s.sender = .alloc → s.filled_list ≠ [])) ∧
      Counted s := by
  refine exists_of_tested (fun s => s.sent.map (fun p => (p.1, p.2.text)) = [(0, [91, 93, 65, 10]),
      (2, [91, 93, 67, 10])] ∧ s.cur.filled_length = 4071 ∧ s.drop_count = 1) (by decide +kernel)
      fun s hs ⟨hsent, hlen, hdrop⟩ => ?_
  exact ⟨hsent, hlen, hdrop, (log_kept (by decide) _ s).1 (run_of_guarded hs),
    (log_kept (by decide) _ s).2 hs⟩

/-- Of two buffers that were not sent, one is counted. -/
theorem log_not_counted :
    ∃ s, run step (State.init 4) (oneBuffer 65 false ++ oneBuffer 66 false) = some s ∧
      s.lost = [0, 1] ∧ s.drop_count = 1 ∧ ¬Counted s := by
  refine exists_of_tested (fun s => s.lost = [0, 1] ∧ s.drop_count = 1) (by decide +kernel) fun s hs
      ⟨hlost, hdrop⟩ => ?_
  refine ⟨hlost, hdrop, ?_⟩
  rw [Counted, hlost, hdrop]; decide

end Qcacld.WlanLogging
