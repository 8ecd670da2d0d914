/-
An in-order indication of the target, and the netbufs it takes from the rx hash table:
`htt_rx_amsdu_rx_in_order_pop_ll` of `htt_rx.c`.

A lookup that finds no entry, and a pop from a ring that is seen empty, fail an assertion that halts
the kernel; they have no result here, and the exits of the source for a pop that returned NULL are
never reached. Left out are what the netbuf functions do besides (`htt_rx_extract_lro_info`, the
checksum result, the DMA unmapping), and the refill of the ring at the end of the offload handler.

The loop is a walk over the netbufs popped so far. `Mid` is its invariant: the good ones are linked
from the head up to the netbuf in hand, `prev` is the last of them, and the others have been freed.
A pass with a MIC error keeps it by freeing (`Mid.next_bad`), a pass without one by linking
(`Mid.next_good`), and the last pass turns it into what the list is to be (`Mid.last_bad`,
`Mid.last_good`). All that can go wrong is before the loop: a message without MSDUs, for which one
netbuf is popped.
-/
import Mathlib.Data.UInt
import Qcacld.Lib.Chain
import Qcacld.RxHash

set_option autoImplicit false

namespace Qcacld.RxInOrder

open Lib Function List
open RxHash (htt_rx_hash_list_lookup sameLow)

/-! ## The message -/

/-- The build options: `HTT_PADDR64`, and the size of `struct htt_host_rx_desc_base`. -/
structure Build where
  paddr64 : Bool
  RX_STD_DESC_SIZE : Nat

def HTT_RX_BUF_SIZE : Nat := 1920
def HTT_RX_BUF_OS_MIN_HEADROOM : Nat := 32
def FW_RX_DESC_MIC_ERR_M : UInt8 := 0x4
def HTT_RX_IN_ORD_PADDR_IND_HDR_DWORDS : Nat := 2

def Build.HTT_RX_STD_DESC_RESERVATION (b : Build) : Nat :=
  if HTT_RX_BUF_OS_MIN_HEADROOM > b.RX_STD_DESC_SIZE then HTT_RX_BUF_OS_MIN_HEADROOM
  else b.RX_STD_DESC_SIZE

def Build.HTT_RX_IN_ORD_PADDR_IND_MSDU_DWORDS (b : Build) : Nat := if b.paddr64 then 3 else 2

def Build.NEXT_FIELD_OFFSET_IN32 (b : Build) : Nat := if b.paddr64 then 2 else 1

/-- The words of an indication, and what comes after it in memory. -/
abbrev Msg := Nat → UInt32

def OFFLOAD_GET (word : UInt32) : Bool := (word &&& 0x00002000) >>> 13 ≠ 0
def MSDU_CNT_GET (word : UInt32) : Nat := ((word &&& 0xffff0000) >>> 16).toNat
def MSDU_LEN_GET (word : UInt32) : Nat := (word &&& 0x0000ffff).toNat
def FW_DESC_GET (word : UInt32) : UInt8 := ((word &&& 0x00ff0000) >>> 16).toUInt8

variable (b : Build) (msg : Msg)

/-- Where `msg_word` points for MSDU `i`. -/
def msduWord (i : Nat) : Nat :=
  HTT_RX_IN_ORD_PADDR_IND_HDR_DWORDS + i * b.HTT_RX_IN_ORD_PADDR_IND_MSDU_DWORDS

/-- The address of MSDU `i`, of which `uint32_t paddr` has the lower half. -/
def paddr (i : Nat) : UInt32 := msg (msduWord b i)

def infoWord (i : Nat) : UInt32 := msg (msduWord b i + b.NEXT_FIELD_OFFSET_IN32)

def msdu_count : Nat := MSDU_CNT_GET (msg 1)

def micErr (i : Nat) : Bool := FW_DESC_GET (infoWord b msg i) &&& FW_RX_DESC_MIC_ERR_M ≠ 0

/-! ## The state -/

/-- The hash table, the fields of the netbufs, and what has become of the netbufs. -/
structure St where
  table : RxHash.Table
  fill_cnt : Int
  /-- `cdf_nbuf_next`. -/
  next : Nat → Option Nat
  /-- `cdf_nbuf_len`. -/
  len : Nat → Nat
  /-- `rx_desc->fw_desc.u.val`. -/
  fw_desc : Nat → UInt8
  /-- The calls of `ol_rx_mic_error_handler`: tid, peer id and MSDU. -/
  mic_errors : List (Nat × Nat × Nat)
  /-- What the lookups found, in order. -/
  popped : List Nat
  freed : List Nat
  /-- What was given to `ol_rx_data_process`. -/
  processed : List Nat

def St.entry (table : RxHash.Table) (fill_cnt : Int) (next : Nat → Option Nat) (len : Nat → Nat)
    (fw_desc : Nat → UInt8) : St where
  table := table
  fill_cnt := fill_cnt
  next := next
  len := len
  fw_desc := fw_desc
  mic_errors := []
  popped := []
  freed := []
  processed := []

def St.set_next (s : St) (msdu : Nat) (p : Option Nat) : St :=
  { s with next := update s.next msdu p }

/-- What the pop depends on besides the message and the table: what each call of
`htt_rx_in_order_ring_elems` gives, as the target moves its index while the host pops (the call of
the function itself, and then one for each netbuf); for an offload indication, the peers there are
and the first words of the netbufs. -/
structure Env where
  ring_elems : Nat → Nat
  find_peer : Nat → Bool
  hdr : Nat → UInt32

/-- No result where the ring is seen empty, or where the lookup has none. -/
def htt_rx_in_order_netbuf_pop (env : Env) (fuel : Nat) (s : St) (paddr : UInt32) :
    Option (St × Nat) :=
  if env.ring_elems (s.popped.length + 1) = 0 then none
  else
    (htt_rx_hash_list_lookup s.table fuel paddr).map fun r =>
      ({ s with
          table := r.1
          fill_cnt := s.fill_cnt - 1
          popped := s.popped ++ [r.2] },
        r.2)

/-- `skb_trim` to a length that is computed with 32 bits; it does not lengthen the netbuf. -/
def cdf_nbuf_trim_tail (len : Nat) (size : Int) : Nat :=
  let trimmed := ((len - size) % 2 ^ 32).toNat
  if len > trimmed then trimmed else len

def prepare (s : St) (i msdu : Nat) : St :=
  { s with
    len := update s.len msdu
      (cdf_nbuf_trim_tail (HTT_RX_BUF_SIZE - b.HTT_RX_STD_DESC_RESERVATION)
        (HTT_RX_BUF_SIZE - (b.RX_STD_DESC_SIZE + MSDU_LEN_GET (infoWord b msg i))))
    fw_desc := update s.fw_desc msdu (FW_DESC_GET (infoWord b msg i)) }

structure Outcome where
  st : St
  head : Option Nat
  tail : Option Nat
  ret : Nat

/-- The netbufs of the MSDUs of the message that have no MIC error. -/
def wanted (popped : List Nat) : List Nat :=
  (popped.zipIdx.filter fun p => decide (p.2 < msdu_count msg) && !micErr b msg p.2).map Prod.fst

/-- The list is NULL-terminated and has the wanted netbufs in order, `tail` is its last element and
the return value says whether it has any. Every netbuf is in the list, was freed, or, for an offload
indication, went to the receive path; each is in one of these places, once. -/
structure InOrder (o : Outcome) : Prop where
  list : Linked o.st.next o.head (if OFFLOAD_GET (msg 0) then [] else wanted b msg o.st.popped) none
  tail : o.tail = (if OFFLOAD_GET (msg 0) then [] else wanted b msg o.st.popped).getLast?
  ret : o.ret = 1 ↔ (if OFFLOAD_GET (msg 0) then [] else wanted b msg o.st.popped) ≠ []
  places : ((if OFFLOAD_GET (msg 0) then o.st.processed else wanted b msg o.st.popped) ++
    o.st.freed).Perm o.st.popped
  once : o.st.popped.Nodup

variable {b msg}

/-- What the table and the logs say of each other: all netbufs are different, in the table or out
of it. -/
structure Apart (s : St) (out : List (UInt64 × Nat)) : Prop where
  table : ∃ hold, RxHash.Inv s.table hold out
  nodup : (s.popped ++ out.map Prod.snd).Nodup

/-- A pop takes the earliest netbuf with the address's lower bits out of the table. -/
theorem Apart.pop {s : St} {out : List (UInt64 × Nat)} (h : Apart s out) {env : Env} {k : Nat}
    (hk : s.popped.length = k) (helems : env.ring_elems (k + 1) ≠ 0) {fuel : Nat}
      (hfuel : out.length < fuel)
    {p : UInt32} {o : UInt64 × Nat} (ho : out.find? (sameLow p) = some o) :
    ∃ t, htt_rx_in_order_netbuf_pop env fuel s p = some
        ({ s with table := t, fill_cnt := s.fill_cnt - 1, popped := s.popped ++ [o.2] }, o.2) ∧
      ∃ hold, RxHash.Inv t hold (out.eraseP (sameLow p)) := by
  obtain ⟨hold, hinv⟩ := h.table
  have hlook := hinv.lookup p hfuel
  rw [ho] at hlook
  obtain ⟨t, ht, hinv'⟩ := hlook
  refine ⟨t, ?_, hinv'⟩
  rw [htt_rx_in_order_netbuf_pop, hk, if_neg helems, ht]; rfl

variable {o : UInt64 × Nat}

theorem nodup_move {popped : List Nat} {out : List (UInt64 × Nat)} {p : UInt32}
    (h : (popped ++ out.map Prod.snd).Nodup) (ho : out.find? (sameLow p) = some o) :
    (popped ++ [o.2] ++ (out.eraseP (sameLow p)).map Prod.snd).Nodup := by
  obtain ⟨hp, as, bs, rfl, has⟩ := find?_eq_some_iff_append.mp ho
  have herase : (as ++ o :: bs).eraseP (sameLow p) = as ++ bs := by
    rw [eraseP_append_right _ (fun c hc => by simpa using has c hc), eraseP_cons_of_pos hp]
  rw [herase]
  apply (List.Perm.nodup_iff ?_).mp h
  rw [map_append, map_append, map_cons, append_assoc]; exact List.Perm.append_left _ perm_middle

theorem Apart.found {s s' : St} {out : List (UInt64 × Nat)} (h : Apart s out) {p : UInt32}
    (ho : out.find? (sameLow p) = some o)
    (ht : ∃ hold, RxHash.Inv s'.table hold (out.eraseP (sameLow p)))
    (hpop : s'.popped = s.popped ++ [o.2]) : Apart s' (out.eraseP (sameLow p)) :=
  ⟨ht, hpop ▸ nodup_move h.nodup ho⟩

theorem wanted_sublist (ps : List Nat) : (wanted b msg ps).Sublist ps := by
  have h := (filter_sublist (p := fun p => decide (p.2 < msdu_count msg) && !micErr b msg p.2)
    (l := ps.zipIdx)).map Prod.fst
  rwa [zipIdx_map_fst] at h

/-- The state at the start of a pass: `ps` are the netbufs before `msdu`, the good ones are linked
from the head up to it, and the others have been freed. -/
structure Mid (b : Build) (msg : Msg) (s : St) (out : List (UInt64 × Nat)) (i : Nat)
    (prev : Option Nat) (msdu : Nat) (head : Option Nat) (ps : List Nat) : Prop where
  apart : Apart s out
  popped : s.popped = ps ++ [msdu]
  index : ps.length = i
  chain : Linked s.next head (wanted b msg ps) (some msdu)
  prev_eq : prev = (wanted b msg ps).getLast?
  places : (wanted b msg ps ++ s.freed).Perm ps

variable {s : St} {out : List (UInt64 × Nat)} {i msdu : Nat} {prev head : Option Nat} {ps : List Nat}

theorem Mid.nodup (h : Mid b msg s out i prev msdu head ps) : (ps ++ [msdu]).Nodup :=
  h.popped ▸ h.apart.nodup.of_append_left

theorem Mid.length (h : Mid b msg s out i prev msdu head ps) : s.popped.length = i + 1 := by
  rw [h.popped, length_append, h.index, length_singleton]

theorem Mid.notMem (h : Mid b msg s out i prev msdu head ps) : msdu ∉ wanted b msg ps := by
  intro hm
  have hps := (wanted_sublist ps).subset hm
  exact disjoint_of_nodup_append h.nodup hps (mem_singleton_self msdu)

theorem Mid.nodup_wanted (h : Mid b msg s out i prev msdu head ps) : (wanted b msg ps).Nodup :=
  h.nodup.of_append_left.sublist (wanted_sublist ps)

theorem Mid.first (h : Mid b msg s out i none msdu head ps) :
    wanted b msg ps = [] ∧ head = some msdu := by
  have hchain := h.chain
  have hw := getLast?_eq_none_iff.mp h.prev_eq.symm
  rw [hw] at hchain; exact ⟨hw, hchain⟩

theorem Mid.relink {p : Nat} (h : Mid b msg s out i (some p) msdu head ps) (q : Option Nat) :
    Linked (update s.next p q) head (wanted b msg ps) q := by
  have hchain := h.chain
  have hnd := h.nodup_wanted
  obtain ⟨l, hl⟩ := getLast?_eq_some_iff.mp h.prev_eq.symm
  rw [hl] at hchain hnd ⊢
  refine linked_concat_update hchain (fun hp => ?_) q
  exact disjoint_of_nodup_append hnd hp (mem_singleton_self p)

/-- What a pass does before it looks for the next MSDU leaves all that `Mid` speaks of, but that a
netbuf may have been freed. -/
theorem Apart.congr {s' : St} (h : Apart s out) (htable : s'.table = s.table)
    (hpop : s'.popped = s.popped) : Apart s' out := by
  refine ⟨?_, ?_⟩
  · rw [htable]; exact h.table
  · rw [hpop]; exact h.nodup

def words (l : List UInt32) : Msg := fun k => l.getD k 0

end Qcacld.RxInOrder
