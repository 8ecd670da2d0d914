/-
The log of tx queue events on high-latency devices: `ol_tx_queue.c`, `ol_tx_sched.c`.

How large a record is follows from its type, or, of a queue state, from a count in its body;
`ol_tx_queue_log_entry_type_info` finds that out again for the record at an address. A record that
does not fit before the end of the buffer goes to its start, and a type byte of its own marks where
the log turned back. A read outside the buffer is `none`; so is a loop that does not end. What is
printed of a record is left out, not what is read for it.
-/
import Qcacld.Pktlog

set_option autoImplicit false

namespace Qcacld.TxqLog

open Function
open Pktlog (slice blit bytes16 bytes32)

section

/-! ## Entries -/

inductive EntryType where
  | invalid
  | queue_state
  | enqueue
  | dequeue
  | drop
  | queue_free
  | wrap
deriving DecidableEq

def EntryType.code : EntryType → UInt8
  | .invalid => 0
  | .queue_state => 1
  | .enqueue => 2
  | .dequeue => 3
  | .drop => 4
  | .queue_free => 5
  | .wrap => 6

/-- What a type byte is taken for; no `switch` knows any other. -/
def EntryType.ofByte (b : UInt8) : EntryType :=
  match b.toNat with
  | 1 => .queue_state
  | 2 => .enqueue
  | 3 => .dequeue
  | 4 => .drop
  | 5 => .queue_free
  | 6 => .wrap
  | _ => .invalid

structure Log where
  size : Nat
  oldest_record_offset : Nat
  offset : Nat
  allow_wrap : Bool
  wrapped : Bool
  data : Nat → UInt8

def Log.byte (l : Log) (p : Nat) : Option UInt8 := if p < l.size then some (l.data p) else none

def Log.read (l : Log) (p n : Nat) : Option (List UInt8) :=
  if p + n ≤ l.size then some (slice l.data p n) else none

/-! ## The size of a record -/

/-- `(align - (offset + 1)) & (align - 1)`. With an `align` of 2 or 4 the mask takes a remainder;
with 0 it takes all there is, as a remainder by 0 does. -/
def alignPad (align offset : Nat) : Int := ((align : Int) - (offset + 1)) % align

/-- The size of the body and its alignment. With `var_size` the count of a queue state is read, at
an address for which the padding is computed of `*type` and not of where the record is. -/
def ol_tx_queue_log_entry_type_info (l : Log) (pos : Nat) (type : EntryType) (var_size : Bool) :
    Option (Nat × Nat) :=
  match type with
  | .enqueue | .dequeue | .queue_free => some (6, 2)
  | .queue_state =>
    if var_size then
      let record := pos + 1 + (alignPad 4 EntryType.queue_state.code.toNat).toNat
      (l.byte (record + 6)).map fun num_cats_active => (7 + num_cats_active.toNat * (4 + 2), 4)
    else some (7, 4)
  | _ => some (0, 0)

/-- `offset + size + 1 + align_pad` -/
def recordEnd (offset size align : Nat) : Nat := (offset + size + 1 + alignPad align offset).toNat

/-! ## Making room -/

/-- The loop of `ol_tx_queue_log_oldest_update`. An offset that comes up twice comes up for ever, so
the loop ends within `offset` rounds or not at all. -/
def advance (l : Log) (offset : Nat) : Nat → Nat → Option Nat
  | 0, oldest => if oldest < offset then none else some oldest
  | fuel + 1, oldest =>
    if oldest < offset then
      (l.byte oldest).bind fun b =>
        if EntryType.ofByte b = .wrap then some 0
        else
          (ol_tx_queue_log_entry_type_info l oldest (EntryType.ofByte b) true).bind
            fun (size, align) => advance l offset fuel (recordEnd oldest size align)
    else some oldest

def ol_tx_queue_log_oldest_update (l : Log) (offset : Nat) : Option Log :=
  if l.wrapped = false then some l
  else if l.offset < offset ∧ l.oldest_record_offset = 0 then some l
  else
    let oldest := if l.offset < offset then l.oldest_record_offset else 0
    (advance l offset offset oldest).map fun oldest =>
      { l with oldest_record_offset := if l.size ≤ oldest then 0 else oldest }

/-! ## Allocating a record -/

def placeRecord (l : Log) (type : EntryType) (offset stop : Nat) : Log :=
  let data := if offset = 0 then update l.data l.offset EntryType.wrap.code else l.data
  let l := { l with data := update data offset type.code, offset := stop }
  if l.size ≤ l.offset then { l with offset := 0, wrapped := true } else l

def allocFound (l : Log) (type : EntryType) (size align offset : Nat) : Option (Option Nat × Log) :=
  (ol_tx_queue_log_oldest_update l (recordEnd offset size align)).map fun l =>
    (some (offset + 1 + (alignPad align offset).toNat),
      placeRecord l type offset (recordEnd offset size align))

def ol_tx_queue_log_alloc (l : Log) (type : EntryType) (extra_bytes : Nat) :
    Option (Option Nat × Log) :=
  (ol_tx_queue_log_entry_type_info l 0 type false).bind fun (size, align) =>
    let size := size + extra_bytes
    if (size : Int) + 1 + alignPad align l.offset ≤ (l.size : Int) - l.offset then
      allocFound l type size align l.offset
    else if l.allow_wrap = false then some (none, l)
    else
      let l := { l with wrapped := true }
      if (l.size : Int) ≤ size + 1 + alignPad align 0 then some (none, l)
      else allocFound l type size align 0

/-! ## The records that are written -/

/-- The events that take a `struct ol_tx_log_queue_add_t`. -/
inductive QueueEvent where
  | enqueue
  | dequeue
  | queue_free

inductive Entry where
  | add (event : QueueEvent) (num_frms tid : UInt8) (peer_id num_bytes : UInt16)
  | state (active_bitmap : UInt32) (credit : UInt16) (cats : List (UInt16 × UInt32))

def Entry.type : Entry → EntryType
  | .add .enqueue .. => .enqueue
  | .add .dequeue .. => .dequeue
  | .add .queue_free .. => .queue_free
  | .state .. => .queue_state

def Entry.extraBytes : Entry → Nat
  | .add .. => 0
  | .state _ _ cats => (4 + 2) * cats.length

def Entry.bytes : Entry → List UInt8
  | .add _ num_frms tid peer_id num_bytes =>
    [num_frms, tid] ++ bytes16 peer_id ++ bytes16 num_bytes
  | .state active_bitmap credit cats =>
    bytes32 active_bitmap ++ bytes16 credit ++ [UInt8.ofNat cats.length] ++
      cats.flatMap fun (frms, bytes) => bytes16 frms ++ bytes32 bytes

/-- A writer fills in what it has allocated, if it has. -/
def fillIn (e : Entry) : Option Nat × Log → Bool × Log
  | (none, l) => (false, l)
  | (some log_elem, l) => (true, { l with data := blit l.data log_elem e.bytes })

def logRecord (l : Log) (e : Entry) : Option (Bool × Log) :=
  (ol_tx_queue_log_alloc l e.type e.extraBytes).map (fillIn e)

def ol_tx_queue_log_enqueue (l : Log) (peer_id : UInt16) (tid frms : UInt8) (bytes : UInt16) :
    Option (Bool × Log) := logRecord l (.add .enqueue frms tid peer_id bytes)

def ol_tx_queue_log_dequeue (l : Log) (peer_id : UInt16) (ext_tid frms : UInt8) (bytes : UInt16) :
    Option (Bool × Log) := logRecord l (.add .dequeue frms ext_tid peer_id bytes)

def ol_tx_queue_log_free (l : Log) (peer_id : UInt16) (tid frms : UInt8) (bytes : UInt16) :
    Option (Bool × Log) := logRecord l (.add .queue_free frms tid peer_id bytes)

/-- The record of `ol_tx_queue_log_sched`, with the categories that `ol_tx_sched_log` then fills
in. -/
def ol_tx_queue_log_sched (l : Log) (credit : UInt16) (active_bitmap : UInt32)
    (cats : List (UInt16 × UInt32)) : Option (Bool × Log) :=
  logRecord l (.state active_bitmap credit cats)

def ol_tx_queue_log_clear (size : Nat) : Log :=
  { size := size, oldest_record_offset := 0, offset := 0, allow_wrap := true, wrapped := false
    data := fun _ => 0 }

/-! ## Displaying the log -/

/-- A record that is displayed, with the bytes that are copied of its body. -/
structure Shown where
  offset : Nat
  type : EntryType
  body : List UInt8

def copyRecord (l : Log) (offset pos : Nat) (delta : Int) (type : EntryType) :
    Option (Int × Option Shown) :=
  match type with
  | .enqueue | .dequeue | .queue_free =>
    (l.read pos 6).map fun body => (delta, some ⟨offset, type, body⟩)
  | .queue_state => (l.read pos 8).map fun body => (delta, some ⟨offset, type, body⟩)
  | .wrap => some (-offset, none)
  | _ => some (0, none)

def ol_tx_queue_log_record_display (l : Log) (offset : Nat) : Option (Int × Option Shown) :=
  (l.byte offset).bind fun b =>
    (ol_tx_queue_log_entry_type_info l offset (EntryType.ofByte b) true).bind fun (size, align) =>
      copyRecord l offset (offset + 1 + (alignPad align offset).toNat)
        (size + 1 + alignPad align offset) (EntryType.ofByte b)

def displayFrom (l : Log) : Nat → Bool → Nat → Option (List Shown × Bool)
  | fuel, unwrap, offset =>
    if unwrap = true ∨ offset ≠ l.offset then
      match fuel with
      | 0 => none
      | fuel + 1 =>
        (ol_tx_queue_log_record_display l offset).bind fun (delta, shown) =>
          if delta = 0 then some ([], false)
          else
            (displayFrom l fuel (unwrap && decide (0 ≤ delta)) (offset + delta).toNat).map
              fun (rest, ended) => (shown.toList ++ rest, ended)
    else some ([], true)

/-- Each offset comes up at most twice, before and after the log turns back, in a walk that ends. -/
def ol_tx_queue_log_display (l : Log) : Option (List Shown × Bool) :=
  displayFrom l (2 * l.size + 1) l.wrapped l.oldest_record_offset

open List Option
open Pktlog (slice blit bytes16 bytes32 length_slice slice_add slice_congr slice_blit
  slice_blit_outside blit_outside)

/-! `Laid data a es b` says that the records `es` lie one after the other from `a` on and end at
`b`. The functions that go over them find the end of each only where the count of a queue state is
read right (`Entry.Counted`). -/

/-! ## The shape of a record -/

def Entry.align : Entry → Nat
  | .add .. => 2
  | .state .. => 4

def Entry.pad (e : Entry) (a : Nat) : Nat := (alignPad e.align a).toNat

def Entry.stop (e : Entry) (a : Nat) : Nat := a + 1 + e.pad a + e.bytes.length

variable {l l' : Log} {e : Entry} {es : List Entry} {a b E : Nat} {data data' : Nat → UInt8}

theorem alignPad_cast (e : Entry) (a : Nat) : alignPad e.align a = e.pad a := by
  unfold Entry.pad
  have h : 0 ≤ alignPad e.align a := by
    apply Int.emod_nonneg
    cases e with
    | add => exact Int.ofNat_ne_zero.mpr (Nat.succ_ne_zero 1)
    | state => exact Int.ofNat_ne_zero.mpr (Nat.succ_ne_zero 3)
  omega

theorem pad_state (bitmap : UInt32) (credit : UInt16) (cats : List (UInt16 × UInt32)) (a : Nat) :
    (Entry.state bitmap credit cats).pad a < 4 ∧
      ((Entry.state bitmap credit cats).pad a + a + 1) % 4 = 0 := by
  change (alignPad 4 a).toNat < 4 ∧ ((alignPad 4 a).toNat + a + 1) % 4 = 0
  unfold alignPad; omega

theorem length_bytes_state (bitmap : UInt32) (credit : UInt16) (cats : List (UInt16 × UInt32)) :
    (Entry.state bitmap credit cats).bytes.length = 7 + cats.length * (4 + 2) := by
  have hcats : (cats.flatMap fun c => bytes16 c.1 ++ bytes32 c.2).length = cats.length * 6 := by
    induction cats with
    | nil => rfl
    | cons c cats ih =>
      rw [flatMap_cons, length_append, ih, length_cons, Nat.succ_mul, Nat.add_comm]; rfl
  change ((bytes32 bitmap ++ bytes16 credit ++ [UInt8.ofNat cats.length]) ++ _).length = _
  rw [length_append, hcats]; rfl

theorem info_alloc (l : Log) (e : Entry) :
    ∃ size, ol_tx_queue_log_entry_type_info l 0 e.type false = some (size, e.align) ∧
      size + e.extraBytes = e.bytes.length := by
  cases e with
  | add event => cases event <;> exact ⟨6, rfl, rfl⟩
  | state bitmap credit cats =>
    refine ⟨7, rfl, ?_⟩
    rw [length_bytes_state, Nat.mul_comm]; rfl

theorem length_bytes_pos (e : Entry) : 6 ≤ e.bytes.length := by
  cases e with
  | add => exact Nat.le_refl 6
  | state bitmap credit cats => rw [length_bytes_state]; omega

theorem lt_stop (e : Entry) (a : Nat) : a + 7 ≤ e.stop a := by
  have h := length_bytes_pos e
  unfold Entry.stop; omega

theorem recordEnd_eq (e : Entry) (a : Nat) : recordEnd a e.bytes.length e.align = e.stop a := by
  unfold recordEnd Entry.stop
  rw [alignPad_cast]; omega

theorem ofByte_code (e : Entry) : EntryType.ofByte e.type.code = e.type := by
  cases e with
  | add event => cases event <;> rfl
  | state => rfl

theorem type_ne_wrap (e : Entry) : e.type ≠ .wrap := by
  cases e with
  | add event => cases event <;> exact nofun
  | state => exact nofun

/-! ## Records that lie in the buffer -/

/-- The byte that is read for the count of a queue state at `a` belongs to the record and is the
number of its categories. -/
def Entry.Counted (e : Entry) (a : Nat) : Prop :=
  match e with
  | .add .. => True
  | .state _ _ cats =>
    cats.length < 256 ∧ (e.bytes.drop (8 - e.pad a)).head? = some (UInt8.ofNat cats.length)

structure Stored (data : Nat → UInt8) (a : Nat) (e : Entry) : Prop where
  type : data a = e.type.code
  body : slice data (a + 1 + e.pad a) e.bytes.length = e.bytes
  counted : e.Counted a

def Laid (data : Nat → UInt8) : Nat → List Entry → Nat → Prop
  | a, [], b => a = b
  | a, e :: es, b => Stored data a e ∧ Laid data (e.stop a) es b

def placed : Nat → List Entry → List (Nat × Entry)
  | _, [] => []
  | a, e :: es => (a, e) :: placed (e.stop a) es

theorem Laid.le (h : Laid data a es b) : a + es.length ≤ b := by
  induction es generalizing a with
  | nil => exact Nat.le_of_eq h
  | cons e es ih =>
    have hle := ih h.2
    have hlt := lt_stop e a
    rw [length_cons]; omega

theorem Laid.append {c : Nat} {fs : List Entry} (h : Laid data a es b) (h' : Laid data b fs c) :
    Laid data a (es ++ fs) c ∧ placed a (es ++ fs) = placed a es ++ placed b fs := by
  induction es generalizing a with
  | nil => obtain rfl : a = b := h; exact ⟨h', rfl⟩
  | cons e es ih =>
    obtain ⟨hlaid, hplaced⟩ := ih h.2
    refine ⟨⟨h.1, hlaid⟩, ?_⟩
    rw [cons_append, placed, hplaced]; rfl

theorem Stored.congr (h : Stored data a e) (hsame : ∀ i, a ≤ i → i < e.stop a → data' i = data i) :
    Stored data' a e where
  type := by
    rw [hsame a (Nat.le_refl a) (by have := lt_stop e a; omega)]
    exact h.type
  body := by
    rw [← h.body]
    have hlen : e.bytes.length = (slice data (a + 1 + e.pad a) e.bytes.length).length := by
      rw [length_slice]
    rw [← hlen]
    apply slice_congr
    intro i hi hlt
    exact hsame i (by omega) (by unfold Entry.stop; omega)
  counted := h.counted

theorem Laid.congr (h : Laid data a es b) (hsame : ∀ i, a ≤ i → i < b → data' i = data i) :
    Laid data' a es b := by
  induction es generalizing a with
  | nil => exact h
  | cons e es ih =>
    have hle := h.2.le
    have hlt := lt_stop e a
    refine ⟨h.1.congr fun i hi hs => hsame i hi (by omega), ih h.2 fun i hi hs => ?_⟩
    exact hsame i (by omega) hs

/-! ## One record -/

theorem Stored.type_read (h : Stored data a e) : EntryType.ofByte (data a) = e.type := by
  rw [h.type]; exact ofByte_code e

theorem head_drop_slice (data : Nat → UInt8) (p : Nat) {n i : Nat} (hi : i < n) :
    ((slice data p n).drop i).head? = some (data (p + i)) := by
  rw [head?_drop, Pktlog.getElem?_slice data p hi]

theorem Stored.info (h : Stored l.data a e) (hin : e.stop a ≤ l.size) :
    ol_tx_queue_log_entry_type_info l a e.type true = some (e.bytes.length, e.align) := by
  cases e with
  | add event => cases event <;> rfl
  | state bitmap credit cats =>
    set e := Entry.state bitmap credit cats with he
    obtain ⟨hlt, hhead⟩ : cats.length < 256 ∧
        (e.bytes.drop (8 - e.pad a)).head? = some (UInt8.ofNat cats.length) := h.counted
    have hpad : e.pad a < 4 := (pad_state bitmap credit cats a).1
    have hidx : 8 - e.pad a < e.bytes.length := by
      by_contra hnot
      rw [drop_eq_nil_of_le (Nat.le_of_not_lt hnot)] at hhead
      cases hhead
    have hcell : l.data (a + 1 + 2 + 6) = UInt8.ofNat cats.length := by
      rw [← h.body, head_drop_slice _ _ hidx] at hhead
      have haddr : a + 1 + e.pad a + (8 - e.pad a) = a + 1 + 2 + 6 := by omega
      rw [haddr] at hhead; exact some.inj hhead
    have hbyte : l.byte (a + 1 + 2 + 6) = some (UInt8.ofNat cats.length) := by
      have hbound : a + 1 + 2 + 6 < l.size := by unfold Entry.stop at hin; omega
      rw [Log.byte, if_pos hbound, hcell]
    change (l.byte (a + 1 + 2 + 6)).map
      (fun num_cats_active => (7 + num_cats_active.toNat * 6, 4)) = some (e.bytes.length, 4)
    rw [hbyte, map_some, UInt8.toNat_ofNat_of_lt' hlt, he, length_bytes_state]

/-! ## Displaying records -/

def Shows (v : Shown) (r : Nat × Entry) : Prop :=
  v.offset = r.1 ∧ v.type = r.2.type ∧ r.2.bytes.take 8 <+: v.body

theorem slice_prefix (data : Nat → UInt8) (p : Nat) {m n : Nat} (h : m ≤ n) :
    slice data p m <+: slice data p n := by
  obtain ⟨k, rfl⟩ := Nat.exists_eq_add_of_le h
  rw [slice_add]; exact prefix_append _ _

theorem Stored.copied (h : Stored data a e) {n : Nat} (hn : min 8 e.bytes.length ≤ n) :
    e.bytes.take 8 <+: slice data (a + 1 + e.pad a) n := by
  have htake : e.bytes.take 8 = slice data (a + 1 + e.pad a) (min 8 e.bytes.length) := by
    rw [← Pktlog.slice_take, h.body]
  rw [htake]; exact slice_prefix data _ hn

theorem read_eq (l : Log) {p n : Nat} (h : p + n ≤ l.size) :
    l.read p n = some (slice l.data p n) := if_pos h

theorem Stored.display_eq (h : Stored l.data a e) (hin : e.stop a ≤ l.size) :
    ol_tx_queue_log_record_display l a =
      copyRecord l a (a + 1 + e.pad a) ((e.stop a : Int) - a) e.type := by
  have hbyte : l.byte a = some (l.data a) := if_pos (by have := lt_stop e a; omega)
  have hdelta : (e.bytes.length : Int) + 1 + alignPad e.align a = (e.stop a : Int) - a := by
    rw [alignPad_cast]
    unfold Entry.stop; omega
  rw [ol_tx_queue_log_record_display, hbyte, bind_some, h.type_read, h.info hin,
    bind_some, ← hdelta]
  rfl

theorem Stored.display (h : Stored l.data a e) (hin : e.stop a < l.size) :
    ∃ v, ol_tx_queue_log_record_display l a = some ((e.stop a : Int) - a, some v) ∧
      Shows v (a, e) := by
  have hstop : e.stop a = a + 1 + e.pad a + e.bytes.length := rfl
  have hrun := h.display_eq (Nat.le_of_lt hin)
  cases e with
  | add event frms tid peer bytes =>
    have hread := read_eq l (show a + 1 + (Entry.add event frms tid peer bytes).pad a + 6 ≤ l.size
      from Nat.le_of_lt hin)
    have hcopy := h.copied (Nat.le_refl 6)
    cases event <;> exact ⟨_, hrun.trans (congrArg (Option.map _) hread), rfl, rfl, hcopy⟩
  | state bitmap credit cats =>
    have hlen := length_bytes_state bitmap credit cats
    have hread := read_eq l (show a + 1 + (Entry.state bitmap credit cats).pad a + 8 ≤ l.size
      by omega)
    have hcopy := h.copied (Nat.min_le_left 8 _)
    exact ⟨_, hrun.trans (congrArg (Option.map _) hread), rfl, rfl, hcopy⟩

theorem displayFrom_laid (unwrap : Bool) (fuel : Nat) (h : Laid l.data a es b) (hb : b < l.size)
    (hu : unwrap = true ∨ b ≤ l.offset) :
    ∃ shown, List.Forall₂ Shows shown (placed a es) ∧
      displayFrom l (es.length + fuel) unwrap a =
        (displayFrom l fuel unwrap b).map fun r => (shown ++ r.1, r.2) := by
  induction es generalizing a with
  | nil =>
    obtain rfl : a = b := h
    refine ⟨[], List.Forall₂.nil, ?_⟩
    rw [length_nil, Nat.zero_add]; exact map_id'.symm
  | cons e es ih =>
    have hle := h.2.le
    have hlt := lt_stop e a
    obtain ⟨v, hv, hshows⟩ := h.1.display (by omega)
    obtain ⟨shown, hall, hrest⟩ := ih h.2
    refine ⟨v :: shown, List.Forall₂.cons hshows hall, ?_⟩
    have hcond : unwrap = true ∨ a ≠ l.offset := by
      rcases hu with hu | hu
      · exact Or.inl hu
      · exact Or.inr (by omega)
    have hdelta : (e.stop a : Int) - a ≠ 0 ∧ 0 ≤ (e.stop a : Int) - a ∧
        (a + ((e.stop a : Int) - a)).toNat = e.stop a := by omega
    rw [length_cons, Nat.succ_add, displayFrom, if_pos hcond, hv, bind_some]
    simp only [if_neg hdelta.1, hdelta.2.2, decide_eq_true hdelta.2.1, Bool.and_true]
    rw [hrest, Option.map_map]; rfl

theorem displayFrom_marker {w : Nat} (fuel : Nat) (hmark : l.data w = EntryType.wrap.code)
    (hw : w < l.size) (hpos : 0 < w) :
    displayFrom l (fuel + 1) true w = displayFrom l fuel false 0 := by
  have hrun : ol_tx_queue_log_record_display l w = some (-(w : Int), none) := by
    have hbyte : l.byte w = some EntryType.wrap.code := by rw [Log.byte, if_pos hw, hmark]
    rw [ol_tx_queue_log_record_display, hbyte]; rfl
  have hneg : (-(w : Int)) ≠ 0 ∧ ¬ (0 ≤ -(w : Int)) ∧ ((w : Int) + -w).toNat = 0 := by omega
  rw [displayFrom, if_pos (Or.inl rfl), hrun, bind_some]
  simp only [if_neg hneg.1, hneg.2.2, decide_eq_false hneg.2.1, Bool.and_false]
  exact map_id'

theorem displayFrom_end (l : Log) (fuel : Nat) :
    displayFrom l fuel false l.offset = some ([], true) := by
  unfold displayFrom
  rw [if_neg (by simp)]

/-! ## Dropping records -/

theorem advance_laid (fuel : Nat) (h : Laid l.data a es b) (hb : b < l.size) (hE : E ≤ b)
    (hfuel : E - a ≤ fuel) :
    ∃ c fs, advance l E fuel a = some c ∧ E ≤ c ∧ Laid l.data c fs b ∧
      placed c fs <:+ placed a es := by
  induction es generalizing a fuel with
  | nil =>
    obtain rfl : a = b := h
    refine ⟨a, [], ?_, hE, rfl, suffix_refl _⟩
    cases fuel <;> exact if_neg (Nat.not_lt.mpr hE)
  | cons e es ih =>
    by_cases ha : a < E
    · obtain ⟨n, rfl⟩ := Nat.exists_eq_succ_of_ne_zero (show fuel ≠ 0 by omega)
      have hle := h.2.le
      have hlt := lt_stop e a
      have hbyte : l.byte a = some (l.data a) := if_pos (by omega)
      obtain ⟨c, fs, hrun, hc, hlaid, hsuf⟩ := ih n h.2 (by omega)
      refine ⟨c, fs, ?_, hc, hlaid, hsuf.trans (suffix_cons _ _)⟩
      rw [advance, if_pos ha, hbyte, bind_some, h.1.type_read, if_neg (type_ne_wrap e),
        h.1.info (by omega), bind_some]
      change advance l E n (recordEnd a e.bytes.length e.align) = some c
      rw [recordEnd_eq, hrun]
    · refine ⟨a, e :: es, ?_, Nat.le_of_not_lt ha, h, suffix_refl _⟩
      cases fuel <;> exact if_neg ha

end

open List Option
open Pktlog (slice blit slice_blit blit_outside)

/-! Whole runs of the log. -/

variable {l l' : Log} {e : Entry} {es : List Entry} {h : List (Nat × Entry)} {marker o : Nat}
variable {ok : Bool}

/-! ## Writing a record -/

def written (l : Log) (e : Entry) (o : Nat) : Nat → UInt8 :=
  blit (update (if o = 0 then update l.data l.offset EntryType.wrap.code else l.data) o e.type.code)
    (o + 1 + e.pad o) e.bytes

theorem written_outside (l : Log) (e : Entry) {i : Nat} (hi : i < o ∨ e.stop o ≤ i)
    (hmark : o = 0 → i ≠ l.offset) : written l e o i = l.data i := by
  have hlt := lt_stop e o
  unfold written
  rw [blit_outside _ _ _ (by unfold Entry.stop at hi; omega), update_of_ne (by omega)]
  split
  · rename_i ho; exact update_of_ne (hmark ho) _ _
  · rfl

theorem written_marker (l : Log) (e : Entry) (hstop : e.stop 0 ≤ l.offset) :
    written l e 0 l.offset = EntryType.wrap.code := by
  have hlt := lt_stop e 0
  unfold written
  rw [blit_outside _ _ _ (Or.inr hstop), update_of_ne (by omega), if_pos rfl, update_self]

theorem stored_written (l : Log) (hcount : e.Counted o) : Stored (written l e o) o e where
  type := by unfold written; rw [blit_outside _ _ _ (Or.inl (by omega)), update_self]
  body := slice_blit _ _ _
  counted := hcount

theorem laid_written (l : Log) (hcount : e.Counted o) : Laid (written l e o) o [e] (e.stop o) :=
  ⟨stored_written l hcount, rfl⟩

theorem allocFound_eq {old : Nat} (hroom : ol_tx_queue_log_oldest_update l (e.stop o) =
      some { l with oldest_record_offset := old })
    (hstop : e.stop o < l.size) :
    (allocFound l e.type e.bytes.length e.align o).map (fillIn e) =
      some (true, { l with
        oldest_record_offset := old, offset := e.stop o, data := written l e o }) := by
  have hplace : placeRecord { l with oldest_record_offset := old } e.type o (e.stop o) =
      { l with
        oldest_record_offset := old
        offset := e.stop o
        data := update (if o = 0 then update l.data l.offset EntryType.wrap.code else l.data) o
          e.type.code } := if_neg (Nat.not_le.mpr hstop)
  rw [allocFound, recordEnd_eq, hroom, map_some, hplace]; rfl

theorem logRecord_eq (l : Log) (e : Entry) :
    logRecord l e =
      (if e.stop l.offset ≤ l.size then allocFound l e.type e.bytes.length e.align l.offset
      else if l.allow_wrap = false then some (none, l)
      else if l.size ≤ e.stop 0 then some (none, { l with wrapped := true })
      else allocFound { l with wrapped := true } e.type e.bytes.length e.align 0).map
        (fillIn e) := by
  obtain ⟨size, hinfo, hsize⟩ := info_alloc l e
  have hfits : ((e.bytes.length : Int) + 1 + alignPad e.align l.offset ≤
      (l.size : Int) - l.offset) ↔ e.stop l.offset ≤ l.size := by
    rw [alignPad_cast]
    unfold Entry.stop; omega
  have hlarge : ((l.size : Int) ≤ e.bytes.length + 1 + alignPad e.align 0) ↔ l.size ≤ e.stop 0 := by
    rw [alignPad_cast]
    unfold Entry.stop; omega
  rw [logRecord, ol_tx_queue_log_alloc, hinfo, bind_some]; simp only [hsize, hfits, hlarge]

/-! ## The shapes of the log -/

structure Straight (l : Log) (h : List (Nat × Entry)) : Prop where
  wrapped : l.wrapped = false
  oldest : l.oldest_record_offset = 0
  room : l.offset < l.size
  laid : ∃ es, Laid l.data 0 es l.offset ∧ h = placed 0 es

structure Turned (l : Log) (h : List (Nat × Entry)) (marker : Nat) : Prop where
  wrapped : l.wrapped = true
  mark : l.data marker = EntryType.wrap.code
  room : marker < l.size
  behind : l.offset ≤ l.oldest_record_offset
  laid : ∃ up lo, Laid l.data l.oldest_record_offset up marker ∧ Laid l.data 0 lo l.offset ∧
    lo ≠ [] ∧ placed l.oldest_record_offset up ++ placed 0 lo <:+ h

def Good (l : Log) (h : List (Nat × Entry)) (marker : Nat) : Prop :=
  l.allow_wrap = true ∧ (Straight l h ∨ Turned l h marker)

def Meets (l : Log) (marker : Nat) (e : Entry) : Prop :=
  if e.stop l.offset ≤ l.size then
    e.Counted l.offset ∧ e.stop l.offset < l.size ∧ (l.wrapped = true → e.stop l.offset ≤ marker)
  else (l.wrapped = true ∧ l.size ≤ e.stop 0) ∨ (e.Counted 0 ∧ e.stop 0 ≤ l.offset)

theorem Straight.fits (hs : Straight l h) (hcount : e.Counted l.offset)
    (hstop : e.stop l.offset < l.size) :
    ∃ l', logRecord l e = some (true, l') ∧ l'.allow_wrap = l.allow_wrap ∧
      Straight l' (h ++ [(l.offset, e)]) := by
  obtain ⟨es, hlaid, rfl⟩ := hs.laid
  have hroom : ol_tx_queue_log_oldest_update l (e.stop l.offset) =
      some { l with oldest_record_offset := l.oldest_record_offset } := by
    rw [ol_tx_queue_log_oldest_update, if_pos hs.wrapped]
  have hrun := logRecord_eq l e
  rw [if_pos (Nat.le_of_lt hstop), allocFound_eq hroom hstop] at hrun
  have hold : Laid (written l e l.offset) 0 es l.offset :=
    hlaid.congr fun i _ hi => written_outside l e (Or.inl hi) fun _ => Nat.ne_of_lt hi
  obtain ⟨hnew, hplaced⟩ := hold.append (laid_written l hcount)
  exact ⟨_, hrun, rfl, hs.wrapped, hs.oldest, hstop, es ++ [e], hnew, hplaced.symm⟩

theorem Turned.fits (ht : Turned l h marker) (hcount : e.Counted l.offset)
    (hstop : e.stop l.offset ≤ marker) :
    ∃ l', logRecord l e = some (true, l') ∧ l'.allow_wrap = l.allow_wrap ∧
      Turned l' (h ++ [(l.offset, e)]) marker := by
  obtain ⟨up, lo, hup, hlo, hne, hsuf⟩ := ht.laid
  have hroom := ht.room
  have hbehind := ht.behind
  have hlt := lt_stop e l.offset
  have hpos : 0 < l.offset := by
    have hle := hlo.le
    have hlen := length_pos_of_ne_nil hne
    omega
  obtain ⟨c, fs, hadv, hc, hfs, hfsuf⟩ :=
    advance_laid (e.stop l.offset) hup ht.room hstop (Nat.sub_le _ _)
  have hcle := hfs.le
  have hupdate : ol_tx_queue_log_oldest_update l (e.stop l.offset) =
      some { l with oldest_record_offset := c } := by
    have hnot : ¬ (l.offset < e.stop l.offset ∧ l.oldest_record_offset = 0) := by omega
    have hinside : ¬ l.size ≤ c := by omega
    rw [ol_tx_queue_log_oldest_update, if_neg (by simp [ht.wrapped]), if_neg hnot]
    simp only [if_pos (show l.offset < e.stop l.offset by omega), hadv, map_some, if_neg hinside]
  have hrun := logRecord_eq l e
  rw [if_pos (by omega), allocFound_eq hupdate (by omega)] at hrun
  have hframe : ∀ i, i < l.offset ∨ e.stop l.offset ≤ i → written l e l.offset i = l.data i :=
    fun i hi => written_outside l e hi fun h0 => absurd h0 (Nat.ne_of_gt hpos)
  have hlow : Laid (written l e l.offset) 0 lo l.offset :=
    hlo.congr fun i _ hi => hframe i (Or.inl hi)
  obtain ⟨hnew, hplaced⟩ := hlow.append (laid_written l hcount)
  refine ⟨_, hrun, rfl, ht.wrapped, ?_, ht.room, hc, fs, lo ++ [e], ?_, hnew, by simp, ?_⟩
  · exact (hframe marker (Or.inr hstop)).trans ht.mark
  · exact hfs.congr fun i hi _ => hframe i (Or.inr (by omega))
  · rw [hplaced, ← append_assoc]
    have hdrop : placed c fs ++ placed 0 lo <:+ h := by
      obtain ⟨pre, hpre⟩ := hfsuf
      apply List.IsSuffix.trans _ hsuf
      exact ⟨pre, by rw [← hpre, append_assoc]⟩
    obtain ⟨pre, hpre⟩ := hdrop
    refine ⟨pre, ?_⟩
    simp only [← hpre, append_assoc]
    rfl

/-- A record that goes to the start. -/
theorem turns (hwrap : l.allow_wrap = true) (hroom : l.offset < l.size)
    (hlaid : Laid l.data 0 es l.offset) (hsuf : placed 0 es <:+ h)
    (hfull : ¬ e.stop l.offset ≤ l.size) (hcount : e.Counted 0) (hstop : e.stop 0 ≤ l.offset) :
    ∃ l', logRecord l e = some (true, l') ∧ l'.allow_wrap = l.allow_wrap ∧
      Turned l' (h ++ [(0, e)]) l.offset := by
  obtain ⟨c, fs, hadv, hc, hfs, hfsuf⟩ :=
    advance_laid (l := { l with wrapped := true }) (e.stop 0) hlaid hroom hstop (Nat.sub_le _ _)
  have hcle := hfs.le
  have hupdate : ol_tx_queue_log_oldest_update { l with wrapped := true } (e.stop 0) =
      some { l with wrapped := true, oldest_record_offset := c } := by
    have hnot : ¬ l.offset < e.stop 0 := Nat.not_lt.mpr hstop
    have hinside : ¬ l.size ≤ c := by omega
    rw [ol_tx_queue_log_oldest_update, if_neg (by simp), if_neg (fun hb => hnot hb.1)]
    simp only [if_neg hnot, hadv, map_some, if_neg hinside]
  have hrun := logRecord_eq l e
  rw [if_neg hfull, if_neg (by simp [hwrap]), if_neg (by omega),
    allocFound_eq (l := { l with wrapped := true }) hupdate (by change e.stop 0 < l.size; omega)]
    at hrun
  refine ⟨_, hrun, rfl, rfl, written_marker _ e hstop, hroom, hc, fs, [e], ?_,
    laid_written _ hcount, by simp, ?_⟩
  · apply hfs.congr
    intro i hi hlt'
    exact written_outside { l with wrapped := true } e (Or.inr (by omega)) fun _ =>
      Nat.ne_of_lt hlt'
  · obtain ⟨pre, hpre⟩ := hfsuf.trans hsuf
    exact ⟨pre, by rw [← hpre, append_assoc]; rfl⟩

/-! ## Runs -/

def place (l : Log) (e : Entry) : Nat := if e.stop l.offset ≤ l.size then l.offset else 0

def nextMark (l : Log) (marker : Nat) (e : Entry) : Nat :=
  if e.stop l.offset ≤ l.size then marker else l.offset

/-- The logs of runs that start with a cleared log and whose writes all meet the condition, with the
records written, at their offsets, and the last mark. -/
inductive Reached (size : Nat) : Log → List (Nat × Entry) → Nat → Prop
  | clear : Reached size (ol_tx_queue_log_clear size) [] 0
  | wrote {l l' : Log} {h : List (Nat × Entry)} {marker : Nat} {e : Entry}
      (hl : Reached size l h marker) (hm : Meets l marker e)
      (hrun : logRecord l e = some (true, l')) :
      Reached size l' (h ++ [(place l e, e)]) (nextMark l marker e)
  | refused {l l' : Log} {h : List (Nat × Entry)} {marker : Nat} {e : Entry}
      (hl : Reached size l h marker) (hm : Meets l marker e)
      (hrun : logRecord l e = some (false, l')) : Reached size l' h marker

theorem Good.step (hg : Good l h marker) (hm : Meets l marker e) :
    (∃ l', logRecord l e = some (true, l') ∧
      Good l' (h ++ [(place l e, e)]) (nextMark l marker e)) ∨
    logRecord l e = some (false, l) := by
  obtain ⟨hwrap, hshape⟩ := hg
  rw [Meets] at hm
  by_cases hfits : e.stop l.offset ≤ l.size
  · rw [if_pos hfits] at hm
    obtain ⟨hcount, hstop, hmark⟩ := hm
    rw [place, nextMark, if_pos hfits, if_pos hfits]
    rcases hshape with hs | ht
    · obtain ⟨l', hrun, hsame, hs'⟩ := hs.fits hcount hstop
      exact Or.inl ⟨l', hrun, hsame.trans hwrap, Or.inl hs'⟩
    · obtain ⟨l', hrun, hsame, ht'⟩ := ht.fits hcount (hmark ht.wrapped)
      exact Or.inl ⟨l', hrun, hsame.trans hwrap, Or.inr ht'⟩
  · rw [if_neg hfits] at hm
    rw [place, nextMark, if_neg hfits, if_neg hfits]
    rcases hm with ⟨hwrapped, hlarge⟩ | ⟨hcount, hstop⟩
    · -- the record is refused, and the log had turned back before
      right
      rw [logRecord_eq, if_neg hfits, if_neg (by simp [hwrap]), if_pos hlarge, ← hwrapped]; rfl
    · left
      rcases hshape with hs | ht
      · obtain ⟨es, hlaid, rfl⟩ := hs.laid
        obtain ⟨l', hrun, hsame, ht'⟩ :=
          turns hwrap hs.room hlaid (suffix_refl _) hfits hcount hstop
        exact ⟨l', hrun, hsame.trans hwrap, Or.inr ht'⟩
      · obtain ⟨up, lo, hup, hlo, -, hsuf⟩ := ht.laid
        have hroom : l.offset < l.size := by
          have hle := hup.le
          have hbehind := ht.behind
          have hmarker := ht.room
          omega
        have hlow : placed 0 lo <:+ h := (suffix_append _ _).trans hsuf
        obtain ⟨l', hrun, hsame, ht'⟩ := turns hwrap hroom hlo hlow hfits hcount hstop
        exact ⟨l', hrun, hsame.trans hwrap, Or.inr ht'⟩

theorem Reached.good {size : Nat} (hsize : 0 < size) (hl : Reached size l h marker) :
    Good l h marker := by
  induction hl with
  | clear => exact ⟨rfl, Or.inl ⟨rfl, rfl, hsize, [], rfl, rfl⟩⟩
  | wrote _ hm hrun ih =>
    rcases ih.step hm with ⟨l₁, hrun₁, hg⟩ | hrun₁
    · obtain ⟨-, rfl⟩ := Prod.mk.inj (some.inj (hrun.symm.trans hrun₁)); exact hg
    · cases (Prod.mk.inj (some.inj (hrun.symm.trans hrun₁))).1
  | refused _ hm hrun ih =>
    rcases ih.step hm with ⟨l₁, hrun₁, -⟩ | hrun₁
    · cases (Prod.mk.inj (some.inj (hrun.symm.trans hrun₁))).1
    · obtain ⟨-, rfl⟩ := Prod.mk.inj (some.inj (hrun.symm.trans hrun₁)); exact ih

/-! ## What the display shows -/

theorem Straight.display (hs : Straight l h) :
    ∃ shown, ol_tx_queue_log_display l = some (shown, true) ∧ List.Forall₂ Shows shown h := by
  obtain ⟨es, hlaid, rfl⟩ := hs.laid
  have hle := hlaid.le
  have hroom := hs.room
  obtain ⟨k, hk⟩ := Nat.exists_eq_add_of_le (show es.length ≤ 2 * l.size + 1 by omega)
  obtain ⟨shown, hall, hrun⟩ :=
    displayFrom_laid false k hlaid hs.room (Or.inr (Nat.le_refl _))
  refine ⟨shown, ?_, hall⟩
  rw [ol_tx_queue_log_display, hs.wrapped, hs.oldest, hk, hrun, displayFrom_end, map_some,
    append_nil]

theorem Turned.display (ht : Turned l h marker) :
    ∃ shown suf, ol_tx_queue_log_display l = some (shown, true) ∧ suf <:+ h ∧ suf ≠ [] ∧
      List.Forall₂ Shows shown suf := by
  obtain ⟨up, lo, hup, hlo, hne, hsuf⟩ := ht.laid
  have hule := hup.le
  have hlle := hlo.le
  have hroom := ht.room
  have hbehind := ht.behind
  have hlen := length_pos_of_ne_nil hne
  obtain ⟨k, hk⟩ := Nat.exists_eq_add_of_le
    (show up.length + (lo.length + 1) ≤ 2 * l.size + 1 by omega)
  have hfuel : 2 * l.size + 1 = up.length + (lo.length + k + 1) := by omega
  obtain ⟨older, holder, hup'⟩ :=
    displayFrom_laid true (lo.length + k + 1) hup ht.room (Or.inl rfl)
  obtain ⟨newer, hnewer, hlo'⟩ :=
    displayFrom_laid false k hlo (by omega) (Or.inr (Nat.le_refl _))
  refine ⟨older ++ newer, _, ?_, hsuf, ?_, rel_append holder hnewer⟩
  · rw [ol_tx_queue_log_display, ht.wrapped, hfuel, hup',
      displayFrom_marker _ ht.mark ht.room (by omega), hlo', displayFrom_end, map_some,
      map_some, append_nil]
  · apply append_ne_nil_of_right_ne_nil
    obtain ⟨e, lo, rfl⟩ := exists_cons_of_ne_nil hne
    exact cons_ne_nil _ _

/-- **The log.** In every run whose writes meet the condition, every write comes to an end inside
the buffer, and the display reads inside the buffer, shows the last of the records written at their
offsets, in order, and stops at the current offset. -/
theorem display_shows_suffix {size : Nat} (hsize : 0 < size) (hl : Reached size l h marker) :
    (∃ shown suf, ol_tx_queue_log_display l = some (shown, true) ∧ suf <:+ h ∧
      (h ≠ [] → suf ≠ []) ∧ List.Forall₂ Shows shown suf) ∧
    ∀ e, Meets l marker e → (logRecord l e).isSome = true := by
  have hg := hl.good hsize
  refine ⟨?_, ?_⟩
  · rcases hg.2 with hs | ht
    · obtain ⟨shown, hrun, hall⟩ := hs.display; exact ⟨shown, h, hrun, suffix_refl h, id, hall⟩
    · obtain ⟨shown, suf, hrun, hsuf, hne, hall⟩ := ht.display
      exact ⟨shown, suf, hrun, hsuf, fun _ => hne, hall⟩
  · intro e hm
    rcases hg.step hm with ⟨l', hrun, -⟩ | hrun
    · rw [hrun]; rfl
    · rw [hrun]; rfl

/-- Two queue states of one category: the second one has two bytes of padding, the first one a
credit whose upper byte happens to be one. -/
theorem display_shows_suffix_two :
    ∃ l h marker shown suf, Reached 512 l h marker ∧
      ol_tx_queue_log_display l = some (shown, true) ∧
      suf <:+ h ∧ (h ≠ [] → suf ≠ []) ∧ List.Forall₂ Shows shown suf := by
  have hstart : Reached 512 (ol_tx_queue_log_clear 512) [] 0 := Reached.clear
  have hfirst := hstart.wrote (e := .state 1 300 [(8, 1500)])
    (by rw [Meets, if_pos (by decide)]; exact ⟨⟨by decide, rfl⟩, by decide, nofun⟩) rfl
  have hsecond := hfirst.wrote (e := .state 2 5 [(1, 60)])
    (by rw [Meets, if_pos (by decide)]; exact ⟨⟨by decide, rfl⟩, by decide, nofun⟩) rfl
  obtain ⟨⟨shown, suf, hrun⟩, -⟩ := display_shows_suffix (by decide) hsecond
  exact ⟨_, _, _, shown, suf, hsecond, hrun⟩

/-! ## Where the condition is not met -/

/-- A queue state of one category at the start of the log has three bytes of padding; its count is
taken from the upper byte of the credit, and the next record looked for in the first category. -/
theorem sched_misread :
    ∃ l', ol_tx_queue_log_sched (ol_tx_queue_log_clear 512) 5 1 [(8, 1500)] = some (true, l') ∧
      ∀ shown, ol_tx_queue_log_display l' ≠ some (shown, true) := by
  refine ⟨_, rfl, ?_⟩
  intro shown hrun
  have hend := congrArg (Option.map Prod.snd) hrun
  change _ = some true at hend
  exact absurd hend (by decide)

end Qcacld.TxqLog
