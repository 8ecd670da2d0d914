/-
The TLVs of WMI messages: `wmi_tlv_helper.c`.

A message is a sequence of TLVs, each a header with a tag and a length and the bytes that
follow. Which TLVs a message has, and in which order, is in a table of attribute words for
each command and event (`wmitlv_get_attributes`). `wmitlv_check_tlv_params` checks a message
before it is sent. `wmitlv_check_and_pad_tlvs` takes a received one apart: it records for each
TLV a pointer and a number of elements, and where the structure of the sender has another size
than the one of the table, it points to a copy that is cut or padded with zeros.

The memory is a function from addresses to bytes, with the message at address 0, and what is
read goes to a log of addresses. The build has dynamic memory; whether an allocation succeeds
is given by `alloc`. A message has less than 2^8 TLVs of less than 2^16 bytes, so that no index
wraps. The host is little endian.
-/
import Mathlib.Data.UInt
import Qcacld.Lib.Logged
import Qcacld.Lib.Word

set_option autoImplicit false

namespace Qcacld.WmiTlv

open Lib

/-! ## Attribute words -/

def WMITLV_GET_ATTRIB_NUM_TLVS : Nat := 0xFFFFFFFF
def WMITLV_ARR_SIZE_INVALID : Nat := 0x1FE
def WMITLV_SIZE_FIX : Nat := 0
def WMITLV_SIZE_VAR : Nat := 1

def WMITLV_TAG_FIRST_ARRAY_ENUM : Nat := 16
def WMITLV_TAG_ARRAY_UINT32 : Nat := 16
def WMITLV_TAG_ARRAY_BYTE : Nat := 17
def WMITLV_TAG_ARRAY_STRUC : Nat := 18
def WMITLV_TAG_ARRAY_FIXED_STRUC : Nat := 19
def WMITLV_TAG_LAST_ARRAY_ENUM : Nat := 31

def WMITLV_GET_CMDID (val : Nat) : Nat := val &&& 0x00FFFFFF
def WMITLV_GET_NUM_TLVS (val : Nat) : Nat := (val >>> 24) &&& 0xFF
def WMITLV_GET_TAGID (val : Nat) : Nat := val &&& 0x00000FFF
def WMITLV_GET_TAG_STRUCT_SIZE (val : Nat) : Nat := (val >>> 12) &&& 0x000001FF
def WMITLV_GET_TAG_ARRAY_SIZE (val : Nat) : Nat := (val >>> 21) &&& 0x000001FF
def WMITLV_GET_TAG_VARIED (val : Nat) : Nat := (val >>> 30) &&& 0x00000001

def WMITLV_SET_ATTRB0 (num_tlvs id : Nat) : Nat := (num_tlvs <<< 24) ||| (id &&& 0x00FFFFFF)

def WMITLV_SET_ATTRB1 (tagID tagStructSize tagArraySize tagVaried : Nat) : Nat :=
  ((tagVaried &&& 0x1) <<< 30) ||| ((tagArraySize &&& 0x1FF) <<< 21) |||
    ((tagStructSize &&& 0x1FF) <<< 12) ||| (tagID &&& 0xFFF)

structure Attributes where
  tag_order : Nat
  tag_id : Nat
  tag_struct_size : Nat
  tag_varied_size : Nat
  tag_array_size : Nat
  cmd_num_tlv : Nat

def getAttributes (cmd_event_id curr_tlv_order : Nat) : (skip : Nat) → List Nat → Option Attributes
  | _, [] => none
  | skip + 1, _ :: words => getAttributes cmd_event_id curr_tlv_order skip words
  | 0, word :: words =>
    let num_tlvs := WMITLV_GET_NUM_TLVS word
    if WMITLV_GET_CMDID cmd_event_id = WMITLV_GET_CMDID word then
      if curr_tlv_order = WMITLV_GET_ATTRIB_NUM_TLVS then some ⟨0, 0, 0, 0, 0, num_tlvs⟩
      else if curr_tlv_order ≥ num_tlvs then none
      else
        let attr := words.getD curr_tlv_order 0
        some
          { tag_order := curr_tlv_order
            tag_id := WMITLV_GET_TAGID attr
            tag_struct_size := WMITLV_GET_TAG_STRUCT_SIZE attr
            tag_varied_size := WMITLV_GET_TAG_VARIED attr
            tag_array_size := WMITLV_GET_TAG_ARRAY_SIZE attr
            cmd_num_tlv := num_tlvs }
    else getAttributes cmd_event_id curr_tlv_order num_tlvs words

def IsArrayTag (tag : Nat) : Prop :=
  WMITLV_TAG_FIRST_ARRAY_ENUM ≤ tag ∧ tag ≤ WMITLV_TAG_LAST_ARRAY_ENUM
deriving Decidable

/-- A TLV of a table, as `WMITLV_ELEM` and `WMITLV_FXAR` write it. An array has a number of
elements exactly if it is of fixed size, and there are four kinds of arrays of variable
size. -/
structure Elem where
  tag : Nat
  struct_size : Nat
  array_size : Nat
  varied : Bool
  tag_lt : tag < 2 ^ 12
  struct_size_pos : 0 < struct_size
  struct_size_lt : struct_size < 2 ^ 9
  array_size_lt : array_size < 2 ^ 9
  shape : if varied then
      (tag = WMITLV_TAG_ARRAY_UINT32 ∨ tag = WMITLV_TAG_ARRAY_BYTE ∨
        tag = WMITLV_TAG_ARRAY_STRUC ∨ tag = WMITLV_TAG_ARRAY_FIXED_STRUC) ∧
        array_size = WMITLV_ARR_SIZE_INVALID
    else IsArrayTag tag ↔ array_size ≠ WMITLV_ARR_SIZE_INVALID

/-- `WMITLV_TABLE` of a command or event. -/
structure Entry where
  id : Nat
  elems : List Elem
  length_lt : elems.length < 2 ^ 8

def WMITLV_GET_CMD_EVT_ATTRB_LIST (e : Entry) : List Nat :=
  WMITLV_SET_ATTRB0 e.elems.length e.id ::
    e.elems.map fun el =>
      WMITLV_SET_ATTRB1 el.tag el.struct_size el.array_size
        (if el.varied then WMITLV_SIZE_VAR else WMITLV_SIZE_FIX)

structure Tables where
  cmds : List Entry
  evts : List Entry

def Tables.attr_list (t : Tables) (is_cmd_id : Bool) : List Nat :=
  (if is_cmd_id then t.cmds else t.evts).flatMap WMITLV_GET_CMD_EVT_ATTRB_LIST

def wmitlv_get_attributes (t : Tables) (is_cmd_id : Bool) (cmd_event_id curr_tlv_order : Nat) :
    Option Attributes :=
  getAttributes cmd_event_id curr_tlv_order 0 (t.attr_list is_cmd_id)

/-! ## Reading -/

abbrev Mem := Nat → UInt8

abbrev Reads := Logged Nat

def WMI_TLV_HDR_SIZE : Nat := 4

def WMITLV_GET_HDR (mem : Mem) (tlv_buf : Nat) : Reads Nat :=
  emit ((List.range WMI_TLV_HDR_SIZE).map fun i => tlv_buf + i) (le32 mem tlv_buf).toNat

def WMITLV_GET_TLVTAG (tlv_header : Nat) : Nat := tlv_header >>> 16
def WMITLV_GET_TLVLEN (tlv_header : Nat) : Nat := tlv_header &&& 0x0000FFFF

/-- The source of a copy. -/
def wmi_tlv_OS_MEMCPY (mem : Mem) (src n : Nat) : Reads (List UInt8) :=
  emit ((List.range n).map fun i => src + i) ((List.range n).map fun i => mem (src + i))

def roundup (x y : Nat) : Nat := (x + (y - 1)) / y * y

/-! ## The check of the sender -/

def checkInner (mem : Mem) (tag_struct_size : Nat) : (n tlv_buf_ptr : Nat) → Reads Bool
  | 0, _ => pure true
  | n + 1, tlv_buf_ptr => do
      let hdr ← WMITLV_GET_HDR mem tlv_buf_ptr
      let in_tlv_len := WMITLV_GET_TLVLEN hdr
      if in_tlv_len + WMI_TLV_HDR_SIZE ≠ tag_struct_size then pure false
      else checkInner mem tag_struct_size n (tlv_buf_ptr + (in_tlv_len + WMI_TLV_HDR_SIZE))

def checkLen (mem : Mem) (a : Attributes) (buf_ptr curr_tlv_tag curr_tlv_len : Nat) : Reads Bool :=
  if IsArrayTag curr_tlv_tag then
    if a.tag_varied_size = WMITLV_SIZE_FIX then
      if WMITLV_ARR_SIZE_INVALID = a.tag_array_size then pure false
      else
        let expected_tlv_len := a.tag_array_size * a.tag_struct_size
        let expected_tlv_len :=
          if WMITLV_TAG_ARRAY_BYTE = a.tag_id then roundup expected_tlv_len 4 else expected_tlv_len
        pure (curr_tlv_len = expected_tlv_len)
    else if WMITLV_ARR_SIZE_INVALID ≠ a.tag_array_size then pure false
    else if curr_tlv_len = 0 then pure true
    else if curr_tlv_len % a.tag_struct_size ≠ 0 then pure false
    else if curr_tlv_tag = WMITLV_TAG_ARRAY_STRUC then
      checkInner mem a.tag_struct_size (curr_tlv_len / a.tag_struct_size)
        (buf_ptr + WMI_TLV_HDR_SIZE)
    else
      pure (curr_tlv_tag = WMITLV_TAG_ARRAY_UINT32 ∨ curr_tlv_tag = WMITLV_TAG_ARRAY_BYTE ∨
        curr_tlv_tag = WMITLV_TAG_ARRAY_FIXED_STRUC)
  else pure (curr_tlv_len + WMI_TLV_HDR_SIZE = a.tag_struct_size)

def checkLoop (t : Tables) (is_cmd_id : Bool) (id : Nat) (mem : Mem) (param_buf_len : Nat) :
    (fuel tlv_index buf_idx : Nat) → Reads Bool
  | 0, _, _ => pure false
  | fuel + 1, tlv_index, buf_idx =>
    if buf_idx + WMI_TLV_HDR_SIZE ≤ param_buf_len then do
      let hdr ← WMITLV_GET_HDR mem buf_idx
      let curr_tlv_tag := WMITLV_GET_TLVTAG hdr
      let curr_tlv_len := WMITLV_GET_TLVLEN hdr
      if buf_idx + WMI_TLV_HDR_SIZE + curr_tlv_len > param_buf_len then pure false
      else
        match wmitlv_get_attributes t is_cmd_id id tlv_index with
        | none => pure false
        | some a =>
          if curr_tlv_tag ≠ a.tag_id then pure false
          else do
            let ok ← checkLen mem a buf_idx curr_tlv_tag curr_tlv_len
            if ok = false then pure false
            else if curr_tlv_len % 4 ≠ 0 then pure false
            else
              checkLoop t is_cmd_id id mem param_buf_len fuel (tlv_index + 1)
                (buf_idx + (curr_tlv_len + WMI_TLV_HDR_SIZE))
    else pure true

def wmitlv_check_tlv_params (t : Tables) (is_cmd_id : Bool) (id : Nat) (mem : Mem)
    (param_buf_len : Nat) : Reads Bool :=
  match wmitlv_get_attributes t is_cmd_id id WMITLV_GET_ATTRIB_NUM_TLVS with
  | none => pure false
  | some _ => checkLoop t is_cmd_id id mem param_buf_len (param_buf_len + 1) 0 0

/-! ## The decoder of the receiver -/

/-- A pointer into the message, to a buffer of its own, or to nothing. -/
inductive Ptr where
  | null
  | buf (offset : Nat)
  | allocated (bytes : List UInt8)
  deriving DecidableEq

/-- `wmitlv_cmd_param_info`; the memory is zeroed at first. -/
structure Param where
  tlv_ptr : Ptr
  num_elements : Nat
  buf_is_allocated : Bool
  deriving DecidableEq

def Param.zero : Param := ⟨.null, 0, false⟩

/-- `tlv_size_diff` and `num_of_elems`. -/
def tlvSizes (mem : Mem) (a : Attributes) (buf_ptr curr_tlv_len : Nat) :
    Reads (Option (Int × Nat)) :=
  if a.tag_varied_size = WMITLV_SIZE_FIX then
    if WMITLV_ARR_SIZE_INVALID = a.tag_array_size then
      pure (some (curr_tlv_len - a.tag_struct_size, if curr_tlv_len > WMI_TLV_HDR_SIZE then 1 else 0))
    else
      pure (some (curr_tlv_len - (a.tag_struct_size * a.tag_array_size : Nat), a.tag_array_size))
  else if WMITLV_TAG_ARRAY_STRUC = a.tag_id then
    if curr_tlv_len ≠ 0 then do
      let hdr ← WMITLV_GET_HDR mem buf_ptr
      let in_tlv_len := WMITLV_GET_TLVLEN hdr + WMI_TLV_HDR_SIZE
      pure (some (in_tlv_len - a.tag_struct_size, curr_tlv_len / in_tlv_len))
    else pure (some (0, 0))
  else if WMITLV_TAG_ARRAY_UINT32 = a.tag_id ∨ WMITLV_TAG_ARRAY_BYTE = a.tag_id ∨
      WMITLV_TAG_ARRAY_FIXED_STRUC = a.tag_id then
    pure (some (0, curr_tlv_len / a.tag_struct_size))
  else pure none

/-- The copy of `n` structures that are `in_tlv_len` apart, each cut or padded with zeros. -/
def padElems (mem : Mem) (tag_struct_size in_tlv_len : Nat) (tlv_size_diff : Int) :
    (n src : Nat) → Reads (List UInt8)
  | 0, _ => pure []
  | n + 1, src => do
      let len := if tlv_size_diff > 0 then tag_struct_size else in_tlv_len
      let bytes ← wmi_tlv_OS_MEMCPY mem src len
      let rest ← padElems mem tag_struct_size in_tlv_len tlv_size_diff n (src + in_tlv_len)
      pure (bytes ++ List.replicate (tag_struct_size - len) 0 ++ rest)

/-- What is recorded for a TLV at `buf_ptr` with `curr_tlv_len` bytes; `none` is an error. -/
def recordTlv (mem : Mem) (alloc : Bool) (a : Attributes) (buf_ptr curr_tlv_len : Nat) :
    Reads (Option Param) := do
  let sizes ← tlvSizes mem a buf_ptr curr_tlv_len
  match sizes with
  | none => pure none
  | some (tlv_size_diff, num_of_elems) =>
    if WMITLV_TAG_ARRAY_STRUC = a.tag_id ∧ tlv_size_diff ≠ 0 then
      if a.tag_varied_size = WMITLV_SIZE_FIX then pure none
      else do
        let hdr ← WMITLV_GET_HDR mem buf_ptr
        let in_tlv_len := WMITLV_GET_TLVLEN hdr + WMI_TLV_HDR_SIZE
        if alloc = false then pure none
        else do
          let new_tlv_buf ←
            padElems mem a.tag_struct_size in_tlv_len tlv_size_diff num_of_elems buf_ptr
          pure (some ⟨.allocated new_tlv_buf, num_of_elems, true⟩)
    else if tlv_size_diff ≥ 0 then
      let tlv_ptr :=
        if a.tag_varied_size ≠ WMITLV_SIZE_FIX ∧ curr_tlv_len = 0 then .null else .buf buf_ptr
      pure (some ⟨tlv_ptr, num_of_elems, false⟩)
    else if alloc = false then pure none
    else do
      let bytes ← wmi_tlv_OS_MEMCPY mem buf_ptr curr_tlv_len
      pure (some
        ⟨.allocated (bytes ++ List.replicate (-tlv_size_diff).toNat 0), num_of_elems, true⟩)

def padLoop (t : Tables) (is_cmd_id : Bool) (id : Nat) (mem : Mem) (param_buf_len : Nat)
    (alloc : Nat → Bool) : (remaining_expected_tlvs tlv_index buf_idx : Nat) →
      Reads (Option (List Param))
  | 0, _, _ => pure (some [])
  | remaining + 1, tlv_index, buf_idx =>
    if buf_idx + WMI_TLV_HDR_SIZE ≤ param_buf_len then do
      let hdr ← WMITLV_GET_HDR mem buf_idx
      let curr_tlv_tag := WMITLV_GET_TLVTAG hdr
      let curr_tlv_len := WMITLV_GET_TLVLEN hdr
      match wmitlv_get_attributes t is_cmd_id id tlv_index with
      | none => pure none
      | some a =>
        if curr_tlv_tag ≠ a.tag_id then pure none
        else do
          -- the header of an array is skipped, that of a structure is part of it
          let buf_ptr := if IsArrayTag curr_tlv_tag then buf_idx + WMI_TLV_HDR_SIZE else buf_idx
          let curr_tlv_len :=
            if IsArrayTag curr_tlv_tag then curr_tlv_len else curr_tlv_len + WMI_TLV_HDR_SIZE
          let param ← recordTlv mem (alloc tlv_index) a buf_ptr curr_tlv_len
          match param with
          | none => pure none
          | some param => do
              let params ← padLoop t is_cmd_id id mem param_buf_len alloc remaining
                (tlv_index + 1) (buf_ptr + curr_tlv_len)
              pure (params.map fun params => param :: params)
    else pure (some (List.replicate (remaining + 1) .zero))

def wmitlv_check_and_pad_tlvs (t : Tables) (is_cmd_id : Bool) (id : Nat) (mem : Mem)
    (param_buf_len : Nat) (base_alloc : Bool) (alloc : Nat → Bool) : Reads (Option (List Param)) :=
  match wmitlv_get_attributes t is_cmd_id id WMITLV_GET_ATTRIB_NUM_TLVS with
  | none => pure none
  | some a =>
    if base_alloc = false then pure none
    else padLoop t is_cmd_id id mem param_buf_len alloc a.cmd_num_tlv 0 0

open List Option

/-! Both walks over a message as walks over the TLVs of its table. -/

/-! ## Words -/

theorem attrb0_eq (n id : Nat) : WMITLV_SET_ATTRB0 n id = 2 ^ 24 * n + id % 2 ^ 24 := by
  have hid : id &&& 0x00FFFFFF = id % 2 ^ 24 := Nat.and_two_pow_sub_one_eq_mod id 24
  rw [WMITLV_SET_ATTRB0, hid, Nat.shiftLeft_eq, Nat.mul_comm n,
    Nat.two_pow_add_eq_or_of_lt (Nat.mod_lt _ (by decide))]

theorem cmdid_attrb0 (n id : Nat) :
    WMITLV_GET_CMDID (WMITLV_SET_ATTRB0 n id) = WMITLV_GET_CMDID id := by
  have hmask : ∀ x, WMITLV_GET_CMDID x = x % 2 ^ 24 := fun x => Nat.and_two_pow_sub_one_eq_mod x 24
  rw [hmask, hmask, attrb0_eq]; omega

theorem num_tlvs_attrb0 {n : Nat} (hn : n < 2 ^ 8) (id : Nat) :
    WMITLV_GET_NUM_TLVS (WMITLV_SET_ATTRB0 n id) = n := by
  have hmask : ∀ x, WMITLV_GET_NUM_TLVS x = x >>> 24 % 2 ^ 8 :=
    fun x => Nat.and_two_pow_sub_one_eq_mod (x >>> 24) 8
  rw [hmask, attrb0_eq, Nat.shiftRight_eq_div_pow]; omega

theorem attrb1_eq {tag size arr v : Nat} (htag : tag < 2 ^ 12) (hsize : size < 2 ^ 9)
    (harr : arr < 2 ^ 9) (hv : v < 2) :
    WMITLV_SET_ATTRB1 tag size arr v = 2 ^ 30 * v + 2 ^ 21 * arr + 2 ^ 12 * size + tag := by
  have htag' : tag &&& 0xFFF = tag :=
    (Nat.and_two_pow_sub_one_eq_mod tag 12).trans (Nat.mod_eq_of_lt htag)
  have hsize' : size &&& 0x1FF = size :=
    (Nat.and_two_pow_sub_one_eq_mod size 9).trans (Nat.mod_eq_of_lt hsize)
  have harr' : arr &&& 0x1FF = arr :=
    (Nat.and_two_pow_sub_one_eq_mod arr 9).trans (Nat.mod_eq_of_lt harr)
  have hv' : v &&& 0x1 = v := (Nat.and_two_pow_sub_one_eq_mod v 1).trans (Nat.mod_eq_of_lt hv)
  have hhigh : v <<< 30 ||| arr <<< 21 = 2 ^ 21 * (2 ^ 9 * v + arr) := by
    rw [Nat.shiftLeft_eq, Nat.shiftLeft_eq, Nat.mul_comm v,
      ← Nat.two_pow_add_eq_or_of_lt (by omega)]
    omega
  have hmid : 2 ^ 21 * (2 ^ 9 * v + arr) ||| size <<< 12 =
      2 ^ 12 * (2 ^ 9 * (2 ^ 9 * v + arr) + size) := by
    rw [Nat.shiftLeft_eq, ← Nat.two_pow_add_eq_or_of_lt (by omega)]; omega
  rw [WMITLV_SET_ATTRB1, htag', hsize', harr', hv', hhigh, hmid, ← Nat.two_pow_add_eq_or_of_lt htag]
  omega

def Elem.attributes (e : Elem) (order num_tlvs : Nat) : Attributes where
  tag_order := order
  tag_id := e.tag
  tag_struct_size := e.struct_size
  tag_varied_size := if e.varied then WMITLV_SIZE_VAR else WMITLV_SIZE_FIX
  tag_array_size := e.array_size
  cmd_num_tlv := num_tlvs

def Elem.attr (e : Elem) : Nat :=
  WMITLV_SET_ATTRB1 e.tag e.struct_size e.array_size
    (if e.varied then WMITLV_SIZE_VAR else WMITLV_SIZE_FIX)

theorem Elem.attr_fields (e : Elem) (order num_tlvs : Nat) :
    Attributes.mk order (WMITLV_GET_TAGID e.attr) (WMITLV_GET_TAG_STRUCT_SIZE e.attr)
      (WMITLV_GET_TAG_VARIED e.attr) (WMITLV_GET_TAG_ARRAY_SIZE e.attr) num_tlvs =
      e.attributes order num_tlvs := by
  have hv : (if e.varied = true then WMITLV_SIZE_VAR else WMITLV_SIZE_FIX) < 2 := by
    split
    · decide
    · decide
  have htag := e.tag_lt
  have hsize := e.struct_size_lt
  have harr := e.array_size_lt
  have hid : ∀ x, WMITLV_GET_TAGID x = x % 2 ^ 12 := fun x => Nat.and_two_pow_sub_one_eq_mod x 12
  have hst : ∀ x, WMITLV_GET_TAG_STRUCT_SIZE x = x >>> 12 % 2 ^ 9 :=
    fun x => Nat.and_two_pow_sub_one_eq_mod (x >>> 12) 9
  have har : ∀ x, WMITLV_GET_TAG_ARRAY_SIZE x = x >>> 21 % 2 ^ 9 :=
    fun x => Nat.and_two_pow_sub_one_eq_mod (x >>> 21) 9
  have hvr : ∀ x, WMITLV_GET_TAG_VARIED x = x >>> 30 % 2 ^ 1 :=
    fun x => Nat.and_two_pow_sub_one_eq_mod (x >>> 30) 1
  rw [Elem.attributes, Elem.attr, attrb1_eq htag hsize harr hv, hid, hst, har, hvr,
    Nat.shiftRight_eq_div_pow, Nat.shiftRight_eq_div_pow, Nat.shiftRight_eq_div_pow]
  congr 1
  · omega
  · omega
  · omega
  · omega

/-! ## Lookup -/

/-- The table of a message, by the lower 24 bits of its id. -/
def lookup (entries : List Entry) (id : Nat) : Option Entry :=
  entries.find? fun e => WMITLV_GET_CMDID id = WMITLV_GET_CMDID e.id

theorem getAttributes_skip (id order : Nat) (l words : List Nat) :
    getAttributes id order l.length (l ++ words) = getAttributes id order 0 words := by
  induction l with
  | nil => rfl
  | cons w l ih => exact ih

theorem getAttributes_eq (id order : Nat) (entries : List Entry) :
    getAttributes id order 0 (entries.flatMap WMITLV_GET_CMD_EVT_ATTRB_LIST) =
      (lookup entries id).bind fun e =>
        if order = WMITLV_GET_ATTRIB_NUM_TLVS then some ⟨0, 0, 0, 0, 0, e.elems.length⟩
        else e.elems[order]?.map fun el => el.attributes order e.elems.length := by
  induction entries with
  | nil => rfl
  | cons e entries ih =>
    rw [flatMap_cons, WMITLV_GET_CMD_EVT_ATTRB_LIST, cons_append, getAttributes,
      cmdid_attrb0, num_tlvs_attrb0 e.length_lt, lookup, find?_cons]
    by_cases hid : WMITLV_GET_CMDID id = WMITLV_GET_CMDID e.id
    · rw [if_pos hid, decide_eq_true hid, bind_some]
      refine ite_congr rfl (fun _ => rfl) fun _ => ?_
      by_cases hlt : order < e.elems.length
      · have hattr : (e.elems.map Elem.attr ++
            entries.flatMap WMITLV_GET_CMD_EVT_ATTRB_LIST).getD order 0 =
              (e.elems[order]).attr := by
          rw [getD_eq_getElem?_getD, getElem?_append_left (by rwa [length_map]),
            getElem?_map, getElem?_eq_getElem hlt]
          rfl
        rw [if_neg (by omega), getElem?_eq_getElem hlt, map_some, ← Elem.attr_fields, ← hattr]
        rfl
      · rw [if_pos (by omega), getElem?_eq_none (by omega)]; rfl
    · rw [if_neg hid, decide_eq_false hid]
      have hskip := getAttributes_skip id order (e.elems.map Elem.attr)
        (entries.flatMap WMITLV_GET_CMD_EVT_ATTRB_LIST)
      rw [length_map] at hskip; exact hskip.trans ih

def Tables.elems (t : Tables) (is_cmd_id : Bool) (id : Nat) : Option (List Elem) :=
  (lookup (if is_cmd_id then t.cmds else t.evts) id).map Entry.elems

variable {t : Tables} {is_cmd_id : Bool} {id : Nat} {elems : List Elem}

theorem get_attributes_num (h : t.elems is_cmd_id id = some elems) :
    wmitlv_get_attributes t is_cmd_id id WMITLV_GET_ATTRIB_NUM_TLVS =
      some ⟨0, 0, 0, 0, 0, elems.length⟩ := by
  obtain ⟨e, he, rfl⟩ := map_eq_some_iff.mp h
  rw [wmitlv_get_attributes, Tables.attr_list, getAttributes_eq, he, bind_some, if_pos rfl]

/-- No message has so many TLVs that an index would be the number that asks for their
number. -/
theorem elems_length_lt (h : t.elems is_cmd_id id = some elems) : elems.length < 2 ^ 8 := by
  obtain ⟨e, -, rfl⟩ := map_eq_some_iff.mp h
  exact e.length_lt

theorem get_attributes_elem (h : t.elems is_cmd_id id = some elems) {i : Nat}
    (hi : i ≤ elems.length) :
    wmitlv_get_attributes t is_cmd_id id i =
      elems[i]?.map fun el => el.attributes i elems.length := by
  have hlt := elems_length_lt h
  obtain ⟨e, he, rfl⟩ := map_eq_some_iff.mp h
  have hne : i ≠ WMITLV_GET_ATTRIB_NUM_TLVS := by rw [WMITLV_GET_ATTRIB_NUM_TLVS]; omega
  rw [wmitlv_get_attributes, Tables.attr_list, getAttributes_eq, he, bind_some, if_neg hne]

theorem get_attributes_none (h : t.elems is_cmd_id id = none) (order : Nat) :
    wmitlv_get_attributes t is_cmd_id id order = none := by
  rw [Tables.elems, map_eq_none_iff] at h
  rw [wmitlv_get_attributes, Tables.attr_list, getAttributes_eq, h, bind_none]

/-! ## The walks over the TLVs of the table -/

section Walks

variable (mem : Mem) (param_buf_len : Nat)

/-- `checkLen` with the attributes of the table. -/
def Elem.check (e : Elem) (buf_ptr len : Nat) : Reads Bool :=
  checkLen mem (e.attributes 0 0) buf_ptr e.tag len

def check : List Elem → Nat → Reads Bool
  | [], buf_idx =>
    if buf_idx + WMI_TLV_HDR_SIZE ≤ param_buf_len then do
      let _ ← WMITLV_GET_HDR mem buf_idx
      pure false
    else pure true
  | e :: es, buf_idx =>
    if buf_idx + WMI_TLV_HDR_SIZE ≤ param_buf_len then do
      let hdr ← WMITLV_GET_HDR mem buf_idx
      let len := WMITLV_GET_TLVLEN hdr
      if buf_idx + WMI_TLV_HDR_SIZE + len > param_buf_len then pure false
      else if WMITLV_GET_TLVTAG hdr ≠ e.tag then pure false
      else do
        let ok ← e.check mem buf_idx len
        if ok = false then pure false
        else if len % 4 ≠ 0 then pure false
        else check es (buf_idx + (len + WMI_TLV_HDR_SIZE))
    else pure true

def Elem.start (e : Elem) (buf_idx : Nat) : Nat :=
  if IsArrayTag e.tag then buf_idx + WMI_TLV_HDR_SIZE else buf_idx

def Elem.len (e : Elem) (len : Nat) : Nat :=
  if IsArrayTag e.tag then len else len + WMI_TLV_HDR_SIZE

/-- What is recorded of the TLVs `es` from `buf_idx` on; `alloc` is for each in turn. -/
def decode (alloc : Nat → Bool) : List Elem → (tlv_index buf_idx : Nat) →
    Reads (Option (List Param))
  | [], _, _ => pure (some [])
  | e :: es, tlv_index, buf_idx =>
    if buf_idx + WMI_TLV_HDR_SIZE ≤ param_buf_len then do
      let hdr ← WMITLV_GET_HDR mem buf_idx
      let len := WMITLV_GET_TLVLEN hdr
      if WMITLV_GET_TLVTAG hdr ≠ e.tag then pure none
      else do
        let param ← recordTlv mem (alloc tlv_index) (e.attributes 0 0) (e.start buf_idx) (e.len len)
        match param with
        | none => pure none
        | some param => do
            let params ← decode alloc es (tlv_index + 1) (e.start buf_idx + e.len len)
            pure (params.map fun params => param :: params)
    else pure (some (replicate (es.length + 1) .zero))

variable {mem param_buf_len}

theorem padLoop_eq (h : t.elems is_cmd_id id = some elems) (alloc : Nat → Bool) (n i buf_idx : Nat)
    (hi : i + n = elems.length) :
    padLoop t is_cmd_id id mem param_buf_len alloc n i buf_idx =
      decode mem param_buf_len alloc (elems.drop i) i buf_idx := by
  induction n generalizing i buf_idx with
  | zero => rw [drop_of_length_le (by omega)]; rfl
  | succ n ih =>
    have hlt : i < elems.length := by omega
    have hlen : (elems.drop (i + 1)).length = n := by rw [length_drop]; omega
    rw [drop_eq_getElem_cons hlt, padLoop, decode, get_attributes_elem h (by omega),
      getElem?_eq_getElem hlt, hlen]
    simp only [map_some, ih (i + 1) _ (by omega)]
    refine ite_congr rfl (fun _ => bind_congr_val ?_) fun _ => rfl
    refine ite_congr rfl (fun _ => rfl) fun htag => ?_
    have htag' : WMITLV_GET_TLVTAG (val (WMITLV_GET_HDR mem buf_idx)) = elems[i].tag :=
      not_not.mp htag
    rw [htag']; rfl

/-- The loop of the check does so too, and ends: a round that goes on has taken a header
off. -/
theorem checkLoop_eq (h : t.elems is_cmd_id id = some elems) (fuel i buf_idx : Nat)
    (hi : i ≤ elems.length) (hpos : 0 < fuel) (hfuel : param_buf_len < buf_idx + fuel) :
    checkLoop t is_cmd_id id mem param_buf_len fuel i buf_idx =
      check mem param_buf_len (elems.drop i) buf_idx := by
  induction fuel generalizing i buf_idx with
  | zero => exact absurd hpos (Nat.lt_irrefl 0)
  | succ fuel ih =>
    rw [checkLoop, get_attributes_elem h hi]
    by_cases hlt : i < elems.length
    · rw [drop_eq_getElem_cons hlt, check, getElem?_eq_getElem hlt]
      refine ite_congr rfl (fun hidx => bind_congr_val ?_) fun _ => rfl
      rw [WMI_TLV_HDR_SIZE] at hidx
      refine ite_congr rfl (fun _ => rfl) fun _ => ?_
      refine ite_congr rfl (fun _ => rfl) fun htag => ?_
      have htag' : WMITLV_GET_TLVTAG (val (WMITLV_GET_HDR mem buf_idx)) = elems[i].tag :=
        not_not.mp htag
      rw [htag']
      refine bind_congr_val ?_
      refine ite_congr rfl (fun _ => rfl) fun _ => ite_congr rfl (fun _ => rfl) fun _ => ?_
      refine ih (i + 1) _ (by omega) (by omega) ?_
      rw [WMI_TLV_HDR_SIZE]; omega
    · rw [drop_of_length_le (by omega), check, getElem?_eq_none (by omega)]
      refine ite_congr rfl (fun _ => bind_congr_val ?_) fun _ => rfl
      exact ite_self _

theorem check_and_pad_eq (h : t.elems is_cmd_id id = some elems) (alloc : Nat → Bool) :
    wmitlv_check_and_pad_tlvs t is_cmd_id id mem param_buf_len true alloc =
      decode mem param_buf_len alloc elems 0 0 := by
  rw [wmitlv_check_and_pad_tlvs, get_attributes_num h]
  exact padLoop_eq h alloc elems.length 0 0 (Nat.zero_add _)

theorem check_tlv_params_eq (h : t.elems is_cmd_id id = some elems) :
    wmitlv_check_tlv_params t is_cmd_id id mem param_buf_len = check mem param_buf_len elems 0 := by
  rw [wmitlv_check_tlv_params, get_attributes_num h]
  exact checkLoop_eq h (param_buf_len + 1) 0 0 (Nat.zero_le _) (Nat.succ_pos _) (by omega)

end Walks

end Qcacld.WmiTlv
