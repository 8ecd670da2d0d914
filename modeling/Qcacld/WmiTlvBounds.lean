/-
What the decoder reads and where its records point to.

The decoder does not check, as `wmitlv_check_tlv_params` does, that a TLV ends before the message
does. `Elem.taken` is how many bytes of a TLV it makes use of, by the table: as many as a fixed TLV
has to have, or all of it if it is shorter, and the whole elements of an array.
-/
import Qcacld.WmiTlv

set_option autoImplicit false

namespace Qcacld.WmiTlv

open Lib List

section

variable {mem : Mem} {N p L : Nat} {e : Elem} {alloc : Bool}

/-! ## Records -/

def tlvTag (mem : Mem) (a : Nat) : Nat := WMITLV_GET_TLVTAG (le32 mem a).toNat
def tlvLen (mem : Mem) (a : Nat) : Nat := WMITLV_GET_TLVLEN (le32 mem a).toNat

theorem len_hdr (mem : Mem) (a : Nat) :
    WMITLV_GET_TLVLEN (val (WMITLV_GET_HDR mem a)) = tlvLen mem a := rfl

def Elem.total (e : Elem) : Nat :=
  if e.array_size = WMITLV_ARR_SIZE_INVALID then e.struct_size else e.struct_size * e.array_size

/-- A structure that is only a header does not count. -/
def Elem.count (e : Elem) (L : Nat) : Nat :=
  if e.array_size = WMITLV_ARR_SIZE_INVALID then if L > WMI_TLV_HDR_SIZE then 1 else 0
  else e.array_size

def inLen (mem : Mem) (p : Nat) : Nat := tlvLen mem p + WMI_TLV_HDR_SIZE

theorem recordTlv_fixed (hv : e.varied = false) :
    recordTlv mem alloc (e.attributes 0 0) p L =
      if e.tag = WMITLV_TAG_ARRAY_STRUC ∧ L ≠ e.total then pure none
      else if e.total ≤ L then pure (some ⟨.buf p, e.count L, false⟩)
      else if alloc = false then pure none
      else wmi_tlv_OS_MEMCPY mem p L >>= fun bytes =>
        pure (some
          ⟨.allocated (bytes ++ replicate (e.total - L) 0), e.count L, true⟩) := by
  have hsizes : tlvSizes mem (e.attributes 0 0) p L = pure (some ((L : Int) - e.total, e.count L)) := by
    simp only [tlvSizes, Elem.attributes, Elem.total, Elem.count, hv, Bool.false_eq_true, if_false,
      if_true, eq_comm (a := WMITLV_ARR_SIZE_INVALID)]
    split
    · rfl
    · rfl
  have hfix : (e.attributes 0 0).tag_varied_size = WMITLV_SIZE_FIX := by
    rw [Elem.attributes, hv]; rfl
  have hzero : (-((L : Int) - e.total)).toNat = e.total - L := by omega
  rw [recordTlv, hsizes, logged_pure_bind]
  dsimp only
  rw [hfix, hzero, if_pos rfl]
  refine ite_congr ?_ (fun _ => rfl) fun _ => ite_congr ?_ (fun _ => ?_) fun _ => rfl
  · rw [eq_comm (a := WMITLV_TAG_ARRAY_STRUC), eq_iff_iff]
    refine and_congr Iff.rfl ?_
    omega
  · rw [eq_iff_iff]; omega
  · rw [if_neg fun h => h.1 rfl]

theorem Elem.varied_tag (hv : e.varied = true) :
    e.tag = WMITLV_TAG_ARRAY_UINT32 ∨ e.tag = WMITLV_TAG_ARRAY_BYTE ∨
      e.tag = WMITLV_TAG_ARRAY_STRUC ∨ e.tag = WMITLV_TAG_ARRAY_FIXED_STRUC := by
  have hshape := e.shape
  rw [if_pos hv] at hshape; exact hshape.1

theorem varied_attr (hv : e.varied = true) :
    (e.attributes 0 0).tag_varied_size ≠ WMITLV_SIZE_FIX := by
  rw [Elem.attributes, hv, if_pos rfl]; exact Nat.one_ne_zero

theorem recordTlv_array (hv : e.varied = true) (htag : e.tag ≠ WMITLV_TAG_ARRAY_STRUC) :
    recordTlv mem alloc (e.attributes 0 0) p L =
      pure (some ⟨if L = 0 then .null else .buf p, L / e.struct_size, false⟩) := by
  have hkind : WMITLV_TAG_ARRAY_UINT32 = e.tag ∨ WMITLV_TAG_ARRAY_BYTE = e.tag ∨
      WMITLV_TAG_ARRAY_FIXED_STRUC = e.tag := by
    rcases Elem.varied_tag hv with h | h | h | h
    · exact .inl h.symm
    · exact .inr (.inl h.symm)
    · exact absurd h htag
    · exact .inr (.inr h.symm)
  have hsizes : tlvSizes mem (e.attributes 0 0) p L = pure (some (0, L / e.struct_size)) := by
    rw [tlvSizes, if_neg (varied_attr hv), if_neg (fun h => htag h.symm)]; exact if_pos hkind
  rw [recordTlv, hsizes, logged_pure_bind]
  dsimp only
  rw [if_neg (fun h => h.2 rfl), if_pos (Int.le_refl 0)]
  simp only [varied_attr hv, ne_eq, not_false_eq_true, true_and]

theorem recordTlv_struc (hv : e.varied = true) (htag : e.tag = WMITLV_TAG_ARRAY_STRUC) :
    recordTlv mem alloc (e.attributes 0 0) p L =
      if L = 0 then pure (some ⟨.null, 0, false⟩)
      else WMITLV_GET_HDR mem p >>= fun _ =>
        if inLen mem p = e.struct_size then
          pure (some ⟨.buf p, L / e.struct_size, false⟩)
        else WMITLV_GET_HDR mem p >>= fun _ =>
          if alloc = false then pure none
          else padElems mem e.struct_size (inLen mem p) (inLen mem p - e.struct_size)
              (L / inLen mem p) p >>= fun bytes =>
            pure (some ⟨.allocated bytes, L / inLen mem p, true⟩) := by
  have hstruc : WMITLV_TAG_ARRAY_STRUC = (e.attributes 0 0).tag_id := htag.symm
  rw [recordTlv, tlvSizes, if_neg (varied_attr hv), if_pos hstruc]
  by_cases hL : L = 0
  · rw [if_neg (not_not.mpr hL), if_pos hL, logged_pure_bind]
    dsimp only
    rw [if_neg (fun h => h.2 rfl), if_pos (Int.le_refl 0), if_pos ⟨varied_attr hv, hL⟩]
  · rw [if_pos hL, if_neg hL, logged_bind_assoc]
    refine bind_congr_val ?_
    rw [logged_pure_bind]
    dsimp only
    have hsize : WMITLV_GET_TLVLEN (val (WMITLV_GET_HDR mem p)) + WMI_TLV_HDR_SIZE = inLen mem p :=
      rfl
    rw [hsize]
    by_cases hin : inLen mem p = e.struct_size
    · have hdiff : ((inLen mem p : Nat) : Int) - (e.attributes 0 0).tag_struct_size = 0 := by
        rw [Elem.attributes, hin]; exact Int.sub_self _
      rw [if_pos hin, hdiff, if_neg (fun h => h.2 rfl), if_pos (Int.le_refl 0),
        if_neg (fun h => hL h.2), hin]
    · have hdiff : ((inLen mem p : Nat) : Int) - (e.attributes 0 0).tag_struct_size ≠ 0 := by
        have hss : (e.attributes 0 0).tag_struct_size = e.struct_size := rfl
        omega
      rw [if_neg hin, if_pos ⟨hstruc, hdiff⟩, if_neg (varied_attr hv)]; rfl

/-! ## What is read -/

theorem within_hdr : Within (· < N) (WMITLV_GET_HDR mem p) ↔ p + WMI_TLV_HDR_SIZE ≤ N := by
  refine ⟨fun h => ?_, fun h b hb => ?_⟩
  · have hlast := h (p + 3) (mem_map.mpr ⟨3, mem_range.mpr (by decide), rfl⟩); exact hlast
  · obtain ⟨i, hi, rfl⟩ := mem_map.mp hb
    have := mem_range.mp hi
    omega

theorem within_memcpy {n : Nat} (hp : p ≤ N ∨ 0 < n) :
    Within (· < N) (wmi_tlv_OS_MEMCPY mem p n) ↔ p + n ≤ N := by
  refine ⟨fun h => ?_, fun h b hb => ?_⟩
  · by_cases hn : n = 0
    · omega
    · have hlast := h (p + (n - 1)) (mem_map.mpr ⟨n - 1, mem_range.mpr (by omega), rfl⟩); omega
  · obtain ⟨i, hi, rfl⟩ := mem_map.mp hb
    have := mem_range.mp hi
    omega

section PadElems

variable {S inl : Nat} {d : Int}

theorem length_padElems (hd : d = (inl : Int) - S) (n src : Nat) :
    (val (padElems mem S inl d n src)).length = n * S := by
  induction n generalizing src with
  | zero => exact (Nat.zero_mul S).symm
  | succ n ih =>
    rw [padElems, val_bind, val_bind, val_pure, length_append, length_append, ih,
      length_replicate, wmi_tlv_OS_MEMCPY, val_emit, length_map, length_range,
      Nat.succ_mul]
    have hlen : (if d > 0 then S else inl) ≤ S := by
      split
      · exact Nat.le_refl S
      · omega
    omega

theorem within_padElems (hd : d = (inl : Int) - S) (hpos : 0 < inl) (hS : 0 < S) (n src : Nat) :
    Within (· < N) (padElems mem S inl d (n + 1) src) ↔ src + (n * inl + min inl S) ≤ N := by
  have hlen : (if d > 0 then S else inl) = min inl S := by
    split
    · omega
    · omega
  have hone : ∀ n src, Within (· < N) (padElems mem S inl d (n + 1) src) ↔
      src + min inl S ≤ N ∧ Within (· < N) (padElems mem S inl d n (src + inl)) := by
    intro n src
    rw [padElems, within_bind_iff, within_bind_pure, hlen, within_memcpy (.inr (by omega))]
  induction n generalizing src with
  | zero => rw [hone, padElems, and_iff_left (within_pure [])]; omega
  | succ n ih => rw [hone, propext (ih (src + inl)), Nat.succ_mul]; omega

end PadElems

/-! ## Where the records point to -/

def Param.InBounds (N S : Nat) (r : Param) : Prop :=
  match r.tlv_ptr with
  | .null => r.num_elements = 0
  | .buf offset => offset + r.num_elements * S ≤ N
  | .allocated bytes => r.num_elements * S ≤ bytes.length

theorem Param.inBounds_zero (N S : Nat) : Param.zero.InBounds N S := rfl

theorem inBounds_buf {S n : Nat} {b : Bool} :
    Param.InBounds N S ⟨.buf p, n, b⟩ ↔ p + n * S ≤ N := Iff.rfl

theorem inBounds_allocated {S n : Nat} {b : Bool} {bytes : List UInt8} :
    Param.InBounds N S ⟨.allocated bytes, n, b⟩ ↔ n * S ≤ bytes.length := Iff.rfl

def Elem.taken (mem : Mem) (e : Elem) (p L : Nat) : Nat :=
  if e.varied = false then min L e.total
  else if e.tag ≠ WMITLV_TAG_ARRAY_STRUC then L / e.struct_size * e.struct_size
  else if L = 0 then 0
  else
    -- a header in any case, and no more of the last structure than the table has of it
    max WMI_TLV_HDR_SIZE
      (if L < inLen mem p then 0
      else (L / inLen mem p - 1) * inLen mem p + min (inLen mem p) e.struct_size)

def Elem.Accepted (e : Elem) (L : Nat) : Prop :=
  e.varied = false → e.tag = WMITLV_TAG_ARRAY_STRUC → L = e.total

theorem Elem.not_array (hv : e.varied = false) :
    ¬ IsArrayTag e.tag ↔ e.array_size = WMITLV_ARR_SIZE_INVALID := by
  have hshape := e.shape
  rw [hv, if_neg Bool.false_ne_true] at hshape
  rw [hshape, not_not]

theorem Elem.count_mul_le (e : Elem) (L : Nat) : e.count L * e.struct_size ≤ e.total := by
  rw [Elem.count, Elem.total]
  split
  · split
    · omega
    · omega
  · rw [Nat.mul_comm]

theorem inBounds_fixed (hv : e.varied = false) (hs : ¬ IsArrayTag e.tag → p + WMI_TLV_HDR_SIZE ≤ N)
    (htot : e.total ≤ L) : p + e.count L * e.struct_size ≤ N ↔ p + e.total ≤ N := by
  refine ⟨fun h => ?_, fun h => Nat.le_trans (Nat.add_le_add_left (e.count_mul_le L) p) h⟩
  by_cases harr : e.array_size = WMITLV_ARR_SIZE_INVALID
  · have hhdr := hs ((Elem.not_array hv).mpr harr)
    rw [Elem.total, if_pos harr] at htot ⊢
    rw [Elem.count, if_pos harr] at h
    split at h
    · omega
    · -- only a header, which was there to be read
      omega
  · rw [Elem.count, if_neg harr] at h
    rw [Elem.total, if_neg harr, Nat.mul_comm]; exact h

theorem struc_bytes {inl S : Nat} (hS : 0 < S) (hin : inl = S) :
    (if L < inl then 0 else (L / inl - 1) * inl + min inl S) = L / S * S := by
  subst hin
  by_cases hL : L < inl
  · rw [if_pos hL, Nat.div_eq_of_lt hL, Nat.zero_mul]
  · have hpos : 0 < L / inl := Nat.div_pos (by omega) hS
    obtain ⟨k, hk⟩ : ∃ k, L / inl = k + 1 := ⟨L / inl - 1, by omega⟩
    rw [if_neg hL, hk, Nat.add_sub_cancel, Nat.min_self, Nat.succ_mul]

theorem within_padElems_div (mem : Mem) (L : Nat) {inl S : Nat} {d : Int} (hp : p ≤ N)
    (hd : d = (inl : Int) - S)
    (hpos : 0 < inl) (hS : 0 < S) :
    Within (· < N) (padElems mem S inl d (L / inl) p) ↔
      p + (if L < inl then 0 else (L / inl - 1) * inl + min inl S) ≤ N := by
  by_cases hL : L < inl
  · rw [if_pos hL, Nat.div_eq_of_lt hL, padElems]; exact ⟨fun _ => hp, fun _ => within_pure []⟩
  · have hdiv : 0 < L / inl := Nat.div_pos (by omega) hpos
    obtain ⟨k, hk⟩ : ∃ k, L / inl = k + 1 := ⟨L / inl - 1, by omega⟩
    rw [if_neg hL, hk, Nat.add_sub_cancel]; exact within_padElems hd hpos hS k p

theorem inLen_pos (mem : Mem) (p : Nat) : 0 < inLen mem p := by
  rw [inLen, WMI_TLV_HDR_SIZE]; omega

def RecordGood (mem : Mem) (N p L : Nat) (e : Elem) : Prop :=
  ∃ r, val (recordTlv mem true (e.attributes 0 0) p L) = some r ∧
    (Within (· < N) (recordTlv mem true (e.attributes 0 0) p L) ∧ r.InBounds N e.struct_size ↔
      p + e.taken mem p L ≤ N)

theorem recordGood_fixed (hp : p ≤ N) (hs : ¬ IsArrayTag e.tag → p + WMI_TLV_HDR_SIZE ≤ N)
    (hacc : e.Accepted L) (hv : e.varied = false) : RecordGood mem N p L e := by
  rw [RecordGood, recordTlv_fixed hv, Elem.taken, if_pos hv, if_neg (fun h => h.2 (hacc hv h.1))]
  by_cases htot : e.total ≤ L
  · rw [if_pos htot, Nat.min_eq_right htot]
    refine ⟨_, rfl, ?_⟩
    rw [and_iff_right (within_pure _), inBounds_buf]; exact inBounds_fixed hv hs htot
  · rw [if_neg htot, if_neg (by decide), Nat.min_eq_left (by omega)]
    refine ⟨_, rfl, ?_⟩
    have hcount := e.count_mul_le L
    rw [within_bind_pure, within_memcpy (.inl hp), inBounds_allocated, length_append,
      length_replicate, length_map, length_range]
    omega

theorem recordGood_array (hp : p ≤ N) (hv : e.varied = true) (htag : e.tag ≠ WMITLV_TAG_ARRAY_STRUC) :
    RecordGood mem N p L e := by
  rw [RecordGood, Elem.taken, hv, if_neg (by decide), if_pos htag, recordTlv_array hv htag]
  refine ⟨_, rfl, ?_⟩
  rw [and_iff_right (within_pure _)]
  by_cases hL : L = 0
  · subst hL
    rw [if_pos rfl, Nat.zero_div, Nat.zero_mul]; exact ⟨fun _ => hp, fun _ => rfl⟩
  · rw [if_neg hL, inBounds_buf]

theorem recordGood_struc (hp : p ≤ N) (hv : e.varied = true) (htag : e.tag = WMITLV_TAG_ARRAY_STRUC) :
    RecordGood mem N p L e := by
  have hpos := inLen_pos mem p
  rw [RecordGood, Elem.taken, hv, if_neg (by decide), if_neg (not_not.mpr htag),
    recordTlv_struc hv htag]
  by_cases hL : L = 0
  · rw [if_pos hL, if_pos hL]
    refine ⟨_, rfl, ?_⟩
    rw [and_iff_right (within_pure _)]; exact ⟨fun _ => hp, fun _ => rfl⟩
  · rw [if_neg hL, if_neg hL]
    by_cases hin : inLen mem p = e.struct_size
    · rw [if_pos hin]
      refine ⟨_, rfl, ?_⟩
      have hwithin : Within (· < N) (WMITLV_GET_HDR mem p >>= fun _ =>
          pure (some (Param.mk (.buf p) (L / e.struct_size) false))) ↔ p + WMI_TLV_HDR_SIZE ≤ N :=
        within_bind_pure.trans within_hdr
      rw [hwithin, inBounds_buf, struc_bytes e.struct_size_pos hin]; omega
    · have hd : (inLen mem p : Int) - e.struct_size = (inLen mem p : Int) - e.struct_size := rfl
      have hpad := within_padElems_div mem L hp hd hpos e.struct_size_pos
      rw [if_neg hin, if_neg (by decide)]
      refine ⟨⟨.allocated (val (padElems mem e.struct_size (inLen mem p)
        (inLen mem p - e.struct_size) (L / inLen mem p) p)), L / inLen mem p, true⟩, rfl, ?_⟩
      rw [within_bind_iff, within_bind_iff, within_bind_pure, within_hdr, propext hpad,
        inBounds_allocated, length_padElems rfl]
      omega

theorem recordGood (mem : Mem) (hp : p ≤ N)
    (hs : ¬ IsArrayTag e.tag → p + WMI_TLV_HDR_SIZE ≤ N) (hacc : e.Accepted L) :
    RecordGood mem N p L e := by
  by_cases hv : e.varied = false
  · exact recordGood_fixed hp hs hacc hv
  · rw [Bool.not_eq_false] at hv
    by_cases htag : e.tag = WMITLV_TAG_ARRAY_STRUC
    · exact recordGood_struc hp hv htag
    · exact recordGood_array hp hv htag

/-- Of a TLV that ends in the message no more is taken than that, the header of a structure
apart. -/
theorem taken_of_le (hend : p + L ≤ N)
    (h : Within (· < N) (recordTlv mem true (e.attributes 0 0) p L)) : p + e.taken mem p L ≤ N := by
  rw [Elem.taken]
  split
  · omega
  · next hv =>
      rw [Bool.not_eq_false] at hv
      split
      · have := Nat.div_mul_le_self L e.struct_size; omega
      · next htag =>
          split
          · omega
          · next hL =>
              rw [recordTlv_struc hv (not_not.mp htag), if_neg hL] at h
              have hhdr := within_hdr.mp (within_bind_iff.mp h).1
              have hdiv := Nat.div_mul_le_self L (inLen mem p)
              split
              · omega
              · have hpos : 0 < L / inLen mem p := Nat.div_pos (by omega) (inLen_pos mem p)
                obtain ⟨k, hk⟩ : ∃ k, L / inLen mem p = k + 1 := ⟨L / inLen mem p - 1, by omega⟩
                rw [hk, Nat.succ_mul] at hdiv
                rw [hk, Nat.add_sub_cancel]; omega

theorem recordTlv_not_accepted (hacc : ¬ e.Accepted L) :
    recordTlv mem alloc (e.attributes 0 0) p L = pure none := by
  rw [Elem.Accepted, Classical.not_imp, Classical.not_imp] at hacc
  rw [recordTlv_fixed hacc.1, if_pos hacc.2]

theorem recordTlv_alloc (alloc : Bool)
    (h : Within (· < N) (recordTlv mem true (e.attributes 0 0) p L)) :
    Within (· < N) (recordTlv mem alloc (e.attributes 0 0) p L) ∧
      (val (recordTlv mem alloc (e.attributes 0 0) p L) = none ∨
        val (recordTlv mem alloc (e.attributes 0 0) p L) =
          val (recordTlv mem true (e.attributes 0 0) p L)) := by
  cases alloc with
  | true => exact ⟨h, .inr rfl⟩
  | false =>
    by_cases hv : e.varied = false
    · rw [recordTlv_fixed hv, recordTlv_fixed hv]
      by_cases hstruc : e.tag = WMITLV_TAG_ARRAY_STRUC ∧ L ≠ e.total
      · rw [if_pos hstruc]; exact ⟨within_pure none, .inl rfl⟩
      · rw [if_neg hstruc, if_neg hstruc]
        by_cases htot : e.total ≤ L
        · rw [if_pos htot, if_pos htot]; exact ⟨within_pure _, .inr rfl⟩
        · rw [if_neg htot, if_pos rfl]; exact ⟨within_pure none, .inl rfl⟩
    · rw [Bool.not_eq_false] at hv
      by_cases htag : e.tag = WMITLV_TAG_ARRAY_STRUC
      · rw [recordTlv_struc hv htag] at h
        rw [recordTlv_struc hv htag, recordTlv_struc hv htag]
        by_cases hL : L = 0
        · rw [if_pos hL, if_pos hL]; exact ⟨within_pure _, .inr rfl⟩
        · rw [if_neg hL] at h
          rw [if_neg hL, if_neg hL]
          by_cases hin : inLen mem p = e.struct_size
          · rw [if_pos hin] at h
            rw [if_pos hin, if_pos hin]; exact ⟨h, .inr rfl⟩
          · rw [if_neg hin, if_pos rfl]
            have hhdr := (within_bind_iff.mp h).1
            exact ⟨hhdr.bind (hhdr.bind (within_pure none)), .inl rfl⟩
      · rw [recordTlv_array hv htag, recordTlv_array hv htag]; exact ⟨within_pure _, .inr rfl⟩

/-! ## The whole message -/

/-- What is taken of each TLV that the decoder gets to is in the message. -/
def Fits (mem : Mem) (N : Nat) : List Elem → Nat → Prop
  | [], _ => True
  | e :: es, buf_idx =>
    buf_idx + WMI_TLV_HDR_SIZE ≤ N → tlvTag mem buf_idx = e.tag →
      e.Accepted (e.len (tlvLen mem buf_idx)) →
        e.start buf_idx + e.taken mem (e.start buf_idx) (e.len (tlvLen mem buf_idx)) ≤ N ∧
          Fits mem N es (e.start buf_idx + e.len (tlvLen mem buf_idx))

def Good (N : Nat) (es : List Elem) (x : Reads (Option (List Param))) : Prop :=
  Within (· < N) x ∧ ∀ params, val x = some params →
    List.Forall₂ (fun (e : Elem) (r : Param) => r.InBounds N e.struct_size) es params

theorem good_none (es : List Elem) : Good N es (pure none) :=
  ⟨within_pure none, fun _ h => nomatch h⟩

theorem good_rest (es : List Elem) : Good N es (pure (some (replicate es.length .zero))) := by
  refine ⟨within_pure _, ?_⟩
  rintro _ ⟨⟩
  induction es with
  | nil => exact .nil
  | cons e es ih => exact .cons (Param.inBounds_zero N e.struct_size) ih

theorem good_bind_iff {α : Type} {es : List Elem} {x : Reads α}
    {f : α → Reads (Option (List Param))} :
    Good N es (x >>= f) ↔ Within (· < N) x ∧ Good N es (f (val x)) := by
  rw [Good, Good, within_bind_iff, val_bind, and_assoc]

theorem good_cons_iff {es : List Elem} {r : Param} {x : Reads (Option (List Param))} :
    Good N (e :: es) (x >>= fun rs => pure (rs.map fun rs => r :: rs)) ↔
      Good N es x ∧ (val x ≠ none → r.InBounds N e.struct_size) := by
  rw [Good, Good, within_bind_pure, val_bind, val_pure, and_assoc]
  refine and_congr_right fun _ => ?_
  cases hval : val x with
  | none => exact ⟨fun _ => ⟨fun _ h => (nomatch h), fun h => absurd rfl h⟩, fun _ _ h => nomatch h⟩
  | some rs =>
    refine ⟨fun h => ?_, ?_⟩
    · have hall := List.forall₂_cons.mp (h (r :: rs) rfl)
      refine ⟨?_, fun _ => hall.1⟩
      rintro _ ⟨⟩; exact hall.2
    · rintro ⟨hrs, hr⟩ _ ⟨⟩; exact .cons (hr (Option.some_ne_none rs)) (hrs rs rfl)

theorem Elem.start_le (h : p + WMI_TLV_HDR_SIZE ≤ N) : e.start p ≤ N := by
  rw [Elem.start]
  split
  · exact h
  · omega

theorem Elem.start_struct (h : p + WMI_TLV_HDR_SIZE ≤ N) (htag : ¬ IsArrayTag e.tag) :
    e.start p + WMI_TLV_HDR_SIZE ≤ N := by rwa [Elem.start, if_neg htag]

theorem decode_cons {alloc : Nat → Bool} {es : List Elem} {i : Nat}
    (hidx : p + WMI_TLV_HDR_SIZE ≤ N) (htag : tlvTag mem p = e.tag) :
    decode mem N alloc (e :: es) i p =
      WMITLV_GET_HDR mem p >>= fun _ =>
        recordTlv mem (alloc i) (e.attributes 0 0) (e.start p) (e.len (tlvLen mem p)) >>= fun r =>
          match r with
          | none => pure none
          | some r =>
            decode mem N alloc es (i + 1) (e.start p + e.len (tlvLen mem p)) >>= fun rs =>
              pure (rs.map fun rs => r :: rs) := by
  rw [decode, if_pos hidx]; exact bind_congr_val (if_neg (not_not.mpr htag))

theorem good_decode (alloc : Nat → Bool) (es : List Elem) (i buf_idx : Nat)
    (h : Fits mem N es buf_idx) : Good N es (decode mem N alloc es i buf_idx) := by
  induction es generalizing i buf_idx with
  | nil => exact good_rest []
  | cons e es ih =>
    by_cases hidx : buf_idx + WMI_TLV_HDR_SIZE ≤ N
    · have hhdr : Within (· < N) (WMITLV_GET_HDR mem buf_idx) := within_hdr.mpr hidx
      by_cases htag : tlvTag mem buf_idx = e.tag
      · rw [decode_cons hidx htag]
        refine good_bind_iff.mpr ⟨hhdr, ?_⟩
        by_cases hacc : e.Accepted (e.len (tlvLen mem buf_idx))
        · obtain ⟨htaken, hrest⟩ := h hidx htag hacc
          obtain ⟨r, hr, hgood⟩ := recordGood mem (Elem.start_le hidx) (Elem.start_struct hidx) hacc
          have hrec := hgood.mpr htaken
          obtain ⟨hwithin, hval⟩ := recordTlv_alloc (alloc i) hrec.1
          refine good_bind_iff.mpr ⟨hwithin, ?_⟩
          rcases hval with hval | hval
          · rw [hval]; exact good_none _
          · rw [hval, hr]; exact good_cons_iff.mpr ⟨ih (i + 1) _ hrest, fun _ => hrec.2⟩
        · rw [recordTlv_not_accepted hacc]
          exact good_bind_iff.mpr ⟨within_pure none, good_none _⟩
      · rw [decode, if_pos hidx]
        refine good_bind_iff.mpr ⟨hhdr, ?_⟩
        exact (if_pos htag).symm ▸ good_none (e :: es)
    · rw [decode, if_neg hidx]; exact good_rest (e :: es)

theorem fits_of_good (es : List Elem) (i buf_idx : Nat)
    (h : Good N es (decode mem N (fun _ => true) es i buf_idx)) : Fits mem N es buf_idx := by
  induction es generalizing i buf_idx with
  | nil => trivial
  | cons e es ih =>
    intro hidx htag hacc
    rw [decode_cons hidx htag] at h
    obtain ⟨-, h⟩ := good_bind_iff.mp h
    obtain ⟨hwithin, h⟩ := good_bind_iff.mp h
    obtain ⟨r, hr, hgood⟩ := recordGood mem (Elem.start_le hidx) (Elem.start_struct hidx) hacc
    rw [hr] at h
    obtain ⟨hrest, hin⟩ := good_cons_iff.mp h
    refine ⟨?_, ih (i + 1) _ hrest⟩
    by_cases hend : e.start buf_idx + e.len (tlvLen mem buf_idx) ≤ N
    · exact taken_of_le hend hwithin
    · -- the TLV runs past the end, where the decoder stops without an error
      refine hgood.mp ⟨hwithin, hin ?_⟩
      cases es with
      | nil => exact Option.some_ne_none _
      | cons e' es => rw [decode, if_neg (by omega)]; exact Option.some_ne_none _

/-! ## The decoder -/

/-- **A received message is taken apart inside its bounds exactly if what is taken of each TLV
is in it**, whatever allocations fail. -/
theorem check_and_pad_good_iff {t : Tables} {is_cmd_id : Bool} {id : Nat} {elems : List Elem}
    (h : t.elems is_cmd_id id = some elems) (mem : Mem) (param_buf_len : Nat) :
    (∀ base_alloc alloc, Good param_buf_len elems
      (wmitlv_check_and_pad_tlvs t is_cmd_id id mem param_buf_len base_alloc alloc)) ↔
      Fits mem param_buf_len elems 0 := by
  refine ⟨fun hgood => ?_, fun hfits base_alloc alloc => ?_⟩
  · have hall := hgood true fun _ => true
    rw [check_and_pad_eq h] at hall; exact fits_of_good elems 0 0 hall
  · cases base_alloc with
    | true => rw [check_and_pad_eq h]; exact good_decode alloc elems 0 0 hfits
    | false => rw [wmitlv_check_and_pad_tlvs, get_attributes_num h]; exact good_none elems

/-! ### The frequencies to avoid -/

def WMI_WLAN_FREQ_AVOID_EVENTID : Nat := 0x1d00a

/-- `wmi_avoid_freq_ranges_event_fixed_param`. -/
def avoidFixedParam : Elem where
  tag := 71
  struct_size := 8
  array_size := WMITLV_ARR_SIZE_INVALID
  varied := false
  tag_lt := by decide
  struct_size_pos := Nat.succ_pos 7
  struct_size_lt := by decide
  array_size_lt := by decide
  shape := by decide

/-- An array of `wmi_avoid_freq_range_desc`. -/
def avoidFreqRange : Elem where
  tag := WMITLV_TAG_ARRAY_STRUC
  struct_size := 12
  array_size := WMITLV_ARR_SIZE_INVALID
  varied := true
  tag_lt := by decide
  struct_size_pos := by decide
  struct_size_lt := by decide
  array_size_lt := by decide
  shape := by decide

def avoidTables : Tables where
  cmds := []
  evts := [⟨WMI_WLAN_FREQ_AVOID_EVENTID, [avoidFixedParam, avoidFreqRange], by decide⟩]

def avoidEvent (len : UInt8) : Mem := fun i =>
  [4, 0, 71, 0, 1, 0, 0, 0, len, 0, 18, 0, 8, 0, 72, 0, 0x6c, 9, 0, 0, 0x76, 9, 0, 0].getD i 0

theorem check_and_pad_good_one_range :
    avoidTables.elems false WMI_WLAN_FREQ_AVOID_EVENTID = some [avoidFixedParam, avoidFreqRange] ∧
      ∀ base_alloc alloc, Good 24 [avoidFixedParam, avoidFreqRange]
        (wmitlv_check_and_pad_tlvs avoidTables false WMI_WLAN_FREQ_AVOID_EVENTID (avoidEvent 12) 24
          base_alloc alloc) := by
  refine ⟨rfl, (check_and_pad_good_iff rfl _ _).mpr ?_⟩
  refine fun _ _ _ => ⟨by decide, fun _ _ _ => ⟨by decide, trivial⟩⟩

/-- The array says that there are two ranges, and the record has both. -/
theorem check_and_pad_past_end :
    avoidTables.elems false WMI_WLAN_FREQ_AVOID_EVENTID = some [avoidFixedParam, avoidFreqRange] ∧
      val (wmitlv_check_and_pad_tlvs avoidTables false WMI_WLAN_FREQ_AVOID_EVENTID (avoidEvent 24) 24
        true fun _ => true) = some [⟨.buf 0, 1, false⟩, ⟨.buf 12, 2, false⟩] ∧
      ¬ Good 24 [avoidFixedParam, avoidFreqRange]
        (wmitlv_check_and_pad_tlvs avoidTables false WMI_WLAN_FREQ_AVOID_EVENTID (avoidEvent 24) 24
          true fun _ => true) := by
  have hval : val (wmitlv_check_and_pad_tlvs avoidTables false WMI_WLAN_FREQ_AVOID_EVENTID
      (avoidEvent 24) 24 true fun _ => true) = some [⟨.buf 0, 1, false⟩, ⟨.buf 12, 2, false⟩] := by
    decide
  refine ⟨rfl, hval, fun h => ?_⟩
  have hall := h.2 _ hval
  rw [List.forall₂_cons, List.forall₂_cons] at hall
  exact absurd hall.2.1 (by rw [inBounds_buf]; decide)

end

/-! Sender and receiver: what the check accepts, the decoder records as it is (`decode_of_check`).
-/

variable {mem : Mem} {N p L idx len : Nat} {e : Elem} {alloc : Bool}

/-! ## What the check accepts -/

def Elem.num (e : Elem) (len : Nat) : Nat :=
  if e.varied then len / e.struct_size
  else if IsArrayTag e.tag then e.array_size
  else if len = 0 then 0 else 1

/-- The record of a TLV whose header is at `idx`, without a copy. -/
def Elem.seen (e : Elem) (idx len : Nat) : Param where
  tlv_ptr := if e.varied ∧ len = 0 then .null else .buf (e.start idx)
  num_elements := e.num len
  buf_is_allocated := false

/-- The TLVs of the message where the check goes over them, and nothing for those that are not
there. -/
def seen (mem : Mem) (N : Nat) : List Elem → Nat → List Param
  | [], _ => []
  | e :: es, idx =>
    if idx + WMI_TLV_HDR_SIZE ≤ N then
      e.seen idx (tlvLen mem idx) :: seen mem N es (idx + (tlvLen mem idx + WMI_TLV_HDR_SIZE))
    else replicate (es.length + 1) .zero

theorem Elem.start_add_len (e : Elem) (idx len : Nat) :
    e.start idx + e.len len = idx + (len + WMI_TLV_HDR_SIZE) := by
  rw [Elem.start, Elem.len]
  split
  · omega
  · omega

/-- A TLV is at least as long as the table says, and its structures have the size of the
table: no copy is needed. -/
def Elem.SameSize (mem : Mem) (e : Elem) (p L : Nat) : Prop :=
  if e.varied = false then e.total ≤ L ∧ e.Accepted L
  else e.tag = WMITLV_TAG_ARRAY_STRUC → L ≠ 0 → inLen mem p = e.struct_size

theorem Elem.array_of_varied (hv : e.varied = true) : IsArrayTag e.tag := by
  rcases Elem.varied_tag hv with h | h | h | h
  · rw [h]; decide
  · rw [h]; decide
  · rw [h]; decide
  · rw [h]; decide

theorem Elem.count_len (hv : e.varied = false) : e.count (e.len len) = e.num len := by
  have hnot := Elem.not_array hv
  rw [Elem.count, Elem.num, hv, if_neg Bool.false_ne_true, Elem.len]
  by_cases harr : IsArrayTag e.tag
  · rw [if_pos harr, if_pos harr, if_neg fun h => hnot.mpr h harr]
  · rw [if_neg harr, if_neg harr, if_pos (hnot.mp harr)]
    by_cases hlen : len = 0
    · rw [if_pos hlen, if_neg (by omega)]
    · rw [if_neg hlen, if_pos (by omega)]

theorem recordTlv_sameSize (h : e.SameSize mem (e.start idx) (e.len len)) :
    val (recordTlv mem alloc (e.attributes 0 0) (e.start idx) (e.len len)) =
      some (e.seen idx len) := by
  rw [Elem.SameSize] at h
  by_cases hv : e.varied = false
  · rw [if_pos hv] at h
    rw [recordTlv_fixed hv, if_neg (fun h' => h'.2 (h.2 hv h'.1)), if_pos h.1, val_pure, Elem.seen,
      Elem.count_len hv, hv, if_neg (fun h' => Bool.false_ne_true h'.1)]
  · rw [if_neg hv] at h
    rw [Bool.not_eq_false] at hv
    have hlen : e.len len = len := if_pos (Elem.array_of_varied hv)
    rw [hlen] at h ⊢
    rw [Elem.seen, Elem.num, if_pos hv, hv]
    by_cases htag : e.tag = WMITLV_TAG_ARRAY_STRUC
    · rw [recordTlv_struc hv htag]
      by_cases hL : len = 0
      · rw [if_pos hL, if_pos ⟨rfl, hL⟩, hL, Nat.zero_div]; rfl
      · rw [if_neg hL, val_bind, if_pos (h htag hL), if_neg (fun h' => hL h'.2)]; rfl
    · rw [recordTlv_array hv htag]
      simp only [true_and]
      rfl

theorem le_roundup (x : Nat) : x ≤ roundup x 4 := by rw [roundup]; omega

theorem inLen_of_checkInner {S n : Nat} (h : val (checkInner mem S (n + 1) p) = true) :
    inLen mem p = S := by
  rw [checkInner, val_bind, val_ite, len_hdr, ← inLen] at h
  by_contra hne
  rw [if_pos hne] at h; exact Bool.false_ne_true h

theorem sameSize_of_check_fixed (hv : e.varied = false) (h : val (e.check mem idx len) = true) :
    e.total ≤ e.len len ∧ e.Accepted (e.len len) := by
  have hnot := Elem.not_array hv
  have hfix : (e.attributes 0 0).tag_varied_size = WMITLV_SIZE_FIX := by
    rw [Elem.attributes, hv]; rfl
  rw [Elem.check, checkLen] at h
  rw [Elem.len]
  by_cases harr : IsArrayTag e.tag
  · have hsize : ¬ WMITLV_ARR_SIZE_INVALID = (e.attributes 0 0).tag_array_size :=
      fun h' => hnot.mpr h'.symm harr
    have htotal : e.total =
        (e.attributes 0 0).tag_array_size * (e.attributes 0 0).tag_struct_size := by
      rw [Elem.total, if_neg (fun h' => hsize h'.symm), Nat.mul_comm]; rfl
    rw [if_pos harr, if_pos hfix, if_neg hsize] at h
    rw [val_pure, decide_eq_true_eq, ← htotal] at h
    rw [if_pos harr]
    by_cases hbyte : WMITLV_TAG_ARRAY_BYTE = (e.attributes 0 0).tag_id
    · rw [if_pos hbyte] at h
      rw [h]
      refine ⟨le_roundup e.total, fun _ hstruc => ?_⟩
      have hne : WMITLV_TAG_ARRAY_BYTE ≠ WMITLV_TAG_ARRAY_STRUC := by decide
      exact absurd (hbyte.trans hstruc) hne
    · rw [if_neg hbyte] at h
      rw [h]; exact ⟨Nat.le_refl e.total, fun _ _ => rfl⟩
  · have htotal : e.total = e.struct_size := by rw [Elem.total, if_pos (hnot.mp harr)]
    rw [if_neg harr, val_pure, decide_eq_true_eq] at h
    rw [if_neg harr, htotal]
    refine ⟨Nat.le_of_eq h.symm, fun _ hstruc => ?_⟩
    rw [hstruc] at harr; exact absurd (by decide) harr

theorem sameSize_of_check_struc (hv : e.varied = true) (htag : e.tag = WMITLV_TAG_ARRAY_STRUC)
    (hlen : len ≠ 0) (h : val (e.check mem idx len) = true) :
    inLen mem (idx + WMI_TLV_HDR_SIZE) = e.struct_size := by
  have hvar := varied_attr hv
  have hshape := e.shape
  rw [if_pos hv] at hshape
  have hsize : ¬ WMITLV_ARR_SIZE_INVALID ≠ (e.attributes 0 0).tag_array_size :=
    not_not.mpr hshape.2.symm
  rw [Elem.check, checkLen, if_pos (Elem.array_of_varied hv), if_neg hvar, if_neg hsize,
    if_neg hlen] at h
  by_cases hmod : len % (e.attributes 0 0).tag_struct_size ≠ 0
  · rw [if_pos hmod] at h; exact absurd h Bool.false_ne_true
  · rw [if_neg hmod, if_pos htag] at h
    have hpos : 0 < len / e.struct_size :=
      Nat.div_pos (Nat.le_of_dvd (by omega) (Nat.dvd_of_mod_eq_zero (not_not.mp hmod)))
        e.struct_size_pos
    obtain ⟨n, hn⟩ : ∃ n, len / (e.attributes 0 0).tag_struct_size = n + 1 :=
      ⟨len / e.struct_size - 1, (Nat.sub_add_cancel hpos).symm⟩
    rw [hn] at h; exact inLen_of_checkInner h

theorem sameSize_of_check (h : val (e.check mem idx len) = true) :
    e.SameSize mem (e.start idx) (e.len len) := by
  rw [Elem.SameSize]
  by_cases hv : e.varied = false
  · rw [if_pos hv]; exact sameSize_of_check_fixed hv h
  · rw [if_neg hv]
    rw [Bool.not_eq_false] at hv
    have harr := Elem.array_of_varied hv
    rw [Elem.start, Elem.len, if_pos harr, if_pos harr]
    exact fun htag hlen => sameSize_of_check_struc hv htag hlen h

theorem check_cons {es : List Elem} (hidx : idx + WMI_TLV_HDR_SIZE ≤ N)
    (h : val (check mem N (e :: es) idx) = true) :
    tlvTag mem idx = e.tag ∧ val (e.check mem idx (tlvLen mem idx)) = true ∧
      val (check mem N es (idx + (tlvLen mem idx + WMI_TLV_HDR_SIZE))) = true := by
  rw [check, if_pos hidx, val_bind] at h
  dsimp only at h
  split at h
  · exact absurd h Bool.false_ne_true
  · split at h
    · exact absurd h Bool.false_ne_true
    · next htag =>
        rw [val_bind] at h
        split at h
        · exact absurd h Bool.false_ne_true
        · next hok =>
            split at h
            · exact absurd h Bool.false_ne_true
            · exact ⟨not_not.mp htag, (Bool.not_eq_false _).mp hok, h⟩

theorem decode_of_check (alloc : Nat → Bool) (es : List Elem) (i idx : Nat)
    (h : val (check mem N es idx) = true) :
    val (decode mem N alloc es i idx) = some (seen mem N es idx) := by
  induction es generalizing i idx with
  | nil => rfl
  | cons e es ih =>
    rw [seen]
    by_cases hidx : idx + WMI_TLV_HDR_SIZE ≤ N
    · obtain ⟨htag, hok, hrest⟩ := check_cons hidx h
      rw [decode_cons hidx htag, if_pos hidx, val_bind, val_bind,
        recordTlv_sameSize (sameSize_of_check hok), Elem.start_add_len]
      rw [val_bind, ih (i + 1) _ hrest]; rfl
    · rw [decode, if_neg hidx, if_neg hidx]; rfl

/-! ## Structures of other sizes -/

def bytes (mem : Mem) (a n : Nat) : List UInt8 := (range n).map fun i => mem (a + i)

/-- Cut or filled up with zeros to `S` bytes. -/
def fit (S : Nat) (bs : List UInt8) : List UInt8 := bs.take S ++ replicate (S - bs.length) 0

def Param.elem (mem : Mem) (r : Param) (S i : Nat) : List UInt8 :=
  match r.tlv_ptr with
  | .null => []
  | .buf offset => bytes mem (offset + i * S) S
  | .allocated bs => (bs.drop (i * S)).take S

def innerStart (mem : Mem) (p : Nat) : Nat → Nat
  | 0 => p
  | i + 1 => innerStart mem p i + inLen mem (innerStart mem p i)

/-- A TLV of a peer that may have other structures: those of an array have one size. -/
def Elem.WellFormed (mem : Mem) (e : Elem) (p L : Nat) : Prop :=
  if e.varied = false then e.Accepted L
  else if e.tag = WMITLV_TAG_ARRAY_STRUC then
    L % inLen mem p = 0 ∧
      ∀ i, i < L / inLen mem p → inLen mem (innerStart mem p i) = inLen mem p
  else L % e.struct_size = 0

def WellFormed (mem : Mem) (N : Nat) : List Elem → Nat → Prop
  | [], _ => True
  | e :: es, idx =>
    idx + WMI_TLV_HDR_SIZE ≤ N →
      tlvTag mem idx = e.tag ∧ idx + (tlvLen mem idx + WMI_TLV_HDR_SIZE) ≤ N ∧
        e.WellFormed mem (e.start idx) (e.len (tlvLen mem idx)) ∧
          WellFormed mem N es (idx + (tlvLen mem idx + WMI_TLV_HDR_SIZE))

/-- The record `r` of a TLV: every structure is the one that was sent, and where no copy is
needed it is the one in the message. -/
def Elem.Received (mem : Mem) (e : Elem) (idx len : Nat) (r : Param) : Prop :=
  (e.SameSize mem (e.start idx) (e.len len) → r = e.seen idx len) ∧
    (e.varied = false → r.num_elements = e.num len ∧
      r.elem mem e.total 0 = fit e.total (bytes mem (e.start idx) (e.len len))) ∧
    (e.varied = true → e.tag = WMITLV_TAG_ARRAY_STRUC →
      r.num_elements = len / inLen mem (e.start idx) ∧
        ∀ i, i < len / inLen mem (e.start idx) →
          r.elem mem e.struct_size i =
            fit e.struct_size (bytes mem (innerStart mem (e.start idx) i)
              (inLen mem (innerStart mem (e.start idx) i))))

def Received (mem : Mem) (N : Nat) : List Elem → Nat → List Param → Prop
  | [], _, rs => rs = []
  | e :: es, idx, rs =>
    if idx + WMI_TLV_HDR_SIZE ≤ N then
      ∃ r rs', rs = r :: rs' ∧ e.Received mem idx (tlvLen mem idx) r ∧
        Received mem N es (idx + (tlvLen mem idx + WMI_TLV_HDR_SIZE)) rs'
    else rs = replicate (es.length + 1) .zero

theorem length_bytes (mem : Mem) (a n : Nat) : (bytes mem a n).length = n := by
  rw [bytes, length_map, length_range]

theorem take_bytes (mem : Mem) (a n S : Nat) : (bytes mem a n).take S = bytes mem a (min S n) := by
  rw [bytes, ← map_take, take_range]; rfl

theorem fit_of_le {S n : Nat} (h : S ≤ n) (a : Nat) : fit S (bytes mem a n) = bytes mem a S := by
  rw [fit, take_bytes, length_bytes, Nat.min_eq_left h, Nat.sub_eq_zero_of_le h]
  exact append_nil _

theorem fit_of_ge {S n : Nat} (h : n ≤ S) (a : Nat) :
    fit S (bytes mem a n) = bytes mem a n ++ replicate (S - n) 0 := by
  rw [fit, take_bytes, length_bytes, Nat.min_eq_right h]

theorem length_fit (S : Nat) (bs : List UInt8) : (fit S bs).length = S := by
  rw [fit, length_append, length_take, length_replicate]; omega

theorem elem_padElems {S inl : Nat} {d : Int} (hd : d = (inl : Int) - S) {n i : Nat} (hi : i < n)
    (src : Nat) :
    ((val (padElems mem S inl d n src)).drop (i * S)).take S =
      fit S (bytes mem (src + i * inl) inl) := by
  induction n generalizing i src with
  | zero => exact absurd hi (Nat.not_lt_zero i)
  | succ n ih =>
    have hfit : bytes mem src (if d > 0 then S else inl) ++
        replicate (S - if d > 0 then S else inl) 0 = fit S (bytes mem src inl) := by
      by_cases hpos : d > 0
      · rw [if_pos hpos, Nat.sub_self, fit_of_le (by omega)]; exact append_nil _
      · rw [if_neg hpos, fit_of_ge (by omega)]
    have hval : val (padElems mem S inl d (n + 1) src) =
        fit S (bytes mem src inl) ++ val (padElems mem S inl d n (src + inl)) := by
      rw [← hfit]; rfl
    rw [hval]
    cases i with
    | zero =>
      rw [Nat.zero_mul, drop_zero, Nat.zero_mul, Nat.add_zero]
      exact take_left' (length_fit S _)
    | succ i =>
      rw [Nat.succ_mul, Nat.add_comm (i * S), ← drop_drop, drop_left' (length_fit S _),
        ih (by omega), Nat.succ_mul, Nat.add_comm (i * inl), Nat.add_assoc]

theorem innerStart_eq {n : Nat}
    (h : ∀ i, i < n → inLen mem (innerStart mem p i) = inLen mem p) {i : Nat} (hi : i ≤ n) :
    innerStart mem p i = p + i * inLen mem p := by
  induction i with
  | zero => rw [innerStart, Nat.zero_mul, Nat.add_zero]
  | succ i ih => rw [innerStart, h i hi, ih (by omega), Nat.succ_mul, Nat.add_assoc]

theorem received_fixed (hv : e.varied = false) (hwf : e.Accepted (e.len len)) :
    ∃ r, val (recordTlv mem true (e.attributes 0 0) (e.start idx) (e.len len)) = some r ∧
      e.Received mem idx len r := by
  have hnv : ¬ e.varied = true := by rw [hv]; decide
  by_cases htot : e.total ≤ e.len len
  · have hsame : e.SameSize mem (e.start idx) (e.len len) := by
      rw [Elem.SameSize, if_pos hv]; exact ⟨htot, hwf⟩
    have hptr : (e.seen idx len).tlv_ptr = .buf (e.start idx) := if_neg fun h => hnv h.1
    refine ⟨e.seen idx len, recordTlv_sameSize hsame, fun _ => rfl, fun _ => ⟨rfl, ?_⟩,
      fun h => absurd h hnv⟩
    rw [Param.elem, hptr, fit_of_le htot, Nat.zero_mul]; rfl
  · rw [recordTlv_fixed hv, if_neg (fun h => h.2 (hwf hv h.1)), if_neg htot, if_neg (by decide)]
    refine ⟨⟨.allocated (bytes mem (e.start idx) (e.len len) ++
      replicate (e.total - e.len len) 0), e.count (e.len len), true⟩, rfl, fun hsame => ?_,
      fun _ => ⟨Elem.count_len hv, ?_⟩, fun h => absurd h hnv⟩
    · rw [Elem.SameSize, if_pos hv] at hsame; exact absurd hsame.1 htot
    · rw [← fit_of_ge (Nat.le_of_not_le htot), Param.elem, Nat.zero_mul]
      exact take_of_length_le (Nat.le_of_eq (length_fit _ _))

theorem received_struc (hv : e.varied = true) (htag : e.tag = WMITLV_TAG_ARRAY_STRUC)
    (hwf : ∀ i, i < len / inLen mem (e.start idx) →
      inLen mem (innerStart mem (e.start idx) i) = inLen mem (e.start idx)) :
    ∃ r, val (recordTlv mem true (e.attributes 0 0) (e.start idx) (e.len len)) = some r ∧
      e.Received mem idx len r := by
  have hnv : ¬ e.varied = false := by rw [hv]; decide
  have hlen : e.len len = len := if_pos (Elem.array_of_varied hv)
  have hsame_iff : e.SameSize mem (e.start idx) (e.len len) ↔
      (len ≠ 0 → inLen mem (e.start idx) = e.struct_size) := by
    rw [Elem.SameSize, if_neg hnv, hlen]; exact ⟨fun h => h htag, fun h _ => h⟩
  by_cases hsame : len ≠ 0 → inLen mem (e.start idx) = e.struct_size
  · refine ⟨e.seen idx len, recordTlv_sameSize (hsame_iff.mpr hsame), fun _ => rfl,
      fun h => absurd h hnv, fun _ _ => ?_⟩
    by_cases hL : len = 0
    · subst hL
      rw [Nat.zero_div]
      refine ⟨?_, nofun⟩
      rw [Elem.seen, Elem.num, if_pos hv, Nat.zero_div]
    · have hin := hsame hL
      have hptr : (e.seen idx len).tlv_ptr = .buf (e.start idx) := if_neg fun h => hL h.2
      refine ⟨?_, fun i hi => ?_⟩
      · rw [Elem.seen, Elem.num, if_pos hv, hin]
      · rw [Param.elem, hptr, hwf i hi, innerStart_eq hwf (Nat.le_of_lt hi), hin,
          fit_of_le (Nat.le_refl _)]
  · have hL : len ≠ 0 := fun h => hsame fun h' => absurd h h'
    have hin : inLen mem (e.start idx) ≠ e.struct_size := fun h => hsame fun _ => h
    rw [recordTlv_struc hv htag, hlen, if_neg hL, val_bind, if_neg hin, val_bind, if_neg (by decide),
      val_bind, val_pure]
    refine ⟨_, rfl, fun h => absurd (hsame_iff.mp (hlen.symm ▸ h)) hsame, fun h => absurd h hnv,
      fun _ _ => ⟨rfl, fun i hi => ?_⟩⟩
    rw [hwf i hi, innerStart_eq hwf (Nat.le_of_lt hi)]; exact elem_padElems rfl hi _

theorem received_of_wellFormed (hwf : e.WellFormed mem (e.start idx) (e.len len)) :
    ∃ r, val (recordTlv mem true (e.attributes 0 0) (e.start idx) (e.len len)) = some r ∧
      e.Received mem idx len r := by
  rw [Elem.WellFormed] at hwf
  by_cases hv : e.varied = false
  · rw [if_pos hv] at hwf; exact received_fixed hv hwf
  · rw [if_neg hv] at hwf
    by_cases htag : e.tag = WMITLV_TAG_ARRAY_STRUC
    · rw [Bool.not_eq_false] at hv
      have hlen : e.len len = len := if_pos (Elem.array_of_varied hv)
      rw [if_pos htag, hlen] at hwf; exact received_struc hv htag hwf.2
    · have hsame : e.SameSize mem (e.start idx) (e.len len) := by
        rw [Elem.SameSize, if_neg hv]; exact fun h => absurd h htag
      exact ⟨e.seen idx len, recordTlv_sameSize hsame, fun _ => rfl, fun h => absurd h hv,
        fun _ h => absurd h htag⟩

/-- **The decoder takes a well-formed message apart as it was sent.** -/
theorem decode_of_wellFormed (es : List Elem) (i idx : Nat) (h : WellFormed mem N es idx) :
    ∃ rs, val (decode mem N (fun _ => true) es i idx) = some rs ∧ Received mem N es idx rs := by
  induction es generalizing i idx with
  | nil => exact ⟨[], rfl, rfl⟩
  | cons e es ih =>
    by_cases hidx : idx + WMI_TLV_HDR_SIZE ≤ N
    · obtain ⟨htag, -, hwf, hrest⟩ := h hidx
      obtain ⟨r, hr, hrec⟩ := received_of_wellFormed hwf
      obtain ⟨rs, hrs, hall⟩ := ih (i + 1) _ hrest
      refine ⟨r :: rs, ?_, ?_⟩
      · rw [decode_cons hidx htag, val_bind, val_bind, hr, Elem.start_add_len]
        rw [val_bind, hrs]; rfl
      · rw [Received, if_pos hidx]; exact ⟨r, rs, rfl, hrec, hall⟩
    · rw [decode, if_neg hidx]
      refine ⟨_, rfl, ?_⟩
      rw [Received, if_neg hidx]

/-! ## The decoder against the check -/

/-- **Both agree.** What the check accepts is recorded as the check has seen it, without a
copy and whatever the allocations for copies do. From a well-formed message of a peer with
other structures every structure is recorded as it was sent, cut or filled up with zeros to the
size of the table, if there is memory for the copies. -/
theorem check_and_pad_agrees (t : Tables) (is_cmd_id : Bool) (id : Nat) (mem : Mem)
    (param_buf_len : Nat) :
    (val (wmitlv_check_tlv_params t is_cmd_id id mem param_buf_len) = true →
      ∃ elems, t.elems is_cmd_id id = some elems ∧ ∀ alloc,
        val (wmitlv_check_and_pad_tlvs t is_cmd_id id mem param_buf_len true alloc) =
          some (seen mem param_buf_len elems 0)) ∧
    ∀ elems, t.elems is_cmd_id id = some elems → WellFormed mem param_buf_len elems 0 →
      ∃ params, val (wmitlv_check_and_pad_tlvs t is_cmd_id id mem param_buf_len true
          fun _ => true) = some params ∧ Received mem param_buf_len elems 0 params := by
  refine ⟨fun hok => ?_, fun elems helems hwf => ?_⟩
  · cases helems : t.elems is_cmd_id id with
    | none =>
      rw [wmitlv_check_tlv_params, get_attributes_none helems] at hok
      exact absurd hok Bool.false_ne_true
    | some elems =>
      rw [check_tlv_params_eq helems] at hok
      refine ⟨elems, rfl, fun alloc => ?_⟩
      rw [check_and_pad_eq helems]; exact decode_of_check alloc elems 0 0 hok
  · rw [check_and_pad_eq helems]; exact decode_of_wellFormed elems 0 0 hwf

def avoidEventOld : Mem := fun i =>
  [4, 0, 71, 0, 2, 0, 0, 0, 16, 0, 18, 0, 4, 0, 72, 0, 0x6c, 9, 0, 0, 4, 0, 72, 0, 0x85, 9, 0,
    0].getD i 0

theorem check_and_pad_agrees_one_range :
    val (wmitlv_check_tlv_params avoidTables false WMI_WLAN_FREQ_AVOID_EVENTID
        (avoidEvent 12) 24) = true ∧
      (∃ elems, avoidTables.elems false WMI_WLAN_FREQ_AVOID_EVENTID = some elems ∧ ∀ alloc,
        val (wmitlv_check_and_pad_tlvs avoidTables false WMI_WLAN_FREQ_AVOID_EVENTID
            (avoidEvent 12) 24 true alloc) = some (seen (avoidEvent 12) 24 elems 0)) ∧
      WellFormed avoidEventOld 28 [avoidFixedParam, avoidFreqRange] 0 ∧
      ∃ params, val (wmitlv_check_and_pad_tlvs avoidTables false WMI_WLAN_FREQ_AVOID_EVENTID
          avoidEventOld 28 true fun _ => true) = some params ∧
        Received avoidEventOld 28 [avoidFixedParam, avoidFreqRange] 0 params := by
  have hok : val (wmitlv_check_tlv_params avoidTables false WMI_WLAN_FREQ_AVOID_EVENTID
      (avoidEvent 12) 24) = true := by decide
  have hrange : avoidFreqRange.WellFormed avoidEventOld 12 16 := by exact ⟨by decide, by decide⟩
  have hwf : WellFormed avoidEventOld 28 [avoidFixedParam, avoidFreqRange] 0 :=
    fun _ => ⟨by decide, by decide, fun _ h => absurd h (by decide),
      fun _ => ⟨by decide, by decide, hrange, trivial⟩⟩
  exact ⟨hok, (check_and_pad_agrees _ _ _ _ _).1 hok, hwf,
    (check_and_pad_agrees _ _ _ _ _).2 _ rfl hwf⟩

/-- An array without elements: the check finds it at offset 12, and there is no pointer to
it. -/
theorem check_and_pad_empty_array :
    val (wmitlv_check_tlv_params avoidTables false WMI_WLAN_FREQ_AVOID_EVENTID
        (avoidEvent 0) 12) = true ∧
      tlvTag (avoidEvent 0) 8 = avoidFreqRange.tag ∧
      val (wmitlv_check_and_pad_tlvs avoidTables false WMI_WLAN_FREQ_AVOID_EVENTID
          (avoidEvent 0) 12 true fun _ => true) =
        some [⟨.buf 0, 1, false⟩, ⟨.null, 0, false⟩] := by decide

end Qcacld.WmiTlv
