/-
HTC trailers: `htc_process_trailer` and `hif_dev_process_trailer`.

The memory is a function from addresses to bytes, with the frame at address 0, and what a parser
reads goes to a log: a byte of a record's header, or a byte of the record behind it by its distance
from the record's first.
-/
import Qcacld.HtcTx
import Qcacld.Lib.Logged
import Qcacld.Lib.Word
import Qcacld.SdioRecv

set_option autoImplicit false

namespace Qcacld.HtcTrailer

open Lib SdioRecv Function

/-! ## Memory -/

abbrev Mem := Nat → UInt8

/-- What is read: a byte of the frame header, of a record header, or of a record. -/
inductive Access where
  | frame (off : Nat)
  | hdr (pRecord off : Nat)
  | record (pRecordBuf off : Nat)

abbrev Reads := Logged Access

structure Field where
  lsb : UInt32
  mask : UInt32
  offset : Nat

def HTC_FRAME_HDR_ENDPOINTID : Field := ⟨0, 0x000000ff, 0x00000000⟩
def HTC_FRAME_HDR_FLAGS : Field := ⟨8, 0x0000ff00, 0x00000000⟩
def HTC_FRAME_HDR_PAYLOADLEN : Field := ⟨16, 0xffff0000, 0x00000000⟩
def HTC_FRAME_HDR_CONTROLBYTES0 : Field := ⟨0, 0x000000ff, 0x00000004⟩
def HTC_RECORD_HDR_RECORDID : Field := ⟨0, 0x000000ff, 0x00000000⟩
def HTC_RECORD_HDR_LENGTH : Field := ⟨8, 0x0000ff00, 0x00000000⟩
def HTC_CREDIT_REPORT_ENDPOINTID : Field := ⟨0, 0x000000ff, 0x00000000⟩
def HTC_CREDIT_REPORT_CREDITS : Field := ⟨8, 0x0000ff00, 0x00000000⟩

/-- `sizeof(HTC_RECORD_HDR)`. -/
def RECORD_HDR_SIZE : Nat := 4
/-- `sizeof(HTC_CREDIT_REPORT)`. -/
def CREDIT_REPORT_SIZE : Nat := 4
/-- `sizeof(HTC_LOOKAHEAD_REPORT)`. -/
def LOOKAHEAD_REPORT_SIZE : Nat := 12
/-- `sizeof(HTC_BUNDLED_LOOKAHEAD_REPORT)`. -/
def BUNDLED_LOOKAHEAD_REPORT_SIZE : Nat := 4

def HTC_RECORD_CREDITS : UInt8 := 1
def HTC_RECORD_LOOKAHEAD : UInt8 := 2
def HTC_RECORD_LOOKAHEAD_BUNDLE : UInt8 := 3

def HTC_FLAGS_RECV_TRAILER : UInt8 := (1 : UInt8) <<< 1

/-- Reads the word that holds the field. -/
def HTC_GET_FIELD (mem : Mem) (loc : Nat → Access) (addr : Nat) (f : Field) : Reads UInt32 :=
  let wo := 4 * (f.offset >>> 2)
  emit ((List.range 4).map fun i => loc (wo + i)) ((le32 mem (addr + wo) &&& f.mask) >>> f.lsb)

def recordBytes (mem : Mem) (pRecordBuf off n : Nat) : Reads (List UInt8) :=
  emit ((List.range n).map fun i => .record pRecordBuf (off + i))
    ((List.range n).map fun i => mem (pRecordBuf + off + i))

/-! ## HTC -/

abbrev Target := Nat → HtcTx.St

/-- The loop over the entries of a credit report, `n` of them from entry `i` on. -/
def htc_process_credit_rpt (cfg : Nat → HtcTx.Cfg) (mem : Mem) (pRecordBuf : Nat) :
    (n i : Nat) → Target → Reads Target
  | 0, _, target => pure target
  | n + 1, i, target => do
      let loc := fun off => Access.record pRecordBuf (CREDIT_REPORT_SIZE * i + off)
      let pRpt := pRecordBuf + CREDIT_REPORT_SIZE * i
      let rpt_ep_id ← HTC_GET_FIELD mem loc pRpt HTC_CREDIT_REPORT_ENDPOINTID
      if ENDPOINT_MAX ≤ rpt_ep_id then pure target
      else
        let rpt_credits ← HTC_GET_FIELD mem loc pRpt HTC_CREDIT_REPORT_CREDITS
        let ep := rpt_ep_id.toNat
        htc_process_credit_rpt cfg mem pRecordBuf n (i + 1)
          (update target ep
            (HtcTx.htc_process_credit_rpt (cfg ep) rpt_credits.toNat (target ep)))

def htcRecord (cfg : Nat → HtcTx.Cfg) (mem : Mem) (htc_rec_id : UInt8) (htc_rec_len : Nat)
    (pRecordBuf : Nat) (target : Target) : Reads Target :=
  if htc_rec_id = HTC_RECORD_CREDITS then
    htc_process_credit_rpt cfg mem pRecordBuf (htc_rec_len / CREDIT_REPORT_SIZE) 0 target
  else pure target

/-- The loop of `htc_process_trailer`; `none` when it has not ended after `fuel` rounds. -/
def htcLoop (cfg : Nat → HtcTx.Cfg) (mem : Mem) :
    (fuel pBuffer Length : Nat) → Target → Reads (Option (A_STATUS × Target))
  | 0, _, _, _ => pure none
  | fuel + 1, pBuffer, Length, target =>
    if Length = 0 then pure (some (.ok, target))
    else if Length < RECORD_HDR_SIZE then pure (some (.eproto, target))
    else do
      let htc_rec_len ← HTC_GET_FIELD mem (.hdr pBuffer) pBuffer HTC_RECORD_HDR_LENGTH
      let htc_rec_id ← HTC_GET_FIELD mem (.hdr pBuffer) pBuffer HTC_RECORD_HDR_RECORDID
      let Length := Length - RECORD_HDR_SIZE
      let pRecordBuf := pBuffer + RECORD_HDR_SIZE
      if Length < htc_rec_len.toNat then pure (some (.eproto, target))
      else
        let target ← htcRecord cfg mem htc_rec_id.toUInt8 htc_rec_len.toNat pRecordBuf target
        htcLoop cfg mem fuel (pRecordBuf + htc_rec_len.toNat) (Length - htc_rec_len.toNat) target

/-- Every round takes at least a header off, so that `Length + 1` rounds are enough. -/
def htc_process_trailer (cfg : Nat → HtcTx.Cfg) (mem : Mem) (pBuffer Length : Nat)
    (target : Target) : Reads (Option (A_STATUS × Target)) :=
  htcLoop cfg mem (Length + 1) pBuffer Length target

inductive RxResult where
  /-- CDF_STATUS_E_FAILURE, of a trailer. -/
  | failure
  /-- CDF_STATUS_E_INVAL. -/
  | inval
  /-- Nothing behind the trailer. -/
  | dropped
  /-- A message on ENDPOINT_0. -/
  | control
  | deliver (htc_ep_id ActualLength : Nat)

/-- `pNextLookAheads` with the four bytes of each, and `*pNumLookAheads`. -/
structure LookAheads where
  pNextLookAheads : Nat → List UInt8
  NumLookAheads : Nat

/-- The loop over the look-aheads of a bundle, up to the first `n`. -/
def copyLookAheads (mem : Mem) (pRecordBuf : Nat) :
    (n : Nat) → (Nat → List UInt8) → Reads (Nat → List UInt8)
  | 0, pNextLookAheads => pure pNextLookAheads
  | n + 1, pNextLookAheads => do
      let pNextLookAheads ← copyLookAheads mem pRecordBuf n pNextLookAheads
      let bytes ← recordBytes mem pRecordBuf (BUNDLED_LOOKAHEAD_REPORT_SIZE * n) 4
      pure (update pNextLookAheads n bytes)

/-- The switch over the record ids. The length of a HTC_LOOKAHEAD_REPORT is only asserted. -/
def hifRecord (mem : Mem) (RecordID : UInt8) (Length pRecordBuf : Nat) (la : Option LookAheads) :
    Reads (A_STATUS × Option LookAheads) :=
  if RecordID = HTC_RECORD_LOOKAHEAD then do
    let PreValid ← emit [.record pRecordBuf 0] (mem pRecordBuf)
    let PostValid ← emit [.record pRecordBuf 8] (mem (pRecordBuf + 8))
    match la with
    | none => pure (.ok, none)
    | some la =>
      if PreValid = ~~~PostValid then do
        let bytes ← recordBytes mem pRecordBuf 4 4
        pure (.ok, some ⟨update la.pNextLookAheads 0 bytes, 1⟩)
      else pure (.ok, some la)
  else if RecordID = HTC_RECORD_LOOKAHEAD_BUNDLE then
    match la with
    | none => pure (.ok, none)
    | some la =>
      if Length < BUNDLED_LOOKAHEAD_REPORT_SIZE then pure (.ok, some la)
      else if HTC_MAX_MSG_PER_BUNDLE < Length / BUNDLED_LOOKAHEAD_REPORT_SIZE then
        pure (.eproto, some la)
      else do
        let i := Length / BUNDLED_LOOKAHEAD_REPORT_SIZE
        let pNextLookAheads ← copyLookAheads mem pRecordBuf i la.pNextLookAheads
        pure (.ok, some ⟨pNextLookAheads, i⟩)
  else pure (.ok, la)

/-- The loop of `hif_dev_process_trailer`; `none` when it has not ended after `fuel` rounds. -/
def hifLoop (mem : Mem) :
    (fuel pBuffer Length : Nat) → Option LookAheads → Reads (Option (A_STATUS × Option LookAheads))
  | 0, _, _, _ => pure none
  | fuel + 1, pBuffer, Length, la =>
    if Length = 0 then pure (some (.ok, la))
    else if Length < RECORD_HDR_SIZE then pure (some (.eproto, la))
    else do
      let len ← emit [.hdr pBuffer 1] (mem (pBuffer + 1))
      let Length := Length - RECORD_HDR_SIZE
      let pRecordBuf := pBuffer + RECORD_HDR_SIZE
      if Length < len.toNat then pure (some (.eproto, la))
      else
        let RecordID ← emit [.hdr pBuffer 0] (mem pBuffer)
        let (status, la) ← hifRecord mem RecordID len.toNat pRecordBuf la
        if status = .ok then
          hifLoop mem fuel (pRecordBuf + len.toNat) (Length - len.toNat) la
        else pure (some (status, la))

def hif_dev_process_trailer (mem : Mem) (pBuffer Length : Nat) (la : Option LookAheads) :
    Reads (Option (A_STATUS × Option LookAheads)) :=
  hifLoop mem (Length + 1) pBuffer Length la

open List

/-! Both parsers go over the records of the trailer. -/

/-! ## Records -/

structure Record where
  id : UInt8
  /-- Where it starts, behind its header. -/
  start : Nat
  len : Nat

def records (mem : Mem) (pos len : Nat) : List Record × Bool :=
  if len = 0 then ([], true)
  else if len < RECORD_HDR_SIZE then ([], false)
  else if len - RECORD_HDR_SIZE < (mem (pos + 1)).toNat then ([], false)
  else
    let rest := records mem (pos + RECORD_HDR_SIZE + (mem (pos + 1)).toNat)
      (len - RECORD_HDR_SIZE - (mem (pos + 1)).toNat)
    (⟨mem pos, pos + RECORD_HDR_SIZE, (mem (pos + 1)).toNat⟩ :: rest.1, rest.2)
termination_by len
decreasing_by
  simp only [RECORD_HDR_SIZE]
  omega

def InRecords (recs : List Record) (pos len : Nat) : Access → Prop
  | .frame _ => False
  | .hdr pRecord off =>
    pos ≤ pRecord ∧ pRecord + RECORD_HDR_SIZE ≤ pos + len ∧ off < RECORD_HDR_SIZE
  | .record pRecordBuf off => ∃ r ∈ recs, r.start = pRecordBuf ∧ off < r.len

def reports (mem : Mem) (r : Record) : List (Nat × Nat) :=
  (range (r.len / CREDIT_REPORT_SIZE)).map fun i =>
    ((mem (r.start + CREDIT_REPORT_SIZE * i)).toNat,
      (mem (r.start + CREDIT_REPORT_SIZE * i + 1)).toNat)

def validReports (mem : Mem) (r : Record) : List (Nat × Nat) :=
  (reports mem r).takeWhile fun rpt => rpt.1 < ENDPOINT_MAX.toNat

def sumFor (ep : Nat) (rpts : List (Nat × Nat)) : Nat :=
  ((rpts.filter fun rpt => rpt.1 = ep).map Prod.snd).sum

def credited (mem : Mem) (recs : List Record) (ep : Nat) : Nat :=
  sumFor ep ((recs.filter fun r => r.id = HTC_RECORD_CREDITS).flatMap (validReports mem))

def BundlesFit (recs : List Record) : Prop :=
  ∀ r ∈ recs, r.id = HTC_RECORD_LOOKAHEAD_BUNDLE →
    r.len / BUNDLED_LOOKAHEAD_REPORT_SIZE ≤ HTC_MAX_MSG_PER_BUNDLE

/-! ## Fields -/

section Fields

variable {mem : Mem} {loc : Nat → Access} {a : Nat}

theorem field_byte0 : (val (HTC_GET_FIELD mem loc a ⟨0, 0x000000ff, 0⟩)).toNat = (mem a).toNat := by
  have h := toNat_field (le32 mem a) 0x000000ff 0 0 8 (by decide) rfl rfl
  have hw := toNat_le32 mem a
  have h0 := (mem a).toNat_lt
  show ((le32 mem a &&& 0x000000ff) >>> 0).toNat = _
  omega

theorem field_byte1 :
    (val (HTC_GET_FIELD mem loc a ⟨8, 0x0000ff00, 0⟩)).toNat = (mem (a + 1)).toNat := by
  have h := toNat_field (le32 mem a) 0x0000ff00 8 8 8 (by decide) rfl rfl
  have hw := toNat_le32 mem a
  have h0 := (mem a).toNat_lt
  have h1 := (mem (a + 1)).toNat_lt
  show ((le32 mem a &&& 0x0000ff00) >>> 8).toNat = _
  omega

theorem record_id_eq : (val (HTC_GET_FIELD mem loc a HTC_RECORD_HDR_RECORDID)).toUInt8 = mem a := by
  apply UInt8.toNat_inj.mp
  rw [UInt32.toNat_toUInt8, HTC_RECORD_HDR_RECORDID, field_byte0]
  exact Nat.mod_eq_of_lt (mem a).toNat_lt

theorem within_get_field {P : Access → Prop} {f : Field} (hf : f.offset = 0)
    (h : ∀ off < 4, P (loc off)) : Within P (HTC_GET_FIELD mem loc a f) := by
  intro b hb
  obtain ⟨i, hi, rfl⟩ := mem_map.mp hb
  apply h
  have := mem_range.mp hi
  omega

end Fields

/-! ## HTC -/

section Htc

variable {cfg : Nat → HtcTx.Cfg} {mem : Mem}

def applyReports (cfg : Nat → HtcTx.Cfg) (rpts : List (Nat × Nat)) (target : Target) : Target :=
  rpts.foldl (fun t rpt =>
    update t rpt.1 (HtcTx.htc_process_credit_rpt (cfg rpt.1) rpt.2 (t rpt.1))) target

theorem applyReports_cons (rpt : Nat × Nat) (rpts : List (Nat × Nat)) (target : Target) :
    applyReports cfg (rpt :: rpts) target = applyReports cfg rpts (update target rpt.1
        (HtcTx.htc_process_credit_rpt (cfg rpt.1) rpt.2 (target rpt.1))) := rfl

theorem applyReports_append (l l' : List (Nat × Nat)) (target : Target) :
    applyReports cfg (l ++ l') target = applyReports cfg l' (applyReports cfg l target) :=
  foldl_append

theorem credit_rpt_TxCredits (c : HtcTx.Cfg) (credits : Nat) (s : HtcTx.St) :
    (HtcTx.htc_process_credit_rpt c credits s).ep.TxCredits = s.ep.TxCredits + credits := by
  unfold HtcTx.htc_process_credit_rpt
  dsimp only
  split
  · split <;> rfl
  · rfl

theorem applyReports_TxCredits (rpts : List (Nat × Nat)) (target : Target) (ep : Nat) :
    (applyReports cfg rpts target ep).ep.TxCredits =
      (target ep).ep.TxCredits + sumFor ep rpts := by
  induction rpts generalizing target with
  | nil => simp [applyReports, sumFor]
  | cons rpt rpts ih =>
    rw [applyReports_cons, ih]
    by_cases he : rpt.1 = ep
    · rw [he, update_self, credit_rpt_TxCredits, sumFor, sumFor, filter_cons_of_pos
        (by simpa using he), map_cons, sum_cons]
      omega
    · rw [update_of_ne (Ne.symm he), sumFor, sumFor, filter_cons_of_neg (by simpa using he)]

def reportsFrom (mem : Mem) (start i n : Nat) : List (Nat × Nat) :=
  (range' i n).map fun j =>
    ((mem (start + CREDIT_REPORT_SIZE * j)).toNat,
      (mem (start + CREDIT_REPORT_SIZE * j + 1)).toNat)

theorem process_credit_rpt_spec (cfg : Nat → HtcTx.Cfg) (mem : Mem) (start n i : Nat)
    (target : Target) :
    val (htc_process_credit_rpt cfg mem start n i target) =
        applyReports cfg ((reportsFrom mem start i n).takeWhile fun rpt =>
          rpt.1 < ENDPOINT_MAX.toNat) target ∧
      Within (fun b => ∃ off, b = .record start off ∧ off < CREDIT_REPORT_SIZE * (i + n))
        (htc_process_credit_rpt cfg mem start n i target) := by
  induction n generalizing i target with
  | zero => exact ⟨rfl, within_pure target⟩
  | succ n ih =>
    have hread : ∀ off < 4, ∃ off', Access.record start (CREDIT_REPORT_SIZE * i + off) =
        .record start off' ∧ off' < CREDIT_REPORT_SIZE * (i + (n + 1)) := by
      intro off hoff
      refine ⟨_, rfl, ?_⟩
      simp only [CREDIT_REPORT_SIZE]
      omega
    have hlist : reportsFrom mem start i (n + 1) =
        ((mem (start + CREDIT_REPORT_SIZE * i)).toNat,
          (mem (start + CREDIT_REPORT_SIZE * i + 1)).toNat) ::
            reportsFrom mem start (i + 1) n := by rw [reportsFrom, range'_succ, map_cons]; rfl
    have hep : (val (HTC_GET_FIELD mem
        (fun off => .record start (CREDIT_REPORT_SIZE * i + off))
        (start + CREDIT_REPORT_SIZE * i) HTC_CREDIT_REPORT_ENDPOINTID)).toNat =
          (mem (start + CREDIT_REPORT_SIZE * i)).toNat := field_byte0
    have hcr : (val (HTC_GET_FIELD mem
        (fun off => .record start (CREDIT_REPORT_SIZE * i + off))
        (start + CREDIT_REPORT_SIZE * i) HTC_CREDIT_REPORT_CREDITS)).toNat =
          (mem (start + CREDIT_REPORT_SIZE * i + 1)).toNat := field_byte1
    unfold htc_process_credit_rpt
    by_cases hmax : ENDPOINT_MAX ≤ val (HTC_GET_FIELD mem
        (fun off => .record start (CREDIT_REPORT_SIZE * i + off))
        (start + CREDIT_REPORT_SIZE * i) HTC_CREDIT_REPORT_ENDPOINTID)
    · have hge : ¬ (mem (start + CREDIT_REPORT_SIZE * i)).toNat < ENDPOINT_MAX.toNat := by
        rw [← hep]; exact Nat.not_lt.mpr hmax
      refine ⟨?_, (within_get_field rfl hread).bind ?_⟩
      · rw [val_bind, if_pos hmax, val_pure, hlist, takeWhile_cons_of_neg (by simpa using hge)]
        rfl
      · rw [if_pos hmax]; exact within_pure _
    · have hlt : (mem (start + CREDIT_REPORT_SIZE * i)).toNat < ENDPOINT_MAX.toNat := by
        rw [← hep]; exact Nat.lt_of_not_le hmax
      refine ⟨?_, (within_get_field rfl hread).bind ?_⟩
      · rw [val_bind, if_neg hmax, val_bind, (ih (i + 1) _).1, hlist,
          takeWhile_cons_of_pos (by simpa using hlt), applyReports_cons, hep, hcr]
      · rw [if_neg hmax]
        refine (within_get_field rfl hread).bind ((ih (i + 1) _).2.mono ?_)
        rintro b ⟨off, rfl, hoff⟩; exact ⟨off, rfl, by rwa [Nat.add_right_comm] at hoff⟩

theorem htcRecord_spec (cfg : Nat → HtcTx.Cfg) (mem : Mem) (r : Record) (target : Target) :
    val (htcRecord cfg mem r.id r.len r.start target) =
        applyReports cfg (if r.id = HTC_RECORD_CREDITS then validReports mem r else []) target ∧
      Within (fun b => ∃ off, b = .record r.start off ∧ off < r.len)
        (htcRecord cfg mem r.id r.len r.start target) := by
  unfold htcRecord
  by_cases hid : r.id = HTC_RECORD_CREDITS
  · rw [if_pos hid, if_pos hid]
    obtain ⟨hval, hlog⟩ := process_credit_rpt_spec cfg mem r.start
      (r.len / CREDIT_REPORT_SIZE) 0 target
    refine ⟨?_, hlog.mono ?_⟩
    · rw [hval, validReports, reports, range_eq_range']; rfl
    · rintro b ⟨off, rfl, hoff⟩
      refine ⟨off, rfl, ?_⟩
      have := Nat.div_mul_le_self r.len CREDIT_REPORT_SIZE
      rw [Nat.zero_add, Nat.mul_comm] at hoff; omega
  · rw [if_neg hid, if_neg hid]; exact ⟨rfl, within_pure _⟩

theorem applyReports_records (recs : List Record) (target : Target) :
    recs.foldl (fun t r => val (htcRecord cfg mem r.id r.len r.start t)) target =
      applyReports cfg
        ((recs.filter fun r => r.id = HTC_RECORD_CREDITS).flatMap (validReports mem)) target := by
  induction recs generalizing target with
  | nil => rfl
  | cons r recs ih =>
    rw [foldl_cons, ih, (htcRecord_spec cfg mem r target).1]
    by_cases hid : r.id = HTC_RECORD_CREDITS
    · rw [if_pos hid, filter_cons_of_pos (by simpa using hid), flatMap_cons, applyReports_append]
    · rw [if_neg hid, filter_cons_of_neg (by simpa using hid)]; rfl

theorem InRecords.rest {r : Record} {recs : List Record} {pos len pos' len' : Nat} {b : Access}
    (hpos : pos ≤ pos') (hlen : pos' + len' ≤ pos + len) (h : InRecords recs pos' len' b) :
    InRecords (r :: recs) pos len b := by
  cases b with
  | frame off => exact h
  | hdr p off => exact ⟨hpos.trans h.1, h.2.1.trans hlen, h.2.2⟩
  | record p off => obtain ⟨r', hr', hs⟩ := h; exact ⟨r', mem_cons_of_mem r hr', hs⟩

/-- **`htc_process_trailer`** goes over the records of the trailer, one a round. -/
theorem htcLoop_spec (cfg : Nat → HtcTx.Cfg) (mem : Mem) (pos len fuel : Nat) (target : Target)
    (hfuel : len < fuel) :
    val (htcLoop cfg mem fuel pos len target) =
        some (if (records mem pos len).2 then .ok else .eproto,
          (records mem pos len).1.foldl
            (fun t r => val (htcRecord cfg mem r.id r.len r.start t)) target) ∧
      Within (InRecords (records mem pos len).1 pos len) (htcLoop cfg mem fuel pos len target) := by
  obtain ⟨fuel, rfl⟩ := Nat.exists_eq_succ_of_ne_zero (Nat.ne_zero_of_lt hfuel)
  fun_induction records mem pos len generalizing fuel target with
  | case1 pos => exact ⟨rfl, within_pure _⟩
  | case2 pos len h0 hshort =>
    unfold htcLoop
    rw [if_neg h0, if_pos hshort]; exact ⟨rfl, within_pure _⟩
  | case3 pos len h0 hhdr hlong =>
    have hread : ∀ off < 4, InRecords [] pos len (.hdr pos off) := fun off hoff =>
      ⟨Nat.le_refl _, Nat.add_le_add_left (Nat.not_lt.mp hhdr) pos, hoff⟩
    have hlen : (val (HTC_GET_FIELD mem (.hdr pos) pos HTC_RECORD_HDR_LENGTH)).toNat =
        (mem (pos + 1)).toNat := field_byte1
    unfold htcLoop
    rw [if_neg h0, if_neg hhdr]
    refine ⟨?_, (within_get_field rfl hread).bind ((within_get_field rfl hread).bind ?_)⟩
    · rw [val_bind, val_bind, hlen, if_pos hlong]; rfl
    · rw [hlen, if_pos hlong]; exact within_pure _
  | case4 pos len h0 hhdr hfits rest ih =>
    have hread : ∀ off < 4, InRecords (⟨mem pos, pos + RECORD_HDR_SIZE, (mem (pos + 1)).toNat⟩ ::
        rest.1) pos len (.hdr pos off) := fun off hoff =>
      ⟨Nat.le_refl _, Nat.add_le_add_left (Nat.not_lt.mp hhdr) pos, hoff⟩
    have hlen : (val (HTC_GET_FIELD mem (.hdr pos) pos HTC_RECORD_HDR_LENGTH)).toNat =
        (mem (pos + 1)).toNat := field_byte1
    obtain ⟨hval, hlog⟩ := htcRecord_spec cfg mem
      ⟨mem pos, pos + RECORD_HDR_SIZE, (mem (pos + 1)).toNat⟩ target
    have hsize : RECORD_HDR_SIZE = 4 := rfl
    obtain ⟨fuel, rfl⟩ := Nat.exists_eq_succ_of_ne_zero (n := fuel) (by omega)
    obtain ⟨hval', hlog'⟩ := ih
      (val (htcRecord cfg mem (mem pos) (mem (pos + 1)).toNat (pos + RECORD_HDR_SIZE) target))
      fuel (by omega)
    unfold htcLoop
    rw [if_neg h0, if_neg hhdr]
    refine ⟨?_, (within_get_field rfl hread).bind ((within_get_field rfl hread).bind ?_)⟩
    · rw [val_bind, val_bind, hlen, if_neg hfits, val_bind, record_id_eq, hval']; rfl
    · rw [hlen, if_neg hfits, record_id_eq]
      refine (hlog.mono ?_).bind (hlog'.mono fun b hb => hb.rest (by omega) (by omega))
      rintro b ⟨off, rfl, hoff⟩; exact ⟨_, mem_cons_self, rfl, hoff⟩

end Htc

/-! ## HIF -/

section Hif

variable {mem : Mem}

theorem within_recordBytes {P : Access → Prop} {start off n : Nat}
    (h : ∀ i < n, P (.record start (off + i))) : Within P (recordBytes mem start off n) := by
  intro b hb
  obtain ⟨i, hi, rfl⟩ := mem_map.mp hb
  exact h i (mem_range.mp hi)

theorem within_copyLookAheads {P : Access → Prop} {start : Nat} (n : Nat)
    (pNextLookAheads : Nat → List UInt8)
    (h : ∀ off < BUNDLED_LOOKAHEAD_REPORT_SIZE * n, P (.record start off)) :
    Within P (copyLookAheads mem start n pNextLookAheads) := by
  induction n generalizing pNextLookAheads with
  | zero => exact within_pure _
  | succ n ih =>
    have hsize : BUNDLED_LOOKAHEAD_REPORT_SIZE = 4 := rfl
    rw [hsize] at ih h
    unfold copyLookAheads
    rw [hsize]
    exact (ih _ fun off hoff => h off (by omega)).bind
      ((within_recordBytes fun i hi => h _ (by omega)).bind (within_pure _))

/-- The record has more look-aheads than a bundle. -/
def tooMany (r : Record) : Bool :=
  r.id = HTC_RECORD_LOOKAHEAD_BUNDLE &&
    decide (HTC_MAX_MSG_PER_BUNDLE < r.len / BUNDLED_LOOKAHEAD_REPORT_SIZE)

def AtMostBundle (la : Option LookAheads) : Prop :=
  ∀ l, la = some l → l.NumLookAheads ≤ HTC_MAX_MSG_PER_BUNDLE

def HifReads (r : Record) (b : Access) : Prop :=
  ∃ off, b = .record r.start off ∧
    (off < r.len ∨ r.id = HTC_RECORD_LOOKAHEAD ∧ r.len < LOOKAHEAD_REPORT_SIZE)

theorem hifRecord_spec (mem : Mem) (r : Record) (la : Option LookAheads) (hla : AtMostBundle la) :
    ∃ la', val (hifRecord mem r.id r.len r.start la) =
        (if la.isSome && tooMany r then .eproto else .ok, la') ∧
      la'.isSome = la.isSome ∧ AtMostBundle la' ∧
      Within (HifReads r) (hifRecord mem r.id r.len r.start la) := by
  unfold hifRecord
  by_cases hone : r.id = HTC_RECORD_LOOKAHEAD
  · have hmany : tooMany r = false := by rw [tooMany, hone]; rfl
    have hread : ∀ off < LOOKAHEAD_REPORT_SIZE, HifReads r (.record r.start off) := by
      intro off hoff
      refine ⟨off, rfl, ?_⟩
      by_cases hlt : off < r.len
      · exact .inl hlt
      · exact .inr ⟨hone, by omega⟩
    have hsize : LOOKAHEAD_REPORT_SIZE = 12 := rfl
    rw [if_pos hone, hmany, Bool.and_false, if_neg (by simp)]
    cases la with
    | none =>
      exact ⟨none, rfl, rfl, hla, within_read_bind (hread 0 (by omega))
        (within_read_bind (hread 8 (by omega)) (within_pure _))⟩
    | some l =>
      by_cases hvalid : mem r.start = ~~~mem (r.start + 8)
      · refine ⟨some ⟨update l.pNextLookAheads 0 (val (recordBytes mem r.start 4 4)), 1⟩,
          ?_, rfl, ?_, within_read_bind (hread 0 (by omega))
            (within_read_bind (hread 8 (by omega)) ?_)⟩
        · rw [val_emit_bind, val_emit_bind]; simp only [if_pos hvalid, val_bind, val_pure]
        · rintro _ ⟨⟩
          show 1 ≤ 16
          omega
        · simp only [if_pos hvalid]
          refine Within.bind (within_recordBytes fun i hi => hread (4 + i) (by omega))
            (within_pure _)
      · refine ⟨some l, ?_, rfl, hla, within_read_bind (hread 0 (by omega))
          (within_read_bind (hread 8 (by omega)) ?_)⟩
        · rw [val_emit_bind, val_emit_bind]; simp only [if_neg hvalid, val_pure]
        · simp only [if_neg hvalid]; exact within_pure _
  · rw [if_neg hone]
    by_cases hbundle : r.id = HTC_RECORD_LOOKAHEAD_BUNDLE
    · rw [if_pos hbundle]
      cases la with
      | none => exact ⟨none, rfl, rfl, hla, within_pure _⟩
      | some l =>
        have hmany : tooMany r =
            decide (HTC_MAX_MSG_PER_BUNDLE < r.len / BUNDLED_LOOKAHEAD_REPORT_SIZE) := by
          rw [tooMany, hbundle]; rfl
        rw [hmany, Option.isSome_some, Bool.true_and]
        by_cases hshort : r.len < BUNDLED_LOOKAHEAD_REPORT_SIZE
        · have hzero : r.len / BUNDLED_LOOKAHEAD_REPORT_SIZE = 0 := Nat.div_eq_of_lt hshort
          rw [hzero]
          simp only [if_pos hshort]
          exact ⟨some l, rfl, rfl, hla, within_pure _⟩
        · simp only [if_neg hshort]
          by_cases hmax : HTC_MAX_MSG_PER_BUNDLE < r.len / BUNDLED_LOOKAHEAD_REPORT_SIZE
          · simp only [if_pos hmax]
            exact ⟨some l, by rw [decide_eq_true hmax]; rfl, rfl, hla, within_pure _⟩
          · simp only [if_neg hmax]
            refine ⟨_, by rw [decide_eq_false hmax]; rfl, rfl, ?_,
              (within_copyLookAheads _ _ fun off hoff => ⟨off, rfl, .inl ?_⟩).bind
                (within_pure _)⟩
            · rintro _ ⟨⟩; exact Nat.not_lt.mp hmax
            · have := Nat.div_mul_le_self r.len BUNDLED_LOOKAHEAD_REPORT_SIZE
              rw [Nat.mul_comm] at hoff; omega
    · have hmany : tooMany r = false := by rw [tooMany, decide_eq_false hbundle]; rfl
      rw [if_neg hbundle, hmany, Bool.and_false, if_neg (by simp)]
      exact ⟨la, rfl, rfl, hla, within_pure _⟩

theorem bundlesFit_iff (recs : List Record) : BundlesFit recs ↔ recs.any tooMany = false := by
  simp only [BundlesFit, tooMany, any_eq_false, Bool.and_eq_true, decide_eq_true_eq, not_and,
    not_lt]

/-- What HIF may read of a trailer: its headers and its records, those of short look-ahead
reports apart. -/
def HifInRecords (recs : List Record) (pos len : Nat) (b : Access) : Prop :=
  InRecords recs pos len b ∨ ∃ r ∈ recs, HifReads r b

theorem HifInRecords.rest {r : Record} {recs : List Record} {pos len pos' len' : Nat} {b : Access}
    (hpos : pos ≤ pos') (hlen : pos' + len' ≤ pos + len) (h : HifInRecords recs pos' len' b) :
    HifInRecords (r :: recs) pos len b := by
  rcases h with h | ⟨r', hr', h⟩
  · exact .inl (h.rest hpos hlen)
  · exact .inr ⟨r', mem_cons_of_mem r hr', h⟩

/-- **`hif_dev_process_trailer`** goes over the records of the trailer, one a round, up to the
first with more look-aheads than a bundle. -/
theorem hifLoop_spec (mem : Mem) (pos len fuel : Nat) (la : Option LookAheads)
    (hla : AtMostBundle la) (hfuel : len < fuel) :
    ∃ la', val (hifLoop mem fuel pos len la) =
        some (if (records mem pos len).2 && !(la.isSome && (records mem pos len).1.any tooMany)
          then .ok else .eproto, la') ∧ AtMostBundle la' ∧
      Within (HifInRecords (records mem pos len).1 pos len) (hifLoop mem fuel pos len la) := by
  obtain ⟨fuel, rfl⟩ := Nat.exists_eq_succ_of_ne_zero (Nat.ne_zero_of_lt hfuel)
  fun_induction records mem pos len generalizing fuel la with
  | case1 pos => unfold hifLoop; exact ⟨la, by simp, hla, within_pure _⟩
  | case2 pos len h0 hshort =>
    unfold hifLoop
    rw [if_neg h0, if_pos hshort]; exact ⟨la, rfl, hla, within_pure _⟩
  | case3 pos len h0 hhdr hlong =>
    unfold hifLoop
    rw [if_neg h0, if_neg hhdr]
    refine ⟨la, ?_, hla, within_read_bind (.inl ?_) ?_⟩
    · rw [val_emit_bind, if_pos hlong]; rfl
    · exact ⟨Nat.le_refl _, Nat.add_le_add_left (Nat.not_lt.mp hhdr) pos, by decide⟩
    · rw [if_pos hlong]; exact within_pure _
  | case4 pos len h0 hhdr hfits rest ih =>
    have hhead : ∀ off < 4, HifInRecords
        (⟨mem pos, pos + RECORD_HDR_SIZE, (mem (pos + 1)).toNat⟩ :: rest.1) pos len
          (.hdr pos off) := fun off hoff =>
      .inl ⟨Nat.le_refl _, Nat.add_le_add_left (Nat.not_lt.mp hhdr) pos, hoff⟩
    obtain ⟨la₁, hval, hsome, hla₁, hlog⟩ := hifRecord_spec mem
      ⟨mem pos, pos + RECORD_HDR_SIZE, (mem (pos + 1)).toNat⟩ la hla
    have hlog₁ := hlog.mono fun b hb => (.inr ⟨_, mem_cons_self, hb⟩ : HifInRecords
      (⟨mem pos, pos + RECORD_HDR_SIZE, (mem (pos + 1)).toNat⟩ :: rest.1) pos len b)
    have hsize : RECORD_HDR_SIZE = 4 := rfl
    obtain ⟨fuel, rfl⟩ := Nat.exists_eq_succ_of_ne_zero (n := fuel) (by omega)
    obtain ⟨la₂, hval', hla₂, hlog'⟩ := ih la₁ hla₁ fuel (by omega)
    unfold hifLoop
    rw [if_neg h0, if_neg hhdr, any_cons]
    cases hmany : la.isSome && tooMany ⟨mem pos, pos + RECORD_HDR_SIZE, (mem (pos + 1)).toNat⟩ with
    | true =>
      -- this record is refused, and what follows it is not looked at
      rw [hmany] at hval
      refine ⟨la₁, ?_, hla₁, within_read_bind (hhead 1 (by omega)) ?_⟩
      · have hstop : (la.isSome && (tooMany ⟨mem pos, pos + RECORD_HDR_SIZE,
            (mem (pos + 1)).toNat⟩ || rest.1.any tooMany)) = true := by
          rw [Bool.and_or_distrib_left, hmany, Bool.true_or]
        rw [val_emit_bind, if_neg hfits, val_emit_bind, val_bind, hval, hstop]; simp
      · rw [if_neg hfits]
        refine within_read_bind (hhead 0 (by omega)) (hlog₁.bind ?_)
        rw [hval]; exact within_pure _
    | false =>
      rw [hmany] at hval
      refine ⟨la₂, ?_, hla₂, within_read_bind (hhead 1 (by omega)) ?_⟩
      · rw [val_emit_bind, if_neg hfits, val_emit_bind, val_bind, hval,
          Bool.and_or_distrib_left, hmany, Bool.false_or, ← hsome]
        exact hval'
      · rw [if_neg hfits]
        refine within_read_bind (hhead 0 (by omega)) (hlog₁.bind ?_)
        rw [hval]; exact hlog'.mono fun b hb => hb.rest (by omega) (by omega)

end Hif

/-! ## Frames -/

def payloadLen (mem : Mem) : UInt32 := val (HTC_GET_FIELD mem .frame 0 HTC_FRAME_HDR_PAYLOADLEN)

def trailerLen (mem : Mem) : UInt32 := val (HTC_GET_FIELD mem .frame 0 HTC_FRAME_HDR_CONTROLBYTES0)

def trailerPos (mem : Mem) : Nat :=
  HTC_HDR_LENGTH.toNat + (payloadLen mem).toNat - (trailerLen mem).toNat

/-- A frame of `netlen` bytes with a trailer whose header passes the length checks. -/
structure Checked (mem : Mem) (netlen : Nat) : Prop where
  flag : (val (HTC_GET_FIELD mem .frame 0 HTC_FRAME_HDR_FLAGS)).toUInt8 &&&
    HTC_FLAGS_RECV_TRAILER ≠ 0
  fits : (payloadLen mem).toNat + HTC_HDR_LENGTH.toNat ≤ netlen
  min : RECORD_HDR_SIZE ≤ (trailerLen mem).toNat
  max : trailerLen mem ≤ payloadLen mem

section Frames

variable {mem : Mem} {netlen : Nat}

theorem Checked.trailer_end (h : Checked mem netlen) :
    trailerPos mem + (trailerLen mem).toNat ≤ netlen := by
  have hmax : (trailerLen mem).toNat ≤ (payloadLen mem).toNat := h.max
  have hfits := h.fits
  unfold trailerPos; omega

end Frames

/-! ## Both parsers -/

/-- **Both parsers of trailers**, for every frame whose header passes the length checks. They
return, and go over the records of the trailer. HTC reads only the headers and the records, and
so does HIF but for the reports of single look-aheads that are cut short. At most a bundle of
look-aheads is reported. HTC accepts the trailers that consist of records, and HIF those of them
whose bundles it has room for. Each endpoint gets the credits of its reports. -/
theorem trailer_parsed (cfg : Nat → HtcTx.Cfg) (mem : Mem) (netlen : Nat) (target : Target)
    (ignore_lookahead : Bool) (pNextLookAheads : Nat → List UInt8) (h : Checked mem netlen) :
    let pos := trailerPos mem
    let len := (trailerLen mem).toNat
    let la₀ := if ignore_lookahead then none else some (LookAheads.mk pNextLookAheads 0)
    let recs := (records mem pos len).1
    ∃ status la status' target',
      val (hif_dev_process_trailer mem pos len la₀) = some (status, la) ∧
      val (htc_process_trailer cfg mem pos len target) = some (status', target') ∧
      pos + len ≤ netlen ∧
      Within (HifInRecords recs pos len) (hif_dev_process_trailer mem pos len la₀) ∧
      Within (InRecords recs pos len) (htc_process_trailer cfg mem pos len target) ∧
      AtMostBundle la ∧
      (status' = .ok ↔ (records mem pos len).2 = true) ∧
      (status = .ok ↔ status' = .ok ∧ (ignore_lookahead = false → BundlesFit recs)) ∧
      ∀ ep, (target' ep).ep.TxCredits = (target ep).ep.TxCredits + credited mem recs ep := by
  intro pos len la₀ recs
  have hla₀ : AtMostBundle la₀ := by
    intro l hl
    have hnum : l.NumLookAheads = 0 := by
      cases ignore_lookahead with
      | true => exact absurd hl (by simp [la₀])
      | false => rw [← Option.some.inj hl]
    rw [hnum]; exact Nat.zero_le _
  have hsome : la₀.isSome = !ignore_lookahead := by
    cases ignore_lookahead <;> rfl
  obtain ⟨la, hhif, hla, hhifLog⟩ := hifLoop_spec mem pos len (len + 1) la₀ hla₀ (by omega)
  obtain ⟨hhtc, hhtcLog⟩ := htcLoop_spec cfg mem pos len (len + 1) target (by omega)
  refine ⟨_, la, _, _, hhif, hhtc, h.trailer_end, hhifLog, hhtcLog, hla, ?_, ?_, fun ep => ?_⟩
  · cases (records mem pos len).2 <;> simp
  · rw [hsome, bundlesFit_iff]
    cases (records mem pos len).2 <;> cases ignore_lookahead <;>
      cases (records mem pos len).1.any tooMany <;> simp
  · rw [applyReports_records, applyReports_TxCredits]; rfl

def frameOf (trailer : List UInt8) : Mem := fun a =>
  ([1, 2, UInt8.ofNat trailer.length, 0, UInt8.ofNat trailer.length, 0, 0, 0] ++ trailer).getD a 0

def creditTrailer : List UInt8 :=
  [1, 4, 0, 0, 2, 3, 0, 0, 2, 12, 0, 0, 0x55, 0, 0, 0, 1, 2, 3, 4, 0xAA, 0, 0, 0]

def sdioEp : HtcTx.Cfg :=
  { endpoint_0 := false
    wmi_control_svc := false
    htt_data_msg_svc := false
    TxCreditFlowEnabled := true
    TxCreditSize := 1792
    TxCreditsPerMaxMsg := 2
    MaxTxQueueDepth := 16
    EpSendFull := false
    bus_type := .sdio
    MaxMsgsPerHTCBundle := 16
    enable_bundle_tx := true
    feature_runtime_pm := false
    txcompact := true }

/-- Endpoint 2 gets its three credits. -/
theorem trailer_parsed_credits :
    ∃ target', val (htc_process_trailer (fun _ => sdioEp) (frameOf creditTrailer) 8 24
        fun _ => .init 5) = some (.ok, target') ∧ (target' 2).ep.TxCredits = 8 := by
  have hc : Checked (frameOf creditTrailer) 32 := ⟨by decide, by decide, by decide, by decide⟩
  obtain ⟨_, _, status, target', -, hval, -, -, -, -, hok, -, hcredits⟩ :=
    trailer_parsed (fun _ => sdioEp) (frameOf creditTrailer) 32 (fun _ => .init 5) false
      (fun _ => []) hc
  have hpos : trailerPos (frameOf creditTrailer) = 8 := by decide
  have hlen : (trailerLen (frameOf creditTrailer)).toNat = 24 := by decide
  have hrecs : records (frameOf creditTrailer) 8 24 = ([⟨1, 12, 4⟩, ⟨2, 20, 12⟩], true) := by
    simp [records, frameOf, creditTrailer, RECORD_HDR_SIZE]
  have hsum : credited (frameOf creditTrailer) [⟨1, 12, 4⟩, ⟨2, 20, 12⟩] 2 = 3 := by decide
  rw [hpos, hlen, hrecs] at hok
  refine ⟨target', ?_, ?_⟩
  · rw [← hok.mpr rfl]; exact hval
  · rw [hcredits 2, hpos, hlen, hrecs, hsum]; rfl

def longBundle : List UInt8 := [3, 68, 0, 0] ++ replicate 68 0

/-- HIF refuses the trailer, and HTC accepts it. -/
theorem long_bundle_disagreed :
    ¬ ∀ (cfg : Nat → HtcTx.Cfg) (mem : Mem) (netlen : Nat) (target : Target) (la : LookAheads),
      Checked mem netlen →
        ((val (hif_dev_process_trailer mem (trailerPos mem) (trailerLen mem).toNat
            (some la))).map Prod.fst = some .ok ↔
          (val (htc_process_trailer cfg mem (trailerPos mem) (trailerLen mem).toNat
            target)).map Prod.fst = some .ok) := by
  intro hall
  have hc : Checked (frameOf longBundle) 80 := ⟨by decide, by decide, by decide, by decide⟩
  have h := hall (fun _ => sdioEp) (frameOf longBundle) 80 (fun _ => .init 0) ⟨fun _ => [], 0⟩ hc
  exact absurd (h.mpr rfl) (by decide)

/-! ## All frames -/

/-- The address of a byte that is read. -/
def Access.addr : Access → Nat
  | .frame off => off
  | .hdr pRecord off => pRecord + off
  | .record pRecordBuf off => pRecordBuf + off

def endpointId (mem : Mem) : UInt32 := val (HTC_GET_FIELD mem .frame 0 HTC_FRAME_HDR_ENDPOINTID)

section Handles

variable {cfg : Nat → HtcTx.Cfg} {mem : Mem} {netlen : Nat}

theorem records_inside (mem : Mem) (pos len : Nat) :
    ∀ r ∈ (records mem pos len).1, r.start + r.len ≤ pos + len := by
  fun_induction records mem pos len with
  | case1 | case2 | case3 => exact forall_mem_nil _
  | case4 pos len h0 hhdr hfits rest ih =>
    rw [RECORD_HDR_SIZE] at hhdr hfits ih
    refine forall_mem_cons.mpr ⟨?_, fun r hr => (ih r hr).trans ?_⟩
    · dsimp only [RECORD_HDR_SIZE]; omega
    · omega

theorem InRecords.inside {pos len : Nat} {b : Access}
    (h : InRecords (records mem pos len).1 pos len b) : b.addr < pos + len := by
  cases b with
  | frame off => exact h.elim
  | hdr p off => exact Nat.lt_of_lt_of_le (Nat.add_lt_add_left h.2.2 p) h.2.1
  | record p off =>
    obtain ⟨r, hr, rfl, hoff⟩ := h
    exact Nat.lt_of_lt_of_le (Nat.add_lt_add_left hoff r.start) (records_inside mem pos len r hr)

/-- `x` reads what `P` says, and returns just when `ok` holds, what `Q` says. -/
def Handles (P : Access → Prop) (ok : Prop) (Q : RxResult → Target → Prop)
    (x : Reads (Option (RxResult × Target))) : Prop :=
  Within P x ∧ (¬ ok → val x = none) ∧
    (ok → ∃ result target, val x = some (result, target) ∧ Q result target)

variable {P : Access → Prop} {ok : Prop} {Q : RxResult → Target → Prop}

theorem Handles.bind {α : Type} {x : Reads α} {f : α → Reads (Option (RxResult × Target))}
    (hx : Within P x) (hf : Handles P ok Q (f (val x))) : Handles P ok Q (x >>= f) :=
  ⟨hx.bind hf.1, hf.2.1, hf.2.2⟩

end Handles

/-! ### Polled completions -/

section Polls

variable {cfg : Nat → HtcTx.Cfg}

end Polls

/-- The frame is for an endpoint that there is, and has all of its payload. -/
def FrameOk (mem : Mem) (netlen : Nat) : Prop :=
  endpointId mem < ENDPOINT_MAX ∧ (payloadLen mem).toNat + HTC_HDR_LENGTH.toNat ≤ netlen

end Qcacld.HtcTrailer
