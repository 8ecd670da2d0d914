/-
What comes out of the packet log: successive reads hand out the whole log without a gap, and the log
is sent to the user in reports of whole records.
-/
import Qcacld.PktlogWrite

set_option autoImplicit false

namespace Qcacld.Pktlog

open List

section

variable {c : Cfg}

/-! ## Successive reads -/

def readRun (reader : LogBuf → Nat → Nat → Option (List UInt8 × LogBuf)) :
    LogBuf → Nat → List Nat → Option (List UInt8)
  | _, _, [] => some []
  | s, ppos, nbytes :: sizes =>
    (reader s nbytes ppos).bind fun (ret, s') =>
      (readRun reader s' (ppos + ret.length) sizes).map (ret ++ ·)

def Finds (b : BufHdr) (s : LogBuf) (live : List (Record c)) : Prop :=
  ∀ nbytes ppos, readBytes c b.bytes s nbytes ppos =
    some (((b.bytes ++ stream live).drop ppos).take nbytes)

theorem readRun_eq {reader : LogBuf → Nat → Nat → Option (List UInt8 × LogBuf)}
    (Inv : LogBuf → Nat → Prop) (whole : List UInt8)
    (hstep : ∀ s nbytes ppos, 0 < nbytes → Inv s ppos →
      ∃ s', reader s nbytes ppos = some ((whole.drop ppos).take nbytes, s') ∧
        Inv s' (ppos + ((whole.drop ppos).take nbytes).length))
    (sizes : List Nat) (hsizes : ∀ n ∈ sizes, 0 < n) {s : LogBuf} {ppos : Nat} (h : Inv s ppos) :
    readRun reader s ppos sizes = some ((whole.drop ppos).take sizes.sum) := by
  induction sizes generalizing s ppos with
  | nil => rw [readRun, sum_nil, take_zero]
  | cons n sizes ih =>
    obtain ⟨s', hread, hinv⟩ := hstep s n ppos (hsizes n mem_cons_self) h
    have hrest := ih (fun m hm => hsizes m (mem_cons_of_mem n hm)) hinv
    have hdrop : whole.drop (ppos + ((whole.drop ppos).take n).length) =
        (whole.drop ppos).drop n := by
      rw [drop_drop, length_take, length_drop]
      rcases Nat.le_total n (whole.length - ppos) with hle | hle
      · rw [Nat.min_eq_left hle]
      · rw [Nat.min_eq_right hle, drop_eq_nil_of_le (by omega), drop_eq_nil_of_le (by omega)]
    rw [hdrop] at hrest
    rw [readRun, hread, Option.bind_some]
    simp only [hrest, Option.map_some]
    rw [sum_cons, take_add]

/-- `pktlog_read_proc_entry` as a reader. -/
def procEntry (c : Cfg) (b : BufHdr) (s : LogBuf) (nbytes ppos : Nat) :
    Option (List UInt8 × LogBuf) :=
  (pktlog_read_proc_entry c b.bytes s nbytes ppos).map fun r => (r.1, r.2.1)

theorem pktlog_read_run {b : BufHdr} {s : LogBuf} {live : List (Record c)}
    (h : Finds b s live) (sizes : List Nat) (hsizes : ∀ n ∈ sizes, 0 < n) :
    readRun (pktlog_read c b.bytes) s 0 sizes =
      some ((b.bytes ++ stream live).take sizes.sum) := by
  apply readRun_eq (fun s' _ => s' = s) (b.bytes ++ stream live) _ sizes hsizes rfl
  rintro s' nbytes ppos - rfl
  refine ⟨s', ?_, rfl⟩
  rw [pktlog_read, h]; rfl

theorem procEntry_run {b : BufHdr} {s : LogBuf} {live : List (Record c)}
    (h : Finds b s live) (sizes : List Nat) (hsizes : ∀ n ∈ sizes, 0 < n) :
    readRun (procEntry c b) s 0 sizes = some ((b.bytes ++ stream live).take sizes.sum) := by
  have hlen := b.length_bytes
  apply readRun_eq
    (fun s' ppos => s' = s ∨ s'.rd_offset = none ∧ (b.bytes ++ stream live).length ≤ ppos)
    (b.bytes ++ stream live) _ sizes hsizes (Or.inl rfl)
  rintro s' nbytes ppos hpos (rfl | ⟨hrd, hend⟩)
  · rw [procEntry, pktlog_read_proc_entry, h, Option.map_some, Option.map_some]
    split
    · next h0 =>
      refine ⟨_, rfl, Or.inr ⟨rfl, ?_⟩⟩
      rw [length_take, length_drop] at h0; omega
    · exact ⟨s', rfl, Or.inl rfl⟩
  · rw [length_append] at hend
    have hread : readBytes c b.bytes s' nbytes ppos = some [] := by
      rw [readBytes, hrd, if_neg (by omega)]
    rw [drop_eq_nil_of_le (by rw [length_append]; exact hend), take_nil, procEntry,
      pktlog_read_proc_entry, hread]
    exact ⟨_, rfl, Or.inr ⟨rfl, by rw [length_append]; omega⟩⟩

/-! ## Whole records -/

theorem stream_append (rs rs' : List (Record c)) :
    stream (rs ++ rs') = stream rs ++ stream rs' := by
  induction rs with
  | nil => rfl
  | cons r rs ih => rw [cons_append, stream, stream, ih, append_assoc]

theorem getD_size (pre : List UInt8) (r : Record c) (rest : List UInt8) {n : Nat}
    (hn : pre.length + c.hdrSize ≤ n) :
    (((pre ++ (r.bytes ++ rest)).take n).getD (pre.length + 6) 0).toNat +
      256 * (((pre ++ (r.bytes ++ rest)).take n).getD (pre.length + 7) 0).toNat = r.size := by
  have hH := hdrSize_bounds c
  have hget (i : Nat) (hi : i < c.hdrSize) :
      ((pre ++ (r.bytes ++ rest)).take n).getD (pre.length + i) 0 = (r.arg.hdr c).getD i 0 := by
    have hlen := length_hdr c r.arg
    rw [getD_eq_getElem?_getD, getElem?_take_of_lt (by omega),
      getElem?_append_right (by omega), Nat.add_sub_cancel_left, Record.bytes,
      append_assoc, getElem?_append_left (by omega), getD_eq_getElem?_getD]
  rw [hget 6 (by omega), hget 7 (by omega)]; exact bytes16_size r.size r.size_lt

theorem wholeRecords_stream (n : Nat) (pre rs : List (Record c))
    (hpre : (stream pre).length ≤ n) (passes : Nat)
    (hp : ((stream (pre ++ rs)).take n).length < (stream pre).length + passes) :
    ∃ m, wholeRecords c ((stream (pre ++ rs)).take n) passes (stream pre).length =
        (stream (pre ++ rs.take m)).length ∧
      (stream (pre ++ rs.take m)).length ≤ n ∧
      (m < rs.length → n < (stream (pre ++ rs.take (m + 1))).length) := by
  have hH := hdrSize_bounds c
  induction rs generalizing pre passes with
  | nil =>
    refine ⟨0, ?_, ?_, nofun⟩
    · obtain ⟨passes, rfl⟩ : ∃ p, passes = p + 1 := ⟨passes - 1, by
        rw [append_nil, length_take] at hp; omega⟩
      rw [append_nil, take_nil, append_nil, wholeRecords, length_take, if_pos (by omega)]
    · rw [take_nil, append_nil]; exact hpre
  | cons r rs ih =>
    have hstream : stream (pre ++ r :: rs) = stream pre ++ (r.bytes ++ stream rs) := by
      rw [stream_append, stream]
    have hone : (stream (pre ++ [r])).length = (stream pre).length + c.hdrSize + r.size := by
      rw [stream_append, stream, stream, append_nil, length_append, Record.length_bytes]
      omega
    have hsize := getD_size (stream pre) r (stream rs) (n := n)
    have hlen : (stream (pre ++ r :: rs)).length =
        (stream pre).length + c.hdrSize + r.size + (stream rs).length := by
      rw [hstream, length_append, length_append, Record.length_bytes]; omega
    obtain ⟨passes, rfl⟩ : ∃ p, passes = p + 1 := ⟨passes - 1, by rw [length_take] at hp; omega⟩
    rcases Nat.lt_or_ge n ((stream pre).length + c.hdrSize + r.size) with hlt | hge
    · -- the record is cut off
      refine ⟨0, ?_, ?_, fun _ => ?_⟩
      · rw [take_zero, append_nil, wholeRecords, length_take, hlen]
        split
        · rfl
        · rw [if_pos]
          rw [hstream, hsize (by omega)]; omega
      · rw [take_zero, append_nil]; exact hpre
      · rw [take_succ_cons, take_zero, hone]; exact hlt
    · rw [← singleton_append, ← append_assoc] at hp
      obtain ⟨m, hwhole, hle, hmax⟩ := ih (pre ++ [r]) (by omega) passes (by omega)
      rw [hone] at hwhole
      simp only [append_assoc, singleton_append] at hwhole hle hmax
      refine ⟨m + 1, ?_, hle, fun h => ?_⟩
      · rw [wholeRecords, length_take, hlen, if_neg (by omega)]
        rw [hstream, hsize (by omega), if_neg (by omega), ← hstream,
          show (stream pre).length + (r.size + c.hdrSize) =
            (stream pre).length + c.hdrSize + r.size by omega]
        exact hwhole
      · rw [length_cons] at h; exact hmax (by omega)

/-! ## Sending -/

def FitsReport (live : List (Record c)) : Prop :=
  ∀ r ∈ live, c.hdrSize + r.size ≤ VOS_LOG_PKT_LOG_SIZE

theorem wholeRecords_report {rest : List (Record c)} (hne : rest ≠ []) (hfit : FitsReport rest) :
    ∃ m, 0 < m ∧
      wholeRecords c ((stream rest).take VOS_LOG_PKT_LOG_SIZE)
        (((stream rest).take VOS_LOG_PKT_LOG_SIZE).length + 1) 0 = (stream (rest.take m)).length ∧
      ((stream rest).take VOS_LOG_PKT_LOG_SIZE).take (stream (rest.take m)).length =
        stream (rest.take m) := by
  obtain ⟨m, hwhole, hle, hmax⟩ := wholeRecords_stream VOS_LOG_PKT_LOG_SIZE [] rest
    (Nat.zero_le _) (((stream rest).take VOS_LOG_PKT_LOG_SIZE).length + 1)
    (by rw [nil_append]; omega)
  refine ⟨m, ?_, hwhole, ?_⟩
  · obtain ⟨r, rest, rfl⟩ := exists_cons_of_ne_nil hne
    rcases Nat.eq_zero_or_pos m with rfl | hpos
    · have hover := hmax (Nat.zero_lt_succ _)
      have hr := hfit r mem_cons_self
      rw [nil_append, take_succ_cons, take_zero, stream, stream, append_nil,
        Record.length_bytes] at hover
      omega
    · exact hpos
  · have hstream : stream rest = stream (rest.take m) ++ stream (rest.drop m) := by
      rw [← stream_append, take_append_drop]
    rw [nil_append] at hle
    rw [take_take, Nat.min_eq_left hle, hstream, take_left]

/-- What is sent of the records `rest`: `groups` of whole records, and `done` was sent before. -/
structure Sent (b : BufHdr) (done rest : List (Record c)) (s' : LogBuf)
    (groups : List (List (Record c))) (stop : SendEnd) : Prop where
  nonempty : ∀ g ∈ groups, g ≠ []
  inOrder : groups.flatten <+: rest
  valid : stop ≠ .invalid
  complete : stop = .complete → groups.flatten = rest ∧ Fresh s' ∧ s'.offset = PKTLOG_READ_OFFSET
  remains : stop ≠ .complete → Finds b s' (done ++ rest) ∧
    s'.offset = PKTLOG_READ_OFFSET + (stream (done ++ groups.flatten)).length

theorem Finds.read {b : BufHdr} {s : LogBuf} {done rest : List (Record c)}
    (hfinds : Finds b s (done ++ rest))
    (hoff : s.offset = PKTLOG_READ_OFFSET + (stream done).length) (nbytes : Nat) :
    readBytes c b.bytes s nbytes s.offset = some ((stream rest).take nbytes) := by
  rw [hfinds, hoff, stream_append, ← append_assoc, drop_left']
  rw [length_append, b.length_bytes]; rfl

/-- The log when another `whole` bytes of it have been reported. -/
def reported (s : LogBuf) (whole : Nat) : LogBuf :=
  { s with offset := s.offset + whole, msg_index := s.msg_index + 1 }

section Pass

variable {b : BufHdr} {alloc : Nat → Bool} {passes : Nat} {s : LogBuf} {num : Nat}
  (reports : List (List UInt8))

theorem sendLoop_noMemory (hmem : alloc passes = false) :
    sendLoop c b.bytes alloc (passes + 1) s num reports = some (s, reports, .noMemory) := by
  rw [sendLoop, hmem]; rfl

theorem sendLoop_empty (hmem : alloc passes = true)
    (hread : readBytes c b.bytes s VOS_LOG_PKT_LOG_SIZE s.offset = some [])
    (hnum : num ≤ HOST_LOG_PKT_LOG_THRESHOLD) :
    ∃ s', sendLoop c b.bytes alloc (passes + 1) s num reports = some (s', reports, .complete) ∧
      Fresh s' ∧ s'.offset = PKTLOG_READ_OFFSET := by
  have hwhole : wholeRecords c [] 1 0 = 0 := by
    have hH := hdrSize_bounds c
    rw [wholeRecords, length_nil, if_pos (by omega)]
  refine ⟨{ s with
    rd_offset := none
    wr_offset := 0
    bytes_written := 0
    offset := PKTLOG_READ_OFFSET }, ?_, ⟨rfl, rfl⟩, rfl⟩
  rw [sendLoop, if_pos hmem, pktlog_read_proc_entry, hread]
  simp only [Option.map_some, Option.bind_some, length_nil, Nat.zero_add, if_true, hwhole,
    Nat.add_zero]
  rw [if_neg (by omega)]

theorem sendLoop_report {ret : List UInt8} {whole : Nat} (hmem : alloc passes = true)
    (hread : readBytes c b.bytes s VOS_LOG_PKT_LOG_SIZE s.offset = some ret)
    (hwhole : wholeRecords c ret (ret.length + 1) 0 = whole) (hpos : 0 < whole) (hret : ret ≠ []) :
    sendLoop c b.bytes alloc (passes + 1) s num reports =
      if HOST_LOG_PKT_LOG_THRESHOLD < num + whole then
        some (reported s whole, reports ++ [ret.take whole], .cutOff)
      else sendLoop c b.bytes alloc passes (reported s whole) (num + whole)
        (reports ++ [ret.take whole]) := by
  have hlen : ret.length ≠ 0 := mt eq_nil_of_length_eq_zero hret
  rw [sendLoop, if_pos hmem, pktlog_read_proc_entry, hread]
  simp only [Option.map_some, Option.bind_some, if_neg hlen, hwhole,
    if_neg (Nat.pos_iff_ne_zero.mp hpos), Bool.false_eq_true, if_false]
  rfl

end Pass

theorem stream_take_pos {rest : List (Record c)} {m : Nat} (hrest : rest ≠ []) (hm : 0 < m) :
    0 < (stream (rest.take m)).length := by
  obtain ⟨r, rest, rfl⟩ := exists_cons_of_ne_nil hrest
  obtain ⟨m, rfl⟩ : ∃ k, m = k + 1 := ⟨m - 1, by omega⟩
  have hH := hdrSize_bounds c
  rw [take_succ_cons, stream, length_append, Record.length_bytes]; omega

theorem Sent.cons {b : BufHdr} {done rest : List (Record c)} {s' : LogBuf}
    {groups : List (List (Record c))} {stop : SendEnd} {m : Nat} (hne : rest.take m ≠ [])
    (h : Sent b (done ++ rest.take m) (rest.drop m) s' groups stop) :
    Sent b done rest s' (rest.take m :: groups) stop where
  nonempty := by
    intro g hg
    rcases mem_cons.mp hg with rfl | hg
    · exact hne
    · exact h.nonempty g hg
  inOrder := by
    obtain ⟨left, hleft⟩ := h.inOrder
    refine ⟨left, ?_⟩
    rw [flatten_cons, append_assoc, hleft, take_append_drop]
  valid := h.valid
  complete := by
    intro hstop
    obtain ⟨hall, hfresh⟩ := h.complete hstop
    refine ⟨?_, hfresh⟩
    rw [flatten_cons, hall, take_append_drop]
  remains := by
    intro hstop
    obtain ⟨hfinds, hoff⟩ := h.remains hstop
    rw [append_assoc, take_append_drop] at hfinds
    rw [append_assoc] at hoff; exact ⟨hfinds, hoff⟩

/-- Each pass of the loop reports whole records, until none is left, there is no memory or it was
too much. -/
theorem sendLoop_sent (b : BufHdr) (alloc : Nat → Bool) (passes : Nat) {s : LogBuf}
    (done rest : List (Record c)) (num : Nat) (reports : List (List UInt8))
    (hfinds : Finds b s (done ++ rest)) (hfit : FitsReport rest)
    (hoff : s.offset = PKTLOG_READ_OFFSET + (stream done).length)
    (hnum : num ≤ HOST_LOG_PKT_LOG_THRESHOLD) (hp : rest.length < passes) :
    ∃ s' groups stop, sendLoop c b.bytes alloc passes s num reports =
        some (s', reports ++ groups.map stream, stop) ∧ Sent b done rest s' groups stop := by
  induction passes generalizing s done rest num reports with
  | zero => exact absurd hp (Nat.not_lt_zero _)
  | succ passes ih =>
    have hread := hfinds.read hoff VOS_LOG_PKT_LOG_SIZE
    rcases Bool.eq_false_or_eq_true (alloc passes) with hmem | hmem
    · by_cases hrest : rest = []
      · -- nothing is left
        subst hrest
        obtain ⟨s', hloop, hfresh, hoff'⟩ := sendLoop_empty reports hmem hread hnum
        refine ⟨s', [], .complete, by rw [hloop, map_nil, append_nil], ?_, ?_, ?_, ?_, ?_⟩
        · simp
        · exact nil_prefix
        · exact SendEnd.noConfusion
        · exact fun _ => ⟨rfl, hfresh, hoff'⟩
        · exact fun h => absurd rfl h
      · obtain ⟨m, hm, hwhole, htake⟩ := wholeRecords_report hrest hfit
        have hpos := stream_take_pos hrest hm
        have hlen := length_pos_iff.mpr hrest
        have hne : rest.take m ≠ [] := by
          intro hnil
          rw [hnil] at hpos; exact absurd hpos (Nat.not_lt_zero _)
        have hret : (stream rest).take VOS_LOG_PKT_LOG_SIZE ≠ [] := by
          intro hnil
          rw [hnil, take_nil] at htake
          rw [← htake] at hpos; exact absurd hpos (Nat.not_lt_zero _)
        have hoff' : (reported s (stream (rest.take m)).length).offset =
            PKTLOG_READ_OFFSET + (stream (done ++ rest.take m)).length := by
          rw [stream_append, length_append, ← Nat.add_assoc, ← hoff]; rfl
        rw [sendLoop_report reports hmem hread hwhole hpos hret, htake]
        split
        · -- the starvation cut-off
          refine ⟨_, [rest.take m], .cutOff, rfl, ?_, ?_, ?_, ?_, ?_⟩
          · intro g hg
            rw [mem_singleton.mp hg]; exact hne
          · rw [flatten_singleton]; exact take_prefix m rest
          · exact SendEnd.noConfusion
          · exact SendEnd.noConfusion
          · intro _
            refine ⟨hfinds, ?_⟩
            rw [flatten_singleton]; exact hoff'
        · obtain ⟨s', groups, stop, hloop, hsent⟩ := ih (done ++ rest.take m) (rest.drop m)
            (num + (stream (rest.take m)).length) (reports ++ [stream (rest.take m)])
            (by rw [append_assoc, take_append_drop]; exact hfinds)
            (fun r hr => hfit r (mem_of_mem_drop hr)) hoff' (by omega)
            (by rw [length_drop]; omega)
          refine ⟨s', rest.take m :: groups, stop, ?_, hsent.cons hne⟩
          rw [hloop, map_cons, append_assoc, singleton_append]
    · refine ⟨s, [], .noMemory, ?_, ?_, ?_, ?_, ?_, ?_⟩
      · rw [sendLoop_noMemory reports hmem, map_nil, append_nil]
      · simp
      · exact nil_prefix
      · exact SendEnd.noConfusion
      · exact SendEnd.noConfusion
      · intro _
        refine ⟨hfinds, ?_⟩
        rw [hoff, flatten_nil, append_nil]

end

open Option

/-! From the writer to the readers: these hand out the records written last just when the log lies
`Intact`. -/

variable {c : Cfg}

/-- From `rd_offset` on, the headers of the records `live` are visited at `ps`, and no two of their
bytes lie at the same place. -/
structure Stepped (s : LogBuf) (live : List (Record c)) (ps : List Nat) : Prop where
  walk : s.rd_offset.bind (visited c s.log_data s.wr_offset c.buf_size) = some ps
  headers : List.Forall₂ (fun p r => slice s.log_data p c.hdrSize = r.arg.hdr c) ps live
  apart : (areas ps live).Nodup
  inside : ∀ i ∈ areas ps live, i < c.buf_size

/-- Both readers hand out the header of the buffer and the records, whatever the sizes of the
reads, and nothing after that. -/
structure ReadsBack (b : BufHdr) (s : LogBuf) (live : List (Record c)) : Prop where
  read : ∀ sizes : List Nat, (∀ n ∈ sizes, 0 < n) →
    readRun (pktlog_read c b.bytes) s 0 sizes = some ((b.bytes ++ stream live).take sizes.sum)
  proc : ∀ sizes : List Nat, (∀ n ∈ sizes, 0 < n) →
    readRun (procEntry c b) s 0 sizes = some ((b.bytes ++ stream live).take sizes.sum)

/-- Records that fit into a report are sent whole. -/
def SendsWhole (b : BufHdr) (s : LogBuf) (live : List (Record c)) : Prop :=
  FitsReport live → ∀ (alloc : Nat → Bool) (passes : Nat), live.length < passes →
    ∃ s' groups stop, pktlog_send_per_pkt_stats_to_user c b.bytes alloc passes s =
      some (s', groups.map stream, stop) ∧ Sent b [] live s' groups stop

def RoundTrip (b : BufHdr) (mem : Nat → UInt8) (rs : List (Record c)) : Prop :=
  ∃ s live ps, logAll c (pktlog_enable mem) (rs.map Record.arg) = some s ∧
    live ≠ [] ∧ live <:+ rs ∧ Stepped s live ps ∧ ReadsBack b s live ∧ SendsWhole b s live

/-- When the records `rs` have been written, the log lies so that the readers can find their way. -/
def LiesIntact (mem : Nat → UInt8) (rs : List (Record c)) : Prop :=
  ∃ s ps, logAll c (pktlog_enable mem) (rs.map Record.arg) = some s ∧
    s.rd_offset.bind (visited c s.log_data s.wr_offset c.buf_size) = some ps ∧
    Intact c s.log_data ps

theorem ring_reads (b : BufHdr) {s : LogBuf} {live : List (Record c)} (h : Ring s live) :
    ∃ ps data, Stepped s live ps ∧
      (∀ nbytes ppos, readBytes c b.bytes s nbytes ppos =
        some (((b.bytes ++ data).drop ppos).take nbytes)) ∧
      (data = stream live ↔ Intact c s.log_data ps) := by
  obtain ⟨hne, v, w, hrd, hwr, hlaid, hfirst, hsecond, hroom, hwin⟩ := h
  obtain ⟨r, rs, rfl⟩ := exists_cons_of_ne_nil hne
  have hH := hdrSize_bounds c
  have hle := hlaid.le
  rw [length_cons] at hle
  have hwalk := visited_laid c.buf_size hlaid (by omega) hwin (by omega)
  have hareas := areas_nodup hlaid (by omega) hwin
  have hstepped : Stepped s (r :: rs) ((heads v (r :: rs)).map (phys c)) :=
    ⟨by rw [hrd, hwr]; exact hwalk, hlaid.headers, hareas.1, hareas.2⟩
  rcases Nat.lt_or_ge v c.buf_size with hv | hv
  · obtain ⟨fold, stop, hfind, hstart, hchunk⟩ :=
      first_round hlaid hv hroom hwin c.buf_size (by omega)
    rw [← hwr] at hfind
    rw [phys_lt hv] at hfind hrd
    exact ⟨_, _, hstepped, readBytes_eq b hrd hfind hstart, hchunk⟩
  · obtain ⟨hfind, hslice, hintact⟩ :=
      second_round hlaid hv hroom hwin c.buf_size none (by omega)
    have hpv := phys_ge hv
    rw [← hwr] at hfind
    refine ⟨_, _, hstepped, readBytes_eq b hrd hfind (by rw [getD_none]; omega),
      iff_of_true ?_ hintact⟩
    rw [chunk, ← hslice]
    congr 1
    omega

theorem ReadsBack.data_eq {b : BufHdr} {s : LogBuf} {live : List (Record c)} {data : List UInt8}
    (h : ReadsBack b s live) (hread : ∀ nbytes ppos, readBytes c b.bytes s nbytes ppos =
      some (((b.bytes ++ data).drop ppos).take nbytes)) : data = stream live := by
  have hlen := b.length_bytes
  have hrun := h.read [8 + data.length + (stream live).length] (by
    intro n hn
    rw [mem_singleton.mp hn]; omega)
  rw [readRun, pktlog_read, hread, map_some, bind_some] at hrun
  simp only [readRun, map_some, drop_zero, append_nil, sum_cons, sum_nil,
    Nat.add_zero, some.injEq] at hrun
  rw [take_of_length_le (by rw [length_append]; omega),
    take_of_length_le (by rw [length_append]; omega)] at hrun
  exact append_cancel_left hrun

theorem Stepped.unique {s : LogBuf} {live live' rs : List (Record c)} {ps ps' : List Nat}
    (h : Stepped s live ps) (h' : Stepped s live' ps') (hs : live <:+ rs) (hs' : live' <:+ rs) :
    live = live' ∧ ps = ps' := by
  have hps : ps = ps' := some.inj (h.walk.symm.trans h'.walk)
  subst hps
  have hlen : live.length = live'.length := h.headers.length_eq.symm.trans h'.headers.length_eq
  exact ⟨List.IsSuffix.eq_of_length (suffix_of_suffix_length_le hs hs' (Nat.le_of_eq hlen)) hlen, rfl⟩

theorem RoundTrip.intact {b : BufHdr} {mem : Nat → UInt8} {r : Record c} {rs : List (Record c)}
    (h : RoundTrip b mem (r :: rs)) : LiesIntact mem (r :: rs) := by
  obtain ⟨s, live', ps', hlog', -, hsuffix', hstepped', hreads, -⟩ := h
  obtain ⟨s1, live, hlog, hring, hsuffix⟩ :=
    logAll_fresh r rs (s := pktlog_enable mem) ⟨rfl, rfl⟩
  obtain rfl : s1 = s := some.inj (hlog.symm.trans hlog')
  obtain ⟨ps, data, hstepped, hread, hdata⟩ := ring_reads b hring
  obtain ⟨rfl, rfl⟩ := hstepped.unique hstepped' hsuffix hsuffix'
  exact ⟨s1, ps, hlog, hstepped.walk, hdata.mp (hreads.data_eq hread)⟩

/-- What is written comes out again if and only if no payload ends with the buffer and the last
record ends before it. -/
theorem round_trip_iff (b : BufHdr) (mem : Nat → UInt8) (r : Record c) (rs : List (Record c)) :
    RoundTrip b mem (r :: rs) ↔ LiesIntact mem (r :: rs) := by
  constructor
  · exact RoundTrip.intact
  · rintro ⟨s1, ps1, hlog1, hwalk1, hintact⟩
    obtain ⟨s, live, hlog, hring, hsuffix⟩ :=
      logAll_fresh r rs (s := pktlog_enable mem) ⟨rfl, rfl⟩
    obtain rfl : s = s1 := some.inj (hlog.symm.trans hlog1)
    obtain ⟨ps, data, hstepped, hread, hdata⟩ := ring_reads b hring
    obtain rfl : ps = ps1 := some.inj (hstepped.walk.symm.trans hwalk1)
    obtain rfl := hdata.mpr hintact
    refine ⟨s, live, ps, hlog, hring.1, hsuffix, hstepped,
      ⟨pktlog_read_run hread, procEntry_run hread⟩, fun hfit alloc passes hp => ?_⟩
    obtain ⟨-, v, w, hrd, -⟩ := hring
    have hoff := logAll_offset _ hlog
    obtain ⟨s', groups, stop, hloop, hsent⟩ := sendLoop_sent b alloc passes [] live 0 []
      hread hfit hoff (Nat.zero_le _) hp
    refine ⟨s', groups, stop, ?_, hsent⟩
    rw [pktlog_send_per_pkt_stats_to_user, if_neg (by rw [hrd]; exact some_ne_none _), hloop,
      nil_append]

/-! ## Two records of twelve bytes in a buffer of 48 -/

def smallCfg : Cfg where
  heliumplus := false
  buf_size := 48

def twelve : Record smallCfg where
  arg := ⟨0, 0, 0, 0, 0, replicate 12 0⟩
  size_lt := by decide
  fits := by decide

def smallHdr : BufHdr := ⟨7735225, 10010⟩

theorem twelve_written :
    (logAll smallCfg (pktlog_enable fun _ => 0) ([twelve, twelve].map Record.arg)).map
      (fun s => (s.rd_offset.bind (visited smallCfg s.log_data s.wr_offset 48),
        sizeAt s.log_data 24)) = some (some [0, 24], 12) := by decide +kernel

/-- The second one ends with the buffer, and its payload does not come out again. -/
theorem exact_fit_lost : ¬RoundTrip smallHdr (fun _ => 0) [twelve, twelve] := by
  intro h
  obtain ⟨s, ps, hlog, hwalk, hintact⟩ := h.intact
  have hwritten := twelve_written
  rw [hlog, map_some, some.injEq, Prod.mk.injEq] at hwritten
  obtain ⟨hvisited, hsize⟩ := hwritten
  obtain rfl : ps = [0, 24] := some.inj (hwalk.symm.trans hvisited)
  -- 24 bytes from 24 on are all that is left
  have hlast : 24 + smallCfg.hdrSize + sizeAt s.log_data 24 < smallCfg.buf_size := hintact.2
  rw [hsize] at hlast; exact absurd hlast (by decide)

end Qcacld.Pktlog
