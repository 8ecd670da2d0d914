/-
What the writer leaves in the packet log: whatever is written, the newest records lie one after the
other between `rd_offset` and `wr_offset`.

Each of the three loops moves over the old records up to some address and no further, so a call
drops some of the oldest records and puts its own behind the others (`logRecord_ring`).
-/
import Qcacld.Pktlog

set_option autoImplicit false

namespace Qcacld.Pktlog

open List

section

section

variable {c : Cfg}

/-! ## The loops -/

section Loops

variable {mem : Nat → UInt8} {v w : Nat} {rs : List (Record c)} (inTheWay : Nat → Bool)

theorem movWhile_stop {passes rd : Nat} (h : inTheWay rd = false) :
    movWhile c mem inTheWay passes rd = some rd := by unfold movWhile; simp [h]

theorem movWhile_go {passes rd : Nat} (h : inTheWay rd = true) :
    movWhile c mem inTheWay (passes + 1) rd =
      movWhile c mem inTheWay passes (movRdIdx c mem rd) := by
  conv_lhs => unfold movWhile
  simp [h]

/-- A loop that moves over all records whose place is needed: those that are more than a round
before `n`. -/
theorem movWhile_laid (n passes : Nat) (h : Laid mem v rs w) (hv : v + c.hdrSize ≤ lapEnd c v)
    (hw : w + c.hdrSize ≤ lapEnd c w) (hw2 : w < 2 * c.buf_size) (hn : n ≤ w + c.buf_size)
    (hway : ∀ x, v ≤ x → x ≤ w → x + c.hdrSize ≤ lapEnd c x →
      inTheWay (phys c x) = decide (x + c.buf_size < n)) (hp : rs.length ≤ passes) :
    ∃ k v', movWhile c mem inTheWay passes (phys c v) = some (phys c v') ∧
      Laid mem v' (rs.drop k) w ∧ v ≤ v' ∧ v' + c.hdrSize ≤ lapEnd c v' ∧
      n ≤ v' + c.buf_size := by
  induction rs generalizing v passes with
  | nil =>
    have hvw : v = w := h
    subst hvw
    have hstop := hway v (Nat.le_refl _) (Nat.le_refl _) hw
    rw [decide_eq_false (by omega)] at hstop
    exact ⟨0, v, movWhile_stop inTheWay hstop, rfl, Nat.le_refl _, hw, hn⟩
  | cons r rs ih =>
    have hle := h.le
    by_cases hgo : v + c.buf_size < n
    · obtain ⟨passes, rfl⟩ : ∃ p, passes = p + 1 := ⟨passes - 1, by
        rw [length_cons] at hp; omega⟩
      have htrue := hway v (Nat.le_refl _) (by omega) hv
      rw [decide_eq_true hgo] at htrue
      have hmov := h.mov hw2
      have hb := payAt_bounds r hv h.2.1
      have hrest := h.2.2.2.2
      have hnext : nextAt c (payAt c v r.size + r.size) + c.hdrSize ≤
          lapEnd c (nextAt c (payAt c v r.size + r.size)) := by
        cases rs with
        | nil =>
          have hvw : nextAt c (payAt c v r.size + r.size) = w := hrest
          rw [hvw]; exact hw
        | cons r' rs => exact hrest.1
      obtain ⟨k, v', hloop, hlaid, hge, hroom, hout⟩ := ih passes hrest hnext
        (fun x h1 h2 => hway x (by omega) h2) (by rw [length_cons] at hp; omega)
      refine ⟨k + 1, v', ?_, hlaid, by omega, hroom, hout⟩
      rw [movWhile_go inTheWay htrue, hmov, hloop]
    · have hstop := hway v (Nat.le_refl _) (by omega) hv
      rw [decide_eq_false hgo] at hstop
      exact ⟨0, v, movWhile_stop inTheWay hstop, h, Nat.le_refl _, hv, by omega⟩

end Loops

/-! ## One record -/

/-- The log with the records `live`, the first one at `v` and the next one to come at `w`. -/
structure RingAt (s : LogBuf) (v w : Nat) (live : List (Record c)) : Prop where
  wr : s.wr_offset = phys c w
  laid : Laid s.log_data v live w
  first : v + c.hdrSize ≤ lapEnd c v
  second : c.buf_size ≤ w
  room : w + c.hdrSize ≤ 2 * c.buf_size
  window : w ≤ v + c.buf_size

/-- The log when records have been written. -/
def Ring (s : LogBuf) (live : List (Record c)) : Prop :=
  live ≠ [] ∧ ∃ v w, s.rd_offset = some (phys c v) ∧ RingAt s v w live

def Fresh (s : LogBuf) : Prop := s.rd_offset = none ∧ s.wr_offset = 0

def Holds (s : LogBuf) (live : List (Record c)) : Prop := Fresh s ∧ live = [] ∨ Ring s live

theorem startRdIdx_eq {s : LogBuf} {live : List (Record c)} (r : Record c) (h : Holds s live) :
    ∃ k v w, startRdIdx c s = phys c v ∧ RingAt s v w (live.drop k) ∧
      w + c.hdrSize ≤ v + c.buf_size := by
  have hf := r.fits'
  obtain ⟨⟨hrd, hwr⟩, rfl⟩ | ⟨hne, v, w, hrd, hring⟩ := h
  · have hphys : phys c c.buf_size = 0 := by rw [phys_ge (Nat.le_refl _), Nat.sub_self]
    have hlap := lapEnd_cases (c := c) c.buf_size
    refine ⟨0, c.buf_size, c.buf_size, ?_, ⟨?_, rfl, by omega, Nat.le_refl _, by omega,
      by omega⟩,
      by omega⟩
    · rw [startRdIdx, hrd, hphys, hwr]
    · rw [hphys, hwr]
  · obtain ⟨r0, rest, rfl⟩ := exists_cons_of_ne_nil hne
    obtain ⟨hwr, hlaid, hfirst, hsecond, hroom, hwindow⟩ := hring
    have hle := hlaid.le
    have hpv := phys_cases (c := c) v
    have hpw := phys_cases (c := c) w
    rw [length_cons] at hle
    by_cases hover : v + c.buf_size < w + c.hdrSize
    · have hb := payAt_bounds r0 hlaid.1 hlaid.2.1
      have hrest := hlaid.2.2.2.2
      have hmov := hlaid.mov (by omega)
      refine ⟨1, nextAt c (payAt c v r0.size + r0.size), w, ?_,
        ⟨hwr, hrest, ?_, hsecond, hroom, by omega⟩, by omega⟩
      · rw [startRdIdx, hrd]
        dsimp only
        rw [if_pos (by omega), hmov]
      · have hlw := lapEnd_cases (c := c) w
        cases rest with
        | nil =>
          have hvw : nextAt c (payAt c v r0.size + r0.size) = w := hrest
          rw [hvw]; omega
        | cons r' rest => exact hrest.1
    · refine ⟨0, v, w, ?_, ⟨hwr, hlaid, hfirst, hsecond, hroom, hwindow⟩, by omega⟩
      rw [startRdIdx, hrd]
      dsimp only
      rw [if_neg (by omega)]

section Write

variable {s : LogBuf} {v w : Nat} {live : List (Record c)}

theorem Laid.blit {mem : Nat → UInt8} {rs : List (Record c)} (h : Laid mem v rs w) {x : Nat}
    (bytes : List UInt8) (hx : w ≤ x) (hB : c.buf_size ≤ x)
    (hwin : x + bytes.length ≤ v + c.buf_size) : Laid (blit mem (phys c x) bytes) v rs w := by
  apply h.frame
  intro y hy1 hy2
  apply blit_outside
  have hpx := phys_cases (c := c) x
  have hpy := phys_cases (c := c) y
  omega

/-- The log with a record written: its header at `wr_offset`, its payload at `cur`. -/
def written (s : LogBuf) (r : Record c) (cur rd wr : Nat) : LogBuf :=
  { s with
    log_data := blit (blit s.log_data s.wr_offset (r.arg.hdr c)) cur r.arg.payload
    rd_offset := some rd
    wr_offset := wr }

theorem logRecord_eq (s : LogBuf) (r : Record c) (rd rd' cur : Nat)
    (hfirst : (if c.buf_size - (s.wr_offset + c.hdrSize) < r.size then
      movWhile c (blit s.log_data s.wr_offset (r.arg.hdr c))
        (fun x => s.wr_offset + c.hdrSize ≤ x ∧ x < c.buf_size) c.buf_size (startRdIdx c s)
      else some (startRdIdx c s)) = some rd)
    (hcur : cur = if c.buf_size - (s.wr_offset + c.hdrSize) < r.size then 0
      else s.wr_offset + c.hdrSize)
    (hsecond : movWhile c (blit s.log_data s.wr_offset (r.arg.hdr c))
      (fun x => cur ≤ x ∧ x < cur + r.size) c.buf_size rd = some rd') :
    logRecord c s r.arg = some (written s r cur rd'
      (if c.hdrSize ≤ c.buf_size - (cur + r.size) then cur + r.size else 0)) := by
  have hsize : r.arg.log_size = r.size := rfl
  simp only [logRecord, pktlog_getbuf_intsafe, hsize, decide_eq_true_eq]
  rw [hfirst, Option.bind_some, ← hcur, hsecond]; rfl

theorem logRecord_fold (r : Record c) (hring : RingAt s v w live)
    (hstart : startRdIdx c s = phys c v) (hroom : w + c.hdrSize ≤ v + c.buf_size)
    (hfold : 2 * c.buf_size < w + c.hdrSize + r.size) :
    ∃ k v', logRecord c s r.arg = some (written s r 0 (phys c v') r.size) ∧
      RingAt (written s r 0 (phys c v') r.size) v' (c.buf_size + r.size) (live.drop k ++ [r]) := by
  have hf := r.fits'
  have hH := hdrSize_bounds c
  have hhlen := length_hdr c r.arg
  have hplen : r.arg.payload.length = r.size := rfl
  obtain ⟨hwr, hlaid, hfirst, hsecond, hlast, hwindow⟩ := hring
  have hle := hlaid.le
  have hpw := phys_ge hsecond
  have hlw := lapEnd_cases (c := c) w
  have hlaid1 := hlaid.blit (r.arg.hdr c) (Nat.le_refl w) hsecond (by omega)
  -- first the records in the rest of this round, then those where the payload goes
  obtain ⟨k1, v1, hloop1, hlaid2, hv1, hroom1, hout1⟩ := movWhile_laid
    (fun rd => phys c w + c.hdrSize ≤ rd ∧ rd < c.buf_size) (2 * c.buf_size) c.buf_size
    hlaid1 hfirst (by omega) (by omega) (by omega)
    (fun x h1 h2 h3 => by
      have hpx := phys_cases (c := c) x
      apply decide_eq_decide.mpr
      omega)
    (by omega)
  have hle1 := hlaid2.le
  obtain ⟨k2, v2, hloop2, hlaid3, hv2, hroom2, hout2⟩ := movWhile_laid
    (fun rd => 0 ≤ rd ∧ rd < 0 + r.size) (2 * c.buf_size + r.size) c.buf_size
    hlaid2 hroom1 (by omega) (by omega) (by omega)
    (fun x h1 h2 h3 => by
      have hpx := phys_cases (c := c) x
      apply decide_eq_decide.mpr
      omega)
    (by omega)
  have hle2 := hlaid3.le
  have hrebase := hlaid3.rebase (by omega) (by omega)
  have hp0 : phys c c.buf_size = 0 := by rw [phys_ge (Nat.le_refl _), Nat.sub_self]
  have hphys : phys c (v2 - c.buf_size) = phys c v2 := by
    rw [phys_lt (by omega), phys_ge (by omega)]
  have hphysw : phys c (w - c.buf_size) = phys c w := by
    rw [phys_lt (by omega), phys_ge hsecond]
  have hcode : logRecord c s r.arg = some (written s r 0 (phys c (v2 - c.buf_size)) r.size) := by
    have heq := logRecord_eq s r (phys c v1) (phys c v2) 0
      (by rw [if_pos (by omega), hstart, hwr]; exact hloop1) (by rw [if_pos (by omega)])
      (by rw [hwr]; exact hloop2)
    rw [if_pos (by omega), Nat.zero_add] at heq
    rw [heq, hphys]
  refine ⟨k1 + k2, v2 - c.buf_size, hcode, ?_, ?_, ?_, by omega, by omega, by omega⟩
  · have hps := phys_ge (show c.buf_size ≤ c.buf_size + r.size by omega)
    rw [hps, Nat.add_sub_cancel_left]; rfl
  · -- the payload goes to the place of the second round's start
    have hlw' := lapEnd_cases (c := c) (w - c.buf_size)
    have hpay := payAt_cases (c := c) (w - c.buf_size) r.size
    have hpayB : payAt c (w - c.buf_size) r.size = c.buf_size := by omega
    have hlaid4 := hrebase.blit r.arg.payload (x := c.buf_size) (by omega) (Nat.le_refl _)
      (by omega)
    have hls := lapEnd_cases (c := c) (c.buf_size + r.size)
    have hn := nextAt_cases (c := c) (c.buf_size + r.size)
    have happ := hlaid4.append r (by omega) (by omega) (by
      rw [hphysw, hp0, slice_blit_outside _ _ (by omega), ← hhlen, slice_blit])
      (by rw [hpayB, hp0, ← hplen, slice_blit])
    rw [hpayB, show nextAt c (c.buf_size + r.size) = c.buf_size + r.size by omega, hp0,
      drop_drop] at happ
    simp only [written, hwr]
    exact happ
  · have hl' := lapEnd_cases (c := c) (v2 - c.buf_size); omega

theorem logRecord_next (r : Record c) (hring : RingAt s v w live)
    (hstart : startRdIdx c s = phys c v) (hroom : w + c.hdrSize ≤ v + c.buf_size)
    (hnext : w + c.hdrSize + r.size ≤ 2 * c.buf_size) :
    ∃ k v' w' cur wr', logRecord c s r.arg = some (written s r cur (phys c v') wr') ∧
      RingAt (written s r cur (phys c v') wr') v' w' (live.drop k ++ [r]) := by
  have hH := hdrSize_bounds c
  have hhlen := length_hdr c r.arg
  have hplen : r.arg.payload.length = r.size := rfl
  obtain ⟨hwr, hlaid, hfirst, hsecond, hlast, hwindow⟩ := hring
  have hle := hlaid.le
  have hpw := phys_ge hsecond
  have hlw := lapEnd_cases (c := c) w
  have hlaid1 := hlaid.blit (r.arg.hdr c) (Nat.le_refl w) hsecond (by omega)
  obtain ⟨k, v1, hloop, hlaid2, hv1, hroom1, hout⟩ := movWhile_laid
    (fun rd => phys c w + c.hdrSize ≤ rd ∧ rd < phys c w + c.hdrSize + r.size)
    (w + c.hdrSize + r.size) c.buf_size hlaid1 hfirst (by omega) (by omega) (by omega)
    (fun x h1 h2 h3 => by
      have hpx := phys_cases (c := c) x
      apply decide_eq_decide.mpr
      omega)
    (by omega)
  have hcode := logRecord_eq s r (phys c v) (phys c v1) (phys c w + c.hdrSize)
    (by rw [if_neg (by omega), hstart])
    (by rw [if_neg (by omega), hwr]) (by rw [hwr]; exact hloop)
  have hpay := payAt_cases (c := c) w r.size
  have hpayw : payAt c w r.size = w + c.hdrSize := by omega
  have hpwH : phys c (w + c.hdrSize) = phys c w + c.hdrSize := by rw [phys_ge (by omega)]; omega
  have hlaid3 := hlaid2.blit r.arg.payload (x := w + c.hdrSize) (by omega) (by omega) (by omega)
  have happ := hlaid3.append r (by omega) (by omega) (by
    rw [hpwH, slice_blit_outside _ _ (by omega), ← hhlen, slice_blit])
    (by rw [hpayw, ← hplen, slice_blit])
  rw [hpayw, hpwH] at happ
  have hlv := lapEnd_cases (c := c) v1
  have hls := lapEnd_cases (c := c) (w + c.hdrSize + r.size)
  have hn := nextAt_cases (c := c) (w + c.hdrSize + r.size)
  by_cases hfit : w + c.hdrSize + r.size + c.hdrSize ≤ 2 * c.buf_size
  · -- there is room for the next header
    rw [show nextAt c (w + c.hdrSize + r.size) = w + c.hdrSize + r.size by omega] at happ
    rw [if_pos (by omega)] at hcode
    refine ⟨k, v1, _, _, _, hcode, ?_, ?_, hroom1, by omega, hfit, by omega⟩
    · have hps := phys_ge (show c.buf_size ≤ w + c.hdrSize + r.size by omega)
      simp only [written]
      omega
    · simp only [written, hwr]; exact happ
  · -- the next header goes to the start, and no record of the first round is left
    rw [show nextAt c (w + c.hdrSize + r.size) = 2 * c.buf_size by omega] at happ
    rw [if_neg (by omega)] at hcode
    have hphys : phys c v1 = phys c (v1 - c.buf_size) := by
      rw [phys_ge (show c.buf_size ≤ v1 by omega), phys_lt (by omega)]
    have hrebase := happ.rebase (by omega) (Nat.le_refl _)
    rw [show 2 * c.buf_size - c.buf_size = c.buf_size by omega] at hrebase
    rw [hphys] at hcode
    have hl' := lapEnd_cases (c := c) (v1 - c.buf_size)
    refine ⟨k, v1 - c.buf_size, c.buf_size, _, _, hcode, ?_, ?_, by omega, Nat.le_refl _,
      by omega, by omega⟩
    · have hps := phys_ge (Nat.le_refl c.buf_size)
      simp only [written]
      omega
    · simp only [written, hwr]; exact hrebase

theorem logRecord_ring (r : Record c) (h : Holds s live) :
    ∃ k s', logRecord c s r.arg = some s' ∧ Ring s' (live.drop k ++ [r]) := by
  obtain ⟨k, v, w, hstart, hring, hroom⟩ := startRdIdx_eq r h
  rcases Nat.lt_or_ge (2 * c.buf_size) (w + c.hdrSize + r.size) with hfold | hnext
  · obtain ⟨k', v', hcode, hring'⟩ := logRecord_fold r hring hstart hroom hfold
    rw [drop_drop] at hring'; exact ⟨k + k', _, hcode, by simp, v', _, rfl, hring'⟩
  · obtain ⟨k', v', w', cur, wr', hcode, hring'⟩ := logRecord_next r hring hstart hroom hnext
    rw [drop_drop] at hring'; exact ⟨k + k', _, hcode, by simp, v', w', rfl, hring'⟩

end Write

/-! ## A run of the writer -/

theorem logAll_ring (rs : List (Record c)) {s : LogBuf} {live : List (Record c)} (h : Ring s live) :
    ∃ s' live', logAll c s (rs.map Record.arg) = some s' ∧ Ring s' live' ∧
      live' <:+ live ++ rs := by
  induction rs generalizing s live with
  | nil =>
    have hsame : live <:+ live ++ [] := (append_nil live).symm ▸ suffix_refl live
    exact ⟨s, live, rfl, h, hsame⟩
  | cons r rs ih =>
    obtain ⟨k, s1, hlog, hring⟩ := logRecord_ring r (Or.inr h)
    obtain ⟨s', live', hall, hring', hsuffix⟩ := ih hring
    refine ⟨s', live', ?_, hring', ?_⟩
    · rw [map_cons, logAll, hlog]; exact hall
    · apply hsuffix.trans
      rw [append_assoc, singleton_append]
      exact ⟨live.take k, by rw [← append_assoc, take_append_drop]⟩

theorem logAll_fresh (r : Record c) (rs : List (Record c)) {s : LogBuf} (h : Fresh s) :
    ∃ s' live, logAll c s ((r :: rs).map Record.arg) = some s' ∧ Ring s' live ∧
      live <:+ r :: rs := by
  obtain ⟨k, s1, hlog, hring⟩ := logRecord_ring r (Or.inl ⟨h, rfl⟩)
  rw [drop_nil] at hring
  obtain ⟨s', live, hall, hring', hsuffix⟩ := logAll_ring rs hring
  refine ⟨s', live, ?_, hring', hsuffix⟩
  rw [map_cons, logAll, hlog]; exact hall

theorem logRecord_offset {s s' : LogBuf} {a : Arg} (h : logRecord c s a = some s') :
    s'.offset = s.offset := by
  unfold logRecord pktlog_getbuf_intsafe at h
  simp only [Option.map_eq_some_iff, Option.bind_eq_some_iff] at h
  obtain ⟨_, ⟨_, _, _, _, rfl⟩, rfl⟩ := h
  rfl

theorem logAll_offset (as : List Arg) {s s' : LogBuf} (h : logAll c s as = some s') :
    s'.offset = s.offset := by
  induction as generalizing s with
  | nil => exact congrArg LogBuf.offset (Option.some.inj h).symm
  | cons a as ih =>
    obtain ⟨s1, hlog, hall⟩ := Option.bind_eq_some_iff.mp h
    rw [ih hall, logRecord_offset hlog]

end

/-! `PKTLOG_MOV_RD_IDX` visits the headers of the records that lie in the buffer, all and in order.
-/

variable {c : Cfg}

/-! ## The records that are walked over -/

/-- The headers that are visited from `rd` on with `PKTLOG_MOV_RD_IDX`, up to `wr`. -/
def visited (c : Cfg) (mem : Nat → UInt8) (wr : Nat) : Nat → Nat → Option (List Nat)
  | 0, _ => none
  | passes + 1, rd =>
    let next := movRdIdx c mem rd
    if next = wr then some [rd] else (visited c mem wr passes next).map (rd :: ·)

def area (c : Cfg) (p size : Nat) : List Nat :=
  range' p c.hdrSize ++
    range' (if p + c.hdrSize + size ≤ c.buf_size then p + c.hdrSize else 0) size

def areas : List Nat → List (Record c) → List Nat
  | p :: ps, r :: rs => area c p r.size ++ areas ps rs
  | _, _ => []

def stream : List (Record c) → List UInt8
  | [] => []
  | r :: rs => r.bytes ++ stream rs

def heads : Nat → List (Record c) → List Nat
  | _, [] => []
  | v, r :: rs => v :: heads (nextAt c (payAt c v r.size + r.size)) rs

def spread : Nat → List (Record c) → List Nat
  | _, [] => []
  | v, r :: rs => range' v c.hdrSize ++ range' (payAt c v r.size) r.size ++
      spread (nextAt c (payAt c v r.size + r.size)) rs

section Walk

variable {mem : Nat → UInt8} {v w : Nat} {r : Record c} {rs : List (Record c)}

theorem Laid.next_eq (h : Laid mem v (r :: rs) w) (hwin : w ≤ v + c.buf_size) :
    phys c (nextAt c (payAt c v r.size + r.size)) = phys c w ↔ rs = [] := by
  obtain ⟨hv, h2, -, -, hrest⟩ := h
  have hb := payAt_bounds r hv h2
  have hH := hdrSize_bounds c
  constructor
  · intro heq
    by_contra hne
    obtain ⟨r', rs', rfl⟩ := exists_cons_of_ne_nil hne
    have hle := hrest.le
    rw [length_cons] at hle; exact phys_ne (by omega) (by omega) heq
  · rintro rfl
    have hvw : nextAt c (payAt c v r.size + r.size) = w := hrest
    rw [hvw]

theorem visited_laid (passes : Nat) (h : Laid mem v (r :: rs) w) (hw : w < 2 * c.buf_size)
    (hwin : w ≤ v + c.buf_size) (hp : rs.length < passes) :
    visited c mem (phys c w) passes (phys c v) = some ((heads v (r :: rs)).map (phys c)) := by
  induction rs generalizing v r passes with
  | nil =>
    obtain ⟨passes, rfl⟩ : ∃ p, passes = p + 1 := ⟨passes - 1, by omega⟩
    rw [visited, h.mov hw]; exact if_pos ((h.next_eq hwin).mpr rfl)
  | cons r' rs ih =>
    obtain ⟨passes, rfl⟩ : ∃ p, passes = p + 1 := ⟨passes - 1, by omega⟩
    have hb := payAt_bounds r h.1 h.2.1
    have hne := mt (h.next_eq hwin).mp (cons_ne_nil _ _)
    have hrest := ih passes h.2.2.2.2 (by omega) (by rw [length_cons] at hp; omega)
    rw [visited, h.mov hw]
    simp only [if_neg hne, hrest]
    rfl

theorem Laid.headers (h : Laid mem v rs w) :
    List.Forall₂ (fun p r => slice mem p c.hdrSize = r.arg.hdr c) ((heads v rs).map (phys c))
      rs := by
  induction rs generalizing v with
  | nil => exact List.Forall₂.nil
  | cons r rs ih => obtain ⟨-, -, hhdr, -, hrest⟩ := h; exact List.Forall₂.cons hhdr (ih hrest)

theorem map_phys_range' {x n : Nat} (hx : x + n ≤ lapEnd c x) :
    (range' x n).map (phys c) = range' (phys c x) n := by
  apply ext_getElem?
  intro i
  by_cases hi : i < n
  · simp only [getElem?_map, getElem?_range' hi, Option.map_some, Nat.one_mul]
    rw [phys_add hx hi]
  · rw [getElem?_eq_none (by simp; omega), getElem?_eq_none (by simp; omega)]

theorem area_laid (h : Laid mem v (r :: rs) w) :
    area c (phys c v) r.size =
      range' (phys c v) c.hdrSize ++ range' (phys c (payAt c v r.size)) r.size := by
  obtain ⟨hv, h2, -, -, -⟩ := h
  rw [area]
  rcases Nat.eq_zero_or_pos r.size with h0 | h0
  · rw [h0]; rfl
  · have hl := lapEnd_cases (c := c) v
    have hp := payAt_cases (c := c) v r.size
    have hpv := phys_cases (c := c) v
    have hpp := phys_cases (c := c) (payAt c v r.size)
    congr 2
    split <;> omega

theorem areas_laid (h : Laid mem v rs w) :
    areas ((heads v rs).map (phys c)) rs = (spread v rs).map (phys c) := by
  induction rs generalizing v with
  | nil => rfl
  | cons r rs ih =>
    have hb := payAt_bounds r h.1 h.2.1
    rw [heads, map_cons, areas, area_laid h, ih h.2.2.2.2, spread, map_append,
      map_append, map_phys_range' h.1, map_phys_range' hb.2.1]

theorem spread_sorted (h : Laid mem v rs w) :
    (spread v rs).Pairwise (· < ·) ∧ ∀ x ∈ spread v rs, v ≤ x ∧ x < w := by
  induction rs generalizing v with
  | nil => exact ⟨Pairwise.nil, nofun⟩
  | cons r rs ih =>
    obtain ⟨hv, h2, -, -, hrest⟩ := h
    have hb := payAt_bounds r hv h2
    have hle := hrest.le
    obtain ⟨hsorted, hbounds⟩ := ih hrest
    constructor
    · rw [spread, pairwise_append, pairwise_append]
      refine ⟨⟨pairwise_lt_range', pairwise_lt_range', ?_⟩, hsorted, ?_⟩
      · intro x hx y hy
        rw [mem_range'_1] at hx hy; omega
      · intro x hx y hy
        have hxy := hbounds y hy
        rw [mem_append, mem_range'_1, mem_range'_1] at hx; omega
    · intro x hx
      rw [spread, mem_append, mem_append, mem_range'_1, mem_range'_1] at hx
      rcases hx with (hx | hx) | hx
      · omega
      · omega
      · have hxb := hbounds x hx; omega

theorem areas_nodup (h : Laid mem v rs w) (hw : w ≤ 2 * c.buf_size) (hwin : w ≤ v + c.buf_size) :
    (areas ((heads v rs).map (phys c)) rs).Nodup ∧
      ∀ i ∈ areas ((heads v rs).map (phys c)) rs, i < c.buf_size := by
  obtain ⟨hsorted, hbounds⟩ := spread_sorted h
  rw [areas_laid h]
  constructor
  · apply pairwise_map.mpr
    apply hsorted.imp_of_mem
    intro x y hx hy hxy
    have hxb := hbounds x hx
    have hyb := hbounds y hy
    exact phys_ne hxy (by omega)
  · intro i hi
    obtain ⟨x, hx, rfl⟩ := mem_map.mp hi
    have hxb := hbounds x hx
    have hpx := phys_cases (c := c) x
    omega

end Walk

end

open Option

/-! The readers take a payload that ends exactly with the buffer for a folded one, and add its size
to the place of its header when the last payload is folded. -/

variable {c : Cfg}

/-! ## The end and the fold -/

/-- The headers `ps` lie so that the readers find the fold and the end where the writer put them:
no payload ends with the buffer, and the last record ends before it. -/
def Intact (c : Cfg) (mem : Nat → UInt8) : List Nat → Prop
  | [] => True
  | [p] => p + c.hdrSize + sizeAt mem p < c.buf_size
  | p :: p' :: ps => (p + c.hdrSize + sizeAt mem p = c.buf_size → sizeAt mem p = 0) ∧
      Intact c mem (p' :: ps)

def chunk (mem : Nat → UInt8) (start : Nat) : Option Nat → Nat → List UInt8
  | none, stop => slice mem start (stop + 1 - start)
  | some fold, stop => slice mem start (fold + 1 - start) ++ slice mem 0 (stop + 1)

section FindEnd

variable {mem : Nat → UInt8} {v w : Nat} {r : Record c} {rs : List (Record c)}

theorem sizeAt_laid (h : Laid mem v (r :: rs) w) : sizeAt mem (phys c v) = r.size :=
  sizeAt_of_slice r h.2.2.1

theorem findEnd_cons (h : Laid mem v (r :: rs) w) (hw : w < 2 * c.buf_size) (passes : Nat)
    (fold : Option Nat) :
    findEnd c mem (phys c w) (passes + 1) (phys c v) fold =
      if phys c (nextAt c (payAt c v r.size + r.size)) = phys c w then
        some (foldOffset c (phys c w) (phys c v + c.hdrSize) r.size
          (phys c (nextAt c (payAt c v r.size + r.size))) fold, phys c v + c.hdrSize + r.size - 1)
      else findEnd c mem (phys c w) passes (phys c (nextAt c (payAt c v r.size + r.size)))
        (foldOffset c (phys c w) (phys c v + c.hdrSize) r.size
          (phys c (nextAt c (payAt c v r.size + r.size))) fold) := by
  rw [findEnd, sizeAt_laid h, h.mov hw]

theorem foldOffset_eq {wr ldo size cur : Nat} {fold : Option Nat} (h : ldo + size < c.buf_size)
    (hcur : cur ≠ 0 ∨ cur = wr) : foldOffset c wr ldo size cur fold = fold := by
  unfold foldOffset
  rw [if_neg (by omega), if_neg (by omega)]

theorem second_round_bounds (h : Laid mem v (r :: rs) w) (hv : c.buf_size ≤ v)
    (hroom : w + c.hdrSize ≤ 2 * c.buf_size) :
    payAt c v r.size = v + c.hdrSize ∧
      nextAt c (payAt c v r.size + r.size) = v + c.hdrSize + r.size ∧
      v + c.hdrSize + r.size ≤ w := by
  obtain ⟨hlap, h2, -, -, hrest⟩ := h
  have hle := hrest.le
  have hl := lapEnd_cases (c := c) v
  have hp := payAt_cases (c := c) v r.size
  have hls := lapEnd_cases (c := c) (payAt c v r.size + r.size)
  have hn := nextAt_cases (c := c) (payAt c v r.size + r.size)
  omega

theorem slice_record (h : Laid mem v (r :: rs) w) (hpay : payAt c v r.size = v + c.hdrSize)
    (hlap : v + c.hdrSize + r.size ≤ lapEnd c v) :
    slice mem (phys c v) (c.hdrSize + r.size) = r.bytes := by
  obtain ⟨-, -, hhdr, hdata, -⟩ := h
  rw [slice_add, hhdr, Record.bytes]
  rw [hpay] at hdata
  rcases Nat.eq_zero_or_pos r.size with h0 | h0
  · rw [← hdata, h0]; rfl
  · rw [phys_add (n := c.hdrSize + r.size) (i := c.hdrSize) (by omega) (by omega), hdata]

theorem second_round (h : Laid mem v (r :: rs) w) (hv : c.buf_size ≤ v)
    (hroom : w + c.hdrSize ≤ 2 * c.buf_size) (hwin : w ≤ v + c.buf_size) (passes : Nat)
    (fold : Option Nat) (hp : rs.length < passes) :
    findEnd c mem (phys c w) passes (phys c v) fold = some (fold, w - c.buf_size - 1) ∧
      slice mem (phys c v) (w - v) = stream (r :: rs) ∧
      Intact c mem ((heads v (r :: rs)).map (phys c)) := by
  have hH := hdrSize_bounds c
  induction rs generalizing v r passes with
  | nil =>
    obtain ⟨hpay, hnext, hle⟩ := second_round_bounds h hv hroom
    have hvw : nextAt c (payAt c v r.size + r.size) = w := h.2.2.2.2
    obtain ⟨passes, rfl⟩ : ∃ p, passes = p + 1 := ⟨passes - 1, by omega⟩
    have hpv := phys_ge hv
    have hl := lapEnd_cases (c := c) v
    refine ⟨?_, ?_, ?_⟩
    · rw [findEnd_cons h (by omega), if_pos (by rw [hvw]), hvw, foldOffset_eq (by omega) (by omega)]
      congr 2
      omega
    · rw [stream, stream, append_nil, ← slice_record h hpay (by omega)]
      congr 1
      omega
    · change phys c v + c.hdrSize + sizeAt mem (phys c v) < c.buf_size
      rw [sizeAt_laid h]; omega
  | cons r' rs ih =>
    obtain ⟨hpay, hnext, hle⟩ := second_round_bounds h hv hroom
    have hne := mt (h.next_eq hwin).mp (cons_ne_nil _ _)
    have hsize := sizeAt_laid h
    have hbytes := slice_record h hpay (by have hl := lapEnd_cases (c := c) v; omega)
    obtain ⟨passes, rfl⟩ : ∃ p, passes = p + 1 := ⟨passes - 1, by omega⟩
    have hcons := findEnd_cons h (by omega) passes fold
    have hrest := h.2.2.2.2
    rw [length_cons] at hp
    obtain ⟨hfind, hslice, hintact⟩ := ih hrest (by omega) (by omega) passes (by omega)
    rw [hnext] at hcons hne hfind hslice
    have hpv := phys_ge hv
    have hpn := phys_ge (show c.buf_size ≤ v + c.hdrSize + r.size by omega)
    refine ⟨?_, ?_, ?_⟩
    · rw [hcons, if_neg hne, foldOffset_eq (by omega) (by omega), hfind]
    · rw [stream, ← hslice, ← hbytes,
        show w - v = c.hdrSize + r.size + (w - (v + c.hdrSize + r.size)) by omega, slice_add]
      congr 2
      omega
    · refine ⟨fun heq => ?_, hintact⟩; omega

theorem foldOffset_folded {wr ldo size cur : Nat} (h : c.buf_size ≤ ldo + size) :
    foldOffset c wr ldo size cur none = some (ldo - 1) := by
  have hfold : c.buf_size - ldo ≤ size := by omega
  simp [foldOffset, hfold]

theorem foldOffset_slack {wr ldo size : Nat} (h : ldo + size < c.buf_size) (hwr : 0 ≠ wr) :
    foldOffset c wr ldo size 0 none = some (ldo + size - 1) := by
  have hfold : ¬c.buf_size - ldo ≤ size := by omega
  simp [foldOffset, hfold, hwr]

theorem chunk_add (mem : Nat → UInt8) {x y stop : Nat} {fold : Option Nat} (hxy : x ≤ y)
    (hy : y ≤ fold.getD stop) :
    chunk mem x fold stop = slice mem x (y - x) ++ chunk mem y fold stop := by
  cases fold with
  | none =>
    rw [getD_none] at hy
    rw [chunk, chunk, show stop + 1 - x = (y - x) + (stop + 1 - y) by omega, slice_add,
      Nat.add_sub_cancel' hxy]
  | some fold =>
    rw [getD_some] at hy
    rw [chunk, chunk, show fold + 1 - x = (y - x) + (fold + 1 - y) by omega, slice_add,
      Nat.add_sub_cancel' hxy, append_assoc]

theorem first_round_last (h : Laid mem v [r] w) (hv : v < c.buf_size)
    (hroom : w + c.hdrSize ≤ 2 * c.buf_size) (passes : Nat) :
    ∃ fold stop, findEnd c mem (phys c w) (passes + 1) (phys c v) none = some (fold, stop) ∧
      v ≤ fold.getD stop ∧
      (chunk mem v fold stop = stream [r] ↔ v + c.hdrSize + r.size < c.buf_size) := by
  have hH := hdrSize_bounds c
  have hvw : nextAt c (payAt c v r.size + r.size) = w := h.2.2.2.2
  have hpv := phys_lt hv
  have hfind := findEnd_cons h (by omega) passes none
  rw [if_pos (by rw [hvw]), hvw, hpv] at hfind
  rcases Nat.lt_or_ge (v + c.hdrSize + r.size) c.buf_size with hlt | hge
  · have hl := lapEnd_cases (c := c) v
    have hp := payAt_cases (c := c) v r.size
    rw [foldOffset_eq hlt (Or.inr rfl)] at hfind
    refine ⟨none, v + c.hdrSize + r.size - 1, ?_, ?_, ?_⟩
    · rw [hpv]; exact hfind
    · rw [getD_none]; omega
    · have hbytes := slice_record h (by omega) (by omega)
      rw [hpv] at hbytes
      rw [chunk, stream, stream, append_nil, ← hbytes,
        show v + c.hdrSize + r.size - 1 + 1 - v = c.hdrSize + r.size by omega]
      exact iff_of_true rfl hlt
  · rw [foldOffset_folded hge] at hfind
    refine ⟨some (v + c.hdrSize - 1), v + c.hdrSize + r.size - 1, ?_, ?_, ?_⟩
    · rw [hpv]; exact hfind
    · rw [getD_some]; omega
    · -- the second piece is the whole buffer at least
      apply iff_of_false _ (by omega)
      intro heq
      have hlen := congrArg List.length heq
      rw [chunk, stream, stream, append_nil, Record.length_bytes, length_append,
        length_slice, length_slice] at hlen
      omega

theorem first_round_fold {r' : Record c} (h : Laid mem v (r :: r' :: rs) w)
    (hv : v < c.buf_size) (hnext : c.buf_size ≤ nextAt c (payAt c v r.size + r.size))
    (hroom : w + c.hdrSize ≤ 2 * c.buf_size) (hwin : w ≤ v + c.buf_size) (passes : Nat)
    (hp : rs.length < passes) :
    ∃ fold stop, findEnd c mem (phys c w) (passes + 1) (phys c v) none = some (fold, stop) ∧
      v ≤ fold.getD stop ∧
      (chunk mem v fold stop = stream (r :: r' :: rs) ↔
        (v + c.hdrSize + r.size = c.buf_size → r.size = 0)) := by
  have hH := hdrSize_bounds c
  have hrest := h.2.2.2.2
  have hle := hrest.le
  rw [length_cons] at hle
  have hne := mt (h.next_eq hwin).mp (cons_ne_nil _ _)
  have hl := lapEnd_cases (c := c) v
  have hpay := payAt_cases (c := c) v r.size
  have hls := lapEnd_cases (c := c) (payAt c v r.size + r.size)
  have hn := nextAt_cases (c := c) (payAt c v r.size + r.size)
  have hpv := phys_lt hv
  have hpn := phys_ge hnext
  have hfind := findEnd_cons h (by omega) passes none
  rw [if_neg hne, hpv] at hfind
  have hsecond (fold : Option Nat) := second_round hrest hnext hroom (by omega) passes fold
    (by omega)
  obtain ⟨-, hslice, -⟩ := hsecond none
  have hhdr := h.2.2.1
  have hdata := h.2.2.2.1
  rw [hpv] at hhdr ⊢
  have hstream : stream (r :: r' :: rs) = r.bytes ++ stream (r' :: rs) := rfl
  have hstop : w - c.buf_size - 1 + 1 = w - c.buf_size := by omega
  rcases Nat.lt_trichotomy (v + c.hdrSize + r.size) c.buf_size with hlt | heq | hgt
  · -- the header after it did not fit
    have hbytes := slice_record h (by omega) (by omega)
    have hnextB : nextAt c (payAt c v r.size + r.size) = c.buf_size := by omega
    rw [hnextB] at hfind hne hslice hsecond hpn
    rw [Nat.sub_self] at hpn
    rw [hpn] at hfind hne hslice hsecond
    rw [foldOffset_slack hlt hne, (hsecond _).1] at hfind
    rw [hpv] at hbytes
    refine ⟨_, _, hfind, by rw [getD_some]; omega, iff_of_true ?_ (by omega)⟩
    rw [chunk, hstop, hslice, hstream, ← hbytes,
      show v + c.hdrSize + r.size - 1 + 1 - v = c.hdrSize + r.size by omega]
  · -- the readers take the payload for a folded one
    have hnextB : nextAt c (payAt c v r.size + r.size) = c.buf_size := by omega
    rw [hnextB] at hfind hne hslice hsecond hpn
    rw [Nat.sub_self] at hpn
    rw [hpn] at hfind hne hslice hsecond
    rw [foldOffset_folded (by omega), (hsecond _).1] at hfind
    refine ⟨_, _, hfind, by rw [getD_some]; omega, ?_⟩
    rw [chunk, hstop, hslice, hstream, Record.bytes, ← hhdr,
      show v + c.hdrSize - 1 + 1 - v = c.hdrSize by omega, append_assoc,
      append_cancel_left_eq]
    constructor
    · intro hrest' _
      have hlen := congrArg List.length hrest'
      rw [length_append] at hlen
      have hplen : r.arg.payload.length = r.size := rfl
      omega
    · intro h0
      have hnil : r.arg.payload = [] := eq_nil_of_length_eq_zero (h0 heq)
      rw [hnil, nil_append]
  · -- the payload is folded
    have hpayB : payAt c v r.size = c.buf_size := by omega
    have hnextB : nextAt c (payAt c v r.size + r.size) = c.buf_size + r.size := by omega
    rw [hpayB, phys_ge (Nat.le_refl _), Nat.sub_self] at hdata
    rw [foldOffset_folded (by omega), (hsecond _).1] at hfind
    refine ⟨_, _, hfind, by rw [getD_some]; omega, iff_of_true ?_ (by omega)⟩
    rw [hnextB] at hslice hpn hle
    rw [hpn, Nat.add_sub_cancel_left] at hslice
    rw [chunk, hstop, hstream, Record.bytes, ← hslice, ← hhdr, ← hdata,
      show v + c.hdrSize - 1 + 1 - v = c.hdrSize by omega,
      show w - c.buf_size = r.size + (w - (c.buf_size + r.size)) by omega, slice_add,
      Nat.zero_add, append_assoc]

theorem first_round (h : Laid mem v (r :: rs) w) (hv : v < c.buf_size)
    (hroom : w + c.hdrSize ≤ 2 * c.buf_size) (hwin : w ≤ v + c.buf_size) (passes : Nat)
    (hp : rs.length < passes) :
    ∃ fold stop, findEnd c mem (phys c w) passes (phys c v) none = some (fold, stop) ∧
      v ≤ fold.getD stop ∧
      (chunk mem v fold stop = stream (r :: rs) ↔
        Intact c mem ((heads v (r :: rs)).map (phys c))) := by
  have hH := hdrSize_bounds c
  have hsize := sizeAt_laid h
  have hpv := phys_lt hv
  obtain ⟨passes, rfl⟩ : ∃ p, passes = p + 1 := ⟨passes - 1, by omega⟩
  induction rs generalizing v r passes with
  | nil =>
    obtain ⟨fold, stop, hfind, hle, hchunk⟩ := first_round_last h hv hroom passes
    refine ⟨fold, stop, hfind, hle, hchunk.trans ?_⟩
    rw [heads, map_cons, heads, map_nil, Intact, hsize, hpv]
  | cons r' rs ih =>
    rw [length_cons] at hp
    have hrest := h.2.2.2.2
    have hintact : Intact c mem ((heads v (r :: r' :: rs)).map (phys c)) ↔
        (v + c.hdrSize + r.size = c.buf_size → r.size = 0) ∧
          Intact c mem ((heads (nextAt c (payAt c v r.size + r.size)) (r' :: rs)).map
            (phys c)) := by rw [heads, heads, map_cons, map_cons, Intact, hsize, hpv]
    rw [hintact]
    rcases Nat.lt_or_ge (nextAt c (payAt c v r.size + r.size)) c.buf_size with hlt | hge
    · -- the record is followed by another one in this round
      have hne := mt (h.next_eq hwin).mp (cons_ne_nil _ _)
      have hl := lapEnd_cases (c := c) v
      have hpay := payAt_cases (c := c) v r.size
      have hls := lapEnd_cases (c := c) (payAt c v r.size + r.size)
      have hn := nextAt_cases (c := c) (payAt c v r.size + r.size)
      have hnext : nextAt c (payAt c v r.size + r.size) = v + c.hdrSize + r.size := by omega
      have hpn := phys_lt hlt
      have hbytes := slice_record h (by omega) (by omega)
      have hcons := findEnd_cons h (by omega) passes none
      obtain ⟨passes, rfl⟩ : ∃ p, passes = p + 1 := ⟨passes - 1, by omega⟩
      obtain ⟨fold, stop, hfind, hle, hchunk⟩ := ih hrest hlt (by omega) (sizeAt_laid hrest)
        hpn passes (by omega)
      rw [if_neg hne, foldOffset_eq (by omega) (by omega), hfind] at hcons
      refine ⟨fold, stop, hcons, by omega, ?_⟩
      have hadd := chunk_add mem (show v ≤ v + c.hdrSize + r.size by omega)
        (show v + c.hdrSize + r.size ≤ fold.getD stop by omega)
      rw [hnext] at hchunk ⊢
      rw [hpv] at hbytes
      rw [hadd, stream, ← hbytes, show v + c.hdrSize + r.size - v = c.hdrSize + r.size by omega,
        append_cancel_left_eq, hchunk]
      exact (and_iff_right (by omega)).symm
    · obtain ⟨fold, stop, hfind, hle, hchunk⟩ :=
        first_round_fold h hv hge hroom hwin passes (by omega)
      refine ⟨fold, stop, hfind, hle, hchunk.trans ?_⟩
      have hsecond := (second_round hrest hge hroom (by omega) (rs.length + 1) none (by omega)).2.2
      exact (and_iff_left hsecond).symm

end FindEnd

/-! ## Reading -/

theorem slice_drop (mem : Nat → UInt8) (p n k : Nat) :
    (slice mem p n).drop k = slice mem (p + k) (n - k) := by
  rcases Nat.le_total k n with h | h
  · conv_lhs => rw [← Nat.add_sub_cancel' h, slice_add]
    rw [drop_left' (length_slice mem p k)]
  · rw [drop_eq_nil_of_le (by rw [length_slice]; exact h), Nat.sub_eq_zero_of_le h]
    rfl

theorem copyLog_eq (mem : Nat → UInt8) (start : Nat) (fold : Option Nat) (stop : Nat)
    {ppos ret : Nat} (rem_len : Nat) (hstart : start ≤ fold.getD stop) (hpos : 8 ≤ ppos + ret) :
    copyLog mem start fold stop ppos ret rem_len =
      ((chunk mem start fold stop).drop (ppos + ret - 8)).take rem_len := by
  cases fold with
  | none =>
    rw [chunk, slice_drop, slice_take, copyLog]
    split
    · rw [show stop + 1 - start - (ppos + ret - 8) = 0 by omega, Nat.min_zero]; rfl
    · congr 1 <;> omega
  | some fold =>
    rw [getD_some] at hstart
    have hfirst : (if ppos + ret - 8 + start ≤ fold then
        slice mem (ppos + ret - 8 + start)
          (min rem_len (fold - (ppos + ret - 8 + start) + 1)) else []) =
        slice mem (start + (ppos + ret - 8))
          (min rem_len (fold + 1 - start - (ppos + ret - 8))) := by
      split
      · congr 1 <;> omega
      · rw [show fold + 1 - start - (ppos + ret - 8) = 0 by omega, Nat.min_zero]; rfl
    rw [chunk, drop_append, take_append, slice_drop, slice_drop, slice_take,
      slice_take, length_slice, length_slice, copyLog]
    simp only [hfirst, length_slice]
    split
    · rw [show min (rem_len - (fold + 1 - start - (ppos + ret - 8)))
        (stop + 1 - (ppos + ret - 8 - (fold + 1 - start))) = 0 by omega]
      exact (append_nil _).symm
    · split
      · congr 2 <;> omega
      · rw [show min (rem_len - (fold + 1 - start - (ppos + ret - 8)))
          (stop + 1 - (ppos + ret - 8 - (fold + 1 - start))) = 0 by omega]
        exact (append_nil _).symm

theorem BufHdr.length_bytes (b : BufHdr) : b.bytes.length = 8 := rfl

theorem readBytes_eq (b : BufHdr) {s : LogBuf} {start stop : Nat} {fold : Option Nat}
    (hrd : s.rd_offset = some start)
    (hfind : findEnd c s.log_data s.wr_offset c.buf_size start none = some (fold, stop))
    (hstart : start ≤ fold.getD stop) (nbytes ppos : Nat) :
    readBytes c b.bytes s nbytes ppos =
      some (((b.bytes ++ chunk s.log_data start fold stop).drop ppos).take nbytes) := by
  have hlen := b.length_bytes
  have hhdr : (if ppos < 8 then (b.bytes.drop ppos).take (min (8 - ppos) nbytes) else []) =
      (b.bytes.drop ppos).take nbytes := by
    split
    · rw [Nat.min_comm, ← take_take, take_of_length_le (i := 8 - ppos)]
      rw [length_drop]; omega
    · rw [drop_eq_nil_of_le (by omega), take_nil]
  rw [readBytes, hrd, drop_append, take_append]
  simp only [hhdr, hfind, map_some, length_take, length_drop, hlen]
  split
  · rw [show nbytes - (8 - ppos) = 0 by omega, take_zero, append_nil]
  · rw [copyLog_eq _ _ _ _ _ hstart (by omega)]
    congr 3
    · omega
    · congr 1; omega

end Qcacld.Pktlog
