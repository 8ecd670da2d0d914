/-
Bundles of packets: `htc_issue_packets_bundle` in `htc_send.c`.

The packets of a queue are copied one after the other into a buffer of a number of credits, each
with padding after it, and the buffer is sent when the next packet does not fit into it. On USB no
headers are written here, and the padding of a bundle's last packet is not sent. A bundle is what
was placed in its buffer, with where; the bytes themselves are not followed.
-/
import Mathlib.Data.List.Chain
import Qcacld.Lib.NextFit

set_option autoImplicit false

namespace Qcacld.HtcBundle

section

def HTC_HDR_LENGTH : Nat := 8

def HTC_MIN_MSG_PER_BUNDLE : Nat := 2

def HTC_FLAGS_SEND_BUNDLE : UInt8 := 2

/-- What the target and the endpoint say: the credit sizes come as fields of 16 bits, and neither
of them is used when it is 0. -/
structure Cfg where
  /-- The bus is USB. -/
  usb : Bool
  MaxMsgsPerHTCBundle : Nat
  TargetCreditSize : Nat
  TxCreditSize : Nat
  credit_pos : 0 < TxCreditSize
  credit_lt : TxCreditSize < 2 ^ 16

/-- Lengths have no bound here. Below `2 ^ 30` no `int` of the code overflows, since a bundle is either
one packet or has at most `MaxMsgsPerHTCBundle * TxCreditSize` bytes, which are less than `2 ^ 24`. -/
structure Packet where
  ActualLength : Nat
  SendFlags : UInt8
  Endpoint : UInt8
  SeqNo : UInt8
  frag_len : List Nat
  frags : ActualLength + HTC_HDR_LENGTH ≤ frag_len.sum

structure FrameHdr where
  EndpointID : UInt8
  Flags : UInt8
  PayloadLen : UInt16
  ControlBytes1 : UInt8
  reserved : UInt16

structure Placed where
  offset : Nat
  packet : Packet
  hdr : Option FrameHdr

structure Buffer where
  pBundleBuffer : Nat
  placed : List Placed

def Buffer.empty : Buffer := { pBundleBuffer := 0, placed := [] }

structure Bundle where
  data_len : Nat
  placed : List Placed

structure Sent where
  bundles : List Bundle
  queue : List Packet

variable (cfg : Cfg)

/-! ## One packet -/

def Packet.length (p : Packet) : Nat := p.ActualLength + HTC_HDR_LENGTH

def creditPad (p : Packet) : Nat :=
  let transferLength := p.length
  let creditRemainder := transferLength % cfg.TxCreditSize
  if creditRemainder ≠ 0 then
    if transferLength < cfg.TxCreditSize then cfg.TxCreditSize - transferLength
    else creditRemainder
  else 0

def transferLength (p : Packet) : Nat := p.length + creditPad cfg p

def frameHdr (p : Packet) : FrameHdr where
  EndpointID := p.Endpoint
  Flags := p.SendFlags ||| HTC_FLAGS_SEND_BUNDLE
  PayloadLen := UInt16.ofNat p.ActualLength
  ControlBytes1 := p.SeqNo
  reserved := UInt16.ofNat (creditPad cfg p)

def copyFrags : List Nat → Nat → Nat
  | [], _ => 0
  | frag_len :: frags, nbytes =>
    if nbytes = 0 then 0
    else min frag_len nbytes + copyFrags frags (nbytes - min frag_len nbytes)

def Buffer.put (b : Buffer) (p : Packet) : Buffer where
  pBundleBuffer := b.pBundleBuffer + copyFrags p.frag_len p.length + creditPad cfg p
  placed := b.placed ++ [{
    offset := b.pBundleBuffer
    packet := p
    hdr := if cfg.usb then none else some (frameHdr cfg p) }]

/-! ## The queue -/

def htc_send_bundled_netbuf (b : Buffer) (last_credit_pad : Nat) : Bundle :=
  { data_len := b.pBundleBuffer - last_credit_pad, placed := b.placed }

def bundleSpace : Int := (cfg.MaxMsgsPerHTCBundle * cfg.TxCreditSize : Nat)

def lastCreditPad (last_credit_pad : Nat) (p : Packet) : Nat :=
  if cfg.usb then creditPad cfg p else last_credit_pad

def bundleLoop (alloc : Nat → Bool) :
    Nat → List Bundle → Buffer → Int → Nat → List Packet → Sent
  | _, sent, b, _, last_credit_pad, [] =>
    { bundles :=
        if b.pBundleBuffer ≠ 0 then sent ++ [htc_send_bundled_netbuf b last_credit_pad] else sent
      queue := [] }
  | n, sent, b, space, last_credit_pad, p :: queue =>
    if space < transferLength cfg p then
      let sent := sent ++ [htc_send_bundled_netbuf b last_credit_pad]
      if queue.length < HTC_MIN_MSG_PER_BUNDLE then { bundles := sent, queue := queue }
      else if alloc n then
        bundleLoop alloc (n + 1) sent (Buffer.empty.put cfg p)
          (bundleSpace cfg - transferLength cfg p) (lastCreditPad cfg last_credit_pad p) queue
      else { bundles := sent, queue := queue }
    else
      bundleLoop alloc n sent (b.put cfg p) (space - transferLength cfg p)
        (lastCreditPad cfg last_credit_pad p) queue

/-- `alloc` says which calls of `allocate_htc_bundle_packet` get a buffer. -/
def htc_issue_packets_bundle (alloc : Nat → Bool) (queue : List Packet) : Sent :=
  if alloc 0 then bundleLoop cfg alloc 1 [] Buffer.empty (bundleSpace cfg) 0 queue
  else { bundles := [], queue := queue }

end

open Lib List

/-! The layout of bundles (`issue_right_iff`). -/

variable (cfg : Cfg)

/-! ## What a layout should be -/

def padding (p : Packet) : Nat :=
  (cfg.TxCreditSize - p.length % cfg.TxCreditSize) % cfg.TxCreditSize

def padded (p : Packet) : Nat := p.length + padding cfg p

/-- Each packet starts at a multiple of the credit size, and the next one, or the end, comes after
its padding, which the header names; on USB the last padding is not sent. The bytes are within the
credits of a bundle, and within the buffer that is allocated for it. -/
structure Bundle.Right (b : Bundle) : Prop where
  start : ∀ x ∈ b.placed, cfg.TxCreditSize ∣ x.offset
  next : b.placed.IsChain fun x y => y.offset = x.offset + padded cfg x.packet
  stop : ∀ x ∈ b.placed.getLast?,
    b.data_len = x.offset + if cfg.usb then x.packet.length else padded cfg x.packet
  hdr : cfg.usb = false →
    ∀ x ∈ b.placed, ∃ h, x.hdr = some h ∧ h.reserved.toNat = padding cfg x.packet
  space : b.data_len ≤ cfg.MaxMsgsPerHTCBundle * cfg.TxCreditSize
  buffer : b.data_len ≤ cfg.MaxMsgsPerHTCBundle * cfg.TargetCreditSize

def Bundle.lastPadding (b : Bundle) : Nat := b.placed.getLast?.elim 0 fun x => padding cfg x.packet

/-- Each packet that has left the queue is in a bundle, in order, the bundles are laid out right,
and what is sent is the padded packets, without the last paddings on USB. -/
structure Sent.Right (queue : List Packet) (r : Sent) : Prop where
  each : r.bundles.flatMap (fun b => b.placed.map (·.packet)) ++ r.queue = queue
  layout : ∀ b ∈ r.bundles, b.Right cfg
  total : (r.bundles.map (·.data_len)).sum +
      (if cfg.usb then (r.bundles.map (·.lastPadding cfg)).sum else 0) =
    ((r.bundles.flatMap (·.placed)).map fun x => padded cfg x.packet).sum

/-! ## When it is -/

/-- Full credits, less than one credit, or credits and a half. -/
def PadRight (p : Packet) : Prop :=
  p.length % cfg.TxCreditSize = 0 ∨ p.length < cfg.TxCreditSize ∨
    2 * (p.length % cfg.TxCreditSize) = cfg.TxCreditSize

theorem creditPad_lt (p : Packet) : creditPad cfg p < cfg.TxCreditSize := by
  have hmod := Nat.mod_lt p.length cfg.credit_pos
  have hlen : 0 < p.length := Nat.succ_pos _
  simp only [creditPad]
  split
  · split
    · exact Nat.sub_lt cfg.credit_pos hlen
    · exact hmod
  · exact cfg.credit_pos

theorem creditPad_eq_iff (p : Packet) : creditPad cfg p = padding cfg p ↔ PadRight cfg p := by
  have hpos := cfg.credit_pos
  simp only [creditPad, padding, PadRight]
  by_cases hzero : p.length % cfg.TxCreditSize = 0
  · rw [hzero, if_neg (not_not.mpr rfl), Nat.sub_zero, Nat.mod_self]; simp
  · rw [if_pos hzero, Nat.mod_eq_of_lt (Nat.sub_lt hpos (Nat.pos_of_ne_zero hzero))]
    by_cases hlt : p.length < cfg.TxCreditSize
    · rw [if_pos hlt, Nat.mod_eq_of_lt hlt]; simp [hlt]
    · rw [if_neg hlt]; omega

theorem dvd_padded (p : Packet) : cfg.TxCreditSize ∣ padded cfg p := by
  rw [padded, padding]
  have hpos := cfg.credit_pos
  have hmod := Nat.mod_lt p.length hpos
  have hdiv := Nat.div_add_mod p.length cfg.TxCreditSize
  by_cases hzero : p.length % cfg.TxCreditSize = 0
  · rw [hzero, Nat.sub_zero, Nat.mod_self, Nat.add_zero]; exact Nat.dvd_of_mod_eq_zero hzero
  · rw [Nat.mod_eq_of_lt (Nat.sub_lt hpos (Nat.pos_of_ne_zero hzero))]
    refine ⟨p.length / cfg.TxCreditSize + 1, ?_⟩
    rw [Nat.mul_add, Nat.mul_one]; omega

theorem transferLength_eq {p : Packet} (h : creditPad cfg p = padding cfg p) :
    transferLength cfg p = padded cfg p := by rw [transferLength, padded, h]

/-! ## One bundle -/

theorem copyFrags_eq (frags : List Nat) (nbytes : Nat) (h : nbytes ≤ frags.sum) :
    copyFrags frags nbytes = nbytes := by
  induction frags generalizing nbytes with
  | nil => exact (Nat.le_zero.mp h).symm
  | cons f frags ih =>
    rw [sum_cons] at h
    rw [copyFrags]
    split
    · rename_i hzero; exact hzero.symm
    · rw [ih _ (by omega)]; omega

def placedFrom : Nat → List Packet → List Placed
  | _, [] => []
  | o, p :: ps =>
    { offset := o, packet := p, hdr := if cfg.usb then none else some (frameHdr cfg p) } ::
      placedFrom (o + transferLength cfg p) ps

variable (bin : List Packet)

theorem foldl_put (b : Buffer) :
    bin.foldl (Buffer.put cfg) b =
      { pBundleBuffer := b.pBundleBuffer + load (transferLength cfg) bin
        placed := b.placed ++ placedFrom cfg b.pBundleBuffer bin } := by
  induction bin generalizing b with
  | nil => simp [placedFrom]
  | cons p bin ih =>
    have hput : (b.put cfg p).pBundleBuffer = b.pBundleBuffer + transferLength cfg p := by
      rw [Buffer.put, copyFrags_eq p.frag_len p.length p.frags, transferLength]
      exact Nat.add_assoc _ _ _
    rw [foldl_cons, ih, hput]
    simp only [Buffer.put, placedFrom, load, map_cons, sum_cons, append_assoc,
      singleton_append, Nat.add_assoc]

theorem placedFrom_concat (o : Nat) (bin : List Packet) (p : Packet) :
    placedFrom cfg o (bin ++ [p]) =
      placedFrom cfg o bin ++ placedFrom cfg (o + load (transferLength cfg) bin) [p] := by
  induction bin generalizing o with
  | nil => rfl
  | cons q bin ih => rw [cons_append, placedFrom, ih, Nat.add_assoc]; rfl

theorem map_packet_placedFrom (o : Nat) (bin : List Packet) :
    (placedFrom cfg o bin).map (·.packet) = bin := by
  induction bin generalizing o with
  | nil => rfl
  | cons p bin ih => rw [placedFrom, map_cons, ih]

def lastPad (bin : List Packet) : Nat :=
  if cfg.usb then bin.getLast?.elim 0 (creditPad cfg) else 0

def bytes (bin : List Packet) : Nat := load (transferLength cfg) bin - lastPad cfg bin

def bundleOf (bin : List Packet) : Bundle :=
  htc_send_bundled_netbuf (bin.foldl (Buffer.put cfg) Buffer.empty) (lastPad cfg bin)

theorem bundleOf_eq :
    bundleOf cfg bin = { data_len := bytes cfg bin, placed := placedFrom cfg 0 bin } := by
  rw [bundleOf, foldl_put, htc_send_bundled_netbuf]; simp [Buffer.empty, bytes]

theorem isChain_placedFrom (o : Nat) (bin : List Packet) :
    (placedFrom cfg o bin).IsChain (fun x y => y.offset = x.offset + padded cfg x.packet) ↔
      ∀ p ∈ bin.dropLast, PadRight cfg p := by
  induction bin generalizing o with
  | nil => simp [placedFrom]
  | cons p bin ih =>
    cases bin with
    | nil => simp [placedFrom]
    | cons q bin =>
      have hstep : o + transferLength cfg p = o + padded cfg p ↔ PadRight cfg p := by
        rw [← creditPad_eq_iff, transferLength, padded]; omega
      have hrest := ih (o + transferLength cfg p)
      rw [placedFrom] at hrest
      rw [placedFrom, placedFrom, isChain_cons_cons, hrest, hstep,
        dropLast_cons_of_ne_nil (cons_ne_nil q bin), forall_mem_cons]

theorem dvd_offset {o : Nat} {bin : List Packet} (ho : cfg.TxCreditSize ∣ o)
    (h : ∀ p ∈ bin.dropLast, PadRight cfg p) :
    ∀ x ∈ placedFrom cfg o bin, cfg.TxCreditSize ∣ x.offset := by
  induction bin generalizing o with
  | nil => simp [placedFrom]
  | cons p bin ih =>
    intro x hx
    rcases mem_cons.mp hx with rfl | hx
    · exact ho
    · cases bin with
      | nil => simp [placedFrom] at hx
      | cons q bin =>
        have hp := (creditPad_eq_iff cfg p).mpr (h p mem_cons_self)
        apply ih _ (fun r hr => h r (mem_cons_of_mem p hr)) x hx
        rw [transferLength_eq cfg hp]; exact Nat.dvd_add ho (dvd_padded cfg p)

theorem hdr_placedFrom (husb : cfg.usb = false) (o : Nat) (bin : List Packet) :
    (∀ x ∈ placedFrom cfg o bin, ∃ h, x.hdr = some h ∧ h.reserved.toNat = padding cfg x.packet) ↔
      ∀ p ∈ bin, PadRight cfg p := by
  induction bin generalizing o with
  | nil => simp [placedFrom]
  | cons p bin ih =>
    have hlt := lt_trans (creditPad_lt cfg p) cfg.credit_lt
    have hp : (∃ h, some (frameHdr cfg p) = some h ∧ h.reserved.toNat = padding cfg p) ↔
        PadRight cfg p := by
      rw [← creditPad_eq_iff]
      constructor
      · rintro ⟨h, heq, hres⟩
        rw [← hres, ← Option.some.inj heq, frameHdr, UInt16.toNat_ofNat', Nat.mod_eq_of_lt hlt]
      · intro heq
        refine ⟨_, rfl, ?_⟩
        rw [frameHdr, UInt16.toNat_ofNat', Nat.mod_eq_of_lt hlt, heq]
    rw [placedFrom, forall_mem_cons, ih, forall_mem_cons, husb]
    exact and_congr_left fun _ => hp

def sentPadding (bin : List Packet) : List Packet := if cfg.usb then bin.dropLast else bin

theorem bytes_concat (p : Packet) :
    bytes cfg (bin ++ [p]) =
      load (transferLength cfg) bin + if cfg.usb then p.length else transferLength cfg p := by
  rw [bytes, load_concat, lastPad, getLast?_concat]
  split
  · rw [Option.elim_some, transferLength]; omega
  · rfl

theorem load_eq_of_padRight {bin : List Packet} (h : ∀ p ∈ bin, PadRight cfg p) :
    load (transferLength cfg) bin = load (padded cfg) bin := by
  apply congrArg List.sum
  apply map_congr_left
  exact fun p hp => transferLength_eq cfg ((creditPad_eq_iff cfg p).mpr (h p hp))

theorem mem_sentPadding_of_mem_dropLast {bin : List Packet} {p : Packet} (hp : p ∈ bin.dropLast) :
    p ∈ sentPadding cfg bin := by
  rw [sentPadding]
  split
  · exact hp
  · exact (dropLast_sublist bin).mem hp

theorem bundleOf_right_iff :
    (bundleOf cfg bin).Right cfg ↔ (∀ p ∈ sentPadding cfg bin, PadRight cfg p) ∧
      bytes cfg bin ≤ cfg.MaxMsgsPerHTCBundle * cfg.TxCreditSize ∧
      bytes cfg bin ≤ cfg.MaxMsgsPerHTCBundle * cfg.TargetCreditSize := by
  rw [bundleOf_eq]
  constructor
  · intro h
    refine ⟨?_, h.space, h.buffer⟩
    by_cases husb : cfg.usb
    · rw [sentPadding, if_pos husb]; exact (isChain_placedFrom cfg 0 bin).mp h.next
    · rw [sentPadding, if_neg husb]
      have husb := Bool.eq_false_iff.mpr husb
      exact (hdr_placedFrom cfg husb 0 bin).mp (h.hdr husb)
  · rintro ⟨hpad, hspace, hbuffer⟩
    have hdrop : ∀ p ∈ bin.dropLast, PadRight cfg p :=
      fun p hp => hpad p (mem_sentPadding_of_mem_dropLast cfg hp)
    refine ⟨dvd_offset cfg (Nat.dvd_zero _) hdrop, (isChain_placedFrom cfg 0 bin).mpr hdrop, ?_, ?_,
      hspace, hbuffer⟩
    · rcases eq_nil_or_concat bin with rfl | ⟨init, p, rfl⟩
      · simp [placedFrom]
      · rw [concat_eq_append] at *
        intro x hx
        rw [placedFrom_concat, placedFrom, placedFrom, getLast?_concat, Option.mem_some_iff] at hx
        subst hx
        rw [bytes_concat, Nat.zero_add]
        split
        · rfl
        · rename_i husb
          rw [sentPadding, if_neg husb] at hpad
          have hp := hpad p mem_concat_self
          rw [transferLength_eq cfg ((creditPad_eq_iff cfg p).mpr hp)]
    · intro husb
      have hall := hpad
      rw [sentPadding, husb] at hall; exact (hdr_placedFrom cfg husb 0 bin).mpr hall

theorem bundleOf_total {bin : List Packet} (h : ∀ p ∈ sentPadding cfg bin, PadRight cfg p) :
    (bundleOf cfg bin).data_len + (if cfg.usb then (bundleOf cfg bin).lastPadding cfg else 0) =
      load (padded cfg) bin := by
  rw [bundleOf_eq, Bundle.lastPadding]
  rcases eq_nil_or_concat bin with rfl | ⟨init, p, rfl⟩
  · simp [placedFrom, bytes]
  · rw [concat_eq_append] at *
    rw [placedFrom_concat, placedFrom, placedFrom, getLast?_concat, Option.elim_some,
      bytes_concat, load_concat]
    have hinit : ∀ q ∈ init, PadRight cfg q := by
      intro q hq
      apply h q
      apply mem_sentPadding_of_mem_dropLast
      rw [dropLast_concat]; exact hq
    rw [load_eq_of_padRight cfg hinit]
    by_cases husb : cfg.usb
    · simp only [husb, if_true, padded, Nat.add_assoc]
    · rw [sentPadding, if_neg husb] at h
      have hp := h p mem_concat_self
      simp only [husb, Bool.false_eq_true, if_false, Nat.add_zero,
        transferLength_eq cfg ((creditPad_eq_iff cfg p).mpr hp)]

/-! ## The loop -/

def capacity : Nat := cfg.MaxMsgsPerHTCBundle * cfg.TxCreditSize

def bins (bin queue : List Packet) : List (List Packet) :=
  nextFit (transferLength cfg) (capacity cfg) bin queue

/-- The bins but the first have a buffer, and the last one of several has at least three packets:
its first did not fit, and had two behind it. -/
def Complete (alloc : Nat → Bool) (n : Nat) (bins : List (List Packet)) : Prop :=
  (bins.length = 1 ∨ ∀ bin ∈ bins.getLast?, 3 ≤ bin.length) ∧
    ∀ i, i + 1 < bins.length → alloc (n + i)

theorem complete_cons (alloc : Nat → Bool) (n : Nat) (bin : List Packet) (l : List (List Packet))
    (hl : l ≠ []) (hlast : l.length = 1 → ∀ b ∈ l.getLast?, 3 ≤ b.length) :
    Complete alloc n (bin :: l) ↔ alloc n ∧ Complete alloc (n + 1) l := by
  obtain ⟨b, l, rfl⟩ := exists_cons_of_ne_nil hl
  have hlen : (bin :: b :: l).length ≠ 1 := by simp
  rw [Complete, Complete, getLast?_cons_cons, or_iff_right hlen]
  constructor
  · rintro ⟨htail, halloc⟩
    refine ⟨halloc 0 (by simp), Or.inr htail, fun i hi => ?_⟩
    rw [Nat.add_assoc, Nat.add_comm 1]; exact halloc (i + 1) (by simpa using hi)
  · rintro ⟨hn, htail, halloc⟩
    refine ⟨htail.elim hlast id, fun i hi => ?_⟩
    cases i with
    | zero => exact hn
    | succ i => have h := halloc i (by simpa using hi); rwa [Nat.add_assoc, Nat.add_comm 1] at h

def Sent.packets (r : Sent) : List Packet :=
  r.bundles.flatMap (fun b => b.placed.map (·.packet)) ++ r.queue

theorem packets_bundleOf : (bundleOf cfg bin).placed.map (·.packet) = bin := by
  rw [bundleOf_eq]; exact map_packet_placedFrom cfg 0 bin

theorem packets_concat (sent : List Bundle) (bin queue : List Packet) :
    (Sent.mk (sent ++ [bundleOf cfg bin]) queue).packets =
      sent.flatMap (fun b => b.placed.map (·.packet)) ++ (bin ++ queue) := by
  rw [Sent.packets, flatMap_append, flatMap_singleton, packets_bundleOf, append_assoc]

theorem lastCreditPad_lastPad (bin bin' : List Packet) (p : Packet) :
    lastCreditPad cfg (lastPad cfg bin) p = lastPad cfg (bin' ++ [p]) := by
  rw [lastCreditPad, lastPad, lastPad, getLast?_concat]
  split <;> rfl

theorem bins_cons (bin queue : List Packet) (p : Packet) :
    bins cfg bin (p :: queue) =
      if load (transferLength cfg) bin + transferLength cfg p ≤ capacity cfg then
        bins cfg (bin ++ [p]) queue
      else bin :: bins cfg [p] queue := rfl

theorem bins_tail (p : Packet) {queue : List Packet} (hq : 2 ≤ queue.length)
    (h : (bins cfg [p] queue).length = 1) : ∀ b ∈ (bins cfg [p] queue).getLast?, 3 ≤ b.length := by
  obtain ⟨b, hb⟩ := length_eq_one_iff.mp h
  have hflat : (bins cfg [p] queue).flatten = [p] ++ queue := nextFit_flatten [p] queue
  rw [hb, flatten_singleton] at hflat
  rw [hb, hflat]
  intro c hc
  have hlen : c = [p] ++ queue := (Option.some.inj hc).symm
  rw [hlen, length_append, length_singleton]; omega

theorem not_complete_of_short {alloc : Nat → Bool} {n : Nat} (p : Packet) {queue : List Packet}
    (hq : queue.length < 2) : ¬ Complete alloc n (bin :: bins cfg [p] queue) := by
  have hne : bins cfg [p] queue ≠ [] := nextFit_ne_nil _ _
  rintro ⟨htail, -⟩
  rcases htail with hone | htail
  · rw [length_cons, Nat.add_eq_right, length_eq_zero_iff] at hone; exact hne hone
  · have hlast := getLast?_eq_some_getLast (cons_ne_nil bin (bins cfg [p] queue))
    have hthree := htail _ hlast
    rw [getLast_cons hne] at hthree
    have hle := length_le_of_mem_nextFit (getLast_mem hne)
    rw [length_append, length_singleton] at hle; omega

theorem bundleLoop_eq (alloc : Nat → Bool) (queue : List Packet) (n : Nat) (sent : List Bundle)
    (bin : List Packet) (hne : bin ++ queue ≠ []) :
    (Complete alloc n (bins cfg bin queue) →
      bundleLoop cfg alloc n sent (bin.foldl (Buffer.put cfg) Buffer.empty)
          (capacity cfg - load (transferLength cfg) bin) (lastPad cfg bin) queue =
        { bundles := sent ++ (bins cfg bin queue).map (bundleOf cfg), queue := [] }) ∧
    (¬ Complete alloc n (bins cfg bin queue) →
      (bundleLoop cfg alloc n sent (bin.foldl (Buffer.put cfg) Buffer.empty)
          (capacity cfg - load (transferLength cfg) bin) (lastPad cfg bin) queue).packets.length <
        (sent.flatMap (fun b => b.placed.map (·.packet)) ++ (bin ++ queue)).length) := by
  induction queue generalizing n sent bin with
  | nil =>
    have hcomplete : Complete alloc n [bin] :=
      ⟨Or.inl rfl, fun i hi => absurd hi (by simp)⟩
    refine ⟨fun _ => ?_, fun h => absurd hcomplete h⟩
    rw [append_nil] at hne
    obtain ⟨p, ps, rfl⟩ := exists_cons_of_ne_nil hne
    have hpos : (List.foldl (Buffer.put cfg) Buffer.empty (p :: ps)).pBundleBuffer ≠ 0 := by
      rw [foldl_put]; simp [load, transferLength, Packet.length, HTC_HDR_LENGTH, Buffer.empty]
    rw [bundleLoop, if_pos hpos]; rfl
  | cons p queue ih =>
    rw [bundleLoop, bins_cons]
    by_cases hfits : load (transferLength cfg) bin + transferLength cfg p ≤ capacity cfg
    · have hspace :
          ¬ (capacity cfg : Int) - load (transferLength cfg) bin < transferLength cfg p := by
        omega
      have hrest := ih n sent (bin ++ [p]) (by simp)
      rw [foldl_concat, load_concat, ← lastCreditPad_lastPad cfg bin, Int.natCast_add,
        ← Int.sub_sub, append_assoc] at hrest
      rw [if_neg hspace, if_pos hfits]; exact hrest
    · have hspace :
          (capacity cfg : Int) - load (transferLength cfg) bin < transferLength cfg p := by
        omega
      rw [if_pos hspace, if_neg hfits]
      have hlost : ∀ queue', queue'.length ≤ queue.length →
          (Sent.mk (sent ++ [bundleOf cfg bin]) queue').packets.length <
            (sent.flatMap (fun b => b.placed.map (·.packet)) ++ (bin ++ p :: queue)).length := by
        intro queue' hle
        rw [packets_concat]
        simp only [length_append, length_cons]
        omega
      by_cases hq : queue.length < HTC_MIN_MSG_PER_BUNDLE
      · rw [if_pos hq]
        exact ⟨fun h => absurd h (not_complete_of_short cfg bin p hq),
          fun _ => hlost queue (le_refl _)⟩
      · rw [if_neg hq]
        have hcomplete := complete_cons alloc n bin
          (bins cfg [p] queue) (nextFit_ne_nil _ _) (bins_tail cfg p (Nat.not_lt.mp hq))
        rw [hcomplete]
        by_cases halloc : alloc n
        · have hrest := ih (n + 1) (sent ++ [bundleOf cfg bin]) [p] (by simp)
          rw [load_singleton, ← nil_append [p], ← lastCreditPad_lastPad cfg bin,
            nil_append] at hrest
          rw [if_pos halloc, map_cons]
          refine ⟨fun h => ?_, fun h => ?_⟩
          · refine (hrest.1 h.2).trans ?_
            rw [append_assoc]; rfl
          · have hlt := hrest.2 fun hc => h ⟨halloc, hc⟩
            rw [flatMap_append, flatMap_singleton, packets_bundleOf, append_assoc] at hlt
            exact hlt
        · rw [if_neg halloc]
          exact ⟨fun h => absurd h.1 halloc, fun _ => hlost queue (le_refl _)⟩

/-! ## The whole call -/

structure Bundles (alloc : Nat → Bool) (queue : List Packet) : Prop where
  /-- One bin, or a last one of at least three packets. -/
  tail : (bins cfg [] queue).length = 1 ∨ ∀ bin ∈ (bins cfg [] queue).getLast?, 3 ≤ bin.length
  alloc : ∀ i, i + 1 < (bins cfg [] queue).length → alloc (i + 1)
  padding : ∀ bin ∈ bins cfg [] queue, ∀ p ∈ sentPadding cfg bin, PadRight cfg p
  /-- No packet is longer than all credits of a bundle. -/
  space : ∀ p ∈ queue, (if cfg.usb then p.length else transferLength cfg p) ≤ capacity cfg
  buffer : ∀ bin ∈ bins cfg [] queue,
    bytes cfg bin ≤ cfg.MaxMsgsPerHTCBundle * cfg.TargetCreditSize

theorem bytes_le_load : bytes cfg bin ≤ load (transferLength cfg) bin :=
  Nat.sub_le _ _

theorem le_bytes {bin : List Packet} {p : Packet} (hp : p ∈ bin) :
    (if cfg.usb then p.length else transferLength cfg p) ≤ bytes cfg bin := by
  rcases eq_nil_or_concat bin with rfl | ⟨init, q, rfl⟩
  · cases hp
  · rw [concat_eq_append] at *
    rw [bytes_concat]
    rcases mem_append.mp hp with hp | hp
    · have hle : transferLength cfg p ≤ load (transferLength cfg) init := le_load hp
      have hlen : p.length ≤ transferLength cfg p := Nat.le_add_right _ _
      split <;> omega
    · rw [mem_singleton.mp hp]; exact Nat.le_add_left _ _

theorem bins_space (queue : List Packet) :
    (∀ bin ∈ bins cfg [] queue, bytes cfg bin ≤ capacity cfg) ↔
      ∀ p ∈ queue, (if cfg.usb then p.length else transferLength cfg p) ≤ capacity cfg := by
  have hflat : (bins cfg [] queue).flatten = queue := nextFit_flatten _ _
  constructor
  · intro h p hp
    rw [← hflat] at hp
    obtain ⟨bin, hbin, hp⟩ := mem_flatten.mp hp
    exact le_trans (le_bytes cfg hp) (h bin hbin)
  · intro h bin hbin
    rcases load_le_or_singleton (Or.inl (Nat.zero_le _)) hbin with hle | ⟨p, rfl⟩
    · exact le_trans (bytes_le_load cfg bin) hle
    · have hp : p ∈ queue := by
        rw [← hflat]; exact mem_flatten.mpr ⟨_, hbin, mem_singleton_self p⟩
      have hbytes := bytes_concat cfg [] p
      rw [load_nil, Nat.zero_add, nil_append] at hbytes
      rw [hbytes]; exact h p hp

theorem flatMap_packets (l : List (List Packet)) :
    (l.map (bundleOf cfg)).flatMap (fun b => b.placed.map (·.packet)) = l.flatten := by
  induction l with
  | nil => rfl
  | cons bin l ih => rw [map_cons, flatMap_cons, packets_bundleOf, ih, flatten_cons]

theorem bundles_total {l : List (List Packet)}
    (h : ∀ bin ∈ l, ∀ p ∈ sentPadding cfg bin, PadRight cfg p) :
    ((l.map (bundleOf cfg)).map (·.data_len)).sum +
        (if cfg.usb then ((l.map (bundleOf cfg)).map (·.lastPadding cfg)).sum else 0) =
      (((l.map (bundleOf cfg)).flatMap (·.placed)).map fun x => padded cfg x.packet).sum := by
  induction l with
  | nil => simp
  | cons bin l ih =>
    rw [forall_mem_cons] at h
    have hbin := bundleOf_total cfg h.1
    have hrest := ih h.2
    have hmap : (((bundleOf cfg bin).placed).map fun x => padded cfg x.packet).sum =
        load (padded cfg) bin := by
      rw [load, ← congrArg (List.map (padded cfg)) (packets_bundleOf cfg bin), map_map]; rfl
    rw [map_cons, flatMap_cons, map_append, sum_append, hmap, ← hbin, ← hrest]
    simp only [map_cons, sum_cons]
    split <;> omega

theorem right_of_alloc_false {alloc : Nat → Bool} (halloc : alloc 0 = false) (queue : List Packet) :
    (htc_issue_packets_bundle cfg alloc queue).Right cfg queue := by
  rw [htc_issue_packets_bundle, halloc]; exact ⟨rfl, nofun, by simp⟩

theorem right_iff_of_complete {alloc : Nat → Bool} {queue : List Packet}
    (hc : Complete alloc 1 (bins cfg [] queue)) :
    (Sent.mk ((bins cfg [] queue).map (bundleOf cfg)) []).Right cfg queue ↔
      Bundles cfg alloc queue := by
  constructor
  · intro h
    have hlayout : ∀ bin ∈ bins cfg [] queue, (bundleOf cfg bin).Right cfg :=
      fun bin hbin => h.layout _ (mem_map_of_mem hbin)
    refine ⟨hc.1, fun i hi => ?_, ?_, ?_, ?_⟩
    · rw [Nat.add_comm]; exact hc.2 i hi
    · exact fun bin hbin => ((bundleOf_right_iff cfg bin).mp (hlayout bin hbin)).1
    · apply (bins_space cfg queue).mp
      exact fun bin hbin => ((bundleOf_right_iff cfg bin).mp (hlayout bin hbin)).2.1
    · exact fun bin hbin => ((bundleOf_right_iff cfg bin).mp (hlayout bin hbin)).2.2
  · intro h
    refine ⟨?_, ?_, bundles_total cfg h.padding⟩
    · rw [flatMap_packets, append_nil]; exact nextFit_flatten _ _
    · intro b hb
      obtain ⟨bin, hbin, rfl⟩ := mem_map.mp hb
      have hspace := (bins_space cfg queue).mpr h.space bin hbin
      exact (bundleOf_right_iff cfg bin).mpr ⟨h.padding bin hbin, hspace, h.buffer bin hbin⟩

/-- The layout is right if and only if there is no buffer at all, or: one bundle takes all packets
or at least three are in the last one, each bundle has a buffer that is large enough, no packet is
longer than a bundle, and each padding that is sent is right. -/
theorem issue_right_iff (alloc : Nat → Bool) (queue : List Packet) :
    (htc_issue_packets_bundle cfg alloc queue).Right cfg queue ↔
      alloc 0 = false ∨ Bundles cfg alloc queue := by
  by_cases halloc : alloc 0 = false
  · exact iff_of_true (right_of_alloc_false cfg halloc queue) (Or.inl halloc)
  · rw [or_iff_right halloc, htc_issue_packets_bundle, if_pos (Bool.eq_true_of_not_eq_false halloc)]
    by_cases hqueue : queue = []
    · subst hqueue
      have hnone : bundleLoop cfg alloc 1 [] Buffer.empty (bundleSpace cfg) 0 [] = ⟨[], []⟩ := rfl
      rw [hnone]
      refine iff_of_true ⟨rfl, forall_mem_nil _, by simp⟩ ?_
      refine ⟨Or.inl rfl, fun i hi => absurd hi (by simp [bins, nextFit]), ?_, ?_, ?_⟩
      · intro bin hbin p hp
        rw [mem_singleton.mp hbin, sentPadding] at hp; simp at hp
      · simp
      · intro bin hbin
        rw [mem_singleton.mp hbin]; simp [bytes]
    · have hloop := bundleLoop_eq cfg alloc queue 1 [] [] hqueue
      have hspace : (capacity cfg : Int) - (load (transferLength cfg) [] : Nat) = bundleSpace cfg :=
        Int.sub_zero _
      have hlast : lastPad cfg [] = 0 := by
        rw [lastPad]
        split <;> rfl
      rw [hspace, hlast, foldl_nil] at hloop
      by_cases hc : Complete alloc 1 (bins cfg [] queue)
      · rw [hloop.1 hc]; exact right_iff_of_complete cfg hc
      · refine iff_of_false (fun h => ?_) fun h => hc ⟨h.tail, fun i hi => ?_⟩
        · have hlt := hloop.2 hc
          rw [Sent.packets, h.each] at hlt; exact Nat.lt_irrefl _ hlt
        · rw [Nat.add_comm]; exact h.alloc i hi

def longPacket : Packet where
  ActualLength := 6
  SendFlags := 0
  Endpoint := 2
  SeqNo := 0
  frag_len := [8, 6]
  frags := by decide

def smallCredits : Cfg where
  usb := false
  MaxMsgsPerHTCBundle := 8
  TargetCreditSize := 8
  TxCreditSize := 8
  credit_pos := by decide
  credit_lt := by decide

/-- The second of two such packets starts at byte 20. -/
theorem second_start :
    ¬ ∀ (cfg : Cfg) (alloc : Nat → Bool) (queue : List Packet),
      (htc_issue_packets_bundle cfg alloc queue).Right cfg queue := by
  intro h
  have hright := h smallCredits (fun _ => true) [longPacket, longPacket]
  have hbundle := hright.layout _ mem_cons_self
  have hstart := hbundle.start _ (mem_cons_of_mem _ mem_cons_self)
  exact absurd hstart (by decide)

end Qcacld.HtcBundle
