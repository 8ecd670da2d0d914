/-
The Michael MIC of a received MSDU, as `ol_rx_defrag_mic` computes it over a chain of buffers.

It is told by its caller how many bytes to take, and `ol_rx_frag_tkip_demic` works that number out
from the length of the first buffer alone, in 16 bits. A buffer is the list of the bytes behind its
rx descriptor, and `none` is a read outside of it.

Two things decide whether the MIC is right. One is the pseudo-header: the code takes the priority
from the place of the QoS control in a frame with three addresses, whatever the number of addresses
(`headerAt` has that place as a parameter, so that the code's header and the right one are the same
function at two offsets). The other is the walk over the buffers: `micLoop_fit` says what it computes
where the ends of the buffers suit it (`WordsFit`), and `micLoop_not_fit` that it gives no MIC
elsewhere. That the conditions are exact is shown with frames that differ in one byte: the state of
Michael forgets nothing (`block_injective_word`, `block_injective_state`).
-/
import Mathlib.Data.UInt
import Mathlib.Order.Nat
import Qcacld.Lib.Absorb
import Mathlib.Data.List.SplitLengths

set_option autoImplicit false

namespace Qcacld.RxMichael

open Lib List Option

section

/-! ## The helpers of `ol_rx_defrag.h` -/

def rotl (val bits : UInt32) : UInt32 := (val <<< bits) ||| (val >>> (32 - bits))

def rotr (val bits : UInt32) : UInt32 := (val >>> bits) ||| (val <<< (32 - bits))

def xswap (val : UInt32) : UInt32 :=
  ((val &&& 0x00ff00ff) <<< 8) ||| ((val &&& 0xff00ff00) >>> 8)

def get_le32_split (b0 b1 b2 b3 : UInt8) : UInt32 :=
  b0.toUInt32 ||| (b1.toUInt32 <<< 8) ||| (b2.toUInt32 <<< 16) ||| (b3.toUInt32 <<< 24)

def get_le32 : List UInt8 → Option UInt32
  | p0 :: p1 :: p2 :: p3 :: _ => some (get_le32_split p0 p1 p2 p3)
  | _ => none

def put_le32 (v : UInt32) : List UInt8 :=
  [(v &&& 0xff).toUInt8, ((v >>> 8) &&& 0xff).toUInt8, ((v >>> 16) &&& 0xff).toUInt8,
    ((v >>> 24) &&& 0xff).toUInt8]

structure Mic where
  l : UInt32
  r : UInt32
deriving DecidableEq

def michael_block (m : Mic) : Mic :=
  let r := m.r ^^^ rotl m.l 17
  let l := m.l + r
  let r := r ^^^ xswap l
  let l := l + r
  let r := r ^^^ rotl l 3
  let l := l + r
  let r := r ^^^ rotr l 2
  let l := l + r
  ⟨l, r⟩

def block (m : Mic) (w : UInt32) : Mic := michael_block { m with l := m.l ^^^ w }

/-! ## `ol_rx_defrag_mic` -/

def FC0_TYPE_MASK : UInt8 := 0x0c
def FC0_TYPE_DATA : UInt8 := 0x08
def FC0_SUBTYPE_QOS : UInt8 := 0x80
def FC1_DIR_MASK : UInt8 := 0x03
def FC1_DIR_NODS : UInt8 := 0x00
def FC1_DIR_TODS : UInt8 := 0x01
def FC1_DIR_FROMDS : UInt8 := 0x02
def FC1_DIR_DSTODS : UInt8 := 0x03
def FC1_ORDER : UInt8 := 0x80
def QOS_TID : UInt8 := 0x0f

def MICLEN : Nat := 8

/-- `ol_rx_frag_hdrsize`, from the two bytes of the frame control. -/
def hdrsize (fc0 fc1 : UInt8) : Nat :=
  24 + (if fc1 &&& FC1_DIR_MASK = FC1_DIR_DSTODS then 6 else 0) +
    (if fc0 &&& (FC0_TYPE_MASK ||| FC0_SUBTYPE_QOS) = FC0_TYPE_DATA ||| FC0_SUBTYPE_QOS then
      2 + (if fc1 &&& FC1_ORDER ≠ 0 then 4 else 0)
    else 0)

def addr (wh : List UInt8) (off : Nat) : Option (List UInt8) :=
  if off + 6 ≤ wh.length then some ((wh.drop off).take 6) else none

def addrOffs (fc1 : UInt8) : Nat × Nat :=
  let dir := fc1 &&& FC1_DIR_MASK
  if dir = FC1_DIR_NODS then (4, 10)
  else if dir = FC1_DIR_TODS then (16, 10)
  else if dir = FC1_DIR_FROMDS then (4, 16)
  else (16, 24)

/-- The priority, if the QoS control is at `qos`. -/
def priority (qos : Nat) (fc0 : UInt8) (wh : List UInt8) : Option UInt8 :=
  if fc0 &&& FC0_SUBTYPE_QOS ≠ 0 then wh[qos]?.map (· &&& QOS_TID) else some 0

def headerAt (qos : Nat) (wh : List UInt8) : Option (List UInt8) := do
  let fc0 ← wh[0]?
  let fc1 ← wh[1]?
  let da ← addr wh (addrOffs fc1).1
  let sa ← addr wh (addrOffs fc1).2
  let tid ← priority qos fc0 wh
  return da ++ sa ++ [tid, 0, 0, 0]

/-- `i_qos` is that of `struct ieee80211_qosframe`, a frame with three addresses, however many
this one has. -/
def ol_rx_defrag_michdr (wh : List UInt8) : Option (List UInt8) := headerAt 24 wh

/-- `while (space >= sizeof(uint32_t))`, over the words of one buffer. -/
def micWords : Nat → Nat → Mic → List UInt8 → Option (Nat × Nat × Mic × List UInt8)
  | space + 4, data_len, m, data => do
      let w ← get_le32 data
      micWords space (data_len - 4) (block m w) (data.drop 4)
  | space, data_len, m, data => some (space, data_len, m, data)

def straddle : Nat → List UInt8 → List UInt8 → Option UInt32
  | 1, d0 :: _, n0 :: n1 :: n2 :: _ => some (get_le32_split d0 n0 n1 n2)
  | 2, d0 :: d1 :: _, n0 :: n1 :: _ => some (get_le32_split d0 d1 n0 n1)
  | 3, d0 :: d1 :: d2 :: _, n0 :: _ => some (get_le32_split d0 d1 d2 n0)
  | _, _, _ => none

def lastWord : Nat → List UInt8 → Option UInt32
  | 0, _ => some (get_le32_split 0x5a 0 0 0)
  | 1, d0 :: _ => some (get_le32_split d0 0x5a 0 0)
  | 2, d0 :: d1 :: _ => some (get_le32_split d0 d1 0x5a 0)
  | 3, d0 :: d1 :: d2 :: _ => some (get_le32_split d0 d1 d2 0x5a)
  | _, _ => none

def micLast (data_len : Nat) (m : Mic) (data : List UInt8) : Option (List UInt8) := do
  let w ← lastWord data_len data
  let m := michael_block (block m w)
  return put_le32 m.l ++ put_le32 m.r

/-- The loop over the buffers; `next` are those behind the one that `data` points into, and
`some none` is `OL_RX_DEFRAG_ERR`. -/
def micLoop : List (List UInt8) → Mic → List UInt8 → Nat → Nat → Option (Option (List UInt8))
  | next, m, data, space, data_len => do
      let (space, data_len, m, data) ← micWords (min space data_len) data_len m data
      if data_len < 4 then
        return some (← micLast data_len m data)
      else
        match next with
        | [] => return none
        | wbuf :: next =>
          if space ≠ 0 then
            if wbuf.length < 4 - space then return none
            else
              let w ← straddle space data wbuf
              micLoop next (block m w) (wbuf.drop (4 - space)) (wbuf.length - (4 - space))
                (data_len - 4)
          else micLoop next m wbuf wbuf.length data_len

def ol_rx_defrag_mic (key wbuf : List UInt8) (next : List (List UInt8)) (off data_len : Nat) :
    Option (Option (List UInt8)) := do
  let hdr ← ol_rx_defrag_michdr wbuf
  let l ← get_le32 key
  let r ← get_le32 (key.drop 4)
  let m := block ⟨l, r⟩ (← get_le32 hdr)
  let m := block m (← get_le32 (hdr.drop 4))
  let m := block m (← get_le32 (hdr.drop 8))
  let m := block m (← get_le32 (hdr.drop 12))
  micLoop next m (wbuf.drop off) (wbuf.length - off) data_len

/-- The `data_len` of `ol_rx_frag_tkip_demic`: `pktlen` has 32 bits, and the parameter has 16. -/
def demicLen (pktlen hdrlen : Nat) : Nat := (pktlen + 2 ^ 32 - (hdrlen + MICLEN)) % 2 ^ 32 % 2 ^ 16

/-- The MIC that `ol_rx_frag_tkip_demic` asks for. -/
def ol_rx_frag_tkip_demic_mic (key msdu : List UInt8) (next : List (List UInt8)) (hdrlen : Nat) :
    Option (Option (List UInt8)) :=
  ol_rx_defrag_mic key msdu next hdrlen (demicLen msdu.length hdrlen)

/-! ## Michael -/

/-- Where the QoS control of a frame is: `i_qos` of `struct ieee80211_qosframe_addr4` in a frame
with four addresses, and of `struct ieee80211_qosframe` in the others. -/
def qosOff (fc1 : UInt8) : Nat := if fc1 &&& FC1_DIR_MASK = FC1_DIR_DSTODS then 30 else 24

/-- The pseudo-header that the MIC is defined with. -/
def pseudoHeader (wh : List UInt8) : Option (List UInt8) := do
  let fc1 ← wh[1]?
  headerAt (qosOff fc1) wh

def pad (msg : List UInt8) : List UInt8 :=
  msg ++ 0x5a :: replicate (4 + (3 - msg.length % 4)) 0

/-- What is left to be done when the blocks that led to `m` have been taken. -/
def michaelFrom (m : Mic) (msg : List UInt8) : List UInt8 :=
  let m := absorb get_le32_split block m (pad msg)
  put_le32 m.l ++ put_le32 m.r

def michael (key msg : List UInt8) : Option (List UInt8) := do
  let l ← get_le32 key
  let r ← get_le32 (key.drop 4)
  return michaelFrom ⟨l, r⟩ msg

/-! ## Words -/


theorem or_shiftLeft {a k : Nat} (h : a < 2 ^ k) (b : Nat) : a ||| b <<< k = a + 2 ^ k * b := by
  rw [Nat.or_comm, ← Nat.shiftLeft_add_eq_or_of_lt h, Nat.shiftLeft_eq, Nat.mul_comm, Nat.add_comm]

theorem toNat_get_le32_split (b0 b1 b2 b3 : UInt8) :
    (get_le32_split b0 b1 b2 b3).toNat =
      b0.toNat + 2 ^ 8 * b1.toNat + 2 ^ 16 * b2.toNat + 2 ^ 24 * b3.toNat := by
  have h0 := b0.toNat_lt
  have h1 := b1.toNat_lt
  have h2 := b2.toNat_lt
  have h3 := b3.toNat_lt
  have e1 : b1.toNat <<< 8 % 2 ^ 32 = b1.toNat <<< 8 := by omega
  have e2 : b2.toNat <<< 16 % 2 ^ 32 = b2.toNat <<< 16 := by omega
  have e3 : b3.toNat <<< 24 % 2 ^ 32 = b3.toNat <<< 24 := by omega
  simp only [get_le32_split, UInt32.toNat_or, UInt32.toNat_shiftLeft, UInt8.toNat_toUInt32,
    UInt32.reduceToNat, Nat.reduceMod, e1, e2, e3]
  -- each byte is above all the bits of those before it
  rw [or_shiftLeft h0, or_shiftLeft (k := 16) (by omega), or_shiftLeft (k := 24) (by omega)]

theorem get_le32_split_inj {a b c d a' b' c' d' : UInt8}
    (h : get_le32_split a b c d = get_le32_split a' b' c' d') :
    a = a' ∧ b = b' ∧ c = c' ∧ d = d' := by
  have hn := congrArg UInt32.toNat h
  rw [toNat_get_le32_split, toNat_get_le32_split] at hn
  have h0 := a.toNat_lt
  have h1 := b.toNat_lt
  have h2 := c.toNat_lt
  have h0' := a'.toNat_lt
  have h1' := b'.toNat_lt
  have h2' := c'.toNat_lt
  refine ⟨?_, ?_, ?_, ?_⟩ <;> apply UInt8.toNat_inj.mp <;> omega

@[simp] theorem get_le32_split_zero : get_le32_split 0 0 0 0 = 0 := by decide

theorem get_le32_put_le32 (v : UInt32) : get_le32 (put_le32 v) = some v := by
  apply congrArg some
  apply UInt32.toNat_inj.mp
  rw [toNat_get_le32_split]
  have hv := v.toNat_lt
  have mask (n : Nat) : n &&& 255 = n % 256 := Nat.and_two_pow_sub_one_eq_mod n 8
  simp only [UInt32.toNat_toUInt8, UInt32.toNat_and, UInt32.toNat_shiftRight, UInt32.reduceToNat,
    Nat.reduceMod, mask, Nat.shiftRight_eq_div_pow]
  omega

theorem mix_injective (f : UInt32 → UInt32) :
    Function.Injective fun m : Mic => (⟨m.l + (m.r ^^^ f m.l), m.r ^^^ f m.l⟩ : Mic) := by
  rintro ⟨l, r⟩ ⟨l', r'⟩ h
  simp only [Mic.mk.injEq] at h
  obtain ⟨hl, hr⟩ := h
  rw [hr] at hl
  have hll : l = l' := by simpa using hl
  subst hll
  have hrr : r = r' := by simpa using hr
  rw [hrr]

theorem michael_block_injective : Function.Injective michael_block :=
  (mix_injective fun l => rotr l 2).comp <| (mix_injective fun l => rotl l 3).comp <|
    (mix_injective xswap).comp (mix_injective fun l => rotl l 17)

theorem block_injective_state (w : UInt32) : Function.Injective fun m => block m w := by
  rintro ⟨l, r⟩ ⟨l', r'⟩ h
  have hm := michael_block_injective h
  simpa using hm

theorem block_injective_word (m : Mic) : Function.Injective (block m) := by
  intro w w' h
  have hm := michael_block_injective h
  simpa using hm

@[simp] theorem block_zero (m : Mic) : block m 0 = michael_block m := by simp [block]


/-! ## The loop -/

theorem pad_append (xs ys : List UInt8) (h4 : 4 ∣ xs.length) : pad (xs ++ ys) = xs ++ pad ys := by
  have hmod : (xs ++ ys).length % 4 = ys.length % 4 := by rw [length_append]; omega
  rw [pad, pad, hmod, append_assoc]

theorem four_dvd_length_pad (msg : List UInt8) : 4 ∣ (pad msg).length := by
  simp only [pad, length_append, length_cons, length_replicate]
  omega

theorem michaelFrom_append (m : Mic) (xs ys : List UInt8) (h4 : 4 ∣ xs.length) :
    michaelFrom m (xs ++ ys) = michaelFrom (absorb get_le32_split block m xs) ys := by
  rw [michaelFrom, michaelFrom, pad_append xs ys h4, absorb_append _ _ _ _ _ h4]

theorem exists_four (data : List UInt8) (h : 4 ≤ data.length) :
    ∃ b0 b1 b2 b3 rest, data = b0 :: b1 :: b2 :: b3 :: rest := by
  match data, h with
  | b0 :: b1 :: b2 :: b3 :: rest, _ => exact ⟨b0, b1, b2, b3, rest, rfl⟩

theorem micWords_eq (space data_len : Nat) (m : Mic) (data : List UInt8) (h : space ≤ data.length) :
    micWords space data_len m data =
      some (space % 4, data_len - 4 * (space / 4),
        absorb get_le32_split block m (data.take (4 * (space / 4))),
        data.drop (4 * (space / 4))) := by
  induction space, data_len, m, data using micWords.induct with
  | case1 space data_len m data ih =>
    obtain ⟨b0, b1, b2, b3, rest, rfl⟩ := exists_four data (by omega)
    have hdiv : 4 * ((space + 4) / 4) = 4 * (space / 4) + 4 := by omega
    have hrest := ih (get_le32_split b0 b1 b2 b3)
    simp only [drop_succ_cons, drop_zero, length_cons] at hrest h
    rw [hdiv, micWords]
    simp only [get_le32, bind_eq_bind, bind_some, drop_succ_cons,
      drop_zero, take_succ_cons, absorb_word]
    rw [hrest (by omega)]
    have hlen : data_len - 4 - 4 * (space / 4) = data_len - (4 * (space / 4) + 4) := by omega
    rw [hlen, ← Nat.add_mod_right space 4]
  | case2 space data_len m data hsmall =>
    have hlt : space < 4 := by by_contra hge; exact hsmall (space - 4) (by omega)
    have hdiv : space / 4 = 0 := by omega
    rw [micWords, hdiv]
    · simp only [Nat.mod_eq_of_lt hlt, Nat.mul_zero, Nat.sub_zero, take_zero, drop_zero]
      rw [absorb_short _ _ _ _ (by simp)]
    · exact hsmall

theorem micLast_eq (data_len : Nat) (m : Mic) (data : List UInt8) (h4 : data_len < 4)
    (h : data_len ≤ data.length) :
    micLast data_len m data = some (michaelFrom m (data.take data_len)) := by
  match data_len, data with
  | 0, _ | 1, _ :: _ | 2, _ :: _ :: _ | 3, _ :: _ :: _ :: _ =>
    simp [micLast, lastWord, michaelFrom, pad, absorb, replicate]
  | 1, [] | 2, [] | 2, [_] | 3, [] | 3, [_] | 3, [_, _] => simp at h
  | n + 4, _ => omega

theorem micLast_none (data_len : Nat) (m : Mic) (data : List UInt8) (h4 : data_len < 4)
    (h : data.length < data_len) : micLast data_len m data = none := by
  match data_len, data with
  | 1, [] | 2, [] | 2, [_] | 3, [] | 3, [_] | 3, [_, _] => rfl
  | 0, _ => exact absurd h (Nat.not_lt_zero _)
  | 1, _ :: _ | 2, _ :: _ :: _ | 3, _ :: _ :: _ :: _ =>
    simp only [length_cons] at h
    omega
  | n + 4, _ => omega

theorem straddle_eq (m : Mic) (data wbuf : List UInt8) (h0 : data.length ≠ 0)
    (h4 : data.length < 4) (h : 4 - data.length ≤ wbuf.length) :
    ∃ w, straddle data.length data wbuf = some w ∧
      block m w = absorb get_le32_split block m (data ++ wbuf.take (4 - data.length)) := by
  match data, wbuf with
  | [], _ => simp at h0
  | [_], _ :: _ :: _ :: _ | [_, _], _ :: _ :: _ | [_, _, _], _ :: _ => exact ⟨_, rfl, rfl⟩
  | [_], [] | [_], [_] | [_], [_, _] | [_, _], [] | [_, _], [_] | [_, _, _], [] => simp at h
  | _ :: _ :: _ :: _ :: _, _ => simp only [length_cons] at h4; omega

variable (next : List (List UInt8))

theorem micLoop_last (m : Mic) (data : List UInt8) (data_len : Nat) (h : data_len ≤ data.length) :
    micLoop next m data data.length data_len =
      some (some (michaelFrom m (data.take data_len))) := by
  have hk : data_len - 4 * (data_len / 4) < 4 := by omega
  have hsplit : data.take data_len = data.take (4 * (data_len / 4)) ++
      (data.drop (4 * (data_len / 4))).take (data_len - 4 * (data_len / 4)) := by
    rw [← take_add]
    congr 1
    omega
  have hdvd : 4 ∣ (data.take (4 * (data_len / 4))).length := by rw [length_take]; omega
  rw [micLoop, Nat.min_eq_right h, micWords_eq _ _ _ _ h]
  simp only [bind_eq_bind, bind_some, if_pos hk]
  rw [micLast_eq _ _ _ hk (by rw [length_drop]; omega), hsplit, michaelFrom_append _ _ _ hdvd]
  rfl

theorem micLoop_tail_split (m : Mic) (data : List UInt8) (data_len : Nat)
    (h : data.length < data_len) (h4 : data_len - 4 * (data.length / 4) < 4) :
    micLoop next m data data.length data_len = none := by
  rw [micLoop, Nat.min_eq_left h.le, micWords_eq _ _ _ _ le_rfl]
  simp only [bind_eq_bind, bind_some, if_pos h4]
  rw [micLast_none _ _ _ h4 (by rw [length_drop]; omega)]
  rfl

theorem micLoop_nil (m : Mic) (data : List UInt8) (data_len : Nat)
    (h4 : ¬ data_len - 4 * (data.length / 4) < 4) :
    micLoop [] m data data.length data_len = some none := by
  have h : data.length ≤ data_len := by omega
  rw [micLoop, Nat.min_eq_left h, micWords_eq _ _ _ _ le_rfl]
  simp only [bind_eq_bind, bind_some, if_neg h4]
  rfl

theorem micLoop_short (wbuf : List UInt8) (next : List (List UInt8)) (m : Mic) (data : List UInt8)
    (data_len : Nat) (h4 : ¬ data_len - 4 * (data.length / 4) < 4) (h0 : data.length % 4 ≠ 0)
    (hw : wbuf.length < 4 - data.length % 4) :
    micLoop (wbuf :: next) m data data.length data_len = some none := by
  have h : data.length ≤ data_len := by omega
  rw [micLoop, Nat.min_eq_left h, micWords_eq _ _ _ _ le_rfl]
  simp only [bind_eq_bind, bind_some, if_neg h4, if_pos h0, if_pos hw]
  rfl

theorem micLoop_next (wbuf : List UInt8) (next : List (List UInt8)) (m : Mic) (data : List UInt8)
    (data_len : Nat) (h4 : ¬ data_len - 4 * (data.length / 4) < 4)
    (hw : data.length % 4 = 0 ∨ 4 - data.length % 4 ≤ wbuf.length) :
    let j := 4 * ((data.length + 3) / 4)
    micLoop (wbuf :: next) m data data.length data_len =
      micLoop next (absorb get_le32_split block m ((data ++ wbuf).take j))
        ((data ++ wbuf).drop j) ((data ++ wbuf).drop j).length (data_len - j) := by
  intro j
  have h : data.length ≤ data_len := by omega
  rw [micLoop, Nat.min_eq_left h, micWords_eq _ _ _ _ le_rfl]
  simp only [bind_eq_bind, bind_some, if_neg h4]
  by_cases h0 : data.length % 4 = 0
  · have hj : j = data.length := by omega
    have hk : 4 * (data.length / 4) = data.length := by omega
    simp only [h0, hk, hj, ne_eq, not_true_eq_false, if_false, take_length, take_left, drop_left]
  · -- the word is made of the bytes that are left and the first ones of the next buffer
    have hj : j = data.length + (4 - data.length % 4) := by omega
    have htail : (data.drop (4 * (data.length / 4))).length = data.length % 4 := by
      rw [length_drop]; omega
    obtain ⟨w, hstraddle, hblock⟩ := straddle_eq
      (absorb get_le32_split block m (data.take (4 * (data.length / 4))))
      (data.drop (4 * (data.length / 4))) wbuf (by omega) (by omega) (by omega)
    have hwords : (data ++ wbuf).take j = data.take (4 * (data.length / 4)) ++
        (data.drop (4 * (data.length / 4)) ++ wbuf.take (4 - data.length % 4)) := by
      rw [← append_assoc, take_append_drop, hj, take_length_add_append]
    have hdvd : 4 ∣ (data.take (4 * (data.length / 4))).length := by rw [length_take]; omega
    rw [htail] at hstraddle hblock
    rw [if_pos h0, if_neg (by omega), hstraddle, bind_some, hblock, hwords,
      absorb_append _ _ _ _ _ hdvd, hj, drop_length_add_append, length_drop]
    congr 1
    omega


/-! ## Where the buffers end -/

/-- Of `d` bytes of data, with a buffer that ends behind the first `p` of them and buffers of the
lengths `ns` behind it, every word begins in the buffer before the one it ends in or in the same,
and those that are no word lie in one buffer. -/
def WordsFit (d : Nat) : Nat → List Nat → Prop
  | p, [] => d ≤ p
  | p, n :: ns =>
    d ≤ p ∨ 4 ≤ d - (p - p % 4) ∧ (p % 4 = 0 ∨ 4 - p % 4 ≤ n) ∧ WordsFit d (p + n) ns

theorem micLoop_fit {d : Nat} (p c : Nat) (m : Mic) (data : List UInt8) (data_len : Nat)
    (hp : data.length + c = p) (hd : data_len + c = d) (hc : 4 ∣ c)
    (h : WordsFit d p (next.map List.length)) :
    micLoop next m data data.length data_len =
      some (some (michaelFrom m ((data ++ next.flatten).take data_len))) := by
  induction next generalizing p c m data data_len with
  | nil =>
    have hle : data_len ≤ data.length := by have hdp : d ≤ p := h; omega
    rw [micLoop_last _ _ _ _ hle, flatten_nil, append_nil]
  | cons wbuf next ih =>
    by_cases hle : data_len ≤ data.length
    · rw [micLoop_last _ _ _ _ hle, take_append_of_le_length hle]
    · obtain hdp | ⟨h4, hw, hfit⟩ := h
      · omega
      · have hw' : data.length % 4 = 0 ∨ 4 - data.length % 4 ≤ wbuf.length := by omega
        rw [micLoop_next wbuf next m data data_len (by omega) hw']
        have hj : 4 * ((data.length + 3) / 4) ≤ (data ++ wbuf).length := by
          rw [length_append]; omega
        have hjd : 4 * ((data.length + 3) / 4) ≤ data_len := by omega
        have hdvd : 4 ∣ ((data ++ wbuf).take (4 * ((data.length + 3) / 4))).length := by
          rw [length_take, Nat.min_eq_left hj]; omega
        generalize 4 * ((data.length + 3) / 4) = j at hj hjd hdvd
        rw [length_take, Nat.min_eq_left hj] at hdvd
        have hlen : ((data ++ wbuf).drop j).length + (c + j) = p + wbuf.length := by
          rw [length_drop]
          rw [length_append] at hj ⊢
          omega
        have hrest := ih (p + wbuf.length) (c + j)
          (absorb get_le32_split block m ((data ++ wbuf).take j)) ((data ++ wbuf).drop j)
          (data_len - j) hlen (by omega) (by omega) hfit
        have hsplit : (data ++ (wbuf :: next).flatten).take data_len =
            (data ++ wbuf).take j ++
              ((data ++ wbuf).drop j ++ next.flatten).take (data_len - j) := by
          have hsum : data_len = j + (data_len - j) := by omega
          rw [flatten_cons, ← append_assoc, hsum, take_add,
            take_append_of_le_length hj, drop_append_of_le_length hj,
            Nat.add_sub_cancel_left]
        rw [hrest, hsplit, michaelFrom_append]
        rw [length_take, Nat.min_eq_left hj]; exact hdvd

theorem micLoop_not_fit {d : Nat} (p c : Nat) (m : Mic) (data : List UInt8) (data_len : Nat)
    (hp : data.length + c = p) (hd : data_len + c = d) (hc : 4 ∣ c)
    (h : ¬ WordsFit d p (next.map List.length)) (mic : List UInt8) :
    micLoop next m data data.length data_len ≠ some (some mic) := by
  induction next generalizing p c m data data_len with
  | nil =>
    have hle : data.length < data_len := by have hdp : ¬ d ≤ p := h; omega
    by_cases h4 : data_len - 4 * (data.length / 4) < 4
    · rw [micLoop_tail_split _ _ _ _ hle h4]; simp
    · rw [micLoop_nil _ _ _ h4]; simp
  | cons wbuf next ih =>
    have hle : data.length < data_len := by by_contra hge; exact h (Or.inl (by omega))
    by_cases h4 : data_len - 4 * (data.length / 4) < 4
    · rw [micLoop_tail_split _ _ _ _ hle h4]; simp
    · by_cases hw : data.length % 4 = 0 ∨ 4 - data.length % 4 ≤ wbuf.length
      · rw [micLoop_next wbuf next m data data_len h4 hw]
        refine ih (p + wbuf.length) (c + 4 * ((data.length + 3) / 4)) _ _ _ ?_ (by omega)
          (by omega) ?_
        · rw [length_drop, length_append]; omega
        · intro hfit; exact h (Or.inr ⟨by omega, by omega, hfit⟩)
      · rw [micLoop_short wbuf next m data data_len h4 (by omega) (by omega)]; simp


/-! ## The pseudo-header -/

theorem addr_append {wh a : List UInt8} {off : Nat} (h : addr wh off = some a)
    (ys : List UInt8) : addr (wh ++ ys) off = some a := by
  unfold addr at h ⊢
  split at h
  · rw [if_pos (by rw [length_append]; omega), drop_append_of_le_length (by omega),
      take_append_of_le_length (by rw [length_drop]; omega)]
    exact h
  · simp at h

theorem length_of_addr {wh a : List UInt8} {off : Nat} (h : addr wh off = some a) :
    a.length = 6 := by
  unfold addr at h
  split at h
  · rw [← some.inj h, length_take, length_drop]; omega
  · simp at h

theorem dir_of_ne (fc1 : UInt8) (h0 : fc1 &&& FC1_DIR_MASK ≠ FC1_DIR_NODS)
    (h1 : fc1 &&& FC1_DIR_MASK ≠ FC1_DIR_TODS) (h2 : fc1 &&& FC1_DIR_MASK ≠ FC1_DIR_FROMDS) :
    fc1 &&& FC1_DIR_MASK = FC1_DIR_DSTODS := by
  have hlt : (fc1 &&& FC1_DIR_MASK).toNat < 4 := by
    exact Nat.and_lt_two_pow _ (n := 2) (by decide)
  simp only [← UInt8.toNat_inj, ne_eq] at h0 h1 h2 ⊢
  simp only [FC1_DIR_NODS, FC1_DIR_TODS, FC1_DIR_FROMDS, FC1_DIR_DSTODS,
    UInt8.reduceToNat] at h0 h1 h2 ⊢
  omega

theorem hdrsize_cases (fc0 fc1 : UInt8) :
    24 ≤ hdrsize fc0 fc1 ∧ (fc1 &&& FC1_DIR_MASK = FC1_DIR_DSTODS → 30 ≤ hdrsize fc0 fc1) := by
  unfold hdrsize
  constructor
  · omega
  · intro h
    rw [if_pos h]; omega

theorem addrOffs_le (fc0 fc1 : UInt8) :
    2 ≤ (addrOffs fc1).1 ∧ (addrOffs fc1).1 + 6 ≤ hdrsize fc0 fc1 ∧
      2 ≤ (addrOffs fc1).2 ∧ (addrOffs fc1).2 + 6 ≤ hdrsize fc0 fc1 := by
  obtain ⟨h24, h30⟩ := hdrsize_cases fc0 fc1
  unfold addrOffs
  by_cases h0 : fc1 &&& FC1_DIR_MASK = FC1_DIR_NODS
  · simp only [if_pos h0]; omega
  · by_cases h1 : fc1 &&& FC1_DIR_MASK = FC1_DIR_TODS
    · simp only [if_neg h0, if_pos h1]; omega
    · by_cases h2 : fc1 &&& FC1_DIR_MASK = FC1_DIR_FROMDS
      · simp only [if_neg h0, if_neg h1, if_pos h2]; omega
      · have h4 := h30 (dir_of_ne fc1 h0 h1 h2)
        simp only [if_neg h0, if_neg h1, if_neg h2]
        omega

section HeaderAt

variable {wh : List UInt8} {fc0 fc1 : UInt8}

theorem headerAt_eq (qos : Nat) (h0 : wh[0]? = some fc0) (h1 : wh[1]? = some fc1) :
    headerAt qos wh = (addr wh (addrOffs fc1).1).bind fun da =>
      (addr wh (addrOffs fc1).2).bind fun sa =>
        (priority qos fc0 wh).bind fun tid => some (da ++ sa ++ [tid, 0, 0, 0]) := by
  rw [headerAt, h0, h1]; rfl

theorem pseudoHeader_eq (h1 : wh[1]? = some fc1) : pseudoHeader wh = headerAt (qosOff fc1) wh := by
  rw [pseudoHeader, h1]; rfl

/-- A frame that has the whole header, and the byte of the QoS control if it needs one, has a
pseudo-header, which does not depend on what is behind it. -/
theorem headerAt_some {qos : Nat} (h0 : wh[0]? = some fc0) (h1 : wh[1]? = some fc1)
    (hlen : hdrsize fc0 fc1 ≤ wh.length) (hq : fc0 &&& FC0_SUBTYPE_QOS ≠ 0 → qos < wh.length) :
    ∃ hdr, hdr.length = 16 ∧ ∀ ys, headerAt qos (wh ++ ys) = some hdr := by
  obtain ⟨-, hda, -, hsa⟩ := addrOffs_le fc0 fc1
  have haddr (off : Nat) (h : off + 6 ≤ wh.length) :
      addr wh off = some ((wh.drop off).take 6) := if_pos h
  have hda' := haddr (addrOffs fc1).1 (by omega)
  have hsa' := haddr (addrOffs fc1).2 (by omega)
  obtain ⟨t, ht⟩ : ∃ t, ∀ ys, priority qos fc0 (wh ++ ys) = some t := by
    unfold priority
    by_cases hqos : fc0 &&& FC0_SUBTYPE_QOS ≠ 0
    · have hlt := hq hqos
      refine ⟨wh.get ⟨qos, hlt⟩ &&& QOS_TID, ?_⟩
      intro ys
      rw [if_pos hqos, getElem?_append_left hlt, getElem?_eq_getElem hlt]; rfl
    · exact ⟨0, fun ys => if_neg hqos⟩
  refine ⟨(wh.drop (addrOffs fc1).1).take 6 ++ (wh.drop (addrOffs fc1).2).take 6 ++
    [t, 0, 0, 0], ?_, ?_⟩
  · simp only [length_append, length_of_addr hda', length_of_addr hsa', length_cons, length_nil]
  · intro ys
    have h0' : (wh ++ ys)[0]? = some fc0 := by rw [getElem?_append_left (by omega), h0]
    have h1' : (wh ++ ys)[1]? = some fc1 := by rw [getElem?_append_left (by omega), h1]
    rw [headerAt_eq qos h0' h1', addr_append hda', addr_append hsa', ht]; rfl

theorem michdr_some (h0 : wh[0]? = some fc0) (h1 : wh[1]? = some fc1)
    (hlen : hdrsize fc0 fc1 ≤ wh.length) (hq : fc0 &&& FC0_SUBTYPE_QOS ≠ 0 → 25 ≤ wh.length) :
    ∃ hdr, hdr.length = 16 ∧ ∀ ys, ol_rx_defrag_michdr (wh ++ ys) = some hdr :=
  headerAt_some h0 h1 hlen hq

theorem michdr_none (h0 : wh[0]? = some fc0) (h1 : wh[1]? = some fc1) (hlen : wh.length < 25)
    (hq : fc0 &&& FC0_SUBTYPE_QOS ≠ 0) : ol_rx_defrag_michdr wh = none := by
  have ht : priority 24 fc0 wh = none := by
    rw [priority, if_pos hq, getElem?_eq_none (by omega)]; rfl
  rw [ol_rx_defrag_michdr, headerAt_eq 24 h0 h1, ht]; simp

/-- The pseudo-header of a frame whose header is zero behind the frame control. -/
theorem headerAt_blank {qos : Nat} (h0 : wh[0]? = some fc0) (h1 : wh[1]? = some fc1)
    (hblank : ∀ j, 2 ≤ j → j < hdrsize fc0 fc1 → wh[j]? = some 0)
    (hq : fc0 &&& FC0_SUBTYPE_QOS ≠ 0 → ∃ y, wh[qos]? = some y ∧ y &&& QOS_TID = 0) :
    headerAt qos wh = some (replicate 16 0) := by
  obtain ⟨hda2, hda, hsa2, hsa⟩ := addrOffs_le fc0 fc1
  have haddr (off : Nat) (h2 : 2 ≤ off) (h : off + 6 ≤ hdrsize fc0 fc1) :
      addr wh off = some (replicate 6 0) := by
    have hlast := hblank (off + 5) (by omega) (by omega)
    obtain ⟨hlt, -⟩ := List.getElem?_eq_some_iff.mp hlast
    rw [addr, if_pos (by omega)]
    congr 1
    apply ext_getElem?
    intro j
    rw [getElem?_take, getElem?_replicate, getElem?_drop]
    by_cases hj : j < 6
    · rw [if_pos hj, if_pos hj, hblank (off + j) (by omega) (by omega)]
    · rw [if_neg hj, if_neg hj]
  have ht : priority qos fc0 wh = some 0 := by
    unfold priority
    by_cases hqos : fc0 &&& FC0_SUBTYPE_QOS ≠ 0
    · obtain ⟨y, hy, hy0⟩ := hq hqos; rw [if_pos hqos, hy, map_some, hy0]
    · exact if_neg hqos
  rw [headerAt_eq qos h0 h1, haddr _ hda2 hda, haddr _ hsa2 hsa, ht]; rfl

/-- The code's pseudo-header is the right one, but for a QoS control behind a fourth address. -/
theorem michdr_eq_pseudoHeader (h1 : wh[1]? = some fc1) (h0 : wh[0]? = some fc0)
    (hq : fc0 &&& FC0_SUBTYPE_QOS ≠ 0 → fc1 &&& FC1_DIR_MASK ≠ FC1_DIR_DSTODS) :
    ol_rx_defrag_michdr wh = pseudoHeader wh := by
  rw [pseudoHeader_eq h1, ol_rx_defrag_michdr]
  by_cases hqos : fc0 &&& FC0_SUBTYPE_QOS ≠ 0
  · rw [qosOff, if_neg (hq hqos)]
  · rw [headerAt_eq 24 h0 h1, headerAt_eq _ h0 h1, priority, priority, if_neg hqos, if_neg hqos]

end HeaderAt

end

/-! For which splits of a frame into buffers the MIC is right. -/

/-! ## A frame in a chain of buffers -/

/-- How a frame is split: the frame control, and the lengths of the buffers. The first one holds
all of the header, none is empty, and there is a MIC behind the payload. -/
structure Split where
  fc0 : UInt8
  fc1 : UInt8
  first : Nat
  rest : List Nat
  header_le : hdrsize fc0 fc1 ≤ first
  rest_pos : ∀ n ∈ rest, 0 < n
  mic_le : hdrsize fc0 fc1 + MICLEN ≤ first + rest.sum

def Split.hdrlen (s : Split) : Nat := hdrsize s.fc0 s.fc1

def Split.payloadLen (s : Split) : Nat := s.first + s.rest.sum - (s.hdrlen + MICLEN)

structure Split.Holds (s : Split) (msdu : List UInt8) (next : List (List UInt8)) : Prop where
  fc0 : msdu[0]? = some s.fc0
  fc1 : msdu[1]? = some s.fc1
  first : msdu.length = s.first
  rest : next.map List.length = s.rest

def Split.payload (s : Split) (msdu : List UInt8) (next : List (List UInt8)) : List UInt8 :=
  ((msdu ++ next.flatten).drop s.hdrlen).take s.payloadLen

/-- What is computed is the MIC of the pseudo-header and the payload of the whole frame. -/
def Split.MicRight (s : Split) (key msdu : List UInt8) (next : List (List UInt8)) : Prop :=
  ∃ hdr mic, pseudoHeader (msdu ++ next.flatten) = some hdr ∧
    michael key (hdr ++ s.payload msdu next) = some mic ∧
    ol_rx_frag_tkip_demic_mic key msdu next s.hdrlen = some (some mic)

/-- The payload is below 64 KiB. A frame with a QoS control has three addresses, and the first
buffer holds the byte that is taken for it. Behind the first buffer there is none, or a multiple of
64 KiB altogether, with the words where they are looked for. -/
def Split.Served (s : Split) : Prop :=
  s.payloadLen < 2 ^ 16 ∧ s.rest.sum % 2 ^ 16 = 0 ∧
    (s.fc0 &&& FC0_SUBTYPE_QOS ≠ 0 →
      s.fc1 &&& FC1_DIR_MASK ≠ FC1_DIR_DSTODS ∧ 25 ≤ s.first) ∧
    WordsFit s.payloadLen (s.first - s.hdrlen) s.rest

theorem exists_key {key : List UInt8} (h : key.length = 8) :
    ∃ l r, get_le32 key = some l ∧ get_le32 (key.drop 4) = some r := by
  obtain ⟨k0, k1, k2, k3, rest, rfl⟩ := exists_four key (by omega)
  simp only [length_cons] at h
  obtain ⟨k4, k5, k6, k7, rest, rfl⟩ := exists_four rest (by omega)
  exact ⟨_, _, rfl, rfl⟩

theorem mic_eq_micLoop {key wbuf hdr : List UInt8} (next : List (List UInt8))
    (off data_len : Nat) {l r : UInt32} (hl : get_le32 key = some l)
      (hr : get_le32 (key.drop 4) = some r)
    (hhdr : ol_rx_defrag_michdr wbuf = some hdr) (h16 : hdr.length = 16) :
    ol_rx_defrag_mic key wbuf next off data_len =
      micLoop next (absorb get_le32_split block ⟨l, r⟩ hdr) (wbuf.drop off)
        (wbuf.drop off).length data_len := by
  obtain ⟨_, _, _, _, hdr1, rfl⟩ := exists_four hdr (by omega)
  simp only [length_cons] at h16
  obtain ⟨_, _, _, _, hdr2, rfl⟩ := exists_four hdr1 (by omega)
  simp only [length_cons] at h16
  obtain ⟨_, _, _, _, hdr3, rfl⟩ := exists_four hdr2 (by omega)
  simp only [length_cons] at h16
  obtain ⟨_, _, _, _, hdr4, rfl⟩ := exists_four hdr3 (by omega)
  simp only [length_cons] at h16
  have hnil : hdr4 = [] := eq_nil_of_length_eq_zero (by omega)
  rw [ol_rx_defrag_mic, hhdr, hl, hr, length_drop, hnil]; rfl

theorem michael_eq {key hdr : List UInt8} (payload : List UInt8) {l r : UInt32}
    (hl : get_le32 key = some l) (hr : get_le32 (key.drop 4) = some r) (h16 : hdr.length = 16) :
    michael key (hdr ++ payload) =
      some (michaelFrom (absorb get_le32_split block ⟨l, r⟩ hdr) payload) := by
  rw [michael, hl, hr]
  simp only [Option.bind_eq_bind, Option.bind_some]
  rw [michaelFrom_append _ _ _ (by omega)]; rfl

namespace Split

variable {s : Split} {key msdu : List UInt8} {next : List (List UInt8)}

def dataLen (s : Split) : Nat := demicLen s.first s.hdrlen

/-- What the code computes with a pseudo-header `hdr`, if the words are where it looks. -/
theorem demic_mic_eq (h : s.Holds msdu next) {l r : UInt32} (hl : get_le32 key = some l)
    (hr : get_le32 (key.drop 4) = some r) {hdr : List UInt8} (h16 : hdr.length = 16)
    (hmsdu : ol_rx_defrag_michdr msdu = some hdr) :
    (WordsFit s.dataLen (s.first - s.hdrlen) s.rest →
      ol_rx_frag_tkip_demic_mic key msdu next s.hdrlen = some (some (michaelFrom
        (absorb get_le32_split block ⟨l, r⟩ hdr)
        (((msdu ++ next.flatten).drop s.hdrlen).take s.dataLen)))) ∧
    (¬ WordsFit s.dataLen (s.first - s.hdrlen) s.rest →
      ∀ mic, ol_rx_frag_tkip_demic_mic key msdu next s.hdrlen ≠ some (some mic)) := by
  have hcode := mic_eq_micLoop next s.hdrlen s.dataLen hl hr hmsdu h16
  have hp : (msdu.drop s.hdrlen).length + 0 = s.first - s.hdrlen := by
    rw [length_drop, h.first, Nat.add_zero]
  have hdrop : (msdu ++ next.flatten).drop s.hdrlen = msdu.drop s.hdrlen ++ next.flatten := by
    apply drop_append_of_le_length
    rw [h.first]; exact s.header_le
  have hask : ol_rx_frag_tkip_demic_mic key msdu next s.hdrlen =
      ol_rx_defrag_mic key msdu next s.hdrlen s.dataLen := by
    rw [ol_rx_frag_tkip_demic_mic, h.first]; rfl
  rw [hask, hcode, hdrop]
  constructor
  · intro hfit
    exact micLoop_fit next _ 0 _ (msdu.drop s.hdrlen) s.dataLen hp (Nat.add_zero _)
      (Nat.dvd_zero 4) (by rw [h.rest]; exact hfit)
  · intro hfit mic
    exact micLoop_not_fit next _ 0 _ _ _ hp (Nat.add_zero _) (Nat.dvd_zero 4)
      (by rw [h.rest]; exact hfit) mic

/-- With the right pseudo-header, the MIC is right iff the loop gets through the buffers and what
it has taken hashes to what the payload does. -/
theorem micRight_iff_of_michdr (h : s.Holds msdu next) {l r : UInt32}
    (hl : get_le32 key = some l) (hr : get_le32 (key.drop 4) = some r) {hdr : List UInt8}
    (h16 : hdr.length = 16) (hmsdu : ol_rx_defrag_michdr msdu = some hdr)
    (hhdr : pseudoHeader (msdu ++ next.flatten) = some hdr) :
    s.MicRight key msdu next ↔ WordsFit s.dataLen (s.first - s.hdrlen) s.rest ∧
      let m := absorb get_le32_split block ⟨l, r⟩ hdr
      let data := (msdu ++ next.flatten).drop s.hdrlen
      michaelFrom m (data.take s.dataLen) = michaelFrom m (data.take s.payloadLen) := by
  obtain ⟨hfits, hnot⟩ := demic_mic_eq h hl hr h16 hmsdu
  have hspec := michael_eq (s.payload msdu next) hl hr h16
  by_cases hfit : WordsFit s.dataLen (s.first - s.hdrlen) s.rest
  · have hcode := hfits hfit
    constructor
    · rintro ⟨hdr', mic, hh, hm, ho⟩
      obtain rfl : hdr = hdr' := Option.some.inj (hhdr.symm.trans hh)
      rw [hcode] at ho
      rw [hspec] at hm
      exact ⟨hfit, (Option.some.inj (Option.some.inj ho)).trans (Option.some.inj hm).symm⟩
    · rintro ⟨-, heq⟩
      refine ⟨hdr, _, hhdr, hspec, ?_⟩
      rw [hcode, payload]; exact congrArg (some ∘ some) heq
  · constructor
    · rintro ⟨-, mic, -, -, ho⟩; exact absurd ho (hnot hfit mic)
    · rintro ⟨hfit', -⟩; exact absurd hfit' hfit

theorem wordsFit_le {d p : Nat} {ns : List Nat} (h : WordsFit d p ns) : d ≤ p + ns.sum := by
  induction ns generalizing p with
  | nil => exact h
  | cons n ns ih =>
    rw [sum_cons]
    obtain hdp | ⟨-, -, hfit⟩ := h
    · omega
    · have := ih hfit; omega

/-- The caller asks for the payload and no more iff what is behind the first buffer is a multiple
of 64 KiB. -/
theorem dataLen_eq_iff (s : Split) :
    s.dataLen = s.payloadLen ↔ s.payloadLen < 2 ^ 16 ∧ s.rest.sum % 2 ^ 16 = 0 := by
  have hm := s.mic_le
  have hs : s.hdrlen ≤ 36 := by
    unfold hdrlen hdrsize
    split_ifs <;> omega
  simp only [dataLen, demicLen, payloadLen, hdrlen, MICLEN] at *
  omega

theorem served_iff (s : Split) :
    s.Served ↔ (s.fc0 &&& FC0_SUBTYPE_QOS ≠ 0 →
        s.fc1 &&& FC1_DIR_MASK ≠ FC1_DIR_DSTODS ∧ 25 ≤ s.first) ∧
      s.dataLen = s.payloadLen ∧ WordsFit s.dataLen (s.first - s.hdrlen) s.rest := by
  constructor
  · rintro ⟨hlen, hsum, hq, hfit⟩
    have hd := (dataLen_eq_iff s).mpr ⟨hlen, hsum⟩
    exact ⟨hq, hd, by rwa [hd]⟩
  · rintro ⟨hq, hd, hfit⟩
    obtain ⟨hlen, hsum⟩ := (dataLen_eq_iff s).mp hd
    rw [hd] at hfit; exact ⟨hlen, hsum, hq, hfit⟩

end Split


/-! ## Frames that differ in one byte -/

theorem put_le32_inj {v w : UInt32} (h : put_le32 v = put_le32 w) : v = w := by
  have hget := congrArg get_le32 h
  rw [get_le32_put_le32, get_le32_put_le32] at hget; exact Option.some.inj hget

theorem put_mic_inj {m m' : Mic}
    (h : put_le32 m.l ++ put_le32 m.r = put_le32 m'.l ++ put_le32 m'.r) : m = m' := by
  obtain ⟨hl, hr⟩ := append_inj h (by simp [put_le32])
  calc m = ⟨m.l, m.r⟩ := rfl
    _ = m' := by rw [put_le32_inj hl, put_le32_inj hr]

/-- The MIC of one text tells the states apart that it can start from. -/
theorem michaelFrom_injective (msg : List UInt8) : Function.Injective fun m => michaelFrom m msg := by
  intro m m' h; exact absorb_injective block_injective_state (pad msg) (put_mic_inj h)

theorem michaelFrom_set_ne (m : Mic) (msg : List UInt8) (i : Nat) (hi : i < msg.length)
    {x y : UInt8} (hxy : x ≠ y) : michaelFrom m (msg.set i x) ≠ michaelFrom m (msg.set i y) := by
  have hpad (z : UInt8) : pad (msg.set i z) = (pad msg).set i z := by
    rw [pad, pad, length_set, set_append_left _ _ hi]
  have hlt : i < (pad msg).length := by rw [pad, length_append]; omega
  have hne := absorb_set_ne get_le32_split_inj block_injective_word block_injective_state m
    (pad msg) (four_dvd_length_pad msg) i hlt hxy
  intro h
  rw [michaelFrom, michaelFrom, hpad x, hpad y] at h; exact hne (put_mic_inj h)

/-- Two prefixes of different lengths cannot have the same MIC for either value of the last byte of
the longer one. -/
theorem michaelFrom_prefix (m : Mic) (msg : List UInt8) {i j : Nat} (hij : i < j)
    (hj : j ≤ msg.length) {x y : UInt8} (hxy : x ≠ y)
    (hx : michaelFrom m ((msg.set (j - 1) x).take i) = michaelFrom m ((msg.set (j - 1) x).take j))
    (hy : michaelFrom m ((msg.set (j - 1) y).take i) = michaelFrom m ((msg.set (j - 1) y).take j)) :
    False := by
  have hshort (z : UInt8) : (msg.set (j - 1) z).take i = msg.take i := by
    apply take_set_of_le
    omega
  rw [hshort] at hx hy
  have heq := hx.symm.trans hy
  rw [take_set, take_set] at heq
  exact michaelFrom_set_ne m (msg.take j) (j - 1) (by rw [length_take]; omega) hxy heq

namespace Split

variable (s : Split)

/-- A frame of zeros, but for the frame control and the byte `x` at `i`. -/
def frame (i : Nat) (x : UInt8) : List UInt8 :=
  (s.fc0 :: s.fc1 :: replicate (s.first + s.rest.sum - 2) 0).set i x

def msdu (i : Nat) (x : UInt8) : List UInt8 := (s.frame i x).take s.first

def next (i : Nat) (x : UInt8) : List (List UInt8) :=
  s.rest.splitLengths ((s.frame i x).drop s.first)

theorem first_ge : 24 ≤ s.first := Nat.le_trans (hdrsize_cases s.fc0 s.fc1).1 s.header_le

@[simp] theorem length_frame (i : Nat) (x : UInt8) :
    (s.frame i x).length = s.first + s.rest.sum := by
  have := s.first_ge
  simp only [frame, length_set, length_cons, length_replicate]
  omega

theorem msdu_append_next (i : Nat) (x : UInt8) :
    s.msdu i x ++ (s.next i x).flatten = s.frame i x := by
  rw [next, flatten_splitLengths, msdu, take_append_drop]
  rw [length_drop, length_frame]; omega

theorem frame_get {i j : Nat} (hj2 : 2 ≤ j) (hj : j < s.first + s.rest.sum) (x : UInt8) :
    (s.frame i x)[j]? = some (if i = j then x else 0) := by
  obtain ⟨k, rfl⟩ := Nat.exists_eq_add_of_le' hj2
  rw [frame, getElem?_set]
  by_cases h : i = k + 2
  · subst h
    simp only [if_true, length_cons, length_replicate]
    rw [if_pos (by omega)]
  · rw [if_neg h, if_neg h, getElem?_cons_succ, getElem?_cons_succ,
      getElem?_replicate, if_pos (by omega)]

theorem holds (i : Nat) (h2 : 2 ≤ i) (x : UInt8) : s.Holds (s.msdu i x) (s.next i x) where
  fc0 := by
    have := s.first_ge
    rw [msdu, getElem?_take, if_pos (by omega), frame, getElem?_set_ne (by omega)]; rfl
  fc1 := by
    have := s.first_ge
    rw [msdu, getElem?_take, if_pos (by omega), frame, getElem?_set_ne (by omega)]; rfl
  first := by rw [msdu, length_take, length_frame]; omega
  rest := by
    rw [next, map_splitLengths_length]
    rw [length_drop, length_frame]; omega

/-- Both pseudo-headers of a frame of zeros, but for the frame control and a byte behind the header
whose low bits are zero. -/
theorem header_frame {i : Nat} (hi : s.hdrlen ≤ i) {x : UInt8} (hx : x &&& QOS_TID = 0)
    (hq : s.fc0 &&& FC0_SUBTYPE_QOS ≠ 0 → 25 ≤ s.first) :
    ol_rx_defrag_michdr (s.msdu i x) = some (replicate 16 0) ∧
      pseudoHeader (s.msdu i x ++ (s.next i x).flatten) = some (replicate 16 0) := by
  obtain ⟨h24, h30⟩ := hdrsize_cases s.fc0 s.fc1
  have hle := s.header_le
  have hlt : s.hdrlen = hdrsize s.fc0 s.fc1 := rfl
  have hmic := s.mic_le
  have h8 : MICLEN = 8 := rfl
  have hh := s.holds i (by omega) x
  have hlow : (if i = 24 then x else 0) &&& QOS_TID = 0 ∧
      (if i = qosOff s.fc1 then x else 0) &&& QOS_TID = 0 := by
    constructor
    all_goals
      split_ifs
      · exact hx
      · rfl
  constructor
  · have hget (j : Nat) (h2 : 2 ≤ j) (hj : j < s.first) :
        (s.msdu i x)[j]? = some (if i = j then x else 0) := by
      rw [msdu, getElem?_take, if_pos hj, s.frame_get h2 (by omega)]
    refine headerAt_blank hh.fc0 hh.fc1 (fun j h2 hj => ?_) fun hqos => ?_
    · rw [hget j h2 (by omega), if_neg (by omega)]
    · exact ⟨_, hget 24 (by omega) (hq hqos), hlow.1⟩
  · have h0 : (s.frame i x)[0]? = some s.fc0 := by rw [frame, getElem?_set_ne (by omega)]; rfl
    have h1 : (s.frame i x)[1]? = some s.fc1 := by rw [frame, getElem?_set_ne (by omega)]; rfl
    have hqos : qosOff s.fc1 < s.first + s.rest.sum := by
      unfold qosOff
      split_ifs with hdir
      · have := h30 hdir; omega
      · omega
    rw [msdu_append_next, pseudoHeader_eq h1]
    refine headerAt_blank h0 h1 (fun j h2 hj => ?_) fun _ => ?_
    · rw [s.frame_get h2 (by omega), if_neg (by omega)]
    · refine ⟨_, s.frame_get ?_ hqos x, hlow.2⟩
      unfold qosOff
      split_ifs <;> omega

theorem drop_frame {i : Nat} (hi : s.hdrlen ≤ i) (x : UInt8) :
    (s.frame i x).drop s.hdrlen = (replicate (s.first + s.rest.sum - s.hdrlen) 0).set
      (i - s.hdrlen) x := by
  have h24 := (hdrsize_cases s.fc0 s.fc1).1
  obtain ⟨k, hk⟩ : ∃ k, s.hdrlen = k + 2 := ⟨s.hdrlen - 2, by unfold hdrlen; omega⟩
  rw [frame, drop_set, if_neg (by omega), hk, drop_succ_cons, drop_succ_cons, drop_replicate]
  congr 2
  omega

/-- In a frame with four addresses and a QoS control, the priority is taken from the fourth
address: if its first byte is 1, and the QoS control is 0, the MIC is wrong. -/
theorem exists_wrong_addr4 (hqos : s.fc0 &&& FC0_SUBTYPE_QOS ≠ 0)
    (hdir : s.fc1 &&& FC1_DIR_MASK = FC1_DIR_DSTODS) (hd : s.dataLen = s.payloadLen)
    (hfit : WordsFit s.dataLen (s.first - s.hdrlen) s.rest) :
    ∃ key msdu next, key.length = 8 ∧ s.Holds msdu next ∧ ¬ s.MicRight key msdu next := by
  have h30 := (hdrsize_cases s.fc0 s.fc1).2 hdir
  obtain ⟨-, hda, -, hsa⟩ := addrOffs_le s.fc0 s.fc1
  have hle := s.header_le
  have hmic := s.mic_le
  have h8 : MICLEN = 8 := rfl
  have hkey : get_le32 (replicate 8 0) = some 0 := by decide
  have hkey' : get_le32 ((replicate 8 0).drop 4) = some 0 := by decide
  have hh := s.holds 24 (by omega) 1
  have hsplit := s.msdu_append_next 24 1
  have h0 : (s.frame 24 1)[0]? = some s.fc0 := by rw [frame, getElem?_set_ne (by omega)]; rfl
  have h1 : (s.frame 24 1)[1]? = some s.fc1 := by rw [frame, getElem?_set_ne (by omega)]; rfl
  have haddr (off : Nat) (h : off + 6 ≤ hdrsize s.fc0 s.fc1) :
      ∃ a, addr (s.msdu 24 1) off = some a ∧ addr (s.frame 24 1) off = some a ∧ a.length = 6 := by
    have hmsdu : addr (s.msdu 24 1) off = some (((s.msdu 24 1).drop off).take 6) :=
      if_pos (by rw [hh.first]; omega)
    have hframe := addr_append hmsdu (s.next 24 1).flatten
    rw [hsplit] at hframe; exact ⟨_, hmsdu, hframe, length_of_addr hmsdu⟩
  obtain ⟨da, hda, hda', hdalen⟩ := haddr _ hda
  obtain ⟨sa, hsa, hsa', hsalen⟩ := haddr _ hsa
  -- the two priorities: the code's is 1, and the right one is 0
  have hcode : ol_rx_defrag_michdr (s.msdu 24 1) = some (da ++ sa ++ [1, 0, 0, 0]) := by
    have hbyte : (s.msdu 24 1)[24]? = some 1 := by
      rw [msdu, getElem?_take, if_pos (by omega), s.frame_get (by omega) (by omega), if_pos rfl]
    rw [ol_rx_defrag_michdr, headerAt_eq 24 hh.fc0 hh.fc1, hda, hsa, priority, if_pos hqos, hbyte]
    rfl
  have hspec : pseudoHeader (s.msdu 24 1 ++ (s.next 24 1).flatten) =
      some (da ++ sa ++ [0, 0, 0, 0]) := by
    have hbyte : (s.frame 24 1)[30]? = some 0 := by
      rw [s.frame_get (by omega) (by omega), if_neg (by omega)]
    rw [hsplit, pseudoHeader_eq h1, qosOff, if_pos hdir, headerAt_eq 30 h0 h1, hda', hsa', priority,
      if_pos hqos, hbyte]
    rfl
  refine ⟨replicate 8 0, s.msdu 24 1, s.next 24 1, length_replicate, hh, ?_⟩
  rintro ⟨hdr, mic, hhdr, hm, ho⟩
  obtain rfl : hdr = da ++ sa ++ [0, 0, 0, 0] := Option.some.inj (hhdr.symm.trans hspec)
  have hlen (x : UInt8) : (da ++ sa ++ [x, 0, 0, 0]).length = 16 := by
    simp only [length_append, hdalen, hsalen, length_cons, length_nil]
  rw [(demic_mic_eq hh hkey hkey' (hlen 1) hcode).1 hfit, hd] at ho
  rw [michael_eq _ hkey hkey' (hlen 0), payload] at hm
  have hmac := (Option.some.inj (Option.some.inj ho)).trans (Option.some.inj hm).symm
  have hstate := michaelFrom_injective _ hmac
  have hdvd : 4 ∣ (da ++ sa).length := by rw [length_append, hdalen, hsalen]; decide
  rw [absorb_append _ _ _ _ _ hdvd, absorb_append _ _ _ _ _ hdvd] at hstate
  have hword := block_injective_word _ hstate
  exact absurd (get_le32_split_inj hword).1 (by decide)

theorem exists_wrong (h : ¬ s.Served) :
    ∃ key msdu next, key.length = 8 ∧ s.Holds msdu next ∧ ¬ s.MicRight key msdu next := by
  have h24 := (hdrsize_cases s.fc0 s.fc1).1
  have hle := s.header_le
  have hlt : s.hdrlen = hdrsize s.fc0 s.fc1 := rfl
  have hkey : get_le32 (replicate 8 0) = some 0 := by decide
  have hkey' : get_le32 ((replicate 8 0).drop 4) = some 0 := by decide
  by_cases hq : s.fc0 &&& FC0_SUBTYPE_QOS ≠ 0 → 25 ≤ s.first
  · by_cases hsound : s.dataLen = s.payloadLen ∧ WordsFit s.dataLen (s.first - s.hdrlen) s.rest
    · -- the buffers are right, so it is the pseudo-header
      obtain ⟨hqos, hdir⟩ : s.fc0 &&& FC0_SUBTYPE_QOS ≠ 0 ∧
          s.fc1 &&& FC1_DIR_MASK = FC1_DIR_DSTODS := by
        by_contra hnot
        refine h ((served_iff s).mpr ⟨fun hqos => ⟨fun hdir => hnot ⟨hqos, hdir⟩, hq hqos⟩, ?_⟩)
        exact hsound
      exact s.exists_wrong_addr4 hqos hdir hsound.1 hsound.2
    · -- a frame that differs in the last byte that one of the two MICs covers and the other not
      let i := s.hdrlen + (max s.dataLen s.payloadLen - 1)
      by_contra hall
      have hright (x : UInt8) : s.MicRight (replicate 8 0) (s.msdu i x) (s.next i x) := by
        by_contra hwrong
        exact hall ⟨_, _, _, length_replicate, s.holds i (by omega) x, hwrong⟩
      have hboth (x : UInt8) (hx : x &&& QOS_TID = 0) :=
        (micRight_iff_of_michdr (s.holds i (by omega) x) hkey hkey' length_replicate
          (s.header_frame (by omega) hx hq).1 (s.header_frame (by omega) hx hq).2).mp (hright x)
      simp only [msdu_append_next, s.drop_frame (Nat.le_add_right _ _), i,
        Nat.add_sub_cancel_left] at hboth
      have hfit := (hboth 0 (by decide)).1
      have hne : s.dataLen ≠ s.payloadLen := fun hd => hsound ⟨hd, hfit⟩
      have hdle := wordsFit_le hfit
      have hpay : s.payloadLen ≤ s.first + s.rest.sum - s.hdrlen := by unfold payloadLen; omega
      have h0 := (hboth 0 (by decide)).2
      have h16 := (hboth 16 (by decide)).2
      rcases Nat.lt_or_gt_of_ne hne with hlt | hgt
      · rw [Nat.max_eq_right hlt.le] at h0 h16
        exact michaelFrom_prefix _ _ hlt (by rw [length_replicate]; omega) (by decide) h0 h16
      · rw [Nat.max_eq_left hgt.le] at h0 h16
        exact michaelFrom_prefix _ _ hgt (by rw [length_replicate]; omega) (by decide)
          h0.symm h16.symm
  · rw [Classical.not_imp] at hq
    refine ⟨replicate 8 0, s.msdu 2 0, s.next 2 0, length_replicate, s.holds 2 le_rfl 0, ?_⟩
    rintro ⟨hdr, mic, -, -, ho⟩
    have hh := s.holds 2 le_rfl 0
    rw [ol_rx_frag_tkip_demic_mic, ol_rx_defrag_mic,
      michdr_none hh.fc0 hh.fc1 (by rw [hh.first]; omega) hq.1] at ho
    exact absurd ho (by simp)

end Split

/-- For a given split the MIC is right for every key and all contents of the frame iff the split
is served. With one buffer, as `ol_rx_defrag` has it when it has merged the fragments, that is a
payload below 64 KiB in a frame that has no QoS control or three addresses. -/
theorem mic_right_iff (s : Split) :
    (∀ key msdu next, key.length = 8 → s.Holds msdu next → s.MicRight key msdu next) ↔
      s.Served := by
  constructor
  · intro hall
    by_contra h
    obtain ⟨key, msdu, next, hkey, hholds, hwrong⟩ := s.exists_wrong h
    exact hwrong (hall key msdu next hkey hholds)
  · intro h key msdu next hkey hholds
    obtain ⟨hq, hd, hfit⟩ := (Split.served_iff s).mp h
    obtain ⟨l, r, hl, hr⟩ := exists_key hkey
    have hlen : hdrsize s.fc0 s.fc1 ≤ msdu.length := by rw [hholds.first]; exact s.header_le
    obtain ⟨hdr, h16, hhdr⟩ := michdr_some hholds.fc0 hholds.fc1 hlen fun hqos => by
      rw [hholds.first]; exact (hq hqos).2
    have h24 := (hdrsize_cases s.fc0 s.fc1).1
    have h0 : (msdu ++ next.flatten)[0]? = some s.fc0 := by
      rw [getElem?_append_left (by omega), hholds.fc0]
    have h1 : (msdu ++ next.flatten)[1]? = some s.fc1 := by
      rw [getElem?_append_left (by omega), hholds.fc1]
    have hwhole := michdr_eq_pseudoHeader h1 h0 fun hqos => (hq hqos).1
    have hmsdu := hhdr []
    rw [append_nil] at hmsdu
    refine (Split.micRight_iff_of_michdr hholds hl hr h16 hmsdu
      (hwhole.symm.trans (hhdr next.flatten))).mpr ⟨hfit, ?_⟩
    intro m data
    rw [hd]

/-- A QoS data frame with four addresses in one buffer: a header of 32 bytes, 16 bytes of payload
and the MIC. -/
def fourAddresses : Split where
  fc0 := 0x88
  fc1 := 0x43
  first := 56
  rest := []
  header_le := by decide
  rest_pos := by decide
  mic_le := by decide

/-- The QoS control says 5, and the MIC is computed with the priority 0, which is what the fourth
address begins with. -/
theorem priority_of_fourth_address :
    ∃ key msdu, key.length = 8 ∧ fourAddresses.Holds msdu [] ∧
      msdu[30]? = some 5 ∧ pseudoHeader msdu = some (replicate 12 0 ++ [5, 0, 0, 0]) ∧
      ol_rx_defrag_michdr msdu = some (replicate 16 0) ∧
      ¬ fourAddresses.MicRight key msdu [] := by
  refine ⟨replicate 8 0, [0x88, 0x43] ++ replicate 28 0 ++ [5, 0] ++ replicate 24 1, by decide,
    ⟨by decide, by decide, by decide, by decide⟩, by decide, by decide, by decide, ?_⟩
  rintro ⟨hdr, mic, hhdr, hmic, hcode⟩
  have hdr0 : hdr = replicate 12 0 ++ [5, 0, 0, 0] := Option.some.inj (hhdr.symm.trans (by decide))
  rw [hdr0] at hmic
  have heq := (congrArg (Option.map some) hmic).trans hcode.symm
  revert heq
  decide

end Qcacld.RxMichael
