/-
WEP for authentication frames: the encryption functions of `lim_security_utils.c`.

The length that `lim_rc4` counts down and the one that the CRC is computed over are eight bits wide.
The buffer that `lim_decrypt_auth_frame` writes to is an array on its caller's stack that nobody
initialises: `stale` is what was there, and past the array what else is on the stack.
-/
import Mathlib.Algebra.Order.Ring.Int
import Mathlib.Data.UInt

set_option autoImplicit false

namespace Qcacld.LimWep

open List

def SIR_MAC_WEP_IV_LENGTH : Nat := 4
def SIR_MAC_WEP_ICV_LENGTH : Nat := 4
def SIR_MAC_KEY_LENGTH : Nat := 13
def LIM_SEED_LENGTH : Nat := 16
def PTAPS : UInt32 := 0xedb88320

/-- A key as the session or the configuration holds it; one of length zero was never set. -/
structure WepKey where
  key : List UInt8
  keyLength_le : key.length ≤ SIR_MAC_KEY_LENGTH

/-! ## CRC-32 -/

def crcBits : Nat → UInt32 → UInt32
  | 0, z => z
  | n + 1, z => crcBits n (if z &&& 1 = 1 then (z >>> 1) ^^^ PTAPS else z >>> 1)

def lim_crc_update (crc : UInt32) (x : UInt8) : UInt32 := crcBits 8 (crc ^^^ x.toUInt32)

def crcLoop (crc : UInt32) : List UInt8 → UInt32
  | [] => crc
  | x :: src => crcLoop (lim_crc_update crc x) src

/-- The four bytes that `lim_compute_crc32` writes for the bytes of `src`. -/
def lim_compute_crc32 (src : List UInt8) : List UInt8 :=
  let crc := ~~~ crcLoop (~~~ 0) src
  [crc.toUInt8, (crc >>> 8).toUInt8, (crc >>> 16).toUInt8, (crc >>> 24).toUInt8]

/-! ## RC4 -/

structure RC4Context where
  i : UInt8
  j : UInt8
  sbox : List UInt8

/-- The second loop over the sbox in `lim_rc4`, for the last `n` of its 256 entries. -/
def seedLoop (seed : List UInt8) (keyLength : Nat) :
    Nat → (i k : Nat) → (j : UInt8) → List UInt8 → List UInt8
  | 0, _, _, _, sbox => sbox
  | n + 1, i, k, j, sbox =>
    let j := if k < LIM_SEED_LENGTH then j + sbox.getD i 0 + seed.getD k 0 else j
    let temp := sbox.getD i 0
    let sbox := (sbox.set i (sbox.getD j.toNat 0)).set j.toNat temp
    seedLoop seed keyLength n (i + 1) (if keyLength ≤ k + 1 then 0 else k + 1) j sbox

def rc4Init (seed : List UInt8) (keyLength : Nat) : RC4Context :=
  ⟨0, 0, seedLoop seed keyLength 256 0 0 0 ((range 256).map UInt8.ofNat)⟩

def rc4Next (ctx : RC4Context) : UInt8 × RC4Context :=
  let i := ctx.i + 1
  let temp1 := ctx.sbox.getD i.toNat 0
  let j := ctx.j + temp1
  let temp2 := ctx.sbox.getD j.toNat 0
  let sbox := (ctx.sbox.set i.toNat temp2).set j.toNat temp1
  (sbox.getD (temp1 + temp2).toNat 0, ⟨i, j, sbox⟩)

def rc4Loop : Nat → RC4Context → List UInt8 → List UInt8
  | 0, _, _ => []
  | len + 1, ctx, src =>
    let (temp1, ctx) := rc4Next ctx
    (temp1 ^^^ src.headD 0) :: rc4Loop len ctx src.tail

/-- The bytes that `lim_rc4` writes. -/
def lim_rc4 (src seed : List UInt8) (keyLength : Nat) (frameLen : UInt16) : List UInt8 :=
  let len : UInt8 := frameLen.toUInt8
  rc4Loop len.toNat (rc4Init seed keyLength) src

/-! ## Authentication frame bodies -/

/-- `lim_encrypt_auth_frame`, with `iv` the three bytes of the seed that it does not set. -/
def lim_encrypt_auth_frame (iv : List UInt8) (keyId : UInt8) (k : WepKey)
    (plainText : List UInt8) : List UInt8 :=
  let text := plainText ++ lim_compute_crc32 plainText
  iv ++ [keyId <<< 6] ++
    lim_rc4 text (iv ++ k.key) (k.key.length + 3) (UInt16.ofNat text.length)

def plainBody (stale : Nat → UInt8) (written : List UInt8) (i : Nat) : UInt8 :=
  written[i]?.getD (stale i)

def bytes (mem : Nat → UInt8) (start len : Nat) : List UInt8 :=
  (range' start len).map mem

/-- `lim_decrypt_auth_frame`: the buffer after it, or `none` for `LIM_DECRYPT_ICV_FAIL`. -/
def lim_decrypt_auth_frame (stale : Nat → UInt8) (k : WepKey) (encrBody : List UInt8)
    (frameLen : UInt16) : Option (Nat → UInt8) :=
  let seed := encrBody.take (SIR_MAC_WEP_IV_LENGTH - 1) ++ k.key
  let plain := plainBody stale
    (lim_rc4 (encrBody.drop SIR_MAC_WEP_IV_LENGTH) seed (k.key.length + 3) frameLen)
  let icvAt : UInt16 := frameLen - 4
  let len : UInt8 := icvAt.toUInt8
  if lim_compute_crc32 (bytes plain 0 len.toNat) =
      bytes plain icvAt.toNat SIR_MAC_WEP_ICV_LENGTH then some plain
  else none

/-! ## What opening a body means

The whole body behind the IV is decrypted, whatever its length, and its last four bytes are the
CRC of all that is before them. -/

def wepPlain (k : WepKey) (encrBody : List UInt8) : List UInt8 :=
  rc4Loop (encrBody.length - SIR_MAC_WEP_IV_LENGTH)
    (rc4Init (encrBody.take (SIR_MAC_WEP_IV_LENGTH - 1) ++ k.key) (k.key.length + 3))
    (encrBody.drop SIR_MAC_WEP_IV_LENGTH)

def WepOpens (k : WepKey) (encrBody text : List UInt8) : Prop :=
  wepPlain k encrBody = text ++ lim_compute_crc32 text

theorem length_compute_crc32 (src : List UInt8) : (lim_compute_crc32 src).length = 4 := rfl

theorem length_rc4Loop (len : Nat) (ctx : RC4Context) (src : List UInt8) :
    (rc4Loop len ctx src).length = len := by
  induction len generalizing ctx src with
  | zero => rfl
  | succ len ih => exact congrArg (· + 1) (ih _ _)

theorem rc4Loop_rc4Loop (ctx : RC4Context) (src : List UInt8) :
    rc4Loop src.length ctx (rc4Loop src.length ctx src) = src := by
  induction src generalizing ctx with
  | nil => rfl
  | cons x src ih =>
    show ((rc4Next ctx).1 ^^^ ((rc4Next ctx).1 ^^^ x)) ::
      rc4Loop src.length (rc4Next ctx).2 (rc4Loop src.length (rc4Next ctx).2 src) = x :: src
    rw [ih, ← UInt8.xor_assoc, UInt8.xor_self, UInt8.zero_xor]

/-! ## The decryption of the code

Up to 255 encrypted bytes, `lim_decrypt_auth_frame` opens a body. From 256 on the eight-bit length
has wrapped: only the first bytes are decrypted, and the ICV is compared with what was on the
stack. -/

theorem bytes_plainBody (stale : Nat → UInt8) (w : List UInt8) {start len : Nat}
    (h : start + len ≤ w.length) :
    bytes (plainBody stale w) start len = (w.drop start).take len := by
  apply ext_getElem
  · rw [bytes, length_map, length_range', length_take, length_drop]; omega
  · intro i hi hi'
    have hlen : i < len := by simpa [bytes] using hi
    have hw : start + i < w.length := by omega
    simp only [bytes, getElem_map, getElem_range', plainBody, getElem_take, getElem_drop]
    rw [Nat.one_mul, getElem?_eq_getElem hw, Option.getD_some]

theorem toNat_toUInt8_ofNat {n : Nat} (h : n < 256) : (UInt16.ofNat n).toUInt8.toNat = n := by
  rw [UInt16.toNat_toUInt8, UInt16.toNat_ofNat', Nat.mod_eq_of_lt (by omega : n < 2 ^ 16),
    Nat.mod_eq_of_lt h]

variable {stale : Nat → UInt8} {k : WepKey} {encrBody : List UInt8}

theorem decrypt_eq (hmin : 8 ≤ encrBody.length) (hmax : encrBody.length < 260) :
    lim_decrypt_auth_frame stale k encrBody (UInt16.ofNat (encrBody.length - 4)) =
      let w := wepPlain k encrBody
      if lim_compute_crc32 (w.take (encrBody.length - 8)) = w.drop (encrBody.length - 8) then
        some (plainBody stale w)
      else none := by
  have hw : lim_rc4 (encrBody.drop SIR_MAC_WEP_IV_LENGTH)
      (encrBody.take (SIR_MAC_WEP_IV_LENGTH - 1) ++ k.key) (k.key.length + 3)
      (UInt16.ofNat (encrBody.length - 4)) = wepPlain k encrBody := by
    simp only [lim_rc4, wepPlain, toNat_toUInt8_ofNat (show encrBody.length - 4 < 256 by omega),
      SIR_MAC_WEP_IV_LENGTH]
  have hlen : (wepPlain k encrBody).length = encrBody.length - 4 := length_rc4Loop _ _ _
  have hat : UInt16.ofNat (encrBody.length - 4) - 4 = UInt16.ofNat (encrBody.length - 8) := by
    have hfour : (4 : UInt16).toNat = 4 := rfl
    apply UInt16.toNat.inj
    rw [UInt16.toNat_sub_of_le, UInt16.toNat_ofNat', UInt16.toNat_ofNat', hfour]
    · omega
    · rw [UInt16.le_iff_toNat_le, UInt16.toNat_ofNat', hfour]; omega
  have hicv : (UInt16.ofNat (encrBody.length - 8)).toNat = encrBody.length - 8 := by
    rw [UInt16.toNat_ofNat']; omega
  have hdrop : ((wepPlain k encrBody).drop (encrBody.length - 8)).take 4 =
      (wepPlain k encrBody).drop (encrBody.length - 8) := by
    apply take_of_length_le
    rw [length_drop, hlen]; omega
  simp only [lim_decrypt_auth_frame, hw, hat, hicv, SIR_MAC_WEP_ICV_LENGTH,
    toNat_toUInt8_ofNat (show encrBody.length - 8 < 256 by omega)]
  rw [bytes_plainBody stale _ (by omega), bytes_plainBody stale _ (by omega), drop_zero, hdrop]

theorem decrypt_opens {plain : Nat → UInt8} (hmin : 8 ≤ encrBody.length)
    (hmax : encrBody.length < 260)
    (h : lim_decrypt_auth_frame stale k encrBody (UInt16.ofNat (encrBody.length - 4)) =
      some plain) : WepOpens k encrBody (bytes plain 0 (encrBody.length - 8)) := by
  have hlen : (wepPlain k encrBody).length = encrBody.length - 4 := length_rc4Loop _ _ _
  rw [decrypt_eq hmin hmax] at h
  obtain ⟨hcrc, hplain⟩ := Option.ite_none_right_eq_some.mp h
  cases hplain
  rw [WepOpens, bytes_plainBody stale _ (by omega), drop_zero, hcrc, take_append_drop]

section RoundTrip

variable {iv text : List UInt8} {keyId : UInt8}

theorem encrypt_eq (htext : text.length < 252) :
    lim_encrypt_auth_frame iv keyId k text = iv ++ [keyId <<< 6] ++
      rc4Loop (text.length + 4) (rc4Init (iv ++ k.key) (k.key.length + 3))
        (text ++ lim_compute_crc32 text) := by
  have hall : (text ++ lim_compute_crc32 text).length = text.length + 4 := by
    rw [length_append, length_compute_crc32]
  simp only [lim_encrypt_auth_frame, lim_rc4, hall,
    toNat_toUInt8_ofNat (show text.length + 4 < 256 by omega)]

theorem length_encrypt (hiv : iv.length = 3) (htext : text.length < 252) :
    (lim_encrypt_auth_frame iv keyId k text).length = text.length + 8 := by
  rw [encrypt_eq htext]
  simp only [length_append, hiv, length_singleton, length_rc4Loop]
  omega

theorem wepPlain_encrypt (hiv : iv.length = 3) (htext : text.length < 252) :
    wepPlain k (lim_encrypt_auth_frame iv keyId k text) = text ++ lim_compute_crc32 text := by
  have hround := rc4Loop_rc4Loop (rc4Init (iv ++ k.key) (k.key.length + 3))
    (text ++ lim_compute_crc32 text)
  rw [length_append, length_compute_crc32] at hround
  rw [wepPlain, length_encrypt hiv htext, encrypt_eq htext]
  generalize rc4Loop (text.length + 4) (rc4Init (iv ++ k.key) (k.key.length + 3))
    (text ++ lim_compute_crc32 text) = encr at hround ⊢
  have htake : (iv ++ [keyId <<< 6] ++ encr).take (SIR_MAC_WEP_IV_LENGTH - 1) = iv := by
    rw [append_assoc]; exact take_left' hiv
  have hdrop : (iv ++ [keyId <<< 6] ++ encr).drop SIR_MAC_WEP_IV_LENGTH = encr := by
    apply drop_left'
    rw [length_append, hiv]; rfl
  rw [htake, hdrop]; exact hround

/-- **The round trip.** What was encrypted under a key is decrypted under it. -/
theorem decrypt_encrypt (hiv : iv.length = 3) (htext : text.length < 252) :
    ∃ plain, lim_decrypt_auth_frame stale k (lim_encrypt_auth_frame iv keyId k text)
        (UInt16.ofNat ((lim_encrypt_auth_frame iv keyId k text).length - 4)) = some plain ∧
      bytes plain 0 text.length = text := by
  have hlen := @length_encrypt k iv text keyId hiv htext
  refine ⟨plainBody stale (text ++ lim_compute_crc32 text), ?_, ?_⟩
  · rw [decrypt_eq (by omega) (by omega), wepPlain_encrypt hiv htext, hlen]
    simp only [Nat.add_sub_cancel]
    rw [take_left, drop_left, if_pos rfl]
  · rw [bytes_plainBody stale _ (by rw [length_append]; omega), drop_zero, take_left]

end RoundTrip

end Qcacld.LimWep
