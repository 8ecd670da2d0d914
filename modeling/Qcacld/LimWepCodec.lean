/-
What the decryption of an authentication frame decides.

From a frame of 260 bytes on, the ICV is looked for behind what was decrypted: what was on the stack
of `lim_process_auth_frame` decides, whatever the frame is.
-/
import Qcacld.LimAuthFrame

set_option autoImplicit false

namespace Qcacld.LimWep

open LimAuthFrame List

def PLAINBODY_SIZE : Nat := 256

def AUTH_FRAME_BODY_SIZE : Nat := LIM_ENCR_AUTH_BODY_LEN - SIR_MAC_WEP_IV_LENGTH -
  SIR_MAC_WEP_ICV_LENGTH

/-- A body that `lim_process_auth_frame` lets be decrypted; `frame_len` has 16 bits. -/
structure EncrBody where
  body : List UInt8
  min : LIM_ENCR_AUTH_BODY_LEN ≤ body.length
  max : body.length < 2 ^ 16

/-- The `frameLen` that `lim_process_auth_frame` gives. -/
def EncrBody.frameLen (b : EncrBody) : UInt16 :=
  UInt16.ofNat (b.body.length - SIR_MAC_WEP_IV_LENGTH)

/-- The bytes that `lim_decrypt_auth_frame` writes to the front of `plainbody`. -/
def decrypted (k : WepKey) (encrBody : List UInt8) (frameLen : UInt16) : List UInt8 :=
  lim_rc4 (encrBody.drop SIR_MAC_WEP_IV_LENGTH)
    (encrBody.take (SIR_MAC_WEP_IV_LENGTH - 1) ++ k.key) (k.key.length + 3) frameLen

variable {k : WepKey} {encrBody : List UInt8} {frameLen : UInt16} {stale : Nat → UInt8}

theorem length_decrypted : (decrypted k encrBody frameLen).length = frameLen.toNat % 256 := by
  rw [decrypted, lim_rc4, length_rc4Loop, UInt16.toNat_toUInt8]

theorem length_decrypted_le : (decrypted k encrBody frameLen).length ≤ PLAINBODY_SIZE := by
  rw [length_decrypted]; exact Nat.le_of_lt (Nat.mod_lt _ (by decide))

theorem decrypt_isSome_iff :
    (lim_decrypt_auth_frame stale k encrBody frameLen).isSome ↔
      lim_compute_crc32 (bytes (plainBody stale (decrypted k encrBody frameLen)) 0
          (frameLen - 4).toUInt8.toNat) =
        bytes (plainBody stale (decrypted k encrBody frameLen)) (frameLen - 4).toNat
          SIR_MAC_WEP_ICV_LENGTH := by
  show (if _ then _ else _ : Option (Nat → UInt8)).isSome = true ↔ _
  rw [decrypted]
  split <;> simp_all

theorem bytes_stale {start len : Nat} {w : List UInt8} (h : w.length ≤ start) :
    bytes (plainBody stale w) start len = bytes stale start len := by
  apply map_congr_left
  intro i hi
  have hle := (mem_range'_1.mp hi).1
  rw [plainBody, getElem?_eq_none (Nat.le_trans h hle), Option.getD_none]

def stackWith (start : Nat) (icv : List UInt8) (c : UInt8) (i : Nat) : UInt8 :=
  if i < start then 0 else icv.getD (i - start) 0 + c

theorem bytes_stackWith_before {start len : Nat} (icv : List UInt8) (c : UInt8) (w : List UInt8)
    (h : len ≤ start) :
    bytes (plainBody (stackWith start icv c) w) 0 len = bytes (plainBody (fun _ => 0) w) 0 len := by
  apply map_congr_left
  intro i hi
  have hlt := (mem_range'_1.mp hi).2
  rw [plainBody, plainBody, stackWith, if_pos (by omega)]

theorem bytes_stackWith (start : Nat) (icv : List UInt8) (c : UInt8) :
    bytes (stackWith start icv c) start icv.length = icv.map (· + c) := by
  apply ext_getElem
  · rw [bytes, length_map, length_range', length_map]
  · intro i hi hi'
    have hlen : i < icv.length := by simpa [bytes] using hi
    simp [bytes, stackWith, getElem?_eq_getElem hlen]

theorem stack_decides (k : WepKey) (encrBody : List UInt8) (h : 256 ≤ frameLen.toNat) :
    (∃ stale, (lim_decrypt_auth_frame stale k encrBody frameLen).isSome) ∧
      ∃ stale, ¬(lim_decrypt_auth_frame stale k encrBody frameLen).isSome := by
  have hfour : (4 : UInt16).toNat = 4 := rfl
  have hat : (frameLen - 4).toNat = frameLen.toNat - 4 := by
    rw [UInt16.toNat_sub_of_le, hfour]; exact Nat.le_trans (by decide) h
  have hw : (decrypted k encrBody frameLen).length ≤ (frameLen - 4).toNat := by
    rw [length_decrypted, hat]; omega
  have hlen : (frameLen - 4).toUInt8.toNat ≤ (frameLen - 4).toNat := by exact Nat.mod_le _ _
  let icv := lim_compute_crc32
    (bytes (plainBody (fun _ => 0) (decrypted k encrBody frameLen)) 0 (frameLen - 4).toUInt8.toNat)
  have hsome (c : UInt8) :
      (lim_decrypt_auth_frame (stackWith (frameLen - 4).toNat icv c) k encrBody frameLen).isSome ↔
        icv = icv.map (· + c) := by
    rw [decrypt_isSome_iff, bytes_stackWith_before icv c _ hlen, bytes_stale hw]
    exact Eq.congr_right (bytes_stackWith _ icv c)
  refine ⟨⟨_, (hsome 0).mpr ?_⟩, _, mt (hsome 1).mp ?_⟩
  · simp
  · intro heq
    have hhead := (List.cons.inj heq).1
    exact absurd (left_eq_add.mp hhead) (by decide)

theorem frame_decides (stale : Nat → UInt8) (k : WepKey) (b : EncrBody) (h : b.body.length < 260) :
    (lim_decrypt_auth_frame stale k b.body b.frameLen).isSome ↔ ∃ text, WepOpens k b.body text := by
  have hmin : 8 ≤ b.body.length := Nat.le_trans (by decide) b.min
  constructor
  · intro hsome
    obtain ⟨plain, hplain⟩ := Option.isSome_iff_exists.mp hsome
    exact ⟨_, decrypt_opens hmin h hplain⟩
  · rintro ⟨text, hopens⟩
    have hlen : (wepPlain k b.body).length = b.body.length - SIR_MAC_WEP_IV_LENGTH :=
      length_rc4Loop _ _ _
    have htext : text.length = b.body.length - 8 := by
      rw [hopens, length_append, length_compute_crc32, SIR_MAC_WEP_IV_LENGTH] at hlen; omega
    rw [EncrBody.frameLen, SIR_MAC_WEP_IV_LENGTH, decrypt_eq hmin h, hopens, ← htext]
    dsimp only
    rw [take_left, drop_left, if_pos rfl]; rfl

theorem frameLen_toNat (b : EncrBody) : b.frameLen.toNat = b.body.length - 4 := by
  have hmax := b.max
  rw [EncrBody.frameLen, UInt16.toNat_ofNat', SIR_MAC_WEP_IV_LENGTH]; omega

theorem not_frame_decides (k : WepKey) (b : EncrBody) (h : 260 ≤ b.body.length) :
    ¬∀ stale, (lim_decrypt_auth_frame stale k b.body b.frameLen).isSome ↔
      ∃ text, WepOpens k b.body text := by
  intro hframe
  have hwrap : 256 ≤ b.frameLen.toNat := by rw [frameLen_toNat]; omega
  obtain ⟨⟨stale, hsome⟩, stale', hnone⟩ := stack_decides k b.body hwrap
  exact hnone ((hframe stale').mpr ((hframe stale).mp hsome))

/-- **The codec.** What was encrypted is decrypted to the same body. Of a received frame, whatever
was on the stack before, the bytes that are written are inside `plainbody`, and the decryption
succeeds exactly if the whole frame has a right ICV, if and only if it has at most 259 bytes. -/
theorem codec_iff (k : WepKey) :
    (∀ (stale : Nat → UInt8) (keyId : UInt8) (iv text : List UInt8), iv.length = 3 →
      text.length = AUTH_FRAME_BODY_SIZE →
        ∃ plain, lim_decrypt_auth_frame stale k (lim_encrypt_auth_frame iv keyId k text)
            (UInt16.ofNat (LIM_ENCR_AUTH_BODY_LEN - SIR_MAC_WEP_IV_LENGTH)) = some plain ∧
          bytes plain 0 AUTH_FRAME_BODY_SIZE = text) ∧
      ∀ b : EncrBody,
        ((∀ stale, (lim_decrypt_auth_frame stale k b.body b.frameLen).isSome ↔
            ∃ text, WepOpens k b.body text) ∧
          (decrypted k b.body b.frameLen).length ≤ PLAINBODY_SIZE) ↔ b.body.length ≤ 259 := by
  constructor
  · intro stale keyId iv text hiv htext
    have hshort : text.length < 252 := Nat.lt_of_le_of_lt (Nat.le_of_eq htext) (by decide)
    have hlen : (lim_encrypt_auth_frame iv keyId k text).length = LIM_ENCR_AUTH_BODY_LEN := by
      rw [length_encrypt hiv hshort, htext]; rfl
    have hround := @decrypt_encrypt stale k iv text keyId hiv hshort
    rwa [hlen, htext] at hround
  · intro b
    rw [and_iff_left length_decrypted_le]
    constructor
    · intro hframe; exact Nat.le_of_not_lt fun hlong => not_frame_decides k b hlong hframe
    · intro hle stale; exact frame_decides stale k b (Nat.lt_succ_of_le hle)

def zeroKey : WepKey := ⟨replicate 5 0, by decide⟩

def longFrame : EncrBody where
  body := replicate 300 0
  min := by rw [length_replicate]; decide
  max := by rw [length_replicate]; decide

/-- Whether it is accepted is not a matter of the frame. -/
theorem longFrame_stack :
    ¬((∀ stale, (lim_decrypt_auth_frame stale zeroKey longFrame.body longFrame.frameLen).isSome ↔
        ∃ text, WepOpens zeroKey longFrame.body text) ∧
      (decrypted zeroKey longFrame.body longFrame.frameLen).length ≤ PLAINBODY_SIZE) := by
  rintro ⟨hframe, -⟩
  have hlong : 260 ≤ longFrame.body.length := by rw [longFrame, length_replicate]; decide
  exact not_frame_decides zeroKey longFrame hlong hframe

end Qcacld.LimWep
