/-
The management MIC element, byte by byte: `cds_utils.c`.

The same functions as in `CdsMmie`, with every access to the frame, to the message of the MIC and to
the buffer that is allocated for it checked: a run that reads or writes outside of them has no
result. A frame can be of any length, and `nBytes` has 16 bits. The IPN is read as 8 bytes, which in
`wma_igtk_key_t` are there.
-/
import Mathlib.Data.UInt
import Qcacld.CdsMmie
import Qcacld.Lib.Cmac

set_option autoImplicit false

namespace Qcacld.CdsMmieBytes

open Lib List
open CdsMmie (AES_BLOCK_SIZE CMAC_TLEN IEEE80211_ELEMID_MMIE frameSize mmieSize maskedFlags
  Block Ipn Key Cipher CryptoEnv OS_MEMCMP zeroBlock xor_128 leftshift_onebit const_rb shiftReduce
  generate_subkey blockAt padding cds_increase_seq write mmieHead mmieIpn)

section

def AAD_LEN : Nat := 20

/-! ## Memory -/

def readAt (buf : List UInt8) (off n : Nat) : Option (List UInt8) :=
  if off + n ≤ buf.length then some ((buf.drop off).take n) else none

def writeAt (buf : List UInt8) (off : Nat) (bytes : List UInt8) : Option (List UInt8) :=
  if off + bytes.length ≤ buf.length then some (write buf off bytes) else none

/-! ## The MIC -/

section

variable (encrypt_one : Block → Block)

def blockRead (m : List UInt8) (i n : Nat) : Option Block :=
  (readAt m (AES_BLOCK_SIZE * i) n).map fun _ => blockAt m i

def cds_cmac_calc_mic (m : List UInt8) (length : UInt16) : Option (List UInt8) := do
  let (k1, k2) := generate_subkey encrypt_one
  let n := (length.toNat + 15) / AES_BLOCK_SIZE
  let nBlocks := if n = 0 then 1 else n
  let cmpBlk := n ≠ 0 ∧ length.toNat % AES_BLOCK_SIZE = 0
  let m_last ←
    if cmpBlk then (blockRead m (nBlocks - 1) AES_BLOCK_SIZE).map fun last => xor_128 last k1
    else (blockRead m (nBlocks - 1) (length.toNat % AES_BLOCK_SIZE)).map fun last =>
      xor_128 (padding last (length.toNat % AES_BLOCK_SIZE)) k2
  let x ← (range (nBlocks - 1)).foldlM
    (fun x i => (blockRead m i AES_BLOCK_SIZE).map fun b => encrypt_one (xor_128 x b)) zeroBlock
  some ((encrypt_one (xor_128 x m_last)).toList.take CMAC_TLEN)

end

/-! ## The element -/

/-- The number of bytes after the AAD and before the MIC; it is an `uint32_t`. -/
def copyLen (nBytes : UInt16) : Nat :=
  (nBytes.toUInt32 - UInt32.ofNat AAD_LEN - UInt32.ofNat CMAC_TLEN).toNat

def micBuffer (frm : List UInt8) (nBytes : UInt16) : Option (List UInt8) := do
  let i_fc ← readAt frm 0 2
  let i_addr_all ← readAt frm 4 18
  let aad := [i_fc.getD 0 0, i_fc.getD 1 0 &&& ~~~maskedFlags] ++ i_addr_all
  let input ← writeAt (replicate nBytes.toNat 0) 0 aad
  let body ← readAt frm frameSize (copyLen nBytes)
  writeAt input AAD_LEN body

/-- Whether it returns true, the IPN and the frame. -/
def cds_attach_mmie (aes : Cipher) (igtk : Key) (ipn : Ipn) (key_id : UInt16) (frm : List UInt8)
    (frmLen : UInt16) (env : CryptoEnv) : Option (Bool × Ipn × List UInt8) :=
  if frm.length ≠ frmLen.toNat ∨ frmLen.toNat < frameSize then some (false, ipn, frm)
  else do
    let mmie := frm.length - mmieSize
    let previous_ipn := ipn
    let ipn := cds_increase_seq ipn
    let frm ← writeAt frm mmie (mmieHead key_id ++ ipn.toList)
    let nBytes := UInt16.ofNat (AAD_LEN + (frmLen.toNat - frameSize))
    -- cdf_mem_malloc(0) is NULL
    if env.ok = false ∨ nBytes = 0 then some (false, previous_ipn, frm)
    else
      let input ← micBuffer frm nBytes
      let mic ← cds_cmac_calc_mic (aes igtk) input nBytes
      (writeAt frm (mmie + 10) mic).map fun frm => (true, ipn, frm)

/-- What `cds_is_mmie_valid` returns, the IPN, and the MIC if it has computed one. -/
structure Checked where
  ret : Bool
  ipn : Ipn
  mic : Option (List UInt8)

def cds_is_mmie_valid (aes : Cipher) (igtk : Key) (ipn : Ipn) (frm : List UInt8)
    (env : CryptoEnv) : Option Checked :=
  if frm.length < frameSize then some ⟨false, ipn, none⟩
  else do
    let mmie ← readAt frm (frm.length - mmieSize) mmieSize
    if mmie.getD 0 0 ≠ IEEE80211_ELEMID_MMIE ∨ mmie.getD 1 0 ≠ UInt8.ofNat (mmieSize - 2) then
      some ⟨false, ipn, none⟩
    else
      let rx_ipn := mmieIpn frm
      let nBytes := UInt16.ofNat (AAD_LEN + (frm.length - frameSize))
      if OS_MEMCMP rx_ipn.toList ipn.toList ≤ 0 then some ⟨false, ipn, none⟩
      else if env.ok = false ∨ nBytes = 0 then some ⟨false, ipn, none⟩
      else
        let input ← micBuffer frm nBytes
        let mic ← cds_cmac_calc_mic (aes igtk) input nBytes
        if OS_MEMCMP mic (mmie.drop 10) ≠ 0 then some ⟨false, ipn, some mic⟩
        else some ⟨true, rx_ipn, some mic⟩

/-! ## Accesses inside -/

variable {buf bytes m : List UInt8} {off n : Nat}

theorem readAt_inside (h : off + n ≤ buf.length) :
    readAt buf off n = some ((buf.drop off).take n) := if_pos h

theorem writeAt_inside (h : off + bytes.length ≤ buf.length) :
    writeAt buf off bytes = some (write buf off bytes) := if_pos h

/-! ## The code of the library -/

def bits (b : Block) : BitVec 128 := Cmac.ofBytes b.toList

def block (x : BitVec 128) : Block := Vector.ofFn fun i => (Cmac.toBytes x).getD i 0

def onBits (encrypt_one : Block → Block) (x : BitVec 128) : BitVec 128 :=
  bits (encrypt_one (block x))

variable {encrypt_one : Block → Block} {a b : Block}

theorem toBytes_bits (b : Block) : Cmac.toBytes (bits b) = b.toList :=
  Cmac.toBytes_ofBytes b.length_toList

theorem block_bits (b : Block) : block (bits b) = b := by
  apply Vector.ext
  intro i hi
  rw [block, toBytes_bits, Vector.getElem_ofFn, getD_eq_getElem _ _ (by simpa using hi),
    Vector.getElem_toList]

theorem bits_encrypt : bits (encrypt_one b) = onBits encrypt_one (bits b) := by
  rw [onBits, block_bits]

theorem getD_toList (b : Block) {i : Nat} (h : i < 16) : b.toList.getD i 0 = b[i] := by
  rw [getD_eq_getElem _ _ (by rw [b.length_toList]; exact h), Vector.getElem_toList]

theorem getLsbD_bits (b : Block) {i : Nat} (h : i < 128) :
    (bits b).getLsbD i = b[15 - i / 8].toBitVec.getLsbD (i % 8) := by
  have hlen : b.toList.length = 16 := b.length_toList
  rw [bits, Cmac.getLsbD_ofBytes _ h, hlen, decide_eq_true (by omega : i < 8 * 16), Bool.true_and,
    ← getD_toList b (by omega)]

theorem bits_xor_128 : bits (xor_128 a b) = bits a ^^^ bits b := by
  apply BitVec.eq_of_getLsbD_eq
  intro i hi
  rw [BitVec.getLsbD_xor, getLsbD_bits _ hi, getLsbD_bits _ hi, getLsbD_bits _ hi, ← BitVec.getLsbD_xor,
    ← UInt8.toBitVec_xor]
  simp only [xor_128, Vector.getElem_ofFn]
  rfl

theorem getLsbD_shl (x : UInt8) {k : Nat} (h : k < 8) :
    (x <<< 1).toBitVec.getLsbD k = (!decide (k < 1) && x.toBitVec.getLsbD (k - 1)) := by
  have hone : (1 : UInt8).toBitVec % 8 = 1#8 := rfl
  rw [UInt8.toBitVec_shiftLeft, hone, BitVec.shiftLeft_eq', BitVec.getLsbD_shiftLeft,
    decide_eq_true h, Bool.true_and]
  rfl

theorem getLsbD_shr (x : UInt8) (k : Nat) :
    (x >>> 7).toBitVec.getLsbD k = x.toBitVec.getLsbD (7 + k) := by
  have hseven : (7 : UInt8).toBitVec % 8 = 7#8 := rfl
  rw [UInt8.toBitVec_shiftRight, hseven, BitVec.ushiftRight_eq', BitVec.getLsbD_ushiftRight]
  rfl

theorem bits_leftshift : bits (leftshift_onebit b) = bits b <<< 1 := by
  apply BitVec.eq_of_getLsbD_eq
  intro i hi
  rw [BitVec.getLsbD_shiftLeft, decide_eq_true hi, Bool.true_and, getLsbD_bits _ hi]
  simp only [leftshift_onebit, Vector.getElem_ofFn, UInt8.toBitVec_or, BitVec.getLsbD_or]
  rw [getLsbD_shl _ (Nat.mod_lt _ (by decide))]
  by_cases hbit : i % 8 = 0
  · rw [hbit]
    by_cases hlast : i = 0
    · subst hlast; simp
    · have hnext : 15 - i / 8 + 1 < 16 := by omega
      have hplace : 15 - (i - 1) / 8 = 15 - i / 8 + 1 := by omega
      have htop : (i - 1) % 8 = 7 + 0 := by omega
      rw [getLsbD_bits _ (by omega), dif_pos hnext, getLsbD_shr, decide_eq_false (by omega : ¬ i < 1)]
      simp [hplace, htop]
  · have hplace : (i - 1) / 8 = i / 8 := by omega
    have hbefore : (i - 1) % 8 = i % 8 - 1 := by omega
    have hover : (if h : 15 - i / 8 + 1 < 16 then b[15 - i / 8 + 1] >>> 7 else 0).toBitVec.getLsbD
        (i % 8) = false := by
      split
      · rw [getLsbD_shr]; exact BitVec.getLsbD_of_ge _ _ (by omega)
      · exact BitVec.getLsbD_zero
    rw [hover, Bool.or_false, decide_eq_false (by omega : ¬ i % 8 < 1),
      decide_eq_false (by omega : ¬ i < 1), getLsbD_bits _ (by omega)]
    simp [hplace, hbefore]

theorem bits_const_rb : bits const_rb = 0x87 := by decide +kernel

theorem bits_zeroBlock : bits zeroBlock = 0 := by decide +kernel

theorem msb_bits : (bits b).msb = true ↔ b.get 0 &&& 0x80 ≠ 0 := by
  have hbyte : ∀ x : BitVec 8, x.getLsbD 7 = true ↔ UInt8.ofBitVec x &&& 0x80 ≠ 0 := by decide +kernel
  have hmsb : (bits b).msb = (bits b).getLsbD 127 := rfl
  rw [hmsb, getLsbD_bits b (by omega)]; exact hbyte b[0].toBitVec

theorem bits_shiftReduce : bits (shiftReduce b) = Cmac.double (bits b) := by
  rw [shiftReduce, Cmac.double]
  by_cases h : b[0] &&& 0x80 = 0
  · rw [if_pos h, if_neg (by rw [msb_bits]; exact not_not_intro h), bits_leftshift]
  · rw [if_neg h, if_pos (msb_bits.mpr h), bits_xor_128, bits_leftshift, bits_const_rb]

theorem bits_key1 : bits (generate_subkey encrypt_one).1 = Cmac.wholeKey (onBits encrypt_one) := by
  exact bits_shiftReduce

theorem bits_key2 : bits (generate_subkey encrypt_one).2 = Cmac.paddedKey (onBits encrypt_one) := by
  rw [Cmac.paddedKey, ← bits_key1]; exact bits_shiftReduce

theorem toList_blockAt {i : Nat} (h : 16 * i + 16 ≤ m.length) :
    (blockAt m i).toList = (m.drop (16 * i)).take 16 := by
  apply ext_getElem
  · rw [Vector.length_toList, length_take, length_drop]; omega
  intro j hj hj'
  rw [Vector.length_toList] at hj
  have hin : 16 * i + j < m.length := by omega
  simp only [blockAt, AES_BLOCK_SIZE, Vector.getElem_toList, Vector.getElem_ofFn, getElem_take,
    getElem_drop]
  exact getD_eq_getElem _ _ hin

theorem toList_padding {i : Nat} (hi : 16 * i ≤ m.length) (h : m.length < 16 * i + 16) :
    (padding (blockAt m i) (m.length - 16 * i)).toList = Cmac.pad (m.drop (16 * i)) := by
  apply ext_getElem
  · rw [Vector.length_toList, Cmac.pad, length_append, length_cons, length_replicate, length_drop]
    omega
  intro j hj hj'
  have hlen : (m.drop (16 * i)).length = m.length - 16 * i := length_drop
  simp only [padding, blockAt, AES_BLOCK_SIZE, Cmac.pad, Vector.getElem_toList, Vector.getElem_ofFn]
  rcases Nat.lt_trichotomy j (m.length - 16 * i) with hlt | heq | hgt
  · have hin : 16 * i + j < m.length := by omega
    rw [if_pos hlt, getElem_append_left (by omega), getElem_drop]
    simp only [Fin.getElem_fin, Vector.getElem_ofFn]
    exact getD_eq_getElem _ _ hin
  · simp [hlen, heq]
  · rw [if_neg (by omega), if_neg (by omega), getElem_append_right (by omega),
      getElem_cons, dif_neg (by omega), getElem_replicate]

theorem blockRead_inside {i : Nat} (h : 16 * i + n ≤ m.length) :
    blockRead m i n = some (blockAt m i) := by
  have hread : readAt m (AES_BLOCK_SIZE * i) n = some _ := readAt_inside h
  rw [blockRead, hread]; rfl

theorem chain_inside (x : Block) (n : Nat) (h : 16 * n ≤ m.length) :
    (range n).foldlM
        (fun x i => (blockRead m i AES_BLOCK_SIZE).map fun b => encrypt_one (xor_128 x b)) x =
      some ((range n).foldl (fun x i => encrypt_one (xor_128 x (blockAt m i))) x) := by
  induction n with
  | zero => rfl
  | succ n ih =>
    have hin : 16 * n + 16 ≤ m.length := by omega
    rw [range_succ, foldlM_append, ih (by omega), foldl_append]
    simp [blockRead_inside (n := AES_BLOCK_SIZE) hin]

theorem bits_chain (x : Block) (n : Nat) (h : 16 * n ≤ m.length) :
    bits ((range n).foldl (fun x i => encrypt_one (xor_128 x (blockAt m i))) x) =
      (range n).foldl (fun x i => onBits encrypt_one
        (x ^^^ Cmac.ofBytes ((m.drop (16 * i)).take 16))) (bits x) := by
  induction n with
  | zero => rfl
  | succ n ih =>
    have hin : 16 * n + 16 ≤ m.length := by omega
    rw [range_succ, foldl_append, foldl_append, ← ih (by omega), foldl_cons,
      foldl_nil, foldl_cons, foldl_nil, bits_encrypt, bits_xor_128,
      ← toList_blockAt hin]
    rfl

theorem blocks_before (length : Nat) :
    (if (length + 15) / AES_BLOCK_SIZE = 0 then 1 else (length + 15) / AES_BLOCK_SIZE) - 1 =
      (length - 1) / 16 := by
  rw [AES_BLOCK_SIZE]
  split <;> omega

theorem mic_inside (h : m.length < 2 ^ 16) :
    cds_cmac_calc_mic encrypt_one m (UInt16.ofNat m.length) =
      some (CdsMmie.cds_cmac_calc_mic encrypt_one m) := by
  have hlen : (UInt16.ofNat m.length).toNat = m.length := UInt16.toNat_ofNat_of_lt' h
  rw [cds_cmac_calc_mic, CdsMmie.cds_cmac_calc_mic]
  dsimp only
  rw [hlen, blocks_before, chain_inside _ _ (by omega)]
  by_cases hwhole : (m.length + 15) / AES_BLOCK_SIZE ≠ 0 ∧ m.length % AES_BLOCK_SIZE = 0
  · have hin : 16 * ((m.length - 1) / 16) + AES_BLOCK_SIZE ≤ m.length := by
      rw [AES_BLOCK_SIZE] at hwhole ⊢
      omega
    rw [if_pos hwhole, if_pos hwhole, blockRead_inside hin]; rfl
  · have hin : 16 * ((m.length - 1) / 16) + m.length % AES_BLOCK_SIZE ≤ m.length := by
      rw [AES_BLOCK_SIZE] at hwhole ⊢
      omega
    rw [if_neg hwhole, if_neg hwhole, blockRead_inside hin]; rfl

theorem mic_eq_cmac (encrypt_one : Block → Block) (m : List UInt8) :
    CdsMmie.cds_cmac_calc_mic encrypt_one m =
      (Cmac.toBytes (Cmac.cmac (onBits encrypt_one) m)).take CMAC_TLEN := by
  obtain ⟨n, hn⟩ : ∃ n, n = (m.length - 1) / 16 := ⟨_, rfl⟩
  obtain ⟨y, hy⟩ : ∃ y, y = (range n).foldl
    (fun x i => encrypt_one (xor_128 x (blockAt m i))) zeroBlock := ⟨_, rfl⟩
  have hchain : Cmac.cmac (onBits encrypt_one) m =
      Cmac.chain (onBits encrypt_one) (bits y) (m.drop (16 * n)) := by
    rw [Cmac.cmac, hy, bits_chain _ _ (by omega), bits_zeroBlock]
    by_cases hempty : m.length = 0
    · have hzero : n = 0 := by omega
      rw [hzero]; rfl
    · exact Cmac.chain_blocks n (by omega)
  have hdrop : (m.drop (16 * n)).length = m.length - 16 * n := length_drop
  have hresult : ∀ b : Block, Cmac.cmac (onBits encrypt_one) m =
      onBits encrypt_one (bits y ^^^ bits b) →
        (encrypt_one (xor_128 y b)).toList.take CMAC_TLEN =
          (Cmac.toBytes (Cmac.cmac (onBits encrypt_one) m)).take CMAC_TLEN := by
    intro b hb
    rw [hb, ← bits_xor_128, ← bits_encrypt, toBytes_bits]
  rw [CdsMmie.cds_cmac_calc_mic]
  dsimp only
  rw [blocks_before, ← hn, ← hy]
  by_cases hwhole : (m.length + 15) / AES_BLOCK_SIZE ≠ 0 ∧ m.length % AES_BLOCK_SIZE = 0
  · have hlast : m.length = 16 * n + 16 := by rw [AES_BLOCK_SIZE] at hwhole; omega
    have hbits : bits (blockAt m n) = Cmac.ofBytes (m.drop (16 * n)) := by
      rw [bits, toList_blockAt (by omega), take_of_length_le (by omega)]
    rw [if_pos hwhole]
    apply hresult
    rw [hchain, Cmac.chain_whole (by omega), bits_xor_128, bits_key1, hbits]
  · have hrest : m.length % AES_BLOCK_SIZE = m.length - 16 * n := by
      rw [AES_BLOCK_SIZE] at hwhole ⊢
      omega
    have hpart : m.length < 16 * n + 16 := by rw [AES_BLOCK_SIZE] at hwhole; omega
    have hbits : bits (padding (blockAt m n) (m.length - 16 * n)) =
        Cmac.ofBytes (Cmac.pad (m.drop (16 * n))) := by
      rw [bits, toList_padding (by omega) hpart]
    rw [if_neg hwhole, hrest]
    apply hresult
    rw [hchain, Cmac.chain_padded (by omega), bits_xor_128, bits_key2, hbits]

end

open Option
open CdsMmie (AES_BLOCK_SIZE CMAC_TLEN IEEE80211_ELEMID_MMIE frameSize mmieSize maskedFlags
  Block Ipn Key Cipher CryptoEnv OS_MEMCMP cds_increase_seq write mmieHead mmieIpn aad micInput)

/-! Within the bounds of the buffers the checked functions are the ones of `CdsMmie`. -/

variable {aes : Cipher} {igtk : Key} {ipn : Ipn} {frm : List UInt8} {env : CryptoEnv}
  {key_id frmLen : UInt16}

/-! ## What is to hold -/

/-- The number of bytes that the MIC is over, in 16 bits. -/
def micLen (frm : List UInt8) : Nat := (AAD_LEN + (frm.length - frameSize)) % 2 ^ 16

/-- The frame with other retry, power management and more data bits. -/
def withFlags (frm : List UInt8) (flags : UInt8) : List UInt8 :=
  frm.set 1 ((frm.getD 1 0 &&& ~~~maskedFlags) ||| (flags &&& maskedFlags))

def bipMic (aes : Cipher) (igtk : Key) (m : List UInt8) : List UInt8 :=
  (Cmac.toBytes (Cmac.cmac (onBits (aes igtk)) m)).take CMAC_TLEN

/-- The frame `frm` is to be protected, `rx` has been received. -/
structure MmieRight (aes : Cipher) (igtk : Key) (ipn : Ipn) (key_id : UInt16) (frm : List UInt8)
    (frmLen : UInt16) (env : CryptoEnv) (rxIpn : Ipn) (rx : List UInt8) (rxEnv : CryptoEnv) :
    Prop where
  mic : ∀ m : List UInt8, m.length < 2 ^ 16 →
    cds_cmac_calc_mic (aes igtk) m (UInt16.ofNat m.length) = some (bipMic aes igtk m)
  attach_inside : cds_attach_mmie aes igtk ipn key_id frm frmLen env ≠ none
  attach_short : ∀ r, cds_attach_mmie aes igtk ipn key_id frm frmLen env = some r →
    frm.length < frameSize + mmieSize → r.1 = false
  valid_inside : cds_is_mmie_valid aes igtk rxIpn rx rxEnv ≠ none
  valid_short : ∀ r, cds_is_mmie_valid aes igtk rxIpn rx rxEnv = some r →
    rx.length < frameSize + mmieSize → r.ret = false
  /-- The MIC that is computed is the one that was stored. -/
  same : ∀ ipn' frm' flags otherIpn otherEnv r mic,
    cds_attach_mmie aes igtk ipn key_id frm frmLen env = some (true, ipn', frm') →
      cds_is_mmie_valid aes igtk otherIpn (withFlags frm' flags) otherEnv = some r →
        r.mic = some mic → mic = frm'.drop (frm'.length - CMAC_TLEN)
  ipn_kept : ∀ ipn' frm',
    cds_attach_mmie aes igtk ipn key_id frm frmLen env = some (false, ipn', frm') → ipn' = ipn

/-- The received frame passes the checks before its MIC. -/
structure Examined (ipn : Ipn) (frm : List UInt8) (env : CryptoEnv) : Prop where
  header : frameSize ≤ frm.length
  id : frm.getD (frm.length - mmieSize) 0 = IEEE80211_ELEMID_MMIE
  length : frm.getD (frm.length - mmieSize + 1) 0 = UInt8.ofNat (mmieSize - 2)
  sameIpn : mmieIpn frm = ipn
  crypto : env.ok = true
  nonempty : micLen frm ≠ 0

structure LongEnough (aes : Cipher) (igtk : Key) (frm : List UInt8) (frmLen : UInt16)
    (env : CryptoEnv) (rxIpn : Ipn) (rx : List UInt8) (rxEnv : CryptoEnv) : Prop where
  attach : frm.length = frmLen.toNat → frameSize ≤ frm.length →
    frm.length < frameSize + mmieSize → env.ok = false
  /-- The number of bytes to copy does not wrap. -/
  copied : Examined rxIpn rx rxEnv → AAD_LEN + CMAC_TLEN ≤ micLen rx
  /-- A MIC that is right is taken for a wrong one. -/
  rejected : Examined rxIpn rx rxEnv → AAD_LEN + CMAC_TLEN ≤ micLen rx →
    rx.length < frameSize + mmieSize →
      rx.drop (rx.length - CMAC_TLEN) = bipMic aes igtk (micInput rx)

/-! ## The buffer for the MIC -/

theorem copyLen_fits {nBytes : UInt16} (h : AAD_LEN + CMAC_TLEN ≤ nBytes.toNat) :
    copyLen nBytes = nBytes.toNat - (AAD_LEN + CMAC_TLEN) := by
  have hlt := nBytes.toNat_lt
  rw [AAD_LEN, CMAC_TLEN] at h
  rw [copyLen, UInt32.toNat_sub, UInt32.toNat_sub, UInt16.toNat_toUInt32]
  simp only [AAD_LEN, CMAC_TLEN, UInt32.reduceOfNat, UInt32.reduceToNat]
  omega

theorem copyLen_wraps {nBytes : UInt16} (h : nBytes.toNat < AAD_LEN + CMAC_TLEN) :
    nBytes.toNat < AAD_LEN + copyLen nBytes := by
  rw [AAD_LEN, CMAC_TLEN] at h
  rw [copyLen, UInt32.toNat_sub, UInt32.toNat_sub, UInt16.toNat_toUInt32]
  simp only [AAD_LEN, CMAC_TLEN, UInt32.reduceOfNat, UInt32.reduceToNat]
  omega

theorem aad_read (h : frameSize ≤ frm.length) :
    [((frm.drop 0).take 2).getD 0 0, ((frm.drop 0).take 2).getD 1 0 &&& ~~~maskedFlags] ++
      (frm.drop 4).take 18 = aad (frm.take frameSize) := by
  rw [frameSize] at h
  have hlen : ∀ i, i < 2 → ((frm.drop 0).take 2).getD i 0 = (frm.take 24).getD i 0 := by
    intro i hi
    rw [getD_eq_getElem _ _ (by simp; omega), getD_eq_getElem _ _ (by simp; omega)]
    simp
  rw [aad, frameSize, hlen 0 (by omega), hlen 1 (by omega), drop_take, take_take]; rfl

theorem length_aad (h : frameSize ≤ frm.length) : (aad (frm.take frameSize)).length = AAD_LEN := by
  rw [frameSize] at h
  rw [aad, length_append, length_take, length_drop, length_take, frameSize]
  simp only [length_cons, length_nil, AAD_LEN]
  omega

theorem micBuffer_fits {nBytes : UInt16} (h : frameSize ≤ frm.length)
    (hfit : AAD_LEN + CMAC_TLEN ≤ nBytes.toNat)
    (hle : nBytes.toNat ≤ AAD_LEN + (frm.length - frameSize)) :
    micBuffer frm nBytes = some (aad (frm.take frameSize) ++
      (frm.drop frameSize).take (nBytes.toNat - (AAD_LEN + CMAC_TLEN)) ++
        replicate CMAC_TLEN 0) := by
  have haad := length_aad h
  have hfc : readAt frm 0 2 = some _ := readAt_inside (by rw [frameSize] at h; omega)
  have haddr : readAt frm 4 18 = some _ := readAt_inside (by rw [frameSize] at h; omega)
  have hbody : readAt frm frameSize (copyLen nBytes) = some _ :=
    readAt_inside (by rw [copyLen_fits hfit]; omega)
  have hzero : writeAt (replicate nBytes.toNat 0) 0 (aad (frm.take frameSize)) = some _ :=
    writeAt_inside (by rw [haad, length_replicate]; omega)
  rw [micBuffer, hfc, haddr]
  simp only [bind_eq_bind, bind_some, aad_read h, hzero, hbody]
  have hwritten : write (replicate nBytes.toNat 0) 0 (aad (frm.take frameSize)) =
      aad (frm.take frameSize) ++ replicate (nBytes.toNat - AAD_LEN) 0 := by
    rw [write, take_zero, nil_append, haad, Nat.zero_add, drop_replicate]
  have hcopied : ((frm.drop frameSize).take (copyLen nBytes)).length =
      nBytes.toNat - (AAD_LEN + CMAC_TLEN) := by
    rw [length_take, length_drop, copyLen_fits hfit]; omega
  rw [hwritten, writeAt_inside (by rw [hcopied, length_append, haad, length_replicate]; omega)]
  have hrest : nBytes.toNat - AAD_LEN - (nBytes.toNat - (AAD_LEN + CMAC_TLEN)) = CMAC_TLEN := by
    omega
  rw [write, hcopied, ← haad, take_left, drop_append, drop_replicate,
    drop_eq_nil_of_le (Nat.le_add_right _ _), nil_append, haad, Nat.add_sub_cancel_left,
    hrest, copyLen_fits hfit]

theorem micBuffer_overrun {nBytes : UInt16} (h : nBytes.toNat < AAD_LEN + CMAC_TLEN) :
    micBuffer frm nBytes = none := by
  have hwraps := copyLen_wraps h
  cases hresult : micBuffer frm nBytes with
  | none => rfl
  | some input =>
    obtain ⟨i_fc, -, hresult⟩ := bind_eq_some_iff.mp hresult
    obtain ⟨i_addr_all, -, hresult⟩ := bind_eq_some_iff.mp hresult
    obtain ⟨zeroed, hzeroed, hresult⟩ := bind_eq_some_iff.mp hresult
    obtain ⟨body, hbody, hresult⟩ := bind_eq_some_iff.mp hresult
    rw [writeAt, ite_none_right_eq_some] at hzeroed hresult
    rw [readAt, ite_none_right_eq_some] at hbody
    obtain ⟨hin, hzeroed⟩ := hzeroed
    obtain ⟨hread, hbody⟩ := hbody
    have hbodyLen : body.length = copyLen nBytes := by
      rw [← some.inj hbody, length_take, length_drop]; omega
    have hlen : zeroed.length = nBytes.toNat := by
      rw [← some.inj hzeroed, CdsMmie.length_write hin, length_replicate]
    omega

/-! ## `cds_attach_mmie` -/

theorem length_mmieHead (key_id : UInt16) (ipn : Ipn) :
    (mmieHead key_id ++ ipn.toList).length = 10 := by rw [length_append, ipn.length_toList]; rfl

theorem toNat_attachLen (h : frm.length = frmLen.toNat) (hle : frameSize ≤ frmLen.toNat) :
    (UInt16.ofNat (AAD_LEN + (frmLen.toNat - frameSize))).toNat =
      AAD_LEN + (frm.length - frameSize) := by
  have hlt := frmLen.toNat_lt
  rw [h]
  apply UInt16.toNat_ofNat_of_lt'
  rw [frameSize] at hle ⊢
  rw [AAD_LEN]
  change _ < 65536
  omega

theorem length_micInput (h : frameSize + CMAC_TLEN ≤ frm.length) :
    (micInput frm).length = AAD_LEN + (frm.length - frameSize) := by
  rw [micInput, length_append, length_append, length_aad (by omega), length_take,
    length_drop, length_replicate]
  omega

theorem attach_eq : cds_attach_mmie aes igtk ipn key_id frm frmLen env =
    CdsMmie.cds_attach_mmie aes igtk ipn key_id frm frmLen env := by
  rw [cds_attach_mmie, CdsMmie.cds_attach_mmie]
  by_cases hbad : frm.length ≠ frmLen.toNat ∨ frmLen.toNat < frameSize
  · rw [if_pos hbad, if_pos hbad]
  obtain ⟨hlen, hhead⟩ := not_or.mp hbad
  have hlen := not_not.mp hlen
  have hhead := Nat.not_lt.mp hhead
  have hsize : mmieSize ≤ frm.length := by rw [hlen]; exact Nat.le_trans (by decide) hhead
  have hmmie := length_mmieHead key_id (cds_increase_seq ipn)
  have hin : frm.length - mmieSize + (mmieHead key_id ++ (cds_increase_seq ipn).toList).length ≤
      frm.length := by
    rw [mmieSize] at hsize ⊢
    omega
  have hwrite := CdsMmie.length_write hin
  have hbytes := toNat_attachLen hlen hhead
  have hnonzero : UInt16.ofNat (AAD_LEN + (frmLen.toNat - frameSize)) ≠ 0 := by
    intro hzero
    rw [hzero, AAD_LEN] at hbytes
    change 0 = _ at hbytes
    omega
  rw [if_neg hbad, if_neg hbad]
  dsimp only
  rw [writeAt_inside hin, bind_eq_bind, bind_some]
  by_cases hok : env.ok = false
  · rw [if_pos (Or.inl hok), if_pos hok]
  rw [if_neg (by rintro (h | h); exacts [hok h, hnonzero h]), if_neg hok]
  obtain ⟨frm', hfrm'⟩ : ∃ frm', frm' = write frm (frm.length - mmieSize)
    (mmieHead key_id ++ (cds_increase_seq ipn).toList) := ⟨_, rfl⟩
  rw [← hfrm'] at hwrite ⊢
  rw [hwrite]
  by_cases hshort : frm.length < frameSize + CMAC_TLEN
  · rw [if_pos hshort, micBuffer_overrun (by rw [hbytes]; omega)]
    rfl
  · have hfits : AAD_LEN + CMAC_TLEN ≤ AAD_LEN + (frm.length - frameSize) := by omega
    have hcopied : AAD_LEN + (frm.length - frameSize) - (AAD_LEN + CMAC_TLEN) =
        frm'.length - frameSize - CMAC_TLEN := by omega
    have hinput : (micInput frm').length = AAD_LEN + (frmLen.toNat - frameSize) := by
      rw [length_micInput (by omega), hwrite, hlen]
    have hlt : (micInput frm').length < 2 ^ 16 := by
      rw [hinput, ← hlen, ← hbytes]; exact UInt16.toNat_lt _
    have hbuffer : micBuffer frm' (UInt16.ofNat (AAD_LEN + (frmLen.toNat - frameSize))) =
        some (micInput frm') := by
      rw [micBuffer_fits (by omega) (by rw [hbytes]; exact hfits) (by omega), hbytes, hcopied]
      rfl
    have hplace : frm.length - mmieSize + 10 = frm.length - CMAC_TLEN := by
      rw [mmieSize] at hsize ⊢
      rw [CMAC_TLEN]; omega
    rw [if_neg hshort, hbuffer, bind_some, ← hinput, mic_inside hlt, bind_some,
      hplace, writeAt_inside (by rw [CdsMmie.length_mic]; omega)]
    rfl

/-! ## `cds_is_mmie_valid` -/

theorem toNat_validLen :
    (UInt16.ofNat (AAD_LEN + (frm.length - frameSize))).toNat = micLen frm := UInt16.toNat_ofNat'

theorem read_mmie (h : frameSize ≤ frm.length) :
    readAt frm (frm.length - mmieSize) mmieSize = some (frm.drop (frm.length - mmieSize)) := by
  rw [frameSize] at h
  rw [mmieSize, readAt_inside (by omega), take_of_length_le (by rw [length_drop]; omega)]

theorem getD_drop (off i : Nat) : (frm.drop off).getD i 0 = frm.getD (off + i) 0 := by
  rw [getD_eq_getElem?_getD, getD_eq_getElem?_getD, getElem?_drop]

theorem replay_iff {a b : Ipn} : OS_MEMCMP a.toList b.toList ≤ 0 ↔ a ≠ b := by
  rw [OS_MEMCMP, CdsMmie.cdf_mem_compare]
  by_cases h : a = b
  · simp [h]
  · simp [h, Vector.toList_inj]

theorem mismatch_iff {a b : List UInt8} : OS_MEMCMP a b ≠ 0 ↔ a = b := by
  rw [OS_MEMCMP, CdsMmie.cdf_mem_compare]
  by_cases h : a = b <;> simp [h]

theorem valid_eq_none_mic (h : ¬ Examined ipn frm env) :
    cds_is_mmie_valid aes igtk ipn frm env = some ⟨false, ipn, none⟩ := by
  rw [cds_is_mmie_valid]
  by_cases hhead : frm.length < frameSize
  · rw [if_pos hhead]
  have hhead := Nat.not_lt.mp hhead
  rw [if_neg (Nat.not_lt.mpr hhead), read_mmie hhead, bind_eq_bind, bind_some, getD_drop, getD_drop]
  by_cases hid : frm.getD (frm.length - mmieSize + 0) 0 ≠ IEEE80211_ELEMID_MMIE ∨
      frm.getD (frm.length - mmieSize + 1) 0 ≠ UInt8.ofNat (mmieSize - 2)
  · rw [if_pos hid]
  obtain ⟨hid', hlength⟩ := not_or.mp hid
  rw [if_neg hid]
  by_cases hipn : mmieIpn frm = ipn
  · rw [if_neg (by rw [replay_iff]; exact not_not_intro hipn)]
    by_cases hok : env.ok = false ∨ UInt16.ofNat (AAD_LEN + (frm.length - frameSize)) = 0
    · rw [if_pos hok]
    · obtain ⟨hok, hzero⟩ := not_or.mp hok
      refine absurd ⟨hhead, not_not.mp hid', not_not.mp hlength, hipn, Bool.eq_true_of_not_eq_false hok,
        ?_⟩ h
      intro hlen
      apply hzero
      apply UInt16.toNat_inj.mp
      rw [toNat_validLen, hlen]; rfl
  · rw [if_pos (replay_iff.mpr hipn)]

theorem Examined.valid_eq (h : Examined ipn frm env) :
    cds_is_mmie_valid aes igtk ipn frm env = (do
      let input ← micBuffer frm (UInt16.ofNat (AAD_LEN + (frm.length - frameSize)))
      let mic ← cds_cmac_calc_mic (aes igtk) input
        (UInt16.ofNat (AAD_LEN + (frm.length - frameSize)))
      if mic = frm.drop (frm.length - CMAC_TLEN) then some ⟨false, ipn, some mic⟩
      else some ⟨true, ipn, some mic⟩) := by
  have hhead := h.header
  have hid : ¬ (frm.getD (frm.length - mmieSize + 0) 0 ≠ IEEE80211_ELEMID_MMIE ∨
      frm.getD (frm.length - mmieSize + 1) 0 ≠ UInt8.ofNat (mmieSize - 2)) :=
    not_or.mpr ⟨not_not_intro h.id, not_not_intro h.length⟩
  have hok : ¬ (env.ok = false ∨ UInt16.ofNat (AAD_LEN + (frm.length - frameSize)) = 0) := by
    rintro (hok | hzero)
    · rw [h.crypto] at hok; cases hok
    · apply h.nonempty
      rw [← toNat_validLen, hzero]; rfl
  have hmic : (frm.drop (frm.length - mmieSize)).drop 10 = frm.drop (frm.length - CMAC_TLEN) := by
    rw [drop_drop]
    congr 1
    rw [frameSize] at hhead
    rw [mmieSize, CMAC_TLEN]; omega
  rw [cds_is_mmie_valid, if_neg (Nat.not_lt.mpr hhead), read_mmie hhead, bind_eq_bind,
    bind_some, getD_drop, getD_drop, if_neg hid]
  rw [if_neg (by rw [replay_iff]; exact not_not_intro h.sameIpn), if_neg hok, hmic, h.sameIpn]
  simp only [mismatch_iff]

theorem Examined.overrun (h : Examined ipn frm env) (hlen : micLen frm < AAD_LEN + CMAC_TLEN) :
    cds_is_mmie_valid aes igtk ipn frm env = none := by
  rw [h.valid_eq, micBuffer_overrun (by rw [toNat_validLen]; exact hlen)]
  rfl

/-- What the MIC is over; of a frame of 2 ^ 16 bytes or more it is only the beginning. -/
def checkInput (frm : List UInt8) : List UInt8 :=
  aad (frm.take frameSize) ++ (frm.drop frameSize).take (micLen frm - (AAD_LEN + CMAC_TLEN)) ++
    replicate CMAC_TLEN 0

theorem Examined.verdict (h : Examined ipn frm env) (hlen : AAD_LEN + CMAC_TLEN ≤ micLen frm) :
    cds_is_mmie_valid aes igtk ipn frm env =
      (if bipMic aes igtk (checkInput frm) = frm.drop (frm.length - CMAC_TLEN) then
        some ⟨false, ipn, some (bipMic aes igtk (checkInput frm))⟩
      else some ⟨true, ipn, some (bipMic aes igtk (checkInput frm))⟩) := by
  have hle : micLen frm ≤ AAD_LEN + (frm.length - frameSize) := Nat.mod_le _ _
  have hlt : micLen frm < 2 ^ 16 := Nat.mod_lt _ (by decide)
  have hbuffer : micBuffer frm (UInt16.ofNat (AAD_LEN + (frm.length - frameSize))) =
      some (checkInput frm) := by
    rw [micBuffer_fits h.header (by rw [toNat_validLen]; exact hlen)
      (by rw [toNat_validLen]; exact hle), toNat_validLen]
    rfl
  have hinput : (checkInput frm).length = micLen frm := by
    rw [checkInput, length_append, length_append, length_aad h.header, length_take,
      length_drop, length_replicate]
    omega
  have hbytes : UInt16.ofNat (AAD_LEN + (frm.length - frameSize)) =
      UInt16.ofNat (checkInput frm).length := by
    apply UInt16.toNat_inj.mp
    rw [toNat_validLen, hinput, UInt16.toNat_ofNat_of_lt' hlt]
  rw [h.valid_eq, hbuffer, bind_eq_bind, bind_some, hbytes,
    mic_inside (by rw [hinput]; exact hlt), mic_eq_cmac]
  rfl

/-! ## The bits that are masked -/

theorem length_withFlags (flags : UInt8) : (withFlags frm flags).length = frm.length :=
  length_set

theorem masked_flags (b flags : UInt8) :
    ((b &&& ~~~maskedFlags) ||| (flags &&& maskedFlags)) &&& ~~~maskedFlags = b &&& ~~~maskedFlags := by
  apply UInt8.toBitVec_inj.mp
  apply BitVec.eq_of_getLsbD_eq
  intro i hi
  simp only [UInt8.toBitVec_and, UInt8.toBitVec_or, BitVec.getLsbD_and, BitVec.getLsbD_or,
    UInt8.toBitVec_not, BitVec.getLsbD_not, decide_eq_true hi, Bool.true_and]
  cases maskedFlags.toBitVec.getLsbD i <;> simp

theorem aad_withFlags (flags : UInt8) (h : frameSize ≤ frm.length) :
    aad ((withFlags frm flags).take frameSize) = aad (frm.take frameSize) := by
  rw [frameSize] at h
  have htake : (withFlags frm flags).take frameSize =
      (frm.take frameSize).set 1 ((frm.getD 1 0 &&& ~~~maskedFlags) ||| (flags &&& maskedFlags)) :=
    take_set
  have hlen : (frm.take frameSize).length = 24 := by rw [length_take, frameSize]; omega
  have hfirst : (frm.take frameSize).getD 1 0 = frm.getD 1 0 := by
    rw [getD_eq_getElem _ _ (by omega), getD_eq_getElem _ _ (by omega), getElem_take]
  have hset : ∀ (l : List UInt8) (x : UInt8), 1 < l.length →
      (l.set 1 x).getD 0 0 = l.getD 0 0 ∧ (l.set 1 x).getD 1 0 = x := by
    intro l x hl
    match l with
    | _ :: _ :: _ => exact ⟨rfl, rfl⟩
  obtain ⟨hzero, hone⟩ := hset (frm.take frameSize)
    ((frm.getD 1 0 &&& ~~~maskedFlags) ||| (flags &&& maskedFlags)) (by omega)
  rw [htake, aad, aad, hzero, hone, hfirst, masked_flags, drop_set_of_lt (by omega)]

theorem micInput_withFlags (flags : UInt8) (h : frameSize ≤ frm.length) :
    micInput (withFlags frm flags) = micInput frm := by
  have hdrop : (withFlags frm flags).drop frameSize = frm.drop frameSize :=
    drop_set_of_lt (by decide)
  rw [micInput, micInput, length_withFlags, aad_withFlags flags h, hdrop]

theorem checkInput_eq (hlt : frm.length < 2 ^ 16) : checkInput frm = micInput frm := by
  have hlen : micLen frm = AAD_LEN + (frm.length - frameSize) := by
    rw [micLen, AAD_LEN, frameSize]; omega
  have hbody : micLen frm - (AAD_LEN + CMAC_TLEN) = frm.length - frameSize - CMAC_TLEN := by
    rw [hlen, Nat.add_sub_add_left]
  rw [checkInput, hbody, micInput]

/-! ## What `cds_attach_mmie` returns -/

theorem attach_cases {r : Bool × Ipn × List UInt8}
    (h : cds_attach_mmie aes igtk ipn key_id frm frmLen env = some r) :
    (r.1 = false ∧ r.2.1 = ipn) ∨
      (r.1 = true ∧ env.ok = true ∧ frm.length = frmLen.toNat ∧ frameSize ≤ frm.length ∧
        r.2.2.length = frm.length) := by
  rw [attach_eq, CdsMmie.cds_attach_mmie] at h
  by_cases hbad : frm.length ≠ frmLen.toNat ∨ frmLen.toNat < frameSize
  · rw [if_pos hbad] at h
    rw [← some.inj h]; exact Or.inl ⟨rfl, rfl⟩
  obtain ⟨hlen, hhead⟩ := not_or.mp hbad
  have hlen := not_not.mp hlen
  rw [if_neg hbad] at h
  by_cases hok : env.ok = false
  · rw [if_pos hok] at h
    rw [← some.inj h]; exact Or.inl ⟨rfl, rfl⟩
  rw [if_neg hok, ite_none_left_eq_some] at h
  obtain ⟨hroom, h⟩ := h
  have hwrite : (write frm (frm.length - mmieSize)
      (mmieHead key_id ++ (cds_increase_seq ipn).toList)).length = frm.length := by
    apply CdsMmie.length_write
    rw [length_mmieHead, mmieSize]
    rw [frameSize] at hhead; omega
  refine Or.inr ?_
  rw [← some.inj h]
  refine ⟨rfl, Bool.eq_true_of_not_eq_false hok, hlen, by omega, ?_⟩
  rw [CdsMmie.length_write (by rw [CdsMmie.length_mic]; omega), hwrite]

theorem attach_eq_none : cds_attach_mmie aes igtk ipn key_id frm frmLen env = none ↔
    frm.length = frmLen.toNat ∧ frameSize ≤ frm.length ∧ frm.length < frameSize + CMAC_TLEN ∧
      env.ok = true := by
  rw [attach_eq, CdsMmie.cds_attach_mmie]
  by_cases hbad : frm.length ≠ frmLen.toNat ∨ frmLen.toNat < frameSize
  · rw [if_pos hbad]
    refine iff_of_false (some_ne_none _) ?_
    rintro ⟨hlen, hhead, -⟩
    rcases hbad with hbad | hbad
    · exact hbad hlen
    · omega
  obtain ⟨hlen, hhead⟩ := not_or.mp hbad
  have hlen := not_not.mp hlen
  have hwrite : (write frm (frm.length - mmieSize)
      (mmieHead key_id ++ (cds_increase_seq ipn).toList)).length = frm.length := by
    apply CdsMmie.length_write
    rw [length_mmieHead, mmieSize]
    rw [frameSize] at hhead; omega
  rw [if_neg hbad]
  by_cases hok : env.ok = false
  · rw [if_pos hok]
    refine iff_of_false (some_ne_none _) ?_
    rintro ⟨-, -, -, htrue⟩
    rw [hok] at htrue
    cases htrue
  rw [if_neg hok, hwrite]
  by_cases hroom : frm.length < frameSize + CMAC_TLEN
  · rw [if_pos hroom]
    exact iff_of_true rfl ⟨hlen, by omega, hroom, Bool.eq_true_of_not_eq_false hok⟩
  · rw [if_neg hroom]; exact iff_of_false (some_ne_none _) fun h => hroom h.2.2.1

theorem mic_of_attached {ipn' otherIpn : Ipn} {frm' mic : List UInt8} {flags : UInt8}
    {otherEnv : CryptoEnv} {r : Checked}
    (hattach : cds_attach_mmie aes igtk ipn key_id frm frmLen env = some (true, ipn', frm'))
    (hvalid : cds_is_mmie_valid aes igtk otherIpn (withFlags frm' flags) otherEnv = some r)
    (hmic : r.mic = some mic) : mic = frm'.drop (frm'.length - CMAC_TLEN) := by
  rcases attach_cases hattach with ⟨hfalse, -⟩ | ⟨-, -, hlen, hhead, hsame⟩
  · cases hfalse
  dsimp only at hsame
  have hlt : (withFlags frm' flags).length < 2 ^ 16 := by
    rw [length_withFlags, hsame, hlen]; exact frmLen.toNat_lt
  rw [attach_eq] at hattach
  obtain ⟨-, hgenuine⟩ := CdsMmie.genuine_attach hattach
  rw [hgenuine, mic_eq_cmac]
  by_cases hexamined : Examined otherIpn (withFlags frm' flags) otherEnv
  · by_cases hshort : micLen (withFlags frm' flags) < AAD_LEN + CMAC_TLEN
    · rw [hexamined.overrun hshort] at hvalid; cases hvalid
    · rw [hexamined.verdict (Nat.not_lt.mp hshort), checkInput_eq hlt,
        micInput_withFlags flags (by omega)] at hvalid
      split at hvalid
      all_goals
        rw [← some.inj hvalid] at hmic; exact (some.inj hmic).symm
  · rw [valid_eq_none_mic hexamined] at hvalid
    rw [← some.inj hvalid] at hmic
    cases hmic

/-! ## When everything stays inside -/

section

variable {rxIpn : Ipn} {rx : List UInt8} {rxEnv : CryptoEnv}

theorem LongEnough.of_right (h : MmieRight aes igtk ipn key_id frm frmLen env rxIpn rx rxEnv) :
    LongEnough aes igtk frm frmLen env rxIpn rx rxEnv where
  attach hlen hhead hshort := by
    refine Bool.eq_false_iff.mpr fun hok => ?_
    cases hattach : cds_attach_mmie aes igtk ipn key_id frm frmLen env with
    | none => exact h.attach_inside hattach
    | some r =>
      have hfalse := h.attach_short r hattach hshort
      rw [attach_eq, CdsMmie.cds_attach_mmie, if_neg (by rw [hlen] at hhead; omega)] at hattach
      rw [if_neg (by rw [hok]; decide), ite_none_left_eq_some] at hattach
      rw [← some.inj hattach.2] at hfalse
      cases hfalse
  copied hexamined := by
    refine Nat.not_lt.mp fun hlen => h.valid_inside ?_
    exact hexamined.overrun hlen
  rejected hexamined hlen hshort := by
    have hlt : rx.length < 2 ^ 16 := Nat.lt_of_lt_of_le hshort (by decide)
    have hverdict := @Examined.verdict aes igtk rxIpn rx rxEnv hexamined hlen
    rw [checkInput_eq hlt] at hverdict
    by_cases hmic : bipMic aes igtk (micInput rx) = rx.drop (rx.length - CMAC_TLEN)
    · exact hmic.symm
    · rw [if_neg hmic] at hverdict; cases h.valid_short _ hverdict hshort

theorem LongEnough.right (h : LongEnough aes igtk frm frmLen env rxIpn rx rxEnv) :
    MmieRight aes igtk ipn key_id frm frmLen env rxIpn rx rxEnv where
  mic m hm := by rw [mic_inside hm, mic_eq_cmac, bipMic]
  attach_inside hnone := by
    obtain ⟨hlen, hhead, hshort, hok⟩ := attach_eq_none.mp hnone
    rw [h.attach hlen hhead (Nat.lt_of_lt_of_le hshort (by decide))] at hok
    cases hok
  attach_short r hattach hshort := by
    rcases attach_cases hattach with ⟨hfalse, -⟩ | ⟨-, hok, hlen, hhead, -⟩
    · exact hfalse
    · rw [h.attach hlen hhead hshort] at hok; cases hok
  valid_inside hnone := by
    by_cases hexamined : Examined rxIpn rx rxEnv
    · rw [hexamined.verdict (h.copied hexamined)] at hnone
      split at hnone
      all_goals cases hnone
    · rw [valid_eq_none_mic hexamined] at hnone; cases hnone
  valid_short r hvalid hshort := by
    by_cases hexamined : Examined rxIpn rx rxEnv
    · have hlt : rx.length < 2 ^ 16 := Nat.lt_of_lt_of_le hshort (by decide)
      have hlen := h.copied hexamined
      rw [hexamined.verdict hlen, checkInput_eq hlt,
        if_pos (h.rejected hexamined hlen hshort).symm] at hvalid
      rw [← some.inj hvalid]
    · rw [valid_eq_none_mic hexamined] at hvalid; rw [← some.inj hvalid]
  same ipn' frm' flags otherIpn otherEnv r mic hattach hvalid hmic :=
    mic_of_attached hattach hvalid hmic
  ipn_kept ipn' frm' hattach := by
    rcases attach_cases hattach with ⟨-, hsame⟩ | ⟨htrue, -⟩
    · exact hsame
    · cases htrue

/-- Everything that is said of the MIC holds of all frames but the short ones that are not rejected
and those whose length wraps. -/
theorem mmie_right_iff : MmieRight aes igtk ipn key_id frm frmLen env rxIpn rx rxEnv ↔
    LongEnough aes igtk frm frmLen env rxIpn rx rxEnv :=
  ⟨LongEnough.of_right, LongEnough.right⟩

end

/-- A broadcast deauthentication cut to 30 bytes, of which the last 18 are an element with the IPN of
the key. -/
def cutDeauth : List UInt8 :=
  [0xC0, 0, 0, 0, 0xFF, 0xFF, 0xFF, 0xFF, 0xFF, 0xFF, 0, 0, IEEE80211_ELEMID_MMIE, 16, 4, 0] ++
    replicate 14 0

/-- The element is taken from the header, and minus two bytes are copied. -/
theorem valid_thirty_bytes : ¬ MmieRight (fun _ b => b) (Vector.replicate 16 0)
    (Vector.replicate 6 0) 4 [] 0 ⟨true, true, true⟩
    (Vector.replicate 6 0) cutDeauth ⟨true, true, true⟩ := by
  intro h
  apply h.valid_inside
  apply Examined.overrun ⟨by decide, rfl, rfl, ?_, rfl, by decide⟩ (by decide)
  decide

end Qcacld.CdsMmieBytes
