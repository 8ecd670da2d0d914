/-
The management MIC element of broadcast management frames: `cds_utils.c`.

The block cipher is a parameter. A frame is the list of its bytes, of less than 2^16, and the host
is little-endian. A frame so short that a negative number of bytes would be copied has no result.
`OS_MEMCMP` is `cdf_mem_compare`, which says whether two pieces of memory are equal, as a `bool`;
`cds_is_mmie_valid` takes it for the difference that `memcmp` gives.
-/
import Mathlib.Algebra.Order.Ring.Int
import Mathlib.Data.Vector.Basic
import Qcacld.Lib.Run

set_option autoImplicit false

namespace Qcacld.CdsMmie

section

def AES_BLOCK_SIZE : Nat := 16
def CMAC_TLEN : Nat := 8
def IEEE80211_ELEMID_MMIE : UInt8 := 76

/-- `sizeof(struct ieee80211_frame)`. -/
def frameSize : Nat := 24

/-- `sizeof(struct ieee80211_mmie)`. -/
def mmieSize : Nat := 18

/-- `IEEE80211_FC1_RETRY | IEEE80211_FC1_PWR_MGT | IEEE80211_FC1_MORE_DATA`. -/
def maskedFlags : UInt8 := 0x08 ||| 0x10 ||| 0x20

abbrev Block := Vector UInt8 16

abbrev Ipn := Vector UInt8 6

abbrev Key := Vector UInt8 16

/-- What `crypto_cipher_encrypt_one` does with a key. -/
abbrev Cipher := Key → Block → Block

def cdf_mem_compare (a b : List UInt8) : Bool := a = b

def OS_MEMCMP (a b : List UInt8) : Int := if cdf_mem_compare a b then 1 else 0

/-! ## The MIC -/

section Cmac

variable (encrypt_one : Block → Block)

def zeroBlock : Block := Vector.replicate 16 0

def xor_128 (a b : Block) : Block := Vector.ofFn fun i => a[i] ^^^ b[i]

def leftshift_onebit (input : Block) : Block :=
  Vector.ofFn fun i =>
    let overflow : UInt8 := if h : i.val + 1 < 16 then input[i.val + 1] >>> 7 else 0
    input[i] <<< 1 ||| overflow

def const_rb : Block := Vector.ofFn fun i => if i = 15 then 0x87 else 0

def shiftReduce (l : Block) : Block :=
  if l[0] &&& 0x80 = 0 then leftshift_onebit l else xor_128 (leftshift_onebit l) const_rb

def generate_subkey : Block × Block :=
  let k1 := shiftReduce (encrypt_one zeroBlock)
  (k1, shiftReduce k1)

/-- The 16 bytes from `AES_BLOCK_SIZE * i` on. -/
def blockAt (m : List UInt8) (i : Nat) : Block :=
  Vector.ofFn fun j => m.getD (AES_BLOCK_SIZE * i + j.val) 0

def padding (lastb : Block) (length : Nat) : Block :=
  Vector.ofFn fun j => if j.val < length then lastb[j] else if j.val = length then 0x80 else 0

def cds_cmac_calc_mic (m : List UInt8) : List UInt8 :=
  let (k1, k2) := generate_subkey encrypt_one
  let n := (m.length + 15) / AES_BLOCK_SIZE
  let nBlocks := if n = 0 then 1 else n
  let cmpBlk := n ≠ 0 ∧ m.length % AES_BLOCK_SIZE = 0
  let last := blockAt m (nBlocks - 1)
  let m_last :=
    if cmpBlk then xor_128 last k1
    else xor_128 (padding last (m.length % AES_BLOCK_SIZE)) k2
  let x := (List.range (nBlocks - 1)).foldl
    (fun x i => encrypt_one (xor_128 x (blockAt m i))) zeroBlock
  (encrypt_one (xor_128 x m_last)).toList.take CMAC_TLEN

end Cmac

/-! ## The element -/

/-- How the calls go that get a cipher, set its key and allocate the input. -/
structure CryptoEnv where
  alloc : Bool
  setkey : Bool
  mem : Bool
  deriving DecidableEq

def CryptoEnv.ok (env : CryptoEnv) : Bool := env.alloc && env.setkey && env.mem

/-- The number in the bytes, the first one is the lowest. -/
def ipnValue (ipn : Ipn) : Nat := ipn.toList.foldr (fun b v => b.toNat + 256 * v) 0

def cds_increase_seq (ipn : Ipn) : Ipn :=
  let value := ipnValue ipn + 1
  Vector.ofFn fun i => UInt8.ofNat (value / 256 ^ i.val)

def write (frm : List UInt8) (off : Nat) (bytes : List UInt8) : List UInt8 :=
  frm.take off ++ bytes ++ frm.drop (off + bytes.length)

def aad (wh : List UInt8) : List UInt8 :=
  [wh.getD 0 0, wh.getD 1 0 &&& ~~~maskedFlags] ++ (wh.drop 4).take 18

def micInput (frm : List UInt8) : List UInt8 :=
  aad (frm.take frameSize) ++ (frm.drop frameSize).take (frm.length - frameSize - CMAC_TLEN) ++
    List.replicate CMAC_TLEN 0

def mmieHead (key_id : UInt16) : List UInt8 :=
  [IEEE80211_ELEMID_MMIE, UInt8.ofNat (mmieSize - 2), key_id.toUInt8, (key_id >>> 8).toUInt8]

/-- Whether it returns true, the IPN and the frame. -/
def cds_attach_mmie (aes : Cipher) (igtk : Key) (ipn : Ipn) (key_id : UInt16) (frm : List UInt8)
    (frmLen : UInt16) (env : CryptoEnv) : Option (Bool × Ipn × List UInt8) :=
  if frm.length ≠ frmLen.toNat ∨ frmLen.toNat < frameSize then some (false, ipn, frm)
  else
    let mmie := frm.length - mmieSize
    let previous_ipn := ipn
    let ipn := cds_increase_seq ipn
    let frm := write frm mmie (mmieHead key_id ++ ipn.toList)
    if env.ok = false then some (false, previous_ipn, frm)
    else if frm.length < frameSize + CMAC_TLEN then none
    else
      let mic := cds_cmac_calc_mic (aes igtk) (micInput frm)
      some (true, ipn, write frm (frm.length - CMAC_TLEN) mic)

def mmieIpn (frm : List UInt8) : Ipn :=
  Vector.ofFn fun i => frm.getD (frm.length - mmieSize + 4 + i.val) 0

/-- Whether it returns true, and the IPN. -/
def cds_is_mmie_valid (aes : Cipher) (igtk : Key) (ipn : Ipn) (frm : List UInt8)
    (env : CryptoEnv) : Option (Bool × Ipn) :=
  if frm.length < frameSize then some (false, ipn)
  else
    let mmie := frm.drop (frm.length - mmieSize)
    if mmie.getD 0 0 ≠ IEEE80211_ELEMID_MMIE ∨ mmie.getD 1 0 ≠ UInt8.ofNat (mmieSize - 2) then
      some (false, ipn)
    else
      let rx_ipn := mmieIpn frm
      if OS_MEMCMP rx_ipn.toList ipn.toList ≤ 0 then some (false, ipn)
      else if env.ok = false then some (false, ipn)
      else if frm.length < frameSize + CMAC_TLEN then none
      else
        let mic := cds_cmac_calc_mic (aes igtk) (micInput frm)
        if OS_MEMCMP mic (frm.drop (frm.length - CMAC_TLEN)) ≠ 0 then some (false, ipn)
        else some (true, rx_ipn)

/-! ## Steps -/

/-- The frame `frame` of those that were sent comes to the receiver. -/
structure Arrival where
  frame : Nat
  ipn : Ipn
  env : CryptoEnv
  accepted : Bool
  deriving DecidableEq

/-- A sender and a receiver with the same key. The frames are those that the sender has protected, the
oldest first; `arrivals` records what the receiver was given, the newest first. -/
structure Link where
  txIpn : Ipn
  rxIpn : Ipn
  sent : List (List UInt8)
  arrivals : List Arrival

def init (ipn : Ipn) : Link := ⟨ipn, ipn, [], []⟩

/-- A frame that is never delivered is lost, one that is delivered again is replayed. -/
inductive Op where
  | protect (key_id : UInt16) (frm : List UInt8) (frmLen : UInt16) (env : CryptoEnv)
  | deliver (frame : Nat) (env : CryptoEnv)

def step (aes : Cipher) (igtk : Key) (s : Link) : Op → Option Link
  | .protect key_id frm frmLen env =>
    (cds_attach_mmie aes igtk s.txIpn key_id frm frmLen env).map fun (ok, ipn, frm) =>
      { s with txIpn := ipn, sent := if ok then s.sent ++ [frm] else s.sent }
  | .deliver frame env => do
      let frm ← s.sent[frame]?
      let (ok, ipn) ← cds_is_mmie_valid aes igtk s.rxIpn frm env
      some { s with rxIpn := ipn, arrivals := ⟨frame, mmieIpn frm, env, ok⟩ :: s.arrivals }

end

open Lib List

/-! What the receiver accepts: only frames whose MIC differs in `OS_MEMCMP`, and only with its own
IPN. -/

variable {aes : Cipher} {igtk : Key} {s s' : Link} {frm mic : List UInt8} {env : CryptoEnv}

/-! ## What is to hold -/

def Link.accepted (s : Link) : List Arrival := s.arrivals.filter Arrival.accepted

structure Protected (s : Link) : Prop where
  /-- A frame later than those that were accepted is accepted. -/
  accepts : ∀ later a before, s.arrivals = later ++ a :: before →
    (∀ b ∈ before, b.accepted = true → b.frame < a.frame) → a.env.ok = true → a.accepted = true
  once : (s.accepted.map Arrival.frame).Nodup
  /-- The newest comes first. -/
  increasing : (s.accepted.map fun a => ipnValue a.ipn).Pairwise (· > ·)

/-! ## The MIC of a frame -/

theorem length_mic (encrypt_one : Block → Block) (m : List UInt8) :
    (cds_cmac_calc_mic encrypt_one m).length = CMAC_TLEN := by
  rw [cds_cmac_calc_mic, length_take, Vector.length_toList]; rfl

theorem length_write {off : Nat} {bytes : List UInt8} (h : off + bytes.length ≤ frm.length) :
    (write frm off bytes).length = frm.length := by
  rw [write, length_append, length_append, length_take, length_drop]; omega

theorem write_end {off : Nat} {bytes : List UInt8} (h : off + bytes.length = frm.length) :
    write frm off bytes = frm.take off ++ bytes := by rw [write, h, drop_length, append_nil]

theorem micInput_write (h : frameSize + CMAC_TLEN ≤ frm.length) (hmic : mic.length = CMAC_TLEN) :
    micInput (write frm (frm.length - CMAC_TLEN) mic) = micInput frm := by
  have hoff : frm.length - CMAC_TLEN + mic.length = frm.length := by omega
  have htake : (frm.take (frm.length - CMAC_TLEN)).length = frm.length - CMAC_TLEN := by
    rw [length_take]; omega
  have hhead : (write frm (frm.length - CMAC_TLEN) mic).take frameSize = frm.take frameSize := by
    rw [write_end hoff, take_append_of_le_length (by omega), take_take]
    congr 1
    omega
  have hbody : ((write frm (frm.length - CMAC_TLEN) mic).drop frameSize).take
      (frm.length - frameSize - CMAC_TLEN) =
        (frm.drop frameSize).take (frm.length - frameSize - CMAC_TLEN) := by
    have hsum : frameSize + (frm.length - frameSize - CMAC_TLEN) = frm.length - CMAC_TLEN := by omega
    rw [take_drop, take_drop, hsum, write_end hoff,
      take_append_of_le_length (by omega), take_take, Nat.min_self]
  rw [micInput, micInput, length_write (by omega), hhead, hbody]

def Genuine (aes : Cipher) (igtk : Key) (frm : List UInt8) : Prop :=
  frameSize + CMAC_TLEN ≤ frm.length ∧
    frm.drop (frm.length - CMAC_TLEN) = cds_cmac_calc_mic (aes igtk) (micInput frm)

theorem genuine_write (h : frameSize + CMAC_TLEN ≤ frm.length) :
    Genuine aes igtk
      (write frm (frm.length - CMAC_TLEN) (cds_cmac_calc_mic (aes igtk) (micInput frm))) := by
  have hmic := length_mic (aes igtk) (micInput frm)
  have hoff : frm.length - CMAC_TLEN + CMAC_TLEN = frm.length := by omega
  rw [Genuine, length_write (by rw [hmic, hoff]), micInput_write h hmic]
  refine ⟨h, ?_⟩
  rw [write_end (by rw [hmic, hoff]), drop_append_of_le_length (by rw [length_take]; omega),
    drop_take, Nat.sub_self, take_zero, nil_append]

theorem genuine_attach {ipn ipn' : Ipn} {key_id frmLen : UInt16} {frm' : List UInt8}
    (h : cds_attach_mmie aes igtk ipn key_id frm frmLen env = some (true, ipn', frm')) :
    Genuine aes igtk frm' := by
  rw [cds_attach_mmie] at h
  split at h
  · cases h
  dsimp only at h
  split at h
  · cases h
  split at h
  · cases h
  next hlen =>
    obtain ⟨-, hpair⟩ := Prod.mk.inj (Option.some.inj h)
    obtain ⟨-, rfl⟩ := Prod.mk.inj hpair
    exact genuine_write (Nat.not_lt.mp hlen)

theorem Genuine.rejected (h : Genuine aes igtk frm) {ipn ipn' : Ipn} {ok : Bool}
    (hvalid : cds_is_mmie_valid aes igtk ipn frm env = some (ok, ipn')) : ok = false := by
  have hsame : OS_MEMCMP (cds_cmac_calc_mic (aes igtk) (micInput frm))
      (frm.drop (frm.length - CMAC_TLEN)) ≠ 0 := by
    rw [h.2, OS_MEMCMP, cdf_mem_compare, decide_eq_true rfl]; exact Int.one_ne_zero
  rw [cds_is_mmie_valid] at hvalid
  dsimp only at hvalid
  repeat' split at hvalid
  all_goals first
    | exact (Prod.mk.inj (Option.some.inj hvalid)).1.symm
    | cases hvalid

/-! ## Runs -/

/-- All that was sent is genuine, and all that arrived was rejected. -/
structure Inv (aes : Cipher) (igtk : Key) (s : Link) : Prop where
  genuine : ∀ frm ∈ s.sent, Genuine aes igtk frm
  rejected : ∀ a ∈ s.arrivals, a.accepted = false

theorem Inv.step {op : Op} (h : Inv aes igtk s) (hstep : step aes igtk s op = some s') :
    Inv aes igtk s' := by
  cases op with
  | protect key_id frm frmLen env =>
    obtain ⟨⟨ok, ipn, frm'⟩, hattach, rfl⟩ := Option.map_eq_some_iff.mp hstep
    refine ⟨?_, h.rejected⟩
    cases ok with
    | false => exact h.genuine
    | true =>
      intro f hf
      rcases mem_append.mp hf with hf | hf
      · exact h.genuine f hf
      · obtain rfl := mem_singleton.mp hf; exact genuine_attach hattach
  | deliver frame env =>
    obtain ⟨frm, hfrm, hrest⟩ := Option.bind_eq_some_iff.mp hstep
    obtain ⟨⟨ok, ipn⟩, hvalid, hs⟩ := Option.bind_eq_some_iff.mp hrest
    cases hs
    refine ⟨h.genuine, ?_⟩
    intro a ha
    rcases mem_cons.mp ha with rfl | ha
    · exact (h.genuine frm (mem_of_getElem? hfrm)).rejected hvalid
    · exact h.rejected a ha

theorem Inv.accepted_nil (h : Inv aes igtk s) : s.accepted = [] := by
  rw [Link.accepted, filter_eq_nil_iff]
  intro a ha hacc
  rw [h.rejected a ha] at hacc
  cases hacc

/-- **Broadcast frames.** The receiver accepts none of the frames that the sender has protected, so
that replay protection is kept if and only if no frame arrives while the receiver has a cipher
and memory to check it. -/
theorem bip_rejects_genuine (aes : Cipher) (igtk : Key) (ipn : Ipn) (ops : List Op)
    (h : run (step aes igtk) (init ipn) ops = some s) :
    s.accepted = [] ∧ (Protected s ↔ ∀ a ∈ s.arrivals, a.env.ok = false) := by
  have hinv : Inv aes igtk s := by
    apply run_invariant (I := Inv aes igtk) (fun t op t' ht hstep => ht.step hstep) ?_ h
    exact ⟨(fun _ hf => nomatch hf), (fun _ ha => nomatch ha)⟩
  have hnone := hinv.accepted_nil
  refine ⟨hnone, ?_, ?_⟩
  · intro hprot a ha
    by_contra hok
    obtain ⟨later, before, hsplit⟩ := append_of_mem ha
    have hacc := hprot.accepts later a before hsplit (fun b hb hbacc => ?_)
      ((Bool.not_eq_false _).mp hok)
    · rw [hinv.rejected a ha] at hacc; cases hacc
    · have hb' : b ∈ s.arrivals := by
        rw [hsplit]; exact mem_append_right later (mem_cons_of_mem a hb)
      rw [hinv.rejected b hb'] at hbacc
      cases hbacc
  · intro hall
    refine ⟨fun later a before hsplit _ hok => ?_, ?_, ?_⟩
    · have ha : a ∈ s.arrivals := by rw [hsplit]; exact mem_append_right later mem_cons_self
      rw [hall a ha] at hok
      cases hok
    · rw [hnone]; exact nodup_nil
    · rw [hnone]; exact Pairwise.nil

/-- A cipher that leaves a block as it is. -/
def plain : Cipher := fun _ b => b

def allWell : CryptoEnv := ⟨true, true, true⟩

def deauth : List UInt8 :=
  [0xc0, 0, 0, 0] ++ replicate 6 0xff ++ replicate 12 2 ++ [0, 0] ++ [3, 0] ++
    replicate 18 0

/-- Two frames are sent, the first one is lost and the second one arrives while there is no cipher. -/
theorem bip_rejects_genuine_lost :
    ∃ s, run (step plain zeroBlock) (init (Vector.replicate 6 0))
      [.protect 4 deauth 44 allWell, .protect 4 deauth 44 allWell,
        .deliver 1 { allWell with alloc := false }] = some s ∧
      s.sent.length = 2 ∧ s.accepted = [] ∧ (Protected s ↔ ∀ a ∈ s.arrivals, a.env.ok = false) := by
  refine exists_of_tested (fun s => s.sent.length = 2) (by decide +kernel) fun s hs hall => ?_
  exact ⟨hall, bip_rejects_genuine plain zeroBlock _ _ hs⟩

/-- The first frame of a sender is not accepted. -/
theorem bip_first_frame :
    ∃ s, run (step plain zeroBlock) (init (Vector.replicate 6 0))
      [.protect 4 deauth 44 allWell, .deliver 0 allWell] = some s ∧ ¬Protected s := by
  refine exists_of_tested (fun s => s.arrivals = [⟨0, #v[1, 0, 0, 0, 0, 0], allWell, false⟩]) (by
      decide +kernel) fun s hs harr => ?_
  refine fun hprot => ?_
  have hacc := hprot.accepts [] _ [] harr (fun _ hb => nomatch hb) rfl
  cases hacc

end Qcacld.CdsMmie
