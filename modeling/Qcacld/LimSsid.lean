/-
The SSID of an association request: `lim_cmp_ssid` in `lim_assoc_utils.c` and `lim_chk_ssid` in
`lim_process_assoc_req_frame.c`.

The comparison starts at the structure, with the length, but counts as many bytes as the SSID has:
the last byte of the SSID is never compared, and with an empty SSID nothing is (`lim_cmp_ssid_iff`).
-/
import Mathlib.Data.List.OfFn

set_option autoImplicit false

namespace Qcacld.LimSsid

def SIR_MAC_MAX_SSID_LENGTH : Nat := 32

def eSIR_MAC_UNSPEC_FAILURE_STATUS : UInt16 := 1

/-- `tSirMacSSid`, a packed structure. -/
structure MacSSid where
  length : UInt8
  ssId : Fin SIR_MAC_MAX_SSID_LENGTH → UInt8
  length_le : length.toNat ≤ SIR_MAC_MAX_SSID_LENGTH

def MacSSid.memory (s : MacSSid) : List UInt8 := s.length :: List.ofFn s.ssId

def MacSSid.bytes (s : MacSSid) : List UInt8 := (List.ofFn s.ssId).take s.length.toNat

/-- The first `numBytes` bytes of two pieces of memory. -/
def cdf_mem_compare (pMemory1 pMemory2 : List UInt8) (numBytes : Nat) : Bool :=
  pMemory1.take numBytes == pMemory2.take numBytes

/-- `self` is the SSID of the session. -/
def lim_cmp_ssid (rx_ssid self : MacSSid) : Bool :=
  cdf_mem_compare rx_ssid.memory self.memory self.length.toNat

inductive SubType where
  | LIM_ASSOC
  | LIM_REASSOC

/-- The arguments of `lim_send_assoc_rsp_mgmt_frame`. -/
structure AssocRsp where
  status_code : UInt16
  aid : UInt16
  peer_addr : Fin 6 → UInt8
  subtype : SubType

/-- Whether the request goes on, and otherwise the response to it. -/
def lim_chk_ssid (sa : Fin 6 → UInt8) (self rx_ssid : MacSSid) (sub_type : SubType) :
    Bool × Option AssocRsp :=
  if lim_cmp_ssid rx_ssid self = true then (true, none)
  else (false, some ⟨eSIR_MAC_UNSPEC_FAILURE_STATUS, 1, sa, sub_type⟩)

/-! ## What is compared -/

variable {rx self : MacSSid}

theorem length_bytes (s : MacSSid) : s.bytes.length = s.length.toNat := by
  unfold MacSSid.bytes
  rw [List.length_take, List.length_ofFn]; exact Nat.min_eq_left s.length_le

def Same (rx self : MacSSid) : Prop := rx.length = self.length ∧ rx.bytes = self.bytes

/-- SSIDs that are told apart by their last byte only. -/
def DifferInLast (rx self : MacSSid) : Prop :=
  rx.length = self.length ∧ rx.bytes.dropLast = self.bytes.dropLast ∧ rx.bytes ≠ self.bytes

theorem dropLast_bytes {s : MacSSid} {n : Nat} (h : s.length.toNat = n + 1) :
    s.bytes.dropLast = (List.ofFn s.ssId).take n := by
  rw [List.dropLast_eq_take, length_bytes, h]
  unfold MacSSid.bytes
  rw [List.take_take, h]
  congr 1
  omega

theorem lim_cmp_ssid_iff :
    lim_cmp_ssid rx self = true ↔
      self.length = 0 ∨ rx.length = self.length ∧ rx.bytes.dropLast = self.bytes.dropLast := by
  unfold lim_cmp_ssid cdf_mem_compare MacSSid.memory
  rw [beq_iff_eq]
  cases hn : self.length.toNat with
  | zero =>
    have hzero : self.length = 0 := UInt8.toNat_inj.mp hn
    exact ⟨fun _ => Or.inl hzero, fun _ => rfl⟩
  | succ n =>
    have hpos : self.length ≠ 0 := fun h => by rw [h] at hn; cases hn
    rw [List.take_succ_cons, List.take_succ_cons, List.cons.injEq, or_iff_right hpos]
    apply and_congr_right
    intro hlen
    rw [dropLast_bytes hn, dropLast_bytes (hlen ▸ hn)]

theorem lim_chk_ssid_iff (sa : Fin 6 → UInt8) (sub_type : SubType) :
    (lim_chk_ssid sa self rx sub_type).1 = true ↔ lim_cmp_ssid rx self = true := by
  unfold lim_chk_ssid
  split
  · rename_i h; exact ⟨fun _ => h, fun _ => rfl⟩
  · rename_i h; exact ⟨nofun, fun hcmp => absurd hcmp h⟩

/-- A request is let through if and only if it names the SSID of the session, except that an empty
SSID of the session goes with any other and SSIDs that differ in their last byte only are taken for
the same. -/
theorem chk_ssid_same_iff (sa : Fin 6 → UInt8) (self rx : MacSSid) (sub_type : SubType) :
    ((lim_chk_ssid sa self rx sub_type).1 = true ↔ Same rx self) ↔
      ¬ (self.length = 0 ∧ rx.length ≠ 0) ∧ ¬ DifferInLast rx self := by
  rw [lim_chk_ssid_iff, lim_cmp_ssid_iff]
  have hempty : ∀ s : MacSSid, s.length = 0 → s.bytes = [] := by
    intro s hs
    apply List.eq_nil_of_length_eq_zero
    rw [length_bytes, hs]; rfl
  constructor
  · intro h
    constructor
    · rintro ⟨hself, hrx⟩; exact hrx ((h.mp (Or.inl hself)).1.trans hself)
    · rintro ⟨hlen, hinit, hne⟩; exact hne (h.mp (Or.inr ⟨hlen, hinit⟩)).2
  · rintro ⟨hnonempty, hlast⟩
    constructor
    · rintro (hself | ⟨hlen, hinit⟩)
      · have hrx : rx.length = 0 := not_not.mp fun hrx => hnonempty ⟨hself, hrx⟩
        exact ⟨hrx.trans hself.symm, (hempty rx hrx).trans (hempty self hself).symm⟩
      · exact ⟨hlen, not_not.mp fun hne => hlast ⟨hlen, hinit, hne⟩⟩
    · rintro ⟨hlen, hbytes⟩; exact Or.inr ⟨hlen, congrArg List.dropLast hbytes⟩

def ofBytes (l : List UInt8) (h : l.length ≤ SIR_MAC_MAX_SSID_LENGTH) : MacSSid where
  length := UInt8.ofNat l.length
  ssId := fun i => l.getD i 0
  length_le := by rw [UInt8.toNat_ofNat']; exact (Nat.mod_le _ _).trans h

/-- "netA" and "netB". -/
theorem netA_for_netB :
    ¬ ((lim_chk_ssid (fun _ => 0) (ofBytes [110, 101, 116, 65] (by decide))
        (ofBytes [110, 101, 116, 66] (by decide)) .LIM_ASSOC).1 = true ↔
      Same (ofBytes [110, 101, 116, 66] (by decide)) (ofBytes [110, 101, 116, 65] (by decide))) := by
  intro h
  have hsame := h.mp (by decide)
  exact absurd hsame.2 (by decide)

end Qcacld.LimSsid
