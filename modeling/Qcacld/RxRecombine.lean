/-
From the fragments of an MSDU to what is passed up: `ol_rx_defrag`.

In safe mode the fragments are passed up as they are, and for a device whose frames are 802.3 (which
is how `ol_pdev_cfg_attach` sets it up) the 802.11 header and the LLC/SNAP header are replaced by an
Ethernet header. A buffer is the bytes behind its rx descriptor, and `none` is an access outside of
it.
-/
import Qcacld.RxMichael
import Qcacld.RxPn

set_option autoImplicit false

namespace Qcacld.RxRecombine

open List

section

open RxMichael (FC0_TYPE_MASK FC0_TYPE_DATA FC0_SUBTYPE_QOS FC1_DIR_MASK FC1_DIR_DSTODS
  FC1_ORDER MICLEN hdrsize addr addrOffs ol_rx_frag_tkip_demic_mic)
open RxPn (SecType SecIndex RxDesc Pn Peer ol_rx_pn_check_base)

/-! ## Buffers -/

structure Nbuf where
  id : Nat
  data : List UInt8
deriving DecidableEq

def pull_head (n : Nat) (data : List UInt8) : List UInt8 :=
  if n ≤ data.length then data.drop n else data

/-- `cdf_nbuf_trim_tail`; a length below zero is a large one, and nothing is trimmed. -/
def trim_tail (n : Nat) (data : List UInt8) : List UInt8 :=
  if n ≤ data.length then data.take (data.length - n) else data

/-- `cdf_mem_move` of the first `len` bytes to the offset `off`. -/
def mem_move (off len : Nat) (data : List UInt8) : Option (List UInt8) :=
  if off + len ≤ data.length then
    some (data.take off ++ data.take len ++ data.drop (off + len))
  else none

def update (i : Nat) (f : UInt8 → UInt8) (data : List UInt8) : Option (List UInt8) :=
  if i < data.length then some (data.modify i f) else none

/-! ## Ciphers -/

def WEP_IVLEN : Nat := 3
def WEP_EXTIV : UInt8 := 0x20
def FCS_LEN : Nat := 4
def FC1_MORE_FRAG : UInt8 := 0x04
def SEQ_FRAG_MASK : UInt8 := 0x0f

structure Cipher where
  ic_header : Nat
  ic_trailer : Nat
  ic_miclen : Nat

def f_ccmp : Cipher := ⟨8, 8, 0⟩
def f_tkip : Cipher := ⟨8, 4, 8⟩
def f_wep : Cipher := ⟨4, 4, 0⟩

/-! Each of these gives `some none` for `OL_RX_DEFRAG_ERR`. -/

def ol_rx_frag_tkip_decap (hdrlen : Nat) (data : List UInt8) : Option (Option (List UInt8)) := do
  let iv ← data[hdrlen + WEP_IVLEN]?
  if iv &&& WEP_EXTIV = 0 then return none
  else
    let data ← mem_move f_tkip.ic_header hdrlen data
    return some (trim_tail f_tkip.ic_trailer (pull_head f_tkip.ic_header data))

def ol_rx_frag_wep_decap (hdrlen : Nat) (data : List UInt8) : Option (Option (List UInt8)) := do
  let data ← mem_move f_wep.ic_header hdrlen data
  return some (trim_tail f_wep.ic_trailer (pull_head f_wep.ic_header data))

def ol_rx_frag_ccmp_demic (hdrlen : Nat) (data : List UInt8) : Option (Option (List UInt8)) := do
  let iv ← data[hdrlen + WEP_IVLEN]?
  if iv &&& WEP_EXTIV = 0 then return none
  else return some (trim_tail f_ccmp.ic_trailer data)

def ol_rx_frag_ccmp_decap (hdrlen : Nat) (data : List UInt8) : Option (Option (List UInt8)) := do
  let iv ← data[hdrlen + WEP_IVLEN]?
  if iv &&& WEP_EXTIV = 0 then return none
  else
    let data ← mem_move f_ccmp.ic_header hdrlen data
    return some (pull_head f_ccmp.ic_header data)

def decap (sec : SecType) (hdrlen : Nat) (data : List UInt8) : Option (Option (List UInt8)) :=
  match sec with
  | .tkip | .tkip_nomic => ol_rx_frag_tkip_decap hdrlen data
  | .aes_ccmp => do
      match ← ol_rx_frag_ccmp_demic hdrlen data with
      | none => return none
      | some data => ol_rx_frag_ccmp_decap hdrlen data
  | .wep40 | .wep104 | .wep128 => ol_rx_frag_wep_decap hdrlen data
  | _ => some (some data)

def decapLoop (sec : SecType) (hdrlen : Nat) : List Nbuf → Option (Option (List Nbuf))
  | [] => some (some [])
  | cur :: next => do
      match ← decap sec hdrlen cur.data with
      | none => return none
      | some data =>
        let rest ← decapLoop sec hdrlen next
        return rest.map ({ cur with data := data } :: ·)

def ol_rx_frag_tkip_demic (key : List UInt8) (hdrlen : Nat) (data : List UInt8) :
    Option (Option (List UInt8)) := do
  match ← ol_rx_frag_tkip_demic_mic key data [] hdrlen with
  | none => return none
  | some mic =>
    let mic0 := data.drop (data.length - MICLEN)
    -- `cdf_mem_compare` is true of equal bytes
    if mic = mic0 then return none
    else return some (trim_tail f_tkip.ic_miclen data)

/-! ## The MSDU -/

/-- The loop of `ol_rx_defrag_decap_recombine`, with the buffers it frees; `cat_ok` says whether
there is room behind `rx_nbuf`, or memory for more. -/
def recombineLoop (cat_ok : Nat → Bool) (hdrsize : Nat) (rx_nbuf : Nbuf) :
    List Nat → List Nbuf → List Nat × Option Nbuf
  | freed, [] => (freed, some rx_nbuf)
  | freed, msdu :: tmp =>
    if cat_ok msdu.id then
      recombineLoop cat_ok hdrsize
        { rx_nbuf with data := rx_nbuf.data ++ pull_head hdrsize msdu.data }
        (freed ++ [msdu.id]) tmp
    else (freed ++ tmp.map Nbuf.id ++ [rx_nbuf.id, msdu.id], none)

def ol_rx_defrag_decap_recombine (cat_ok : Nat → Bool) (hdrsize : Nat) (rx_nbuf : Nbuf)
    (frags : List Nbuf) : Option (List Nat × Option Nbuf) :=
  match recombineLoop cat_ok hdrsize rx_nbuf [] frags with
  | (freed, none) => some (freed, none)
  | (freed, some msdu) => do
      let data ← update 1 (· &&& ~~~FC1_MORE_FRAG) msdu.data
      let data ← update 22 (· &&& ~~~SEQ_FRAG_MASK) data
      return (freed, some { msdu with data := data })

def qosHasSeq (fc0 : UInt8) : Bool :=
  fc0 &&& (FC0_TYPE_MASK ||| FC0_SUBTYPE_QOS) = FC0_TYPE_DATA ||| FC0_SUBTYPE_QOS

/-- The QoS control, and the HT control behind it in a frame with the order bit. -/
def qoslen (fc1 : UInt8) : Nat := 2 + if fc1 &&& FC1_ORDER ≠ 0 then 4 else 0

def ol_rx_defrag_qos_decap (hdrlen : Nat) (data : List UInt8) : Option (List UInt8) := do
  let fc0 ← data[0]?
  let fc1 ← data[1]?
  if qosHasSeq fc0 then
    let data ← mem_move (qoslen fc1) (hdrlen - qoslen fc1) data
    update 0 (· &&& ~~~FC0_SUBTYPE_QOS) (pull_head (qoslen fc1) data)
  else return data

def ol_rx_defrag_nwifi_to_8023 (data : List UInt8) : Option (List UInt8) := do
  let fc1 ← data[1]?
  -- `llchdr` is copied
  if data.length < 24 + 8 then none
  else
    let eth := pull_head (24 + 8 - 14) data
    let ethertype := (data.drop 30).take 2
    if fc1 &&& FC1_DIR_MASK = FC1_DIR_DSTODS then
      return eth.take 12 ++ ethertype ++ eth.drop 14
    else
      let da ← addr data (addrOffs fc1).1
      let sa ← addr data (addrOffs fc1).2
      return da ++ sa ++ ethertype ++ eth.drop 14

/-! ## `ol_rx_defrag` -/

inductive FrameType where
  | raw
  | native_wifi
  | frm_802_3
deriving DecidableEq

/-- What a call depends on: the device, the virtual device and the peer, the rx descriptors, and
whether there is memory when there has to be. -/
structure Env where
  pn : RxPn.Cfg
  tid : Nat
  desc : Nat → RxDesc
  stack : Nat → Pn
  michael_key : SecIndex → List UInt8
  safemode : Bool
  frame_type : FrameType
  cat_ok : Nat → Bool

/-- The peer's PN state, the buffers that were freed, and the frames that were passed up. -/
structure Outcome where
  peer : Peer
  freed : List Nat
  delivered : List Nbuf

/-- `ol_rx_pn_check_base`, for a fragment that is taken out of the list. -/
def pnCheck (env : Env) (peer : Peer) (cur : Nat) : Option (Peer × RxPn.Output) :=
  ol_rx_pn_check_base env.pn peer env.tid ⟨fun _ => none, env.desc, env.stack⟩ 2 cur

/-- The loop of the PN check; `done` are the fragments up to `prev`. -/
def pnLoop (env : Env) : Peer → List Nbuf → List Nbuf →
    Option (Peer × Except (List Nat) (List Nbuf))
  | peer, done, [] => some (peer, .ok done)
  | peer, done, cur :: tmp_next => do
      let (peer, out) ← pnCheck env peer cur.id
      match out.msdu_list with
      | none =>
        return (peer, .error (out.freed ++ done.map Nbuf.id ++ tmp_next.map Nbuf.id))
      | some _ =>
        pnLoop env peer (done ++ [{ cur with data := trim_tail FCS_LEN cur.data }]) tmp_next

def Env.index (env : Env) (frag : Nat) : SecIndex :=
  if (env.desc frag).mcast_bcast then .mcast else .ucast

def deliver (env : Env) (hdr_space : Nat) (data : List UInt8) : Option (List UInt8) := do
  let data ← ol_rx_defrag_qos_decap hdr_space data
  if env.frame_type = .frm_802_3 then ol_rx_defrag_nwifi_to_8023 data else return data

def recombine (env : Env) (peer : Peer) (hdr_space : Nat) (index : SecIndex) (rx_nbuf : Nbuf)
    (frags : List Nbuf) : Option Outcome := do
  match ← ol_rx_defrag_decap_recombine env.cat_ok hdr_space rx_nbuf frags with
  | (freed, none) => return ⟨peer, freed, []⟩
  | (freed, some msdu) =>
    let demic ← if env.pn.sec_type index = .tkip then
        ol_rx_frag_tkip_demic (env.michael_key index) hdr_space msdu.data
      else some (some msdu.data)
    match demic with
    | none => return ⟨peer, freed ++ [msdu.id], []⟩
    | some data =>
      let data ← deliver env hdr_space data
      return ⟨peer, freed, [{ msdu with data := data }]⟩

def ol_rx_defrag (env : Env) (peer : Peer) (frag_list : List Nbuf) : Option Outcome :=
  if env.safemode then some ⟨peer, [], frag_list⟩
  else do
    match ← pnLoop env peer [] frag_list with
    | (peer, .error freed) => return ⟨peer, freed, []⟩
    | (peer, .ok frag_list) =>
      let first ← frag_list.head?
      let fc0 ← first.data[0]?
      let fc1 ← first.data[1]?
      let hdr_space := hdrsize fc0 fc1
      let index := env.index first.id
      match ← decapLoop (env.pn.sec_type index) hdr_space frag_list with
      | none => return ⟨peer, frag_list.map Nbuf.id, []⟩
      | some [] => none
      | some (rx_nbuf :: frags) => recombine env peer hdr_space index rx_nbuf frags

/-! ## Fragments -/

def cipherOf : SecType → Cipher
  | .tkip | .tkip_nomic => f_tkip
  | .aes_ccmp => f_ccmp
  | .wep40 | .wep104 | .wep128 => f_wep
  | _ => ⟨0, 0, 0⟩

def hasExtIv : SecType → Bool
  | .tkip | .tkip_nomic | .aes_ccmp => true
  | _ => false

/-- A fragment behind a header of `h` bytes, with what the cipher puts before and behind its
payload. -/
structure Fragment (sec : SecType) (h : Nat) where
  id : Nat
  hdr : List UInt8
  iv : List UInt8
  payload : List UInt8
  trailer : List UInt8
  fcs : List UInt8
  hdr_length : hdr.length = h
  iv_length : iv.length = (cipherOf sec).ic_header
  trailer_length : trailer.length = (cipherOf sec).ic_trailer
  fcs_length : fcs.length = FCS_LEN

namespace Fragment

variable {sec : SecType} {h : Nat} (f : Fragment sec h)

def nbuf : Nbuf := ⟨f.id, f.hdr ++ f.iv ++ f.payload ++ f.trailer ++ f.fcs⟩

/-- The cipher has an extended IV, if it is one that should. -/
def ExtIv : Prop := hasExtIv sec = true → ∃ b, f.iv[WEP_IVLEN]? = some b ∧ b &&& WEP_EXTIV ≠ 0

def checked : Nbuf := ⟨f.id, f.hdr ++ f.iv ++ f.payload ++ f.trailer⟩

def plain : Nbuf := ⟨f.id, f.hdr ++ f.payload⟩

end Fragment

theorem pull_head_append (a b : List UInt8) : pull_head a.length (a ++ b) = b := by
  rw [pull_head, if_pos (by rw [length_append]; omega), drop_left]

theorem trim_tail_append (a b : List UInt8) : trim_tail b.length (a ++ b) = a := by
  rw [trim_tail, if_pos (by rw [length_append]; omega), length_append,
    Nat.add_sub_cancel, take_left]

theorem mem_move_pull (hdr iv rest : List UInt8) :
    (mem_move iv.length hdr.length (hdr ++ iv ++ rest)).map (pull_head iv.length) =
      some (hdr ++ rest) := by
  have hle : iv.length + hdr.length ≤ (hdr ++ iv ++ rest).length := by
    simp only [length_append]
    omega
  have hfront : ((hdr ++ iv ++ rest).take iv.length).length = iv.length := by
    rw [length_take]; omega
  have hhdr : (hdr ++ iv ++ rest).take hdr.length = hdr := by rw [append_assoc, take_left]
  have hrest : (hdr ++ iv ++ rest).drop (iv.length + hdr.length) = rest := by
    rw [Nat.add_comm, ← length_append, drop_left]
  rw [mem_move, if_pos hle, Option.map_some, hhdr, hrest, append_assoc]
  congr 1
  nth_rewrite 1 [← hfront]
  exact pull_head_append _ _

section Decap

variable (hdr iv payload trailer : List UInt8) {b : UInt8}

theorem getElem?_iv (hb : iv[WEP_IVLEN]? = some b) :
    (hdr ++ iv ++ payload ++ trailer)[hdr.length + WEP_IVLEN]? = some b := by
  obtain ⟨hlt, -⟩ := List.getElem?_eq_some_iff.mp hb
  rw [append_assoc, append_assoc, getElem?_append_right (by omega),
    Nat.add_sub_cancel_left, getElem?_append_left hlt, hb]

theorem tkip_decap_eq (hiv : iv.length = 8) (htrailer : trailer.length = 4)
    (hb : iv[WEP_IVLEN]? = some b) :
    ol_rx_frag_tkip_decap hdr.length (hdr ++ iv ++ payload ++ trailer) =
      some (if b &&& WEP_EXTIV = 0 then none else some (hdr ++ payload)) := by
  rw [ol_rx_frag_tkip_decap, getElem?_iv hdr iv payload trailer hb]
  by_cases hext : b &&& WEP_EXTIV = 0
  · simp [hext]
  · have hmove := mem_move_pull hdr iv (payload ++ trailer)
    rw [hiv, ← append_assoc] at hmove
    obtain ⟨moved, hmem, hpull⟩ := Option.map_eq_some_iff.mp hmove
    simp only [Option.bind_eq_bind, Option.bind_some, if_neg hext, f_tkip, hmem, hpull]
    rw [← htrailer, ← append_assoc, trim_tail_append]; rfl

theorem ccmp_demic_eq (htrailer : trailer.length = 8) (hb : iv[WEP_IVLEN]? = some b) :
    ol_rx_frag_ccmp_demic hdr.length (hdr ++ iv ++ payload ++ trailer) =
      some (if b &&& WEP_EXTIV = 0 then none else some (hdr ++ iv ++ payload)) := by
  rw [ol_rx_frag_ccmp_demic, getElem?_iv hdr iv payload trailer hb]
  by_cases hext : b &&& WEP_EXTIV = 0
  · simp [hext]
  · simp only [Option.bind_eq_bind, Option.bind_some, if_neg hext, f_ccmp]
    rw [← htrailer, trim_tail_append]; rfl

theorem ccmp_decap_eq (hiv : iv.length = 8) (hb : iv[WEP_IVLEN]? = some b)
    (hext : b &&& WEP_EXTIV ≠ 0) :
    ol_rx_frag_ccmp_decap hdr.length (hdr ++ iv ++ payload) = some (some (hdr ++ payload)) := by
  have hget := getElem?_iv hdr iv payload [] hb
  rw [append_nil] at hget
  have hmove := mem_move_pull hdr iv payload
  rw [hiv] at hmove
  obtain ⟨moved, hmem, hpull⟩ := Option.map_eq_some_iff.mp hmove
  rw [ol_rx_frag_ccmp_decap, hget]
  simp only [Option.bind_eq_bind, Option.bind_some, if_neg hext, f_ccmp, hmem, hpull]
  rfl

theorem wep_decap_eq (hiv : iv.length = 4) (htrailer : trailer.length = 4) :
    ol_rx_frag_wep_decap hdr.length (hdr ++ iv ++ payload ++ trailer) =
      some (some (hdr ++ payload)) := by
  have hmove := mem_move_pull hdr iv (payload ++ trailer)
  rw [hiv, ← append_assoc] at hmove
  obtain ⟨moved, hmem, hpull⟩ := Option.map_eq_some_iff.mp hmove
  rw [ol_rx_frag_wep_decap]
  simp only [Option.bind_eq_bind, Option.bind_some, f_wep, hmem, hpull]
  rw [← htrailer, ← append_assoc, trim_tail_append]; rfl

end Decap

theorem decap_checked {sec : SecType} {h : Nat} (f : Fragment sec h) :
    (f.ExtIv → decap sec h f.checked.data = some (some f.plain.data)) ∧
      (¬ f.ExtIv → decap sec h f.checked.data = some none) := by
  obtain ⟨id, hdr, iv, payload, trailer, fcs, rfl, hiv, htrailer, -⟩ := f
  simp only [Fragment.ExtIv, Fragment.checked, Fragment.plain]
  have hbyte (h8 : iv.length = 8) : ∃ b, iv[WEP_IVLEN]? = some b :=
    ⟨_, getElem?_eq_getElem (by rw [h8]; decide)⟩
  -- no header and no trailer
  have hbare (h0 : iv.length = 0) (h0' : trailer.length = 0) :
      hdr ++ iv ++ payload ++ trailer = hdr ++ payload := by
    rw [eq_nil_of_length_eq_zero h0, eq_nil_of_length_eq_zero h0', append_nil, append_nil]
  have hext {b : UInt8} (hb : iv[WEP_IVLEN]? = some b) :
      (∃ b, iv[WEP_IVLEN]? = some b ∧ b &&& WEP_EXTIV ≠ 0) ↔ b &&& WEP_EXTIV ≠ 0 := by simp [hb]
  cases sec with
  | tkip | tkip_nomic =>
    obtain ⟨b, hb⟩ := hbyte hiv
    simp only [hasExtIv, forall_const, hext hb, decap,
      tkip_decap_eq hdr iv payload trailer hiv htrailer hb]
    constructor
    · intro h; rw [if_neg h]
    · intro h; rw [if_pos (not_not.mp h)]
  | aes_ccmp =>
    obtain ⟨b, hb⟩ := hbyte hiv
    simp only [hasExtIv, forall_const, hext hb, decap,
      ccmp_demic_eq hdr iv payload trailer htrailer hb, Option.bind_eq_bind, Option.bind_some]
    constructor
    · intro h
      rw [if_neg h]; exact ccmp_decap_eq hdr iv payload hiv hb h
    · intro h
      rw [if_pos (not_not.mp h)]; rfl
  | wep40 | wep104 | wep128 =>
    have hdecap := wep_decap_eq hdr iv payload trailer hiv htrailer
    exact ⟨fun _ => hdecap, fun h => absurd (fun hfalse => by simp [hasExtIv] at hfalse) h⟩
  | none | wapi | aes_ccmp_256 | aes_gcmp | aes_gcmp_256 =>
    rw [hbare hiv htrailer]
    exact ⟨fun _ => rfl, fun h => absurd (fun hfalse => by simp [hasExtIv] at hfalse) h⟩

/-! ## The loops -/

section Loops

variable {sec : SecType} {h : Nat}

theorem decapLoop_checked (fs : List (Fragment sec h)) :
    ((∀ f ∈ fs, f.ExtIv) →
      decapLoop sec h (fs.map Fragment.checked) = some (some (fs.map Fragment.plain))) ∧
    (¬ (∀ f ∈ fs, f.ExtIv) → decapLoop sec h (fs.map Fragment.checked) = some none) := by
  induction fs with
  | nil => exact ⟨fun _ => rfl, fun hnot => absurd (by simp) hnot⟩
  | cons f fs ih =>
    simp only [map_cons, decapLoop, forall_mem_cons]
    by_cases hf : f.ExtIv
    · rw [(decap_checked f).1 hf]
      simp only [hf, true_and]
      constructor
      · intro hall
        simp only [Option.bind_eq_bind, Option.bind_some, ih.1 hall]
        rfl
      · intro hnot
        simp only [Option.bind_eq_bind, Option.bind_some, ih.2 hnot]
        rfl
    · rw [(decap_checked f).2 hf]; exact ⟨fun hall => absurd hall.1 hf, fun _ => rfl⟩

theorem exists_cmp (sec : SecType) (hlen : ¬ (RxPn.rx_pn sec).len = 0) :
    ∃ cmp, (RxPn.rx_pn sec).cmp = some cmp := by
  cases sec <;> simp [RxPn.rx_pn] at hlen ⊢

theorem pnCheck_single (env : Env) (peer : Peer) (cur : Nat)
    (hone : (env.desc cur).first_msdu = true ∧ (env.desc cur).last_msdu = true) :
    ∃ peer' out, pnCheck env peer cur = some (peer', out) ∧
      (out.msdu_list = some cur ∨ out.msdu_list = none ∧ out.freed = [cur]) := by
  obtain ⟨hfirst, hlast⟩ := hone
  have hflag : ¬ (!RxPn.htt_rx_msdu_has_wlan_mcast_flag (env.desc cur)) = true := by
    rw [RxPn.htt_rx_msdu_has_wlan_mcast_flag, hfirst]; simp
  unfold pnCheck ol_rx_pn_check_base
  split
  · exact ⟨_, _, rfl, Or.inl rfl⟩
  · dsimp only
    split
    · exact ⟨_, _, rfl, Or.inl rfl⟩
    · rename_i hlen
      obtain ⟨cmp, hcmp⟩ := exists_cmp _ hlen
      simp only [RxPn.check_loop, RxPn.check_mpdu, RxPn.ol_rx_mpdu_list_next, hlast, if_true,
        Option.bind_some]
      split
      · exact ⟨_, _, rfl, Or.inl rfl⟩
      · obtain ⟨replay, hreplay⟩ : ∃ replay, RxPn.pn_is_replay env.pn
            (RxPn.secIndex ⟨fun _ => none, env.desc, env.stack⟩ cur)
            ⟨fun _ => none, none, none, peer.tids_last_pn env.tid,
              peer.tids_last_pn_valid env.tid, [], []⟩
            (RxPn.htt_rx_mpdu_desc_pn env.pn (env.desc cur) (env.stack cur)
              (RxPn.rx_pn (env.pn.sec_type
                (RxPn.secIndex ⟨fun _ => none, env.desc, env.stack⟩ cur))).len) = some replay := by
          unfold RxPn.pn_is_replay
          rw [hcmp]
          split <;> exact ⟨_, rfl⟩
        rw [hreplay]
        cases replay with
        | true =>
          simp only [Option.bind_some, if_true, RxPn.free_mpdu, Lib.walkTo]
          exact ⟨_, _, rfl, Or.inr ⟨rfl, rfl⟩⟩
        | false => exact ⟨_, _, rfl, Or.inl rfl⟩

def PnAccepts (env : Env) : Peer → List Nat → Prop
  | _, [] => True
  | peer, cur :: next => ∃ peer' out, pnCheck env peer cur = some (peer', out) ∧
      out.msdu_list ≠ none ∧ PnAccepts env peer' next

theorem pnLoop_nbuf (env : Env) (peer : Peer) (done : List Nbuf) (fs : List (Fragment sec h))
    (hone : ∀ f ∈ fs, (env.desc f.id).first_msdu = true ∧ (env.desc f.id).last_msdu = true) :
    (PnAccepts env peer (fs.map Fragment.id) → ∃ peer', pnLoop env peer done
      (fs.map Fragment.nbuf) = some (peer', .ok (done ++ fs.map Fragment.checked))) ∧
    (¬ PnAccepts env peer (fs.map Fragment.id) → ∃ peer' freed, pnLoop env peer done
      (fs.map Fragment.nbuf) = some (peer', .error freed) ∧
        freed.Perm (done.map Nbuf.id ++ fs.map Fragment.id)) := by
  induction fs generalizing peer done with
  | nil => refine ⟨fun _ => ⟨peer, ?_⟩, fun hnot => absurd trivial hnot⟩; simp [pnLoop]
  | cons f fs ih =>
    rw [forall_mem_cons] at hone
    obtain ⟨peer', out, hcheck, hout⟩ := pnCheck_single env peer f.id hone.1
    have htrim : trim_tail FCS_LEN f.nbuf.data = f.checked.data := by
      rw [← f.fcs_length]; exact trim_tail_append _ _
    have hids : (fs.map Fragment.nbuf).map Nbuf.id = fs.map Fragment.id := by rw [map_map]; rfl
    have hfid : f.nbuf.id = f.id := rfl
    simp only [map_cons, pnLoop, PnAccepts, hfid, hcheck, Option.bind_eq_bind,
      Option.bind_some, htrim, hids]
    obtain hkept | ⟨hrej, hfreed⟩ := hout
    · have hstep := ih peer' (done ++ [f.checked]) hone.2
      simp only [map_append, map_cons, map_nil, append_assoc, singleton_append] at hstep
      simp only [hkept]
      constructor
      · rintro ⟨p, o, heq, -, hrest⟩
        obtain ⟨rfl, rfl⟩ := Prod.mk.injEq _ _ _ _ ▸ Option.some.inj heq
        exact hstep.1 hrest
      · intro hnot
        apply hstep.2
        intro hrest; exact hnot ⟨peer', out, rfl, by simp [hkept], hrest⟩
    · simp only [hrej, hfreed]
      constructor
      · rintro ⟨p, o, heq, hne, -⟩
        obtain ⟨rfl, rfl⟩ := Prod.mk.injEq _ _ _ _ ▸ Option.some.inj heq
        exact absurd hrej hne
      · intro _
        refine ⟨peer', _, rfl, ?_⟩
        exact perm_middle.symm

theorem recombineLoop_all (cat_ok : Nat → Bool) (rx : Nbuf) (freed : List Nat)
    (fs : List (Fragment sec h)) (hall : ∀ f ∈ fs, cat_ok f.id = true) :
    recombineLoop cat_ok h rx freed (fs.map Fragment.plain) =
      (freed ++ fs.map Fragment.id,
        some { rx with data := rx.data ++ (fs.map Fragment.payload).flatten }) := by
  induction fs generalizing rx freed with
  | nil => simp [recombineLoop]
  | cons f fs ih =>
    rw [forall_mem_cons] at hall
    have hid : f.plain.id = f.id := rfl
    have hpull : pull_head h f.plain.data = f.payload := by
      have hp := pull_head_append f.hdr f.payload
      rw [f.hdr_length] at hp; exact hp
    rw [map_cons, recombineLoop, hid, if_pos hall.1, hpull, ih _ _ hall.2]; simp

theorem recombineLoop_fail (cat_ok : Nat → Bool) (rx : Nbuf) (freed : List Nat)
    (fs : List (Fragment sec h)) (hnot : ¬ ∀ f ∈ fs, cat_ok f.id = true) :
    ∃ freed', recombineLoop cat_ok h rx freed (fs.map Fragment.plain) = (freed', none) ∧
      freed'.Perm (freed ++ rx.id :: fs.map Fragment.id) := by
  induction fs generalizing rx freed with
  | nil => exact absurd (by simp) hnot
  | cons f fs ih =>
    have hid : f.plain.id = f.id := rfl
    rw [map_cons, recombineLoop, hid]
    by_cases hf : cat_ok f.id = true
    · rw [if_pos hf]
      obtain ⟨freed', hloop, hperm⟩ := ih
        { rx with data := rx.data ++ pull_head h f.plain.data } (freed ++ [f.id])
        (fun hall => hnot (forall_mem_cons.mpr ⟨hf, hall⟩))
      refine ⟨freed', hloop, hperm.trans ?_⟩
      rw [map_cons, append_assoc, singleton_append]
      exact (List.Perm.swap _ _ _).append_left freed
    · rw [if_neg hf]
      refine ⟨_, rfl, ?_⟩
      have hids : (fs.map Fragment.plain).map Nbuf.id = fs.map Fragment.id := by
        rw [map_map]; rfl
      rw [hids, append_assoc, map_cons]; exact perm_append_comm.append_left freed

end Loops

end

open RxMichael (FC0_TYPE_MASK FC0_TYPE_DATA FC0_SUBTYPE_QOS FC1_DIR_MASK FC1_DIR_DSTODS
  FC1_ORDER MICLEN hdrsize addr addrOffs ol_rx_frag_tkip_demic_mic)
open RxPn (SecType Peer)

/-! The fragments come in the shape that the cipher gives them (`Fragment`), of which each function
takes off its part; the frame that is passed up is put together from the rest (`Msdu.frame`). -/

/-! ## Headers -/

/-- The header without the fragment bits. -/
def clearFrag (hdr : List UInt8) : List UInt8 :=
  (hdr.modify 1 (· &&& ~~~FC1_MORE_FRAG)).modify 22 (· &&& ~~~SEQ_FRAG_MASK)

/-- The header without the QoS control, and without the HT control behind it. -/
def stripQos (fc0 fc1 : UInt8) (hdr : List UInt8) : List UInt8 :=
  if qosHasSeq fc0 then (hdr.take (hdr.length - qoslen fc1)).modify 0 (· &&& ~~~FC0_SUBTYPE_QOS)
  else hdr

/-- The Ethernet frame of a frame with three addresses; the first six bytes of its payload are the
LLC/SNAP header up to the type. -/
def ethernet (fc1 : UInt8) (hdr payload : List UInt8) : List UInt8 :=
  (hdr.drop (addrOffs fc1).1).take 6 ++ (hdr.drop (addrOffs fc1).2).take 6 ++ payload.drop 6

@[simp] theorem length_clearFrag (hdr : List UInt8) : (clearFrag hdr).length = hdr.length := by
  simp [clearFrag]

theorem update_append (i : Nat) (f : UInt8 → UInt8) (a b : List UInt8) (hi : i < a.length) :
    update i f (a ++ b) = some (a.modify i f ++ b) := by
  rw [update, if_pos (by rw [length_append]; omega)]
  congr 1
  apply ext_getElem?
  intro j
  rw [getElem?_modify]
  by_cases hj : j < a.length
  · rw [getElem?_append_left hj, getElem?_append_left (by rwa [length_modify]), getElem?_modify]
  · rw [getElem?_append_right (by omega),
      getElem?_append_right (by rw [length_modify]; omega), length_modify]
    have hne : i ≠ j := by omega
    simp [hne]

section Bits

variable (fc0 fc1 : UInt8)

theorem and_clear_dir : fc1 &&& ~~~FC1_MORE_FRAG &&& FC1_DIR_MASK = fc1 &&& FC1_DIR_MASK := by
  rw [UInt8.and_assoc]
  congr 1

theorem and_clear_order : fc1 &&& ~~~FC1_MORE_FRAG &&& FC1_ORDER = fc1 &&& FC1_ORDER := by
  rw [UInt8.and_assoc]
  congr 1

@[simp] theorem qoslen_clear : qoslen (fc1 &&& ~~~FC1_MORE_FRAG) = qoslen fc1 := by
  rw [qoslen, qoslen, and_clear_order]

@[simp] theorem hdrsize_clear : hdrsize fc0 (fc1 &&& ~~~FC1_MORE_FRAG) = hdrsize fc0 fc1 := by
  rw [hdrsize, hdrsize, and_clear_order, and_clear_dir]

@[simp] theorem addrOffs_clear : addrOffs (fc1 &&& ~~~FC1_MORE_FRAG) = addrOffs fc1 := by
  simp only [addrOffs, and_clear_dir]

end Bits

section Headers

variable {fc0 fc1 : UInt8} {hdr : List UInt8}

theorem clearFrag_fc0 (h : hdr[0]? = some fc0) : (clearFrag hdr)[0]? = some fc0 := by
  rw [clearFrag, getElem?_modify_ne _ _ (by decide), getElem?_modify_ne _ _ (by decide), h]

theorem clearFrag_fc1 (h : hdr[1]? = some fc1) :
    (clearFrag hdr)[1]? = some (fc1 &&& ~~~FC1_MORE_FRAG) := by
  rw [clearFrag, getElem?_modify_ne _ _ (by decide), getElem?_modify_eq, h]; rfl

theorem qoslen_le (h : qosHasSeq fc0 = true) (hlen : hdr.length = hdrsize fc0 fc1) :
    24 + qoslen fc1 ≤ hdr.length := by
  have hq : fc0 &&& (FC0_TYPE_MASK ||| FC0_SUBTYPE_QOS) = FC0_TYPE_DATA ||| FC0_SUBTYPE_QOS := by
    simpa [qosHasSeq] using h
  rw [hlen, hdrsize, if_pos hq, qoslen]; omega

theorem qos_decap_eq (hlen : hdr.length = hdrsize fc0 fc1) (h0 : hdr[0]? = some fc0)
    (h1 : hdr[1]? = some fc1) (payload : List UInt8) :
    ol_rx_defrag_qos_decap (hdrsize fc0 fc1) (clearFrag hdr ++ payload) =
      some (stripQos fc0 fc1 (clearFrag hdr) ++ payload) := by
  have h24 := (RxMichael.hdrsize_cases fc0 fc1).1
  have hclen := length_clearFrag hdr
  have h0' : (clearFrag hdr ++ payload)[0]? = some fc0 := by
    rw [getElem?_append_left (by omega), clearFrag_fc0 h0]
  have h1' : (clearFrag hdr ++ payload)[1]? = some (fc1 &&& ~~~FC1_MORE_FRAG) := by
    rw [getElem?_append_left (by omega), clearFrag_fc1 h1]
  rw [ol_rx_defrag_qos_decap, h0', h1', stripQos]
  simp only [Option.bind_eq_bind, Option.bind_some, qoslen_clear]
  by_cases hqos : qosHasSeq fc0 = true
  · have hle : 24 + qoslen fc1 ≤ (clearFrag hdr).length := qoslen_le hqos (by omega)
    rw [if_pos hqos, if_pos hqos, ← hlen, ← hclen]
    -- the header is what is moved over the control, and the control is in the place of an IV
    have hmove := mem_move_pull ((clearFrag hdr).take ((clearFrag hdr).length - qoslen fc1))
      ((clearFrag hdr).drop ((clearFrag hdr).length - qoslen fc1)) payload
    have hq : ((clearFrag hdr).drop ((clearFrag hdr).length - qoslen fc1)).length =
        qoslen fc1 := by rw [length_drop]; omega
    have hp : ((clearFrag hdr).take ((clearFrag hdr).length - qoslen fc1)).length =
        (clearFrag hdr).length - qoslen fc1 := by rw [length_take]; omega
    rw [take_append_drop, hq, hp] at hmove
    obtain ⟨moved, hmem, hpull⟩ := Option.map_eq_some_iff.mp hmove
    rw [hmem, Option.bind_some, hpull, update_append _ _ _ _ (by rw [hp]; omega)]
  · rw [if_neg hqos, if_neg hqos]; rfl

theorem stripQos_length (hlen : hdr.length = hdrsize fc0 fc1)
    (hdir : fc1 &&& FC1_DIR_MASK ≠ FC1_DIR_DSTODS) : (stripQos fc0 fc1 hdr).length = 24 := by
  rw [hdrsize, if_neg hdir] at hlen
  rw [stripQos]
  by_cases hqos : qosHasSeq fc0 = true
  · have hq : fc0 &&& (FC0_TYPE_MASK ||| FC0_SUBTYPE_QOS) =
        FC0_TYPE_DATA ||| FC0_SUBTYPE_QOS := by simpa [qosHasSeq] using hqos
    rw [if_pos hq] at hlen
    rw [if_pos hqos, length_modify, length_take, qoslen]; omega
  · have hq : ¬ fc0 &&& (FC0_TYPE_MASK ||| FC0_SUBTYPE_QOS) =
        FC0_TYPE_DATA ||| FC0_SUBTYPE_QOS := by simpa [qosHasSeq] using hqos
    rw [if_neg hq] at hlen
    rw [if_neg hqos]; omega

theorem stripQos_fc1 (hlen : hdr.length = hdrsize fc0 fc1) :
    (stripQos fc0 fc1 hdr)[1]? = hdr[1]? := by
  rw [stripQos]
  by_cases hqos : qosHasSeq fc0 = true
  · have hle := qoslen_le hqos hlen
    rw [if_pos hqos, getElem?_modify_ne _ _ (by decide), getElem?_take, if_pos (by omega)]
  · rw [if_neg hqos]

theorem addrOffs_three (hdir : fc1 &&& FC1_DIR_MASK ≠ FC1_DIR_DSTODS) :
    (addrOffs fc1).1 + 6 ≤ 24 ∧ (addrOffs fc1).2 + 6 ≤ 24 := by
  have hle := RxMichael.addrOffs_le 0 fc1
  have hsize : hdrsize 0 fc1 = 24 := by rw [hdrsize, if_neg hdir, if_neg (by decide)]
  omega

theorem nwifi_eq {wh payload : List UInt8} (hlen : wh.length = 24) (h1 : wh[1]? = some fc1)
    (hdir : fc1 &&& FC1_DIR_MASK ≠ FC1_DIR_DSTODS) (hllc : 8 ≤ payload.length) :
    ol_rx_defrag_nwifi_to_8023 (wh ++ payload) = some (ethernet fc1 wh payload) := by
  obtain ⟨hda, hsa⟩ := addrOffs_three hdir
  have h1' : (wh ++ payload)[1]? = some fc1 := by rw [getElem?_append_left (by omega), h1]
  have haddr (off : Nat) (h : off + 6 ≤ 24) :
      addr (wh ++ payload) off = some ((wh.drop off).take 6) := by
    rw [addr, if_pos (by rw [length_append]; omega), drop_append_of_le_length (by omega),
      take_append_of_le_length (by rw [length_drop]; omega)]
  have hbehind (k : Nat) : (wh ++ payload).drop (24 + k) = payload.drop k := by
    rw [← hlen, drop_length_add_append]
  have heth : (pull_head (24 + 8 - 14) (wh ++ payload)).drop 14 = payload.drop 8 := by
    rw [pull_head, if_pos (by rw [length_append]; omega), drop_drop]
    exact hbehind 8
  have htype : ((wh ++ payload).drop 30).take 2 ++ payload.drop 8 = payload.drop 6 := by
    have h6 := hbehind 6
    have h8 : payload.drop 8 = (payload.drop 6).drop 2 := by rw [drop_drop]
    rw [h6, h8, take_append_drop]
  rw [ol_rx_defrag_nwifi_to_8023, h1']
  simp only [Option.bind_eq_bind, Option.bind_some]
  rw [if_neg (by rw [length_append]; omega), if_neg hdir, haddr _ hda, haddr _ hsa, heth]
  simp only [Option.bind_some, Option.pure_def, ethernet]
  rw [append_assoc _ (((wh ++ payload).drop 30).take 2), htype]

/-! ## The MIC -/

theorem demic_cases {key : List UInt8} (payload : List UInt8) (hkey : key.length = 8)
    (hlen : hdr.length = hdrsize fc0 fc1) (h0 : hdr[0]? = some fc0) (h1 : hdr[1]? = some fc1)
    (hmic : MICLEN ≤ payload.length) :
    ol_rx_frag_tkip_demic key (hdrsize fc0 fc1) (hdr ++ payload) = some none ∨
      ol_rx_frag_tkip_demic key (hdrsize fc0 fc1) (hdr ++ payload) =
        some (some (hdr ++ payload.take (payload.length - MICLEN))) := by
  have h24 := (RxMichael.hdrsize_cases fc0 fc1).1
  have h8 : MICLEN = 8 := rfl
  have hdata : (hdr ++ payload).length = hdr.length + payload.length := length_append
  obtain ⟨l, r, hl, hr⟩ := RxMichael.exists_key hkey
  have h0' : (hdr ++ payload)[0]? = some fc0 := by rw [getElem?_append_left (by omega), h0]
  have h1' : (hdr ++ payload)[1]? = some fc1 := by rw [getElem?_append_left (by omega), h1]
  obtain ⟨mhdr, h16, hmhdr⟩ := RxMichael.michdr_some h0' h1' (by omega) (fun _ => by omega)
  have hmhdr' : RxMichael.ol_rx_defrag_michdr (hdr ++ payload) = some mhdr := by
    simpa using hmhdr []
  have hfit : RxMichael.WordsFit (RxMichael.demicLen (hdr ++ payload).length (hdrsize fc0 fc1))
      ((hdr ++ payload).drop (hdrsize fc0 fc1)).length [] := by
    rw [length_drop, hdata, ← hlen]
    simp only [RxMichael.WordsFit, RxMichael.demicLen, h8]
    omega
  have hmic0 : ∃ mic, ol_rx_frag_tkip_demic_mic key (hdr ++ payload) [] (hdrsize fc0 fc1) =
      some (some mic) := by
    rw [ol_rx_frag_tkip_demic_mic, RxMichael.mic_eq_micLoop [] _ _ hl hr hmhdr' h16]
    exact ⟨_, RxMichael.micLoop_fit [] _ 0 _ _ _ (Nat.add_zero _) (Nat.add_zero _)
      (Nat.dvd_zero 4) hfit⟩
  obtain ⟨mic, hm⟩ := hmic0
  have htrim : trim_tail MICLEN (hdr ++ payload) =
      hdr ++ payload.take (payload.length - MICLEN) := by
    rw [trim_tail, if_pos (by omega), hdata]
    have hsub : hdr.length + payload.length - MICLEN =
        hdr.length + (payload.length - MICLEN) := by omega
    rw [hsub, take_length_add_append]
  rw [ol_rx_frag_tkip_demic, hm]
  simp only [Option.bind_eq_bind, Option.bind_some]
  split
  · exact Or.inl rfl
  · right; exact congrArg (fun data => some (some data)) htrim

end Headers

/-! ## The MSDU -/

def payloadOf {sec : SecType} {h : Nat} (frags : List (Fragment sec h)) : List UInt8 :=
  (frags.map Fragment.payload).flatten

def dataOf {sec : SecType} {h : Nat} (frags : List (Fragment sec h)) : List UInt8 :=
  if sec = .tkip then (payloadOf frags).take ((payloadOf frags).length - MICLEN)
  else payloadOf frags

/-- A complete MSDU that comes when the device is not in safe mode: fragments whose headers have
the size of the first one's, each a MPDU of one MSDU, with a MIC in the case of TKIP. Where
Ethernet frames are asked for it has three addresses and a LLC/SNAP header. -/
structure Msdu (env : Env) where
  sec : SecType
  fc0 : UInt8
  fc1 : UInt8
  first : Fragment sec (hdrsize fc0 fc1)
  rest : List (Fragment sec (hdrsize fc0 fc1))
  fc0_eq : first.hdr[0]? = some fc0
  fc1_eq : first.hdr[1]? = some fc1
  sec_eq : env.pn.sec_type (env.index first.id) = sec
  single : ∀ f ∈ first :: rest,
    (env.desc f.id).first_msdu = true ∧ (env.desc f.id).last_msdu = true
  not_safe : env.safemode = false
  mic : sec = .tkip → (env.michael_key (env.index first.id)).length = 8 ∧
    MICLEN ≤ (payloadOf (first :: rest)).length
  llc : env.frame_type = .frm_802_3 → fc1 &&& FC1_DIR_MASK ≠ FC1_DIR_DSTODS ∧
    8 ≤ (dataOf (first :: rest)).length

namespace Msdu

variable {env : Env} (m : Msdu env)

def frags : List (Fragment m.sec (hdrsize m.fc0 m.fc1)) := m.first :: m.rest

def ids : List Nat := m.frags.map Fragment.id

def hdr : List UInt8 := stripQos m.fc0 m.fc1 (clearFrag m.first.hdr)

def frame : List UInt8 :=
  if env.frame_type = .frm_802_3 then ethernet m.fc1 m.hdr (dataOf m.frags)
  else m.hdr ++ dataOf m.frags

/-- The PN check keeps all fragments, they have the extended IV of their cipher, and there is
memory to join them. -/
def Passes (peer : Peer) : Prop :=
  PnAccepts env peer m.ids ∧ (∀ f ∈ m.frags, f.ExtIv) ∧ ∀ f ∈ m.rest, env.cat_ok f.id = true

theorem deliver_eq {data : List UInt8} (h : data = dataOf m.frags) :
    deliver env (hdrsize m.fc0 m.fc1) (clearFrag m.first.hdr ++ data) = some m.frame := by
  have hclen := length_clearFrag m.first.hdr
  have hlen := m.first.hdr_length
  rw [deliver, qos_decap_eq hlen m.fc0_eq m.fc1_eq]
  simp only [Option.bind_eq_bind, Option.bind_some, frame]
  by_cases hf : env.frame_type = .frm_802_3
  · obtain ⟨hdir, hllc⟩ := m.llc hf
    have hlen24 : (stripQos m.fc0 m.fc1 (clearFrag m.first.hdr)).length = 24 :=
      stripQos_length (hclen.trans hlen) hdir
    have hfc1 : (stripQos m.fc0 m.fc1 (clearFrag m.first.hdr))[1]? =
        some (m.fc1 &&& ~~~FC1_MORE_FRAG) :=
      (stripQos_fc1 (hclen.trans hlen)).trans (clearFrag_fc1 m.fc1_eq)
    have hdir' : m.fc1 &&& ~~~FC1_MORE_FRAG &&& FC1_DIR_MASK ≠ FC1_DIR_DSTODS := by
      rw [and_clear_dir]; exact hdir
    rw [if_pos hf, if_pos hf, nwifi_eq hlen24 hfc1 hdir' (by rw [h]; exact hllc), ethernet,
      addrOffs_clear, h]
    rfl
  · rw [if_neg hf, if_neg hf, h]; rfl

theorem recombine_eq (peer : Peer) :
    ∃ o, recombine env peer (hdrsize m.fc0 m.fc1) (env.index m.first.id) m.first.plain
        (m.rest.map Fragment.plain) = some o ∧
      (o.delivered = [] ∧ o.freed.Perm m.ids ∨
        o.delivered = [⟨m.first.id, m.frame⟩] ∧ (m.first.id :: o.freed).Perm m.ids) ∧
      (o.delivered ≠ [] → ∀ f ∈ m.rest, env.cat_ok f.id = true) ∧
      (m.sec ≠ .tkip → (∀ f ∈ m.rest, env.cat_ok f.id = true) → o.delivered ≠ []) := by
  have h24 := (RxMichael.hdrsize_cases m.fc0 m.fc1).1
  have hlen := m.first.hdr_length
  have hclen := length_clearFrag m.first.hdr
  by_cases hall : ∀ f ∈ m.rest, env.cat_ok f.id = true
  · have hloop := recombineLoop_all env.cat_ok m.first.plain [] m.rest hall
    have hdata : m.first.plain.data ++ (m.rest.map Fragment.payload).flatten =
        m.first.hdr ++ payloadOf m.frags := append_assoc _ _ _
    have hrec : ol_rx_defrag_decap_recombine env.cat_ok (hdrsize m.fc0 m.fc1) m.first.plain
        (m.rest.map Fragment.plain) = some (m.rest.map Fragment.id,
          some ⟨m.first.id, clearFrag m.first.hdr ++ payloadOf m.frags⟩) := by
      rw [ol_rx_defrag_decap_recombine, hloop, hdata]
      simp only [Option.bind_eq_bind]
      rw [update_append _ _ _ _ (by omega), Option.bind_some,
        update_append _ _ _ _ (by rw [length_modify]; omega)]
      rfl
    rw [recombine, hrec]
    simp only [Option.bind_eq_bind, Option.bind_some, m.sec_eq]
    by_cases hsec : m.sec = .tkip
    · obtain ⟨hkey, hmic⟩ := m.mic hsec
      rw [if_pos hsec]
      have hc1 := clearFrag_fc1 m.fc1_eq
      have hdemic := demic_cases (payloadOf m.frags) hkey
        ((hclen.trans hlen).trans (hdrsize_clear m.fc0 m.fc1).symm) (clearFrag_fc0 m.fc0_eq) hc1
        hmic
      rw [hdrsize_clear] at hdemic
      obtain hbad | hgood := hdemic
      · rw [hbad, Option.bind_some]
        refine ⟨_, rfl, Or.inl ⟨rfl, ?_⟩, fun hne => absurd rfl hne, fun hne => absurd hsec hne⟩
        exact perm_append_comm
      · rw [hgood, Option.bind_some]
        simp only [m.deliver_eq (show _ = dataOf m.frags by rw [dataOf, if_pos hsec]),
          Option.bind_some]
        exact ⟨_, rfl, Or.inr ⟨rfl, Perm.refl _⟩, fun _ => hall, fun hne => absurd hsec hne⟩
    · rw [if_neg hsec]
      simp only [m.deliver_eq (show _ = dataOf m.frags by rw [dataOf, if_neg hsec]),
        Option.bind_some]
      exact ⟨_, rfl, Or.inr ⟨rfl, Perm.refl _⟩, fun _ => hall, fun _ _ => by simp⟩
  · obtain ⟨freed, hloop, hperm⟩ := recombineLoop_fail env.cat_ok m.first.plain [] m.rest hall
    rw [recombine, ol_rx_defrag_decap_recombine, hloop]
    exact ⟨_, rfl, Or.inl ⟨rfl, hperm⟩, fun hne => absurd rfl hne, fun _ h => absurd h hall⟩

end Msdu

/-- The frame is handed up whole or all its buffers are freed, and up only if it passes. -/
theorem defrag_msdu (env : Env) (peer : Peer) (m : Msdu env) :
    ∃ o, ol_rx_defrag env peer (m.frags.map Fragment.nbuf) = some o ∧
      (o.delivered = [] ∧ o.freed.Perm m.ids ∨
        o.delivered = [⟨m.first.id, m.frame⟩] ∧ (m.first.id :: o.freed).Perm m.ids) ∧
      (o.delivered ≠ [] → m.Passes peer) ∧
      (m.sec ≠ .tkip → m.Passes peer → o.delivered ≠ []) := by
  have h24 := (RxMichael.hdrsize_cases m.fc0 m.fc1).1
  have hlen := m.first.hdr_length
  have hnot : ¬ env.safemode = true := by rw [m.not_safe]; exact Bool.false_ne_true
  rw [ol_rx_defrag, if_neg hnot]
  by_cases hpn : PnAccepts env peer m.ids
  · obtain ⟨peer', hloop⟩ := (pnLoop_nbuf env peer [] m.frags m.single).1 hpn
    have hfc0 : m.first.checked.data[0]? = some m.fc0 := by
      simp only [Fragment.checked, append_assoc]
      rw [getElem?_append_left (by omega), m.fc0_eq]
    have hfc1 : m.first.checked.data[1]? = some m.fc1 := by
      simp only [Fragment.checked, append_assoc]
      rw [getElem?_append_left (by omega), m.fc1_eq]
    have hhead : ([] ++ m.frags.map Fragment.checked).head? = some m.first.checked := rfl
    have hid : m.first.checked.id = m.first.id := rfl
    simp only [hloop, hhead, hfc0, hfc1, hid, m.sec_eq, Option.bind_eq_bind, Option.bind_some]
    by_cases hext : ∀ f ∈ m.frags, f.ExtIv
    · obtain ⟨o, heq, hout, hdel, hpass⟩ := m.recombine_eq peer'
      have hdecap := (decapLoop_checked m.frags).1 hext
      rw [nil_append, hdecap]
      exact ⟨o, heq, hout, fun hne => ⟨hpn, hext, hdel hne⟩, fun hsec h => hpass hsec h.2.2⟩
    · have hdecap := (decapLoop_checked m.frags).2 hext
      rw [nil_append, hdecap]
      refine ⟨_, rfl, Or.inl ⟨rfl, ?_⟩, fun hne => absurd rfl hne, fun _ h => absurd h.2.1 hext⟩
      simp only [map_map]
      exact Perm.refl _
  · obtain ⟨peer', freed, hloop, hperm⟩ := (pnLoop_nbuf env peer [] m.frags m.single).2 hpn
    simp only [hloop, Option.bind_eq_bind, Option.bind_some]
    exact ⟨_, rfl, Or.inl ⟨rfl, hperm⟩, fun hne => absurd rfl hne, fun _ h => absurd h.1 hpn⟩

/-- A device as it is set up, with a CCMP key and the PN check on the host; the fragment `k` has
the packet number `k + 1`. -/
def ccmpEnv : Env where
  pn := ⟨false, .sta, false, fun _ => .aes_ccmp⟩
  tid := 0
  desc k := ⟨true, true, false, true, BitVec.ofNat 32 (k + 1), 0, 0, 0, 0⟩
  stack _ := ⟨0, 0⟩
  michael_key _ := replicate 8 0
  safemode := false
  frame_type := .frm_802_3
  cat_ok _ := true

def twoCcmpFragments : Msdu ccmpEnv where
  sec := .aes_ccmp
  fc0 := 0x88
  fc1 := 0x46
  first := ⟨0, [0x88, 0x46] ++ replicate 24 1, [1, 0, 0, 0x20, 0, 0, 0, 0],
    [0xaa, 0xaa, 3, 0, 0, 0, 8, 0, 7], replicate 8 3, replicate 4 0, rfl, rfl, rfl, rfl⟩
  rest := [⟨1, [0x88, 0x42] ++ replicate 24 1, [2, 0, 0, 0x20, 0, 0, 0, 0], [9], replicate 8 4,
    replicate 4 0, rfl, rfl, rfl, rfl⟩]
  fc0_eq := rfl
  fc1_eq := rfl
  sec_eq := rfl
  single _ _ := ⟨rfl, rfl⟩
  not_safe := rfl
  mic h := by cases h
  llc _ := by decide

/-- Both fragments lose their CCMP header and MIC, and one frame is passed up. -/
theorem defrag_msdu_ccmp :
    ∃ o, ol_rx_defrag ccmpEnv ⟨fun _ => ⟨0, 0⟩, fun _ => false⟩
        (twoCcmpFragments.frags.map Fragment.nbuf) = some o ∧
      o.delivered = [⟨0, twoCcmpFragments.frame⟩] ∧ (0 :: o.freed).Perm [0, 1] ∧
      twoCcmpFragments.frame = replicate 12 1 ++ [8, 0, 7, 9] := by
  obtain ⟨o, ho, hout, -, hdel⟩ := defrag_msdu ccmpEnv ⟨fun _ => ⟨0, 0⟩, fun _ => false⟩
    twoCcmpFragments
  have hpasses : twoCcmpFragments.Passes ⟨fun _ => ⟨0, 0⟩, fun _ => false⟩ := by
    refine ⟨⟨_, _, rfl, by decide, _, _, rfl, by decide, trivial⟩, fun f hf _ => ?_, fun _ _ => rfl⟩
    rcases mem_cons.mp hf with rfl | hf
    · exact ⟨0x20, rfl, by decide⟩
    · obtain rfl := mem_singleton.mp hf; exact ⟨0x20, rfl, by decide⟩
  have hne := hdel (by decide) hpasses
  obtain ⟨hone, hperm⟩ := hout.resolve_left fun h => hne h.1
  exact ⟨o, ho, hone, hperm, by decide⟩

/-! ## Ethernet frames -/

/-- A device as it is set up, with an open network and no PN check on the host. -/
def openEnv : Env where
  pn := ⟨false, .sta, true, fun _ => .none⟩
  tid := 0
  desc _ := ⟨true, true, false, false, 0, 0, 0, 0, 0⟩
  stack _ := ⟨0, 0⟩
  michael_key _ := replicate 8 0
  safemode := false
  frame_type := .frm_802_3
  cat_ok _ := true

def twoFragments : Msdu openEnv where
  sec := .none
  fc0 := 0x88
  fc1 := 0x06
  first := ⟨0, [0x88, 0x06] ++ replicate 24 1, [], [0xaa, 0xaa, 3, 0, 0, 0, 8, 0, 7], [],
    replicate 4 0, rfl, rfl, rfl, rfl⟩
  rest := [⟨1, [0x88, 0x02] ++ replicate 24 1, [], [9], [], replicate 4 0, rfl, rfl, rfl,
    rfl⟩]
  fc0_eq := rfl
  fc1_eq := rfl
  sec_eq := rfl
  single _ _ := ⟨rfl, rfl⟩
  not_safe := rfl
  mic h := by cases h
  llc _ := by decide

/-- They are passed up with an Ethernet header, and not with the header of the first one. -/
theorem ethernet_passed_up :
    twoFragments.Passes ⟨fun _ => ⟨0, 0⟩, fun _ => false⟩ ∧
      ∃ o, ol_rx_defrag openEnv ⟨fun _ => ⟨0, 0⟩, fun _ => false⟩
          (twoFragments.frags.map Fragment.nbuf) = some o ∧
        o.delivered = [⟨0, replicate 12 1 ++ [8, 0, 7, 9]⟩] ∧
        o.delivered ≠ [⟨0, twoFragments.hdr ++ dataOf twoFragments.frags⟩] := by
  refine ⟨⟨⟨_, _, rfl, by simp, _, _, rfl, by simp, trivial⟩, ?_, fun _ _ => rfl⟩, _, rfl, ?_, ?_⟩
  · intro f _ h; cases h
  · decide
  · decide

end Qcacld.RxRecombine
