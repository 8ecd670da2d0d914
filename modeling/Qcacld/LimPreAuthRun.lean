/-
The pre-authentication contexts over runs.

`Booked c l` adds to `Holds c l` that no address has two nodes. It is kept by every event but two: a
rejected association, and a frame for an own authentication, make a node without looking for one
that is there (`Ok` leaves these out).
-/
import Qcacld.LimAuthFrame

set_option autoImplicit false

namespace Qcacld.LimAuthFrame

open Function List
open Lib DphTable LimPreAuth LimWep

section

variable {cfg : Cfg} {unpack : Parser} {s : PeSession} {rx : RxFrame} {env : AuthEnv}
  {auth : AuthFrameBody} {c c' : LimGlobal} {l l' : List Nat} {i : Nat} {n : PreAuthNode}

/-! ## One node for an address -/

structure Booked (c : LimGlobal) (l : List Nat) : Prop extends Holds c l where
  distinct : (l.map c.mac).Nodup

theorem Booked.sublist (h : Booked c l) (hsame : Same c c') (hholds : Holds c' l')
    (hsub : l'.Sublist l) : Booked c' l' := by
  refine ⟨hholds, ?_⟩
  have hmac : c'.mac = c.mac := funext hsame.mac
  rw [hmac]; exact h.distinct.sublist (hsub.map c.mac)

theorem Booked.delete (h : Booked c l) (mac : MacAddr) :
    Booked (lim_delete_pre_auth_node c mac) (l.eraseP (c.isOf mac)) := by
  obtain ⟨hholds, hsame⟩ := h.toHolds.delete mac
  exact h.sublist hsame hholds eraseP_sublist

theorem Booked.deleteOpen (h : Booked c l) (ticks : UInt64) :
    Booked (lim_delete_open_auth_pre_auth_node c ticks).1 (l.filter (c.isKept ticks)) := by
  obtain ⟨hholds, hsame⟩ := h.toHolds.deleteOpen ticks
  exact h.sublist hsame hholds filter_sublist

theorem Booked.eraseP_eq (h : Booked c l) (mac : MacAddr) :
    l.eraseP (c.isOf mac) = l.filter fun i => !c.isOf mac i := by
  have hd := h.distinct
  clear h
  induction l with
  | nil => rfl
  | cons a l ih =>
    rw [map_cons, nodup_cons] at hd
    by_cases hmac : c.isOf mac a = true
    · rw [eraseP_cons_of_pos hmac, filter_cons_of_neg (by simp [hmac])]
      symm
      apply filter_eq_self.mpr
      intro b hb
      have hne : c.mac b ≠ mac := fun hbmac =>
        hd.1 (mem_map.mpr ⟨b, hb, hbmac.trans (isOf_iff.mp hmac).symm⟩)
      simpa using hne
    · rw [eraseP_cons_of_neg hmac, filter_cons_of_pos (by simpa using hmac), ih hd.2]

theorem Booked.search_delete (h : Booked c l) (mac : MacAddr) :
    lim_search_pre_auth_list (lim_delete_pre_auth_node c mac) mac = none := by
  obtain ⟨hholds, hsame⟩ := h.toHolds.delete mac
  apply hholds.search_none.mpr
  intro i hi
  rw [h.eraseP_eq] at hi
  rw [hsame.mac]; simpa using (mem_filter.mp hi).2

theorem Booked.sent (h : Booked c l) (m : SentAuth) : Booked (c.sent m) l :=
  ⟨h.toHolds.sent m, h.distinct⟩

theorem Booked.setNode (h : Booked c l) (hnext : n.next = (c.pTable i).next)
    (hfree : n.fFree = (c.pTable i).fFree) (hmac : n.peerMacAddr = c.mac i) :
    Booked (c.setNode i n) l := by
  refine ⟨h.toHolds.setNode hnext hfree, ?_⟩
  have hsame : (c.setNode i n).mac = c.mac := by
    funext a
    by_cases ha : a = i
    · subst ha; rw [LimGlobal.mac, setNode_self, hmac]
    · rw [LimGlobal.mac, setNode_ne ha]
  rw [hsame]; exact h.distinct

theorem Booked.add (h : Booked c l) (hlt : i < c.fuel) (hfree : (c.pTable i).fFree = true)
    (hn : n.fFree = false) (hnone : lim_search_pre_auth_list c n.peerMacAddr = none) :
    Booked (lim_add_pre_auth_node (c.setNode i n) i) (i :: l) := by
  have hil := h.toHolds.free_notMem hfree
  refine ⟨h.toHolds.add hlt hfree hn, ?_⟩
  have hself : (lim_add_pre_auth_node (c.setNode i n) i).mac i = n.peerMacAddr := by
    show (((c.setNode i n).setNode i _).pTable i).peerMacAddr = _
    rw [setNode_self, setNode_self]
  have hmap : l.map (lim_add_pre_auth_node (c.setNode i n) i).mac = l.map c.mac := by
    apply map_congr_left
    intro b hb
    have hbi : b ≠ i := fun he => hil (he ▸ hb)
    show (((c.setNode i n).setNode i _).pTable b).peerMacAddr = _
    rw [setNode_ne hbi, setNode_ne hbi]
  rw [map_cons, hself, hmap, nodup_cons]
  refine ⟨fun hmem => ?_, h.distinct⟩
  obtain ⟨b, hb, hbmac⟩ := mem_map.mp hmem
  exact h.toHolds.search_none.mp hnone b hb hbmac

theorem Booked.acquired (h : Booked c l)
    (hacq : lim_acquire_free_pre_auth_node c = some (i, c')) (hn : n.fFree = (c'.pTable i).fFree)
    (hnone : lim_search_pre_auth_list c n.peerMacAddr = none) :
    Booked (lim_add_pre_auth_node (c'.setNode i n) i) (i :: l) := by
  obtain ⟨hlt, hfree, rfl⟩ := acquire_spec hacq
  rw [setNode_self] at hn
  rw [setNode_setNode]; exact h.add hlt hfree hn hnone

/-! ## Frame 1 -/

structure Keeps (cfg : Cfg) (s : PeSession) (rx : RxFrame) (env : AuthEnv)
    (P : LimGlobal → Prop) : Prop where
  booked : ∀ {c}, P c → ∃ l, Booked c l
  sent : ∀ {c m}, P c → m.challengeText = none → P (c.sent m)
  delete : ∀ {c}, P c → P (lim_delete_pre_auth_node c rx.sa)
  deleteOpen : ∀ {c} ticks, P c → P (lim_delete_open_auth_pre_auth_node c ticks).1
  openAlgo : ∀ {c auth}, P c → lim_search_pre_auth_list c rx.sa = none →
    auth.authAlgoNumber = eSIR_OPEN_SYSTEM → P (lim_process_auth_open_system_algo rx auth env c)
  sharedAlgo : ∀ {c auth}, P c → lim_search_pre_auth_list c rx.sa = none →
    auth.authTransactionSeqNumber = SIR_MAC_AUTH_FRAME_1 →
    auth.authAlgoNumber = eSIR_SHARED_KEY →
    P (lim_process_auth_shared_system_algo cfg s rx auth env c)

variable {P : LimGlobal → Prop}

theorem Keeps.start (hP : Keeps cfg s rx env P) (hc : P c)
    (hnone : lim_search_pre_auth_list c rx.sa = none)
    (hno : auth.authTransactionSeqNumber = SIR_MAC_AUTH_FRAME_1) :
    P (startAuth cfg s rx auth env c) := by
  have hallow : ∀ {c : LimGlobal}, P c → lim_search_pre_auth_list c rx.sa = none →
      P (if lim_is_auth_algo_supported cfg auth.authAlgoNumber s then
        if auth.authAlgoNumber = eSIR_OPEN_SYSTEM then
          lim_process_auth_open_system_algo rx auth env c
        else if auth.authAlgoNumber = eSIR_SHARED_KEY then
          lim_process_auth_shared_system_algo cfg s rx auth env c
        else c.sent (answer1 rx auth eSIR_MAC_AUTH_ALGO_NOT_SUPPORTED_STATUS)
      else c.sent (answer1 rx auth eSIR_MAC_AUTH_ALGO_NOT_SUPPORTED_STATUS)) := by
    intro c hc hnone
    split
    · split
      · next halgo => exact hP.openAlgo hc hnone halgo
      · split
        · next halgo => exact hP.sharedAlgo hc hnone hno halgo
        · exact hP.sent hc rfl
    · exact hP.sent hc rfl
  obtain ⟨l, hl⟩ := hP.booked hc
  rw [startAuth]
  dsimp only
  by_cases hmax : c.gLimNumPreAuthContexts = cfg.MAX_NUM_PRE_AUTH
  · rw [if_pos hmax]
    have hopen := hP.deleteOpen env.ticks hc
    split
    · exact hP.sent hopen rfl
    · exact hallow hopen (hl.toHolds.search_deleteOpen env.ticks hnone)
  · rw [if_neg hmax]; exact hallow hc hnone

theorem Keeps.type1 (hP : Keeps cfg s rx env P) (hc : P c)
    (hno : auth.authTransactionSeqNumber = SIR_MAC_AUTH_FRAME_1) :
    P (lim_process_auth_frame_type1 cfg s rx auth env c) := by
  obtain ⟨l, hl⟩ := hP.booked hc
  rw [lim_process_auth_frame_type1]
  split
  · exact hc
  · cases hsearch : lim_search_pre_auth_list c rx.sa with
    | none => exact hP.start hc hsearch hno
    | some i =>
      dsimp only
      split
      · exact hc
      · split
        · exact hP.delete hc
        · exact hP.start (hP.delete hc) (hl.search_delete rx.sa) hno

/-! ## Frame 3 -/

/-- **What a frame 3 can do**: answer, delete the node of its sender, or authenticate it. -/
inductive Type3Does (s : PeSession) (rx : RxFrame) (auth : AuthFrameBody) (c : LimGlobal) :
    LimGlobal → Prop
  | keep : Type3Does s rx auth c c
  | answer (m : SentAuth) (hm : m.challengeText = none) : Type3Does s rx auth c (c.sent m)
  | timedOut (m : SentAuth) (hm : m.challengeText = none) :
      Type3Does s rx auth c (lim_delete_pre_auth_node (c.sent m) rx.sa)
  | authenticate (i : Nat) (hsearch : lim_search_pre_auth_list c rx.sa = some i)
      (hwep : rx.wep = true) (halgo : auth.authAlgoNumber = eSIR_SHARED_KEY)
      (hstate : (c.pTable i).mlmState ≠ .AUTH_RSP_TIMEOUT)
      (htext : auth.challengeText = (c.pTable i).challengeText) :
      Type3Does s rx auth c
        ((c.setNode i { c.pTable i with mlmState := .AUTHENTICATED }).sent
          (frame4 rx eSIR_SHARED_KEY eSIR_MAC_SUCCESS_STATUS))

theorem type3_does : Type3Does s rx auth c (lim_process_auth_frame_type3 s rx auth c) := by
  rw [lim_process_auth_frame_type3]
  by_cases halgo : auth.authAlgoNumber ≠ eSIR_SHARED_KEY
  · rw [if_pos halgo]; exact .answer _ rfl
  rw [if_neg halgo]
  split
  · exact .keep
  by_cases hwep : (!rx.wep) = true
  · rw [if_pos hwep]; exact .answer _ rfl
  rw [if_neg hwep]
  cases hsearch : lim_search_pre_auth_list c rx.sa with
  | none => exact .answer _ rfl
  | some i =>
    dsimp only
    by_cases htimeout : (c.pTable i).mlmState = .AUTH_RSP_TIMEOUT
    · rw [if_pos htimeout]; exact .timedOut _ rfl
    rw [if_neg htimeout]
    split
    · exact .keep
    split
    · next htext =>
        exact .authenticate i hsearch (by simpa using hwep) (not_not.mp halgo) htimeout
          (funext htext)
    · exact .answer _ rfl

/-! ## All frames -/

/-- How the body of a frame that was parsed came out of the frame: as it is, or decrypted, for
a peer whose node waits for frame 3. -/
def Decoded (cfg : Cfg) (s : PeSession) (rx : RxFrame) (env : AuthEnv) (c : LimGlobal)
    (frame : List UInt8) : Prop :=
  (rx.wep = false ∧ frame = rx.body) ∨
    (rx.wep = true ∧ LIM_ENCR_AUTH_BODY_LEN ≤ rx.body.length ∧ ∃ i key plain,
      lim_search_pre_auth_list c rx.sa = some i ∧
      ((c.pTable i).mlmState = .WT_AUTH_FRAME3 ∨ (c.pTable i).mlmState = .AUTH_RSP_TIMEOUT) ∧
      defaultKey cfg s rx.body = some key ∧
      lim_decrypt_auth_frame env.stale key rx.body
        (UInt16.ofNat (rx.body.length - SIR_MAC_WEP_IV_LENGTH)) = some plain ∧
      frame = bytes plain 0 (rx.body.length - 8))

/-- **What a frame can do**: nothing, answer, delete the node of its sender for a wrong ICV, or
what its transaction number says. -/
inductive FrameDoes (cfg : Cfg) (unpack : Parser) (s : PeSession) (rx : RxFrame) (env : AuthEnv)
    (c : LimGlobal) : LimGlobal → Prop
  | keep : FrameDoes cfg unpack s rx env c c
  | answer (m : SentAuth) (hm : m.challengeText = none) :
      FrameDoes cfg unpack s rx env c (c.sent m)
  | icvFail (m : SentAuth) (hm : m.challengeText = none) :
      FrameDoes cfg unpack s rx env c ((lim_delete_pre_auth_node c rx.sa).sent m)
  | parsed (frame : List UInt8) (auth : AuthFrameBody) (hframe : Decoded cfg s rx env c frame)
      (hauth : sir_convert_auth_frame2_struct unpack frame = some (some auth))
      (hvalid : is_auth_valid auth s = true) :
      FrameDoes cfg unpack s rx env c (dispatch cfg s rx auth env c)

theorem accept_does {frame : List UInt8} (hframe : Decoded cfg s rx env c frame)
    (h : accept cfg unpack s rx env frame c = some c') : FrameDoes cfg unpack s rx env c c' := by
  rw [accept] at h
  cases hauth : sir_convert_auth_frame2_struct unpack frame with
  | none => rw [hauth] at h; cases h
  | some parsed =>
    rw [hauth] at h
    cases parsed with
    | none => cases h; exact .keep
    | some auth =>
      cases h
      split
      · next hvalid => exact .parsed frame auth hframe hauth hvalid
      · exact .keep

theorem frame_does (h : lim_process_auth_frame cfg unpack s rx env c = some c') :
    FrameDoes cfg unpack s rx env c c' := by
  have keep (h : some c = some c') : FrameDoes cfg unpack s rx env c c' := by
    cases h
    exact .keep
  have answer {m : SentAuth} (hm : m.challengeText = none) (h : some (c.sent m) = some c') :
      FrameDoes cfg unpack s rx env c c' := by cases h; exact .answer m hm
  rw [lim_process_auth_frame] at h
  split at h
  · exact keep h
  split at h
  · exact keep h
  split at h
  swap
  · next hwep => exact accept_does (.inl ⟨by simpa using hwep, rfl⟩) h
  next hwep =>
  split at h
  · exact keep h
  split at h
  · exact answer rfl h
  split at h
  · exact keep h
  next hlen =>
  split at h
  · exact answer rfl h
  cases hsearch : lim_search_pre_auth_list c rx.sa with
  | none => rw [hsearch] at h; exact answer rfl h
  | some i =>
    rw [hsearch] at h
    dsimp only at h
    split at h
    · exact answer rfl h
    next hstate =>
    cases hkey : defaultKey cfg s rx.body with
    | none => rw [hkey] at h; exact answer rfl h
    | some key =>
      rw [hkey] at h
      dsimp only at h
      split at h
      · cases h; exact .icvFail _ rfl
      · next plain hplain =>
          refine accept_does (.inr ⟨hwep, Nat.not_lt.mp hlen, i, key, plain, hsearch, ?_, hkey,
            hplain, rfl⟩) h
          simp only [ne_eq, decide_not, Bool.and_eq_true, Bool.not_eq_eq_eq_not, Bool.not_true,
            decide_eq_false_iff_not, not_and, not_not] at hstate
          by_cases hwt : (c.pTable i).mlmState = .WT_AUTH_FRAME3
          · exact .inl hwt
          · exact .inr (hstate hwt)

/-! ## Frames that have a result -/

/-- If the frame can be parsed, its challenge text has room where it is copied to. -/
def TextFits (unpack : Parser) (frame : List UInt8) : Prop :=
  (unpack frame).all fun auth =>
    decide ((auth.challengeText.getD []).length ≤ SIR_MAC_AUTH_CHALLENGE_LENGTH)
deriving Decidable

/-- The text fits, in the body as it is, or in what the body decrypts to. -/
def BodyFits (cfg : Cfg) (unpack : Parser) (s : PeSession) (rx : RxFrame) (env : AuthEnv) : Prop :=
  if rx.wep then
    LIM_ENCR_AUTH_BODY_LEN ≤ rx.body.length → ∀ key ∈ defaultKey cfg s rx.body,
      ∀ plain ∈ lim_decrypt_auth_frame env.stale key rx.body
        (UInt16.ofNat (rx.body.length - SIR_MAC_WEP_IV_LENGTH)),
      TextFits unpack (bytes plain 0 (rx.body.length - 8))
  else TextFits unpack rx.body
deriving Decidable

theorem accept_some {frame : List UInt8} (h : TextFits unpack frame) :
    ∃ c', accept cfg unpack s rx env frame c = some c' := by
  rw [accept, sir_convert_auth_frame2_struct]
  cases hunpack : unpack frame with
  | none => exact ⟨_, rfl⟩
  | some auth =>
    have hlen : (auth.challengeText.getD []).length ≤ SIR_MAC_AUTH_CHALLENGE_LENGTH := by
      rw [TextFits, hunpack, Option.all_some] at h; exact of_decide_eq_true h
    dsimp only
    rw [if_neg (Nat.not_lt.mpr hlen)]; exact ⟨_, rfl⟩

/-- **No overrun**: a frame whose challenge text fits has a result. -/
theorem frame_some (h : BodyFits cfg unpack s rx env) (c : LimGlobal) :
    ∃ c', lim_process_auth_frame cfg unpack s rx env c = some c' := by
  rw [BodyFits] at h
  rw [lim_process_auth_frame]
  split
  · exact ⟨_, rfl⟩
  split
  · exact ⟨_, rfl⟩
  by_cases hwep : rx.wep = true
  swap
  · rw [if_neg hwep] at h
    rw [if_neg hwep]; exact accept_some h
  rw [if_pos hwep] at h
  rw [if_pos hwep]
  split
  · exact ⟨_, rfl⟩
  split
  · exact ⟨_, rfl⟩
  split
  · exact ⟨_, rfl⟩
  next hlen =>
  split
  · exact ⟨_, rfl⟩
  cases lim_search_pre_auth_list c rx.sa with
  | none => exact ⟨_, rfl⟩
  | some i =>
    dsimp only
    split
    · exact ⟨_, rfl⟩
    cases hkey : defaultKey cfg s rx.body with
    | none => exact ⟨_, rfl⟩
    | some key =>
      dsimp only
      split
      · exact ⟨_, rfl⟩
      · next plain hplain => exact accept_some (h (Nat.not_lt.mp hlen) key hkey plain hplain)

/-! ## The events keep the books -/

def Kept (c : LimGlobal) : Prop := ∃ l, Booked c l

theorem kept_open (hc : Kept c) (hnone : lim_search_pre_auth_list c rx.sa = none) :
    Kept (lim_process_auth_open_system_algo rx auth env c) := by
  obtain ⟨l, hl⟩ := hc
  rw [lim_process_auth_open_system_algo]
  cases hacq : lim_acquire_free_pre_auth_node c with
  | none => exact ⟨l, hl⟩
  | some p =>
    obtain ⟨i, c₁⟩ := p
    refine ⟨i :: l, Booked.sent ?_ _⟩
    apply hl.acquired hacq
    · rfl
    · exact hnone

theorem kept_shared (hc : Kept c) (hnone : lim_search_pre_auth_list c rx.sa = none) :
    Kept (lim_process_auth_shared_system_algo cfg s rx auth env c) := by
  obtain ⟨l, hl⟩ := hc
  rw [lim_process_auth_shared_system_algo]
  split
  · exact ⟨l, hl.sent _⟩
  cases hacq : lim_acquire_free_pre_auth_node c with
  | none => exact ⟨l, hl⟩
  | some p =>
    obtain ⟨i, c₁⟩ := p
    have hadd := hl.acquired (n := newNode (c₁.pTable i) rx auth env .WT_AUTH_FRAME3) hacq rfl hnone
    dsimp only
    split
    · exact ⟨_, (hadd.sent _).delete rx.sa⟩
    · refine ⟨i :: l, Booked.sent ?_ _⟩
      apply hadd.setNode <;> rfl

theorem kept_keeps : Keeps cfg s rx env Kept where
  booked := id
  sent := fun ⟨l, hl⟩ _ => ⟨l, hl.sent _⟩
  delete := fun ⟨_, hl⟩ => ⟨_, hl.delete rx.sa⟩
  deleteOpen := fun ticks ⟨_, hl⟩ => ⟨_, hl.deleteOpen ticks⟩
  openAlgo := fun hc hnone _ => kept_open hc hnone
  sharedAlgo := fun hc hnone _ _ => kept_shared hc hnone

theorem kept_own (hc : Kept c)
    (hnone : lim_search_pre_auth_list c env.gpLimMlmAuthReq.peerMacAddr = none) :
    Kept (addOwnNode rx env c) := by
  obtain ⟨l, hl⟩ := hc
  rw [addOwnNode]
  cases hacq : lim_acquire_free_pre_auth_node c with
  | none => exact ⟨l, hl⟩
  | some p =>
    obtain ⟨i, c₁⟩ := p
    refine ⟨i :: l, ?_⟩
    apply hl.acquired hacq
    · rfl
    · exact hnone

def OwnFresh (s : PeSession) (rx : RxFrame) (env : AuthEnv) (c : LimGlobal) : Prop :=
  s.limMlmState ≠ .other → rx.sa = env.gpLimMlmAuthReq.peerMacAddr →
    lim_search_pre_auth_list c rx.sa = none
deriving Decidable

theorem kept_type2 (hc : Kept c) (hok : OwnFresh s rx env c) :
    Kept (lim_process_auth_frame_type2 cfg s rx auth env c) := by
  obtain ⟨l, hl⟩ := hc
  have hsent : ∀ m, Kept (c.sent m) := fun m => ⟨l, hl.sent m⟩
  rw [lim_process_auth_frame_type2]
  dsimp only
  by_cases hstate : s.limMlmState ≠ .WT_AUTH_FRAME2
  · rw [if_pos hstate]; exact ⟨l, hl⟩
  rw [if_neg hstate]
  by_cases hsa : rx.sa ≠ env.gpLimMlmAuthReq.peerMacAddr
  · rw [if_pos hsa]; exact ⟨l, hl⟩
  rw [if_neg hsa]
  have hother : s.limMlmState ≠ .other := by rw [not_not.mp hstate]; simp
  have hnone := hok hother (not_not.mp hsa)
  rw [not_not.mp hsa] at hnone
  -- Which algorithm the frame is taken to be for does not matter.
  generalize (if auth.authStatusCode = eSIR_MAC_AUTH_ALGO_NOT_SUPPORTED_STATUS then
    env.gpLimMlmAuthReq.authType else auth.authAlgoNumber) = algo
  split
  · exact ⟨l, hl⟩
  split
  · exact ⟨l, hl⟩
  split
  · exact kept_own ⟨l, hl⟩ hnone
  split
  · exact hsent _
  split
  · exact ⟨l, hl⟩
  split
  · exact hsent _
  · exact hsent _

theorem kept_type4 (hc : Kept c) (hok : OwnFresh s rx env c) :
    Kept (lim_process_auth_frame_type4 s rx auth env c) := by
  rw [lim_process_auth_frame_type4]
  by_cases hstate : s.limMlmState ≠ .WT_AUTH_FRAME4
  · rw [if_pos hstate]; exact hc
  rw [if_neg hstate]
  split
  · exact hc
  by_cases hsa : rx.sa ≠ env.gpLimMlmAuthReq.peerMacAddr
  · rw [if_pos hsa]; exact hc
  rw [if_neg hsa]
  have hother : s.limMlmState ≠ .other := by rw [not_not.mp hstate]; simp
  have hnone := hok hother (not_not.mp hsa)
  rw [not_not.mp hsa] at hnone
  split
  · exact hc
  split
  · exact kept_own hc hnone
  · exact hc

theorem kept_type3 (hc : Kept c) : Kept (lim_process_auth_frame_type3 s rx auth c) := by
  obtain ⟨l, hl⟩ := hc
  have hdoes : Type3Does s rx auth c (lim_process_auth_frame_type3 s rx auth c) := type3_does
  generalize lim_process_auth_frame_type3 s rx auth c = c' at hdoes ⊢
  cases hdoes with
  | keep => exact ⟨l, hl⟩
  | answer m hm => exact ⟨l, hl.sent m⟩
  | timedOut m hm => exact ⟨_, (hl.sent m).delete rx.sa⟩
  | authenticate i hsearch hwep halgo hstate htext =>
    refine ⟨l, Booked.sent ?_ _⟩
    apply hl.setNode <;> rfl

theorem kept_dispatch (hc : Kept c) (hok : OwnFresh s rx env c) :
    Kept (dispatch cfg s rx auth env c) := by
  rw [dispatch]
  -- The transaction number, corrected or not.
  generalize (if s.limMlmState = .WT_AUTH_FRAME4 &&
    auth.authTransactionSeqNumber ≠ SIR_MAC_AUTH_FRAME_1 &&
    auth.authTransactionSeqNumber ≠ SIR_MAC_AUTH_FRAME_2 &&
    auth.authTransactionSeqNumber ≠ SIR_MAC_AUTH_FRAME_3 then SIR_MAC_AUTH_FRAME_4
    else auth.authTransactionSeqNumber) = no
  split
  · next hno => exact kept_keeps.type1 hc hno
  split
  · exact kept_type2 hc hok
  split
  · exact kept_type3 hc
  split
  · exact kept_type4 hc hok
  · exact hc

theorem kept_frame (hc : Kept c) (hok : OwnFresh s rx env c)
    (h : lim_process_auth_frame cfg unpack s rx env c = some c') : Kept c' := by
  obtain ⟨l, hl⟩ := hc
  cases frame_does h with
  | keep => exact ⟨l, hl⟩
  | answer m hm => exact ⟨l, hl.sent m⟩
  | icvFail m hm => exact ⟨_, (hl.delete rx.sa).sent m⟩
  | parsed frame auth hframe hauth hvalid => exact kept_dispatch ⟨l, hl⟩ hok

theorem kept_timeout (hc : Kept c) (auth_idx : Nat) (session : Option LimSystemRole) :
    Kept (lim_process_auth_rsp_timeout c auth_idx session) := by
  obtain ⟨l, hl⟩ := hc
  unfold lim_process_auth_rsp_timeout
  cases lim_get_pre_auth_node_from_index c auth_idx with
  | none => exact ⟨l, hl⟩
  | some i =>
    cases session with
    | none => exact ⟨l, hl⟩
    | some role =>
      have hset : Booked (c.setNode i { c.pTable i with mlmState := .AUTH_RSP_TIMEOUT }) l := by
        apply hl.setNode <;> rfl
      dsimp only
      split
      · exact ⟨l, hl⟩
      split
      · exact ⟨l, hl⟩
      · exact ⟨_, hset.delete _⟩

/-- What the events may not be, for the books to stay right: a frame with a challenge text that is
too long, and one that makes a second node for its peer. -/
def Ok (cfg : Cfg) (unpack : Parser) (c : LimGlobal) : Event → Prop
  | .authFrame s rx env => BodyFits cfg unpack s rx env ∧ OwnFresh s rx env c
  | .reject peer_addr _ _ => lim_search_pre_auth_list c peer_addr = none
  | _ => True

instance (cfg : Cfg) (unpack : Parser) (c : LimGlobal) (e : Event) : Decidable (Ok cfg unpack c e) := by
  unfold Ok
  split <;> infer_instance

theorem step_some {e : Event} (hok : Ok cfg unpack c e) : ∃ c', step cfg unpack c e = some c' := by
  cases e with
  | authFrame s rx env => exact frame_some hok.1 c
  | _ => exact ⟨_, rfl⟩

theorem kept_step {e : Event} (hc : Kept c) (hok : Ok cfg unpack c e)
    (hstep : step cfg unpack c e = some c') : Kept c' := by
  obtain ⟨l, hl⟩ := hc
  cases e
  case authFrame s rx env => exact kept_frame ⟨l, hl⟩ hok.2 hstep
  all_goals obtain rfl := Option.some.inj hstep
  case assocReq sa =>
    rw [assocReq]
    split
    · exact ⟨l, hl⟩
    split
    · exact ⟨_, hl.delete sa⟩
    · exact ⟨l, hl⟩
  case reject peer_addr auth_type ticks =>
    rw [lim_reject_association]
    cases hacq : lim_acquire_free_pre_auth_node c with
    | none => exact ⟨l, hl⟩
    | some p =>
      obtain ⟨i, c₁⟩ := p
      refine ⟨i :: l, ?_⟩
      apply hl.acquired hacq
      · rfl
      · exact hok
  case drop mac =>
    rw [dropNode]
    split
    · exact ⟨l, hl⟩
    · exact ⟨_, hl.delete mac⟩
  case authRspTimeout auth_idx session => exact kept_timeout ⟨l, hl⟩ auth_idx session
  case deleteOpenAuth ticks => exact ⟨_, hl.deleteOpen ticks⟩
  case deleteList =>
    obtain ⟨hholds, hsame⟩ := hl.toHolds.deleteList
    exact ⟨[], hl.sublist hsame hholds (nil_sublist l)⟩

/-! ## Over runs -/

/-- **The bookkeeping**: the list goes through nodes of the table, each once; a node of the table is
free and not in the list, or not free and in it; the counter is the length of the list; no address
has two nodes; and deleting the node of an address leaves all the others in the list. -/
def Bookkeeping (c : LimGlobal) : Prop :=
  ∃ l : List Nat, Linked c.next c.pLimPreAuthList l none ∧ l.Nodup ∧
    (∀ i ∈ l, i < c.numEntry.toNat) ∧
    (∀ i < c.numEntry.toNat,
      ((c.pTable i).fFree = true ∧ i ∉ l) ∨ ((c.pTable i).fFree = false ∧ i ∈ l)) ∧
    c.gLimNumPreAuthContexts.toNat = l.length ∧ l.length ≤ c.numEntry.toNat ∧
    (l.map c.mac).Nodup ∧
    ∀ mac, Linked (lim_delete_pre_auth_node c mac).next
      (lim_delete_pre_auth_node c mac).pLimPreAuthList (l.filter fun i => c.mac i ≠ mac) none

theorem Booked.bookkeeping (h : Booked c l) : Bookkeeping c := by
  have hle := h.toHolds.length_le
  refine ⟨l, h.linked, h.nodup, fun i hi => h.toHolds.mem_fuel hi, fun i hi => ?_, ?_, hle,
    h.distinct, fun mac => ?_⟩
  · cases hfree : (c.pTable i).fFree with
    | true => exact .inl ⟨rfl, h.toHolds.free_notMem hfree⟩
    | false => exact .inr ⟨rfl, (h.used i).mpr ⟨hi, hfree⟩⟩
  · rw [h.count, UInt32.toNat_ofNat']
    have hlt : c.fuel < 2 ^ 32 := c.numEntry.toNat_lt
    exact Nat.mod_eq_of_lt (by omega)
  · have hfilter : (l.filter fun i => decide (c.mac i ≠ mac)) = l.filter fun i => !c.isOf mac i := by
      apply filter_congr
      intro i _
      rw [LimGlobal.isOf, decide_not]
    rw [hfilter, ← h.eraseP_eq]; exact (h.toHolds.delete mac).1.linked

/-- In every run whose frames all fit and whose steps make no node for an address that has one, the
books are right, and every event that is like that has a result. -/
theorem pre_auth_bookkeeping (cfg : Cfg) (unpack : Parser) (numEntry : UInt32)
    (es : List Event) (c : LimGlobal)
    (h : run (guarded (Ok cfg unpack) (step cfg unpack)) (lim_init_pre_auth_timer_table numEntry)
      es = some c) :
    Bookkeeping c ∧ ∀ e, Ok cfg unpack c e → ∃ c', step cfg unpack c e = some c' := by
  have hinit : Kept (lim_init_pre_auth_timer_table numEntry) :=
    ⟨[], holds_init numEntry, nodup_nil⟩
  have hstep : ∀ c e c', Kept c → Ok cfg unpack c e → step cfg unpack c e = some c' → Kept c' :=
    fun c e c' hc hok hst => kept_step hc hok hst
  obtain ⟨l, hl⟩ := guarded_run_invariant hstep hinit h
  exact ⟨hl.bookkeeping, fun e hok => step_some hok⟩

/-! ## A rejected station that has a node

A station with PMF authenticates and associates, which uses up its node. While the firmware adds it,
it sends another frame 1: its entry in the station table does not stop it, and it gets a node again.
The firmware then fails, and the association is rejected. -/

section Example

def macA : MacAddr := #v[2, 0, 0, 0, 0, 9]

def macB : MacAddr := #v[2, 0, 0, 0, 0, 11]

/-- The parser, on frames that have no element but a challenge text. -/
def unpackPlain : Parser
  | a₀ :: a₁ :: n₀ :: n₁ :: s₀ :: s₁ :: ies =>
    some ⟨a₀.toUInt16 + (a₁.toUInt16 <<< 8), n₀.toUInt16 + (n₁.toUInt16 <<< 8),
      s₀.toUInt16 + (s₁.toUInt16 <<< 8),
      match ies with
      | 16 :: len :: text => if len.toNat = text.length then some text else none
      | _ => none⟩
  | _ => none

def emptyKey : WepKey := ⟨[], by decide⟩

def apSession (authType : UInt16) (keys : Nat → WepKey) : PeSession where
  limSystemRole := .eLIM_AP_ROLE
  limMlmState := .other
  privacy := true
  authType := authType
  bTkipCntrMeasActive := false
  WEPKeyMaterial := keys

def apCfg : Cfg where
  OPEN_SYSTEM_AUTH_ENABLE := true
  SHARED_KEY_AUTH_ENABLE := true
  PRIVACY_ENABLED := true
  WEP_DEFAULT_KEY _ := none
  WEP_DEFAULT_KEYID := 0
  MAX_NUM_PRE_AUTH := 2

def envOf (sta : Option StaDs) (random : Challenge) : AuthEnv where
  sta := sta
  disassocPending := false
  deauthPending := false
  staAfter := sta
  gpLimMlmAuthReq := ⟨zeroMacAddr, 0⟩
  ticks := 0
  random := random
  timerChanged := true
  stale _ := 0

def frame1 (algo : UInt8) (seqNum : UInt16) : RxFrame :=
  ⟨macA, false, false, seqNum, [algo, 0, 1, 0, 0, 0]⟩

def rejectedTwice : List Event :=
  [.authFrame (apSession 0 fun _ => emptyKey) (frame1 0 1) (envOf none 0),
    .assocReq macA,
    .authFrame (apSession 0 fun _ => emptyKey) (frame1 0 2) (envOf (some ⟨true⟩) 0),
    .reject macA 0 0]

/-- A station that was rejected after it authenticated again has two nodes. -/
theorem pre_auth_two_nodes :
    ∃ c, run (step apCfg unpackPlain) (lim_init_pre_auth_timer_table 2) rejectedTwice = some c ∧
      ¬Bookkeeping c := by
  refine exists_of_tested (fun c => c.numEntry = 2 ∧
    walk c.next 2 c.pLimPreAuthList = some [1, 0] ∧ c.mac 1 = c.mac 0) (by decide +kernel)
    fun c hc ⟨hnum, hwalk, hmac⟩ => ?_
  rintro ⟨l, hlinked, -, -, -, -, hlen, hdistinct, -⟩
  rw [hnum] at hlen
  have hl := walk_eq 2 hlinked hlen
  rw [hwalk, Option.some.injEq] at hl
  subst hl; simp [hmac] at hdistinct

/-- The same frames with a second station in between: `macB` authenticates while the node of `macA`
is there, and `macA` gets the place of its deleted node again, behind which the one of `macB` stays. -/
def twoStations : List Event :=
  [.authFrame (apSession 0 fun _ => emptyKey) (frame1 0 1) (envOf none 0),
    .authFrame (apSession 0 fun _ => emptyKey) { frame1 0 7 with sa := macB } (envOf none 0),
    .assocReq macA,
    .authFrame (apSession 0 fun _ => emptyKey) (frame1 0 2) (envOf (some ⟨true⟩) 0)]

theorem pre_auth_bookkeeping_two_stations :
    ∃ c, run (guarded (Ok apCfg unpackPlain) (step apCfg unpackPlain))
        (lim_init_pre_auth_timer_table 2) twoStations = some c ∧
      walk c.next 2 c.pLimPreAuthList = some [0, 1] ∧ c.mac 0 = macA ∧ c.mac 1 = macB ∧
      Bookkeeping c := by
  exact exists_of_tested (fun c => _ ∧ _ ∧ _) (by decide +kernel) fun c hc ⟨hwalk, hA, hB⟩ =>
    ⟨hwalk, hA, hB, (pre_auth_bookkeeping apCfg unpackPlain 2 twoStations c hc).1⟩

end Example

end

open Option

/-! Shared keys: `Sound` is what a frame has to be for a node to be moved to AUTHENTICATED. The code
asks for less in three places; `FrameOk` leaves these frames out, and those that overrun the
structure they are unpacked into. -/

/-- A frame that an AP session receives; such a session does not authenticate with anyone. -/
structure ApFrame where
  s : PeSession
  rx : RxFrame
  env : AuthEnv
  role : s.limSystemRole = .eLIM_AP_ROLE
  mlmState : s.limMlmState = .other

/-- The key that a frame is decrypted with. -/
def ApFrame.key (f : ApFrame) : WepKey := f.s.WEPKeyMaterial (keyIdOf f.rx.body)

def frameStep (cfg : Cfg) (unpack : Parser) (c : LimGlobal) (f : ApFrame) : Option LimGlobal :=
  lim_process_auth_frame cfg unpack f.s f.rx f.env c

/-! ## What is asked for -/

def lastChallenge (mac : MacAddr) (log : List SentAuth) : Option Challenge :=
  log.findSome? fun m =>
    if m.peer = mac ∧ m.authTransactionSeqNumber = SIR_MAC_AUTH_FRAME_2 then m.challengeText
    else none

def SharedAuthenticated (c : LimGlobal) (i : Nat) : Prop :=
  i < c.numEntry.toNat ∧ (c.pTable i).fFree = false ∧ (c.pTable i).mlmState = .AUTHENTICATED ∧
    (c.pTable i).authType = eSIR_SHARED_KEY
deriving Decidable

/-- The frame is a frame 3 of the peer of the node, its body opens under a key that is configured,
and its challenge text is, in all bytes, the last challenge that the peer was sent. -/
def Sound (unpack : Parser) (c : LimGlobal) (f : ApFrame) (i : Nat) : Prop :=
  f.rx.sa = c.mac i ∧ f.rx.wep = true ∧ f.key.key ≠ [] ∧
    ∃ text auth challenge, WepOpens f.key f.rx.body text ∧ unpack text = some auth ∧
      auth.no = SIR_MAC_AUTH_FRAME_3 ∧ auth.algo = eSIR_SHARED_KEY ∧
      lastChallenge (c.mac i) c.log = some challenge ∧
      auth.challengeText = some (List.ofFn challenge)

/-- What one frame does to the exchanges, with `F` the challenge that random bytes give: a node is
only authenticated soundly; a challenge that is sent is made from the random bytes of this frame; and
what a node holds while it waits for a frame 3 is what was sent. -/
def Exchanged (F : Challenge → Challenge) (unpack : Parser) (c : LimGlobal) (f : ApFrame)
    (c' : LimGlobal) : Prop :=
  (∀ i, SharedAuthenticated c' i → ¬SharedAuthenticated c i → Sound unpack c f i) ∧
    (∃ pre, c'.log = pre ++ c.log ∧
      ∀ m ∈ pre, ∀ challenge, m.challengeText = some challenge → challenge = F f.env.random) ∧
    ∀ i < c'.numEntry.toNat, (c'.pTable i).fFree = false →
      (c'.pTable i).mlmState = .WT_AUTH_FRAME3 →
      lastChallenge (c'.mac i) c'.log = some (c'.pTable i).challengeText

/-! ## When the code does it -/

def hasFullText (auth : Dot11fAuthentication) : Bool :=
  auth.challengeText.any fun text => text.length = SIR_MAC_AUTH_CHALLENGE_LENGTH

/-- The text that a frame with the WEP bit is encrypted from. -/
def ApFrame.plaintext (f : ApFrame) : List UInt8 :=
  (wepPlain f.key f.rx.body).take (f.rx.body.length - 8)

/-- The challenge text of a frame fits. A frame with the WEP bit names a key that was set, has a body
that is not too long, and if it is a frame 3, it has a challenge text of the full length. -/
def FrameOk (unpack : Parser) (f : ApFrame) : Prop :=
  if f.rx.wep then
    f.key.key ≠ [] ∧ f.rx.body.length < 260 ∧ TextFits unpack f.plaintext ∧
      (unpack f.plaintext).all fun auth => auth.no ≠ SIR_MAC_AUTH_FRAME_3 || hasFullText auth
  else TextFits unpack f.rx.body
deriving Decidable

/-- What every node holds from byte 8 on: the zeros that it was allocated with, since a challenge is
copied by the size of a pointer. -/
def Zeroed (memory : Nat → Challenge) : Prop :=
  ∀ i (b : Fin SIR_MAC_AUTH_CHALLENGE_LENGTH), sizeofPointer ≤ b.val → memory i b = 0

/-- The challenge that random bytes give: the first eight of them, and zeros. -/
def challengeOf (random : Challenge) : Challenge := copyBytes 0 random sizeofPointer

/-! ## The invariant -/

variable {cfg : Cfg} {unpack : Parser} {f : ApFrame} {auth : AuthFrameBody}
  {c c₀ c' : LimGlobal} {l l' : List Nat} {i : Nat} {n : PreAuthNode} {m : SentAuth}

theorem lastChallenge_sent_none {mac : MacAddr} (hm : m.challengeText = none) :
    lastChallenge mac (m :: c.log) = lastChallenge mac c.log := by
  rw [lastChallenge, findSome?_cons, hm, ite_self]; rfl

theorem lastChallenge_sent_ne {mac : MacAddr} (hm : m.peer ≠ mac) :
    lastChallenge mac (m :: c.log) = lastChallenge mac c.log := by
  rw [lastChallenge, findSome?_cons, if_neg fun h => hm h.1]; rfl

def NodeOk (c : LimGlobal) (i : Nat) : Prop :=
  (c.pTable i).mlmState = .WT_AUTH_FRAME3 → (c.pTable i).authType = eSIR_SHARED_KEY ∧
    lastChallenge (c.mac i) c.log = some (c.pTable i).challengeText

/-- The state while the frame `f`, that came in `c₀`, is handled. -/
structure During (unpack : Parser) (c₀ : LimGlobal) (f : ApFrame) (c : LimGlobal) (l : List Nat) :
    Prop extends Booked c l where
  numEntry : c.numEntry = c₀.numEntry
  nodeOk : ∀ i ∈ l, NodeOk c i
  zeroed : Zeroed fun i => (c.pTable i).challengeText
  sound : ∀ i, SharedAuthenticated c i → SharedAuthenticated c₀ i ∨ Sound unpack c₀ f i
  log : ∃ pre, c.log = pre ++ c₀.log ∧
    ∀ m ∈ pre, ∀ challenge, m.challengeText = some challenge → challenge = challengeOf f.env.random

def Inv (c : LimGlobal) : Prop :=
  ∃ l, Booked c l ∧ (∀ i ∈ l, NodeOk c i) ∧ Zeroed fun i => (c.pTable i).challengeText

def Handled (unpack : Parser) (c₀ : LimGlobal) (f : ApFrame) (c : LimGlobal) : Prop :=
  ∃ l, During unpack c₀ f c l

theorem Inv.handled (h : Inv c) : Handled unpack c f c := by
  obtain ⟨l, hl, hok, hzero⟩ := h
  exact ⟨l, hl, rfl, hok, hzero, fun i hi => .inl hi, [], rfl, fun m hm => by cases hm⟩

theorem Handled.inv (h : Handled unpack c₀ f c) : Inv c := by
  obtain ⟨l, hl⟩ := h
  exact ⟨l, hl.toBooked, hl.nodeOk, hl.zeroed⟩

theorem Handled.exchanged (h : Handled unpack c f c') : Exchanged challengeOf unpack c f c' := by
  obtain ⟨l, hl⟩ := h
  refine ⟨fun i hi hnot => ?_, hl.log, fun i hi hfree hstate => ?_⟩
  · exact (hl.sound i hi).resolve_left hnot
  · have hmem : i ∈ l := (hl.used i).mpr ⟨hi, hfree⟩; exact (hl.nodeOk i hmem hstate).2

/-! ## The operations -/

theorem During.mono (h : During unpack c₀ f c l) (hb : Booked c' l') (hsub : ∀ i ∈ l', i ∈ l)
    (hnum : c'.numEntry = c.numEntry) (hnode : ∀ i ∈ l', core (c'.pTable i) = core (c.pTable i))
    (hzero : Zeroed fun i => (c'.pTable i).challengeText) (hlog : c'.log = c.log) :
    During unpack c₀ f c' l' := by
  have hfield : ∀ {β : Type} (g : PreAuthNode → β), (∀ n, g (core n) = g n) →
      ∀ i ∈ l', g (c'.pTable i) = g (c.pTable i) := by
    intro β g hg i hi
    rw [← hg, hnode i hi, hg]
  have hstate := hfield PreAuthNode.mlmState fun _ => rfl
  have htype := hfield PreAuthNode.authType fun _ => rfl
  have hmac := hfield PreAuthNode.peerMacAddr fun _ => rfl
  have htext := hfield PreAuthNode.challengeText fun _ => rfl
  refine ⟨hb, hnum.trans h.numEntry, fun i hi hwait => ?_, hzero, fun i hi => ?_, hlog ▸ h.log⟩
  · rw [hstate i hi] at hwait
    rw [htype i hi, LimGlobal.mac, hmac i hi, htext i hi, hlog]
    exact h.nodeOk i (hsub i hi) hwait
  · obtain ⟨hlt, hfree, hdone, hshared⟩ := hi
    have hmem : i ∈ l' := (hb.used i).mpr ⟨hlt, hfree⟩
    obtain ⟨hlt', hfree'⟩ := (h.used i).mp (hsub i hmem)
    rw [hstate i hmem] at hdone
    rw [htype i hmem] at hshared; exact h.sound i ⟨hlt', hfree', hdone, hshared⟩

theorem During.sublist (h : During unpack c₀ f c l) (hsame : Same c c') (hholds : Holds c' l')
    (hsub : l'.Sublist l) : During unpack c₀ f c' l' := by
  apply h.mono (h.toBooked.sublist hsame hholds hsub) (fun i hi => hsub.subset hi) hsame.numEntry
    (fun i _ => hsame.node i) ?_ hsame.log
  intro i b hb
  dsimp only
  rw [hsame.challengeText]; exact h.zeroed i b hb

theorem During.sent (h : During unpack c₀ f c l) (hm : m.challengeText = none) :
    During unpack c₀ f (c.sent m) l := by
  refine ⟨h.toBooked.sent m, h.numEntry, fun i hi hstate => ?_, h.zeroed, h.sound, ?_⟩
  · have hlast : lastChallenge ((c.sent m).mac i) (c.sent m).log = lastChallenge (c.mac i) c.log :=
      lastChallenge_sent_none hm
    rw [hlast]; exact h.nodeOk i hi hstate
  · obtain ⟨pre, hpre, hall⟩ := h.log
    refine ⟨m :: pre, congrArg (m :: ·) hpre, fun m' hm' challenge hch => ?_⟩
    rcases mem_cons.mp hm' with rfl | hmem
    · rw [hm] at hch; cases hch
    · exact hall m' hmem challenge hch

theorem During.delete (h : During unpack c₀ f c l) (mac : MacAddr) :
    Handled unpack c₀ f (lim_delete_pre_auth_node c mac) := by
  obtain ⟨hholds, hsame⟩ := h.toHolds.delete mac
  exact ⟨_, h.sublist hsame hholds eraseP_sublist⟩

theorem During.deleteOpen (h : During unpack c₀ f c l) (ticks : UInt64) :
    Handled unpack c₀ f (lim_delete_open_auth_pre_auth_node c ticks).1 := by
  obtain ⟨hholds, hsame⟩ := h.toHolds.deleteOpen ticks
  exact ⟨_, h.sublist hsame hholds filter_sublist⟩

theorem add_self : core ((lim_add_pre_auth_node (c.setNode i n) i).pTable i) = core n := by
  show core (((c.setNode i n).setNode i _).pTable i) = _
  rw [setNode_self, setNode_self]; rfl

theorem add_field {β : Type} (g : PreAuthNode → β) (hg : ∀ n, g (core n) = g n) :
    g ((lim_add_pre_auth_node (c.setNode i n) i).pTable i) = g n := by rw [← hg, add_self, hg]

theorem add_ne {a : Nat} (h : a ≠ i) :
    (lim_add_pre_auth_node (c.setNode i n) i).pTable a = c.pTable a :=
  (setNode_ne h).trans (setNode_ne h)

theorem During.add (h : During unpack c₀ f c l) (hlt : i < c.fuel)
    (hfree : (c.pTable i).fFree = true) (hn : n.fFree = false)
    (hnone : lim_search_pre_auth_list c n.peerMacAddr = none) (hpeer : m.peer = n.peerMacAddr)
    (hok : n.mlmState = .WT_AUTH_FRAME3 → n.authType = eSIR_SHARED_KEY ∧
      lastChallenge n.peerMacAddr (m :: c.log) = some n.challengeText)
    (hzero : ∀ b : Fin SIR_MAC_AUTH_CHALLENGE_LENGTH, sizeofPointer ≤ b.val →
      n.challengeText b = 0) (hnot : ¬(n.mlmState = .AUTHENTICATED ∧ n.authType = eSIR_SHARED_KEY))
    (hdraw : ∀ challenge, m.challengeText = some challenge →
      challenge = challengeOf f.env.random) :
    During unpack c₀ f ((lim_add_pre_auth_node (c.setNode i n) i).sent m) (i :: l) := by
  have hil := h.toHolds.free_notMem hfree
  have hstate := add_field (c := c) (i := i) (n := n) PreAuthNode.mlmState fun _ => rfl
  have htype := add_field (c := c) (i := i) (n := n) PreAuthNode.authType fun _ => rfl
  have hmac := add_field (c := c) (i := i) (n := n) PreAuthNode.peerMacAddr fun _ => rfl
  have htext := add_field (c := c) (i := i) (n := n) PreAuthNode.challengeText fun _ => rfl
  refine ⟨(h.toBooked.add hlt hfree hn hnone).sent m, h.numEntry, fun a ha hwait => ?_,
    fun a b hb => ?_, fun a ha => ?_, ?_⟩
  · rcases mem_cons.mp ha with rfl | hal
    · rw [LimGlobal.sent] at hwait ⊢
      dsimp only [LimGlobal.mac] at hwait ⊢
      rw [hstate] at hwait
      rw [htype, hmac, htext]; exact hok hwait
    · have hai : a ≠ i := fun he => hil (he ▸ hal)
      have hother : m.peer ≠ c.mac a := fun he =>
        h.toHolds.search_none.mp hnone a hal (he.symm.trans hpeer)
      rw [LimGlobal.sent] at hwait ⊢
      dsimp only [LimGlobal.mac] at hwait ⊢
      rw [add_ne hai] at hwait ⊢
      have hlast := lastChallenge_sent_ne (c := c) hother
      exact ⟨(h.nodeOk a hal hwait).1, hlast.trans (h.nodeOk a hal hwait).2⟩
  · dsimp only [LimGlobal.sent]
    by_cases hai : a = i
    · subst hai
      rw [htext]; exact hzero b hb
    · rw [add_ne hai]; exact h.zeroed a b hb
  · obtain ⟨halt, hafree, hadone, hashared⟩ := ha
    by_cases hai : a = i
    · subst hai
      have hd : n.mlmState = .AUTHENTICATED := hstate.symm.trans hadone
      have hs : n.authType = eSIR_SHARED_KEY := htype.symm.trans hashared
      exact absurd ⟨hd, hs⟩ hnot
    · dsimp only [LimGlobal.sent] at hafree hadone hashared
      rw [add_ne hai] at hafree hadone hashared
      exact h.sound a ⟨halt, hafree, hadone, hashared⟩
  · obtain ⟨pre, hpre, hall⟩ := h.log
    refine ⟨m :: pre, congrArg (m :: ·) hpre, fun m' hm' challenge hch => ?_⟩
    rcases mem_cons.mp hm' with rfl | hmem
    · exact hdraw challenge hch
    · exact hall m' hmem challenge hch

theorem During.addDelete (h : During unpack c₀ f c l) (hlt : i < c.fuel)
    (hfree : (c.pTable i).fFree = true) (hn : n.fFree = false)
    (hnone : lim_search_pre_auth_list c n.peerMacAddr = none) (hm : m.challengeText = none)
    (hzero : ∀ b : Fin SIR_MAC_AUTH_CHALLENGE_LENGTH, sizeofPointer ≤ b.val →
      n.challengeText b = 0) :
    Handled unpack c₀ f (lim_delete_pre_auth_node ((lim_add_pre_auth_node (c.setNode i n) i).sent m)
        n.peerMacAddr) := by
  have hil := h.toHolds.free_notMem hfree
  have hadd := (h.toBooked.add hlt hfree hn hnone).sent m
  have hmac : ((lim_add_pre_auth_node (c.setNode i n) i).sent m).isOf n.peerMacAddr i = true :=
    isOf_iff.mpr (add_field (c := c) (i := i) (n := n) PreAuthNode.peerMacAddr fun _ => rfl)
  have hdel := hadd.delete n.peerMacAddr
  obtain ⟨-, hsame⟩ := hadd.toHolds.delete n.peerMacAddr
  rw [eraseP_cons_of_pos hmac] at hdel
  refine ⟨l, (h.sent hm).mono hdel (fun a ha => ha) hsame.numEntry (fun a ha => ?_)
    (fun a b hb => ?_) hsame.log⟩
  · have hai : a ≠ i := fun he => hil (he ▸ ha)
    rw [hsame.node]; exact congrArg core (add_ne hai)
  · dsimp only
    rw [hsame.challengeText]
    by_cases hai : a = i
    · subst hai
      have htext := add_field (c := c) (i := a) (n := n) PreAuthNode.challengeText fun _ => rfl
      exact (congrFun htext b).trans (hzero b hb)
    · exact (congrArg (fun n => n.challengeText b) (add_ne hai)).trans (h.zeroed a b hb)

theorem During.authenticate (h : During unpack c₀ f c l) (hsound : Sound unpack c₀ f i) :
    During unpack c₀ f (c.setNode i { c.pTable i with mlmState := .AUTHENTICATED }) l := by
  have hbooked : Booked (c.setNode i { c.pTable i with mlmState := .AUTHENTICATED }) l := by
    apply h.toBooked.setNode <;> rfl
  refine ⟨hbooked, h.numEntry, fun a ha hwait => ?_, fun a b hb => ?_, fun a ha => ?_, h.log⟩
  · by_cases hai : a = i
    · subst hai
      rw [setNode_self] at hwait
      cases hwait
    · rw [setNode_ne hai] at hwait
      rw [LimGlobal.mac, setNode_ne hai]; exact h.nodeOk a ha hwait
  · dsimp only
    by_cases hai : a = i
    · subst hai
      rw [setNode_self]; exact h.zeroed a b hb
    · rw [setNode_ne hai]; exact h.zeroed a b hb
  · by_cases hai : a = i
    · subst hai; exact .inr hsound
    · rw [SharedAuthenticated, setNode_ne hai] at ha; exact h.sound a ha

/-! ## Frame 1 -/

theorem handled_open (h : Handled unpack c₀ f c) (hnone : lim_search_pre_auth_list c f.rx.sa = none)
    (halgo : auth.authAlgoNumber = eSIR_OPEN_SYSTEM) :
    Handled unpack c₀ f (lim_process_auth_open_system_algo f.rx auth f.env c) := by
  obtain ⟨l, hl⟩ := h
  rw [lim_process_auth_open_system_algo]
  cases hacq : lim_acquire_free_pre_auth_node c with
  | none => exact ⟨l, hl⟩
  | some p =>
    obtain ⟨i, c₁⟩ := p
    obtain ⟨hlt, hfree, rfl⟩ := acquire_spec hacq
    dsimp only
    rw [setNode_setNode, setNode_self]
    refine ⟨i :: l, hl.add hlt hfree rfl hnone rfl ?_ ?_ ?_ ?_⟩
    · intro hwait; cases hwait
    · exact hl.zeroed i
    · rintro ⟨-, hshared⟩
      have hopen : eSIR_OPEN_SYSTEM = eSIR_SHARED_KEY := halgo.symm.trans hshared
      cases hopen
    · intro challenge hch; cases hch

theorem copyBytes_zeroed {old : Challenge} (random : Challenge)
    (hold : ∀ b : Fin SIR_MAC_AUTH_CHALLENGE_LENGTH, sizeofPointer ≤ b.val → old b = 0) :
    copyBytes old random sizeofPointer = challengeOf random := by
  funext b
  rw [challengeOf, copyBytes, copyBytes]
  by_cases hb : b.val < sizeofPointer
  · rw [if_pos hb, if_pos hb]
  · rw [if_neg hb, if_neg hb]; exact hold b (Nat.not_lt.mp hb)

theorem challengeOf_zero (random : Challenge) (b : Fin SIR_MAC_AUTH_CHALLENGE_LENGTH)
    (hb : sizeofPointer ≤ b.val) : challengeOf random b = 0 := if_neg (Nat.not_lt.mpr hb)

theorem add_challenge {challenge : Challenge} :
    (lim_add_pre_auth_node (c.setNode i n) i).setNode i
        { (lim_add_pre_auth_node (c.setNode i n) i).pTable i with challengeText := challenge } =
      lim_add_pre_auth_node (c.setNode i { n with challengeText := challenge }) i := by
  simp only [lim_add_pre_auth_node, LimGlobal.setNext, LimGlobal.setNode, update_idem, update_self]

theorem handled_shared (h : Handled unpack c₀ f c)
    (hnone : lim_search_pre_auth_list c f.rx.sa = none)
    (hno : auth.authTransactionSeqNumber = SIR_MAC_AUTH_FRAME_1)
    (halgo : auth.authAlgoNumber = eSIR_SHARED_KEY) :
    Handled unpack c₀ f (lim_process_auth_shared_system_algo cfg f.s f.rx auth f.env c) := by
  obtain ⟨l, hl⟩ := h
  rw [lim_process_auth_shared_system_algo]
  split
  · exact ⟨l, hl.sent rfl⟩
  cases hacq : lim_acquire_free_pre_auth_node c with
  | none => exact ⟨l, hl⟩
  | some p =>
    obtain ⟨i, c₁⟩ := p
    obtain ⟨hlt, hfree, rfl⟩ := acquire_spec hacq
    dsimp only
    rw [setNode_setNode, setNode_self]
    split
    · -- The timer could not be set: the node that was added is deleted again.
      exact hl.addDelete hlt hfree rfl hnone rfl (hl.zeroed i)
    · have hcopy : copyBytes ((lim_add_pre_auth_node (c.setNode i (newNode
          { c.pTable i with fFree := false } f.rx auth f.env .WT_AUTH_FRAME3)) i).pTable
            i).challengeText f.env.random sizeofPointer = challengeOf f.env.random := by
        apply copyBytes_zeroed
        rw [add_field PreAuthNode.challengeText fun _ => rfl]; exact hl.zeroed i
      rw [add_challenge, hcopy]
      refine ⟨i :: l, hl.add hlt hfree rfl hnone rfl ?_ ?_ ?_ ?_⟩
      · intro _
        refine ⟨halgo, ?_⟩
        rw [lastChallenge, findSome?_cons, if_pos ⟨rfl, by rw [hno]; rfl⟩]
      · exact challengeOf_zero f.env.random
      · rintro ⟨hdone, -⟩; cases hdone
      · intro challenge hch; exact (some.inj hch).symm

theorem handled_keeps : Keeps cfg f.s f.rx f.env (Handled unpack c₀ f) where
  booked := fun ⟨l, hl⟩ => ⟨l, hl.toBooked⟩
  sent := fun ⟨l, hl⟩ hm => ⟨l, hl.sent hm⟩
  delete := fun ⟨_, hl⟩ => hl.delete f.rx.sa
  deleteOpen := fun ticks ⟨_, hl⟩ => hl.deleteOpen ticks
  openAlgo := handled_open
  sharedAlgo := handled_shared

/-! ## Frame 3 -/

theorem decrypt_plaintext {key : WepKey} {plain : Nat → UInt8}
    (hkey : defaultKey cfg f.s f.rx.body = some key)
    (hmin : LIM_ENCR_AUTH_BODY_LEN ≤ f.rx.body.length) (hmax : f.rx.body.length < 260)
    (hdecrypt : lim_decrypt_auth_frame f.env.stale key f.rx.body
      (UInt16.ofNat (f.rx.body.length - SIR_MAC_WEP_IV_LENGTH)) = some plain) :
    WepOpens f.key f.rx.body (bytes plain 0 (f.rx.body.length - 8)) ∧
      bytes plain 0 (f.rx.body.length - 8) = f.plaintext := by
  have hkey' : key = f.key := by
    rw [defaultKey, if_pos f.role] at hkey; exact (some.inj hkey).symm
  subst hkey'
  have hlen : LIM_ENCR_AUTH_BODY_LEN = 144 := rfl
  have hopens := decrypt_opens (by omega) hmax hdecrypt
  refine ⟨hopens, ?_⟩
  rw [ApFrame.plaintext, hopens]
  symm
  simp [bytes]

theorem Decoded.opens {frame : List UInt8} (h : Decoded cfg f.s f.rx f.env c frame)
    (hwep : f.rx.wep = true) (hmax : f.rx.body.length < 260) :
    WepOpens f.key f.rx.body frame ∧ frame = f.plaintext ∧
      ∃ i, lim_search_pre_auth_list c f.rx.sa = some i ∧
        ((c.pTable i).mlmState = .WT_AUTH_FRAME3 ∨ (c.pTable i).mlmState = .AUTH_RSP_TIMEOUT) := by
  rcases h with ⟨hplain, -⟩ | ⟨-, hmin, i, key, plain, hsearch, hstate, hkey, hdecrypt, rfl⟩
  · rw [hwep] at hplain; cases hplain
  · obtain ⟨hopens, heq⟩ := decrypt_plaintext hkey hmin hmax hdecrypt
    exact ⟨hopens, heq, i, hsearch, hstate⟩

/-- What the condition says about the plaintext goes for every text that the body decrypts to. -/
theorem FrameOk.bodyFits (h : FrameOk unpack f) : BodyFits cfg unpack f.s f.rx f.env := by
  rw [FrameOk] at h
  rw [BodyFits]
  split at h
  · next hwep =>
    obtain ⟨-, hmax, hfits, -⟩ := h
    rw [if_pos hwep]
    intro hmin key hkey plain hplain
    rw [(decrypt_plaintext hkey hmin hmax hplain).2]; exact hfits
  · next hwep => rw [if_neg hwep]; exact h

theorem fullText_eq {dot11f : Dot11fAuthentication} (h : hasFullText dot11f = true) :
    dot11f.challengeText = some (List.ofFn fun b : Fin SIR_MAC_AUTH_CHALLENGE_LENGTH =>
      (dot11f.challengeText.getD []).getD b 0) := by
  cases htext : dot11f.challengeText with
  | none => simp [hasFullText, htext] at h
  | some text =>
    have hlen : text.length = SIR_MAC_AUTH_CHALLENGE_LENGTH := by
      simpa [hasFullText, htext] using h
    refine congrArg some (ext_getElem (by simpa using hlen) fun b hb hb' => ?_)
    rw [List.getElem_ofFn, getD_some, List.getD_eq_getElem?_getD, getElem?_eq_getElem hb, getD_some]

theorem convert_spec {frame : List UInt8}
    (h : sir_convert_auth_frame2_struct unpack frame = some (some auth)) :
    ∃ dot11f, unpack frame = some dot11f ∧ auth =
      { authAlgoNumber := dot11f.algo
        authTransactionSeqNumber := dot11f.no
        authStatusCode := dot11f.status
        hasChallenge := dot11f.challengeText.isSome
        challengeText := fun i => (dot11f.challengeText.getD []).getD i 0 } := by
  rw [sir_convert_auth_frame2_struct] at h
  split at h
  · cases h
  · next dot11f hunpack =>
    dsimp only at h
    split at h
    · cases h
    · cases h; exact ⟨dot11f, hunpack, rfl⟩

theorem handled_type3 (h : Inv c) (hok : FrameOk unpack f) {frame : List UInt8}
    (hframe : Decoded cfg f.s f.rx f.env c frame)
    (hauth : sir_convert_auth_frame2_struct unpack frame = some (some auth))
    (hno : auth.authTransactionSeqNumber = SIR_MAC_AUTH_FRAME_3) :
    Handled unpack c f (lim_process_auth_frame_type3 f.s f.rx auth c) := by
  obtain ⟨l, hl⟩ : Handled unpack c f c := h.handled
  have hdoes : Type3Does f.s f.rx auth c (lim_process_auth_frame_type3 f.s f.rx auth c) :=
    type3_does
  generalize lim_process_auth_frame_type3 f.s f.rx auth c = c' at hdoes ⊢
  cases hdoes with
  | keep => exact ⟨l, hl⟩
  | answer m hm => exact ⟨l, hl.sent hm⟩
  | timedOut m hm => exact (hl.sent hm).delete f.rx.sa
  | authenticate i hsearch hwep halgo hstate htext =>
    rw [FrameOk, if_pos hwep] at hok
    obtain ⟨hkey, hmax, -, hfull⟩ := hok
    obtain ⟨hopens, rfl, j, hj, hwait⟩ := hframe.opens hwep hmax
    obtain rfl : i = j := some.inj (hsearch.symm.trans hj)
    obtain ⟨hmem, hmac⟩ := hl.toHolds.search_some hsearch
    obtain ⟨htype, hlast⟩ := hl.nodeOk i hmem (hwait.resolve_right hstate)
    -- What was parsed is the challenge, and the text it was taken from is of its length.
    obtain ⟨dot11f, hunpack, rfl⟩ := convert_spec hauth
    rw [hunpack, all_some] at hfull
    have hthree : dot11f.no = SIR_MAC_AUTH_FRAME_3 := hno
    have hlen : hasFullText dot11f = true := by simpa [hthree] using hfull
    have hsound : Sound unpack c f i := by
      refine ⟨hmac.symm, hwep, hkey, _, dot11f, _, hopens, hunpack, hthree, halgo, hlast, ?_⟩
      rw [← htext]; exact fullText_eq hlen
    exact ⟨l, (hl.authenticate hsound).sent rfl⟩

/-! ## Every frame -/

theorem handled_frame (h : Inv c) (hok : FrameOk unpack f)
    (hst : frameStep cfg unpack c f = some c') : Handled unpack c f c' := by
  obtain ⟨l, hl⟩ : Handled unpack c f c := h.handled
  cases frame_does hst with
  | keep => exact ⟨l, hl⟩
  | answer m hm => exact ⟨l, hl.sent hm⟩
  | icvFail m hm => obtain ⟨l', hl'⟩ := hl.delete f.rx.sa; exact ⟨l', hl'.sent hm⟩
  | parsed frame auth hframe hauth hvalid =>
    have hother : ¬(f.s.limMlmState = .WT_AUTH_FRAME4) := by rw [f.mlmState]; simp
    -- On an AP session the transaction number stands as received, and is not 2 or 4.
    rw [is_auth_valid, f.role] at hvalid
    simp only [dispatch, hother, decide_false, Bool.false_and, Bool.false_eq_true, if_false]
    split
    · next hno => exact handled_keeps.type1 ⟨l, hl⟩ hno
    split
    · next hno => simp [hno, SIR_MAC_AUTH_FRAME_1, SIR_MAC_AUTH_FRAME_2] at hvalid
    split
    · next hno => exact handled_type3 h hok hframe hauth hno
    split
    · next hno => simp [hno, SIR_MAC_AUTH_FRAME_4] at hvalid
    · exact ⟨l, hl⟩

theorem inv_init (numEntry : UInt32) : Inv (lim_init_pre_auth_timer_table numEntry) := by
  refine ⟨[], ⟨holds_init numEntry, nodup_nil⟩, fun i hi => ?_, fun i b _ => rfl⟩
  cases hi

/-- In every run of frames that all are `FrameOk`, every further such frame has a result and
authenticates soundly, and the challenges are one function of the random bytes of their exchange. -/
theorem shared_key_sound (cfg : Cfg) (unpack : Parser) (numEntry : UInt32)
    (fs : List ApFrame) (f : ApFrame) (c : LimGlobal)
    (hrun : run (guarded (fun _ => FrameOk unpack) (frameStep cfg unpack))
      (lim_init_pre_auth_timer_table numEntry) fs = some c) (hok : FrameOk unpack f) :
    ∃ c', frameStep cfg unpack c f = some c' ∧ Exchanged challengeOf unpack c f c' := by
  have hkeep : ∀ c f c', Inv c → FrameOk unpack f → frameStep cfg unpack c f = some c' → Inv c' :=
    fun c f c' hinv hok hst => (handled_frame hinv hok hst).inv
  have hinv := guarded_run_invariant hkeep (inv_init numEntry) hrun
  obtain ⟨c', hst⟩ := frame_some hok.bodyFits c
  exact ⟨c', hst, (handled_frame hinv hok hst).exchanged⟩

/-- What is done with the plaintext does not look at the encrypted body. -/
theorem accept_body {s : PeSession} {rx : RxFrame} {env : AuthEnv} (body : List UInt8)
    {frame : List UInt8} :
    accept cfg unpack s { rx with body := body } env frame c = accept cfg unpack s rx env frame c :=
  rfl

theorem accept_wep {iv text : List UInt8} {keyId : UInt8}
    (hbody : f.rx.body = lim_encrypt_auth_frame iv keyId f.key text) (hiv : iv.length = 3)
    (hmin : 136 ≤ text.length) (hmax : text.length < 252) (hwep : f.rx.wep = true)
    (hgroup : lim_is_group_addr f.rx.sa = false) (htkip : f.s.bTkipCntrMeasActive = false)
    (hprivacy : f.s.privacy = true) (hsearch : lim_search_pre_auth_list c f.rx.sa = some i)
    (hstate : (c.pTable i).mlmState = .WT_AUTH_FRAME3) :
    lim_process_auth_frame cfg unpack f.s f.rx f.env c =
      accept cfg unpack f.s f.rx f.env text c := by
  have hlen : f.rx.body.length = text.length + 8 := hbody ▸ length_encrypt hiv hmax
  have hkey : defaultKey cfg f.s f.rx.body = some f.key := if_pos f.role
  obtain ⟨plain, hdecrypt, hplain⟩ := @decrypt_encrypt f.env.stale f.key iv text keyId hiv hmax
  rw [← hbody, hlen] at hdecrypt
  have hprivacy' : privacyOf cfg f.s = true := (if_pos f.role).trans hprivacy
  have hzero : ¬text.length + 8 = 0 := by omega
  have hshort : ¬text.length + 8 < LIM_ENCR_AUTH_BODY_LEN := by
    have hconst : LIM_ENCR_AUTH_BODY_LEN = 144 := rfl
    omega
  have hsta : ¬f.s.limSystemRole = .eLIM_STA_ROLE := by rw [f.role]; simp
  rw [lim_process_auth_frame]
  simp only [hlen, if_neg hzero, hgroup, Bool.false_eq_true, if_false, hwep, if_true, htkip,
    Bool.false_and, if_neg hsta, if_neg hshort, hprivacy', Bool.not_true, hsearch, hstate, hkey,
    SIR_MAC_WEP_IV_LENGTH, hdecrypt, ne_eq, not_true_eq_false, decide_false,
    Nat.add_sub_cancel, hplain]

/-! ## An exchange under a key, and one under none

The AP has its first key set. `macA` sends a frame 1 and is challenged; its frame 3 is encrypted under
the key that its IV names. -/

section Example

def wep40 : WepKey := ⟨[1, 2, 3, 4, 5], by decide⟩

def oneKey (keyId : Nat) : WepKey := if keyId = 0 then wep40 else emptyKey

def countUp : Challenge := fun b => UInt8.ofNat (b.val + 1)

def sharedFrame1 : ApFrame := ⟨apSession 1 oneKey, frame1 1 1, envOf none countUp, rfl, rfl⟩

def echoText : List UInt8 :=
  [1, 0, 3, 0, 0, 0, 16, 128] ++ ([1, 2, 3, 4, 5, 6, 7, 8] ++ replicate 120 0)

def sharedFrame3 (keyId : UInt8) : ApFrame :=
  ⟨apSession 1 oneKey,
    ⟨macA, true, false, 2, lim_encrypt_auth_frame [0, 0, 0] keyId (oneKey keyId.toNat) echoText⟩,
    envOf none 0, rfl, rfl⟩

/-- The table after the first frame, which has a result (`challenged_eq`). -/
def challenged : LimGlobal :=
  (frameStep apCfg unpackPlain (lim_init_pre_auth_timer_table 2) sharedFrame1).getD
    (lim_init_pre_auth_timer_table 2)

theorem sharedFrame3_key (keyId : UInt8) (h : keyId <<< 6 >>> 6 = keyId) :
    (sharedFrame3 keyId).key = oneKey keyId.toNat := by
  have hid : keyIdOf (sharedFrame3 keyId).rx.body = keyId.toNat := by
    show (keyId <<< 6 >>> 6).toNat = _
    rw [h]
  rw [ApFrame.key, hid]; rfl

theorem sharedFrame3_accept (keyId : UInt8) (h : keyId <<< 6 >>> 6 = keyId) :
    lim_process_auth_frame apCfg unpackPlain (sharedFrame3 keyId).s (sharedFrame3 keyId).rx
        (sharedFrame3 keyId).env challenged =
      accept apCfg unpackPlain (sharedFrame3 keyId).s (sharedFrame3 keyId).rx
        (sharedFrame3 keyId).env echoText challenged := by
  have htext : echoText.length = 136 := by simp [echoText]
  have hbody : (sharedFrame3 keyId).rx.body =
      lim_encrypt_auth_frame [0, 0, 0] keyId (sharedFrame3 keyId).key echoText := by
    rw [sharedFrame3_key keyId h]; rfl
  have hsearch : lim_search_pre_auth_list challenged macA = some 0 := by decide +kernel
  have hstate : (challenged.pTable 0).mlmState = .WT_AUTH_FRAME3 := by decide +kernel
  have hgroup : lim_is_group_addr macA = false := by decide
  exact accept_wep hbody rfl (by omega) (by omega) rfl hgroup rfl rfl hsearch hstate

theorem sharedFrame3_authenticates (keyId : UInt8) (h : keyId <<< 6 >>> 6 = keyId) :
    ∃ c', frameStep apCfg unpackPlain challenged (sharedFrame3 keyId) = some c' ∧
      SharedAuthenticated c' 0 := by
  have hdone : ((accept apCfg unpackPlain (apSession 1 oneKey) ⟨macA, true, false, 2, []⟩
      (envOf none 0) echoText challenged).any fun c => decide (SharedAuthenticated c 0)) = true := by
    decide +kernel
  have hbody : ((frameStep apCfg unpackPlain challenged (sharedFrame3 keyId)).any fun c =>
      decide (SharedAuthenticated c 0)) = true := by
    rw [frameStep, sharedFrame3_accept keyId h, ← accept_body []]; exact hdone
  obtain ⟨c', hc', hshared⟩ := (Option.any_eq_true _ _).mp hbody
  exact ⟨c', hc', of_decide_eq_true hshared⟩

theorem challenged_run :
    run (guarded (fun _ => FrameOk unpackPlain) (frameStep apCfg unpackPlain))
      (lim_init_pre_auth_timer_table 2) [sharedFrame1] = some challenged := by rfl

/-- A frame 3 under the second key, that was never set, authenticates its sender. -/
theorem shared_key_unsound :
    ∃ c', run (frameStep apCfg unpackPlain) (lim_init_pre_auth_timer_table 2) [sharedFrame1] =
        some challenged ∧
      frameStep apCfg unpackPlain challenged (sharedFrame3 1) = some c' ∧
      SharedAuthenticated c' 0 ∧ ¬SharedAuthenticated challenged 0 ∧
      ¬Sound unpackPlain challenged (sharedFrame3 1) 0 := by
  obtain ⟨c', hc', hdone⟩ := sharedFrame3_authenticates 1 (by decide)
  refine ⟨c', rfl, hc', hdone, by decide +kernel, ?_⟩
  rintro ⟨-, -, hkey, -⟩; exact hkey rfl

/-- An exchange under the key that is set. -/
theorem shared_key_sound_echo :
    FrameOk unpackPlain (sharedFrame3 0) ∧
      ∃ c', frameStep apCfg unpackPlain challenged (sharedFrame3 0) = some c' ∧
        SharedAuthenticated c' 0 ∧ Sound unpackPlain challenged (sharedFrame3 0) 0 := by
  have hok : FrameOk unpackPlain (sharedFrame3 0) := by
    have htext : echoText.length = 136 := by simp [echoText]
    have hkey : (sharedFrame3 0).key = wep40 := sharedFrame3_key 0 (by decide)
    have hbody : (sharedFrame3 0).rx.body = lim_encrypt_auth_frame [0, 0, 0] 0 wep40 echoText := rfl
    have hlen : (sharedFrame3 0).rx.body.length = 144 := by
      rw [hbody, length_encrypt rfl (by omega), htext]
    have hplain : wepPlain wep40 (sharedFrame3 0).rx.body = echoText ++ lim_compute_crc32 echoText :=
      hbody ▸ wepPlain_encrypt rfl (by omega)
    have hwep : (sharedFrame3 0).rx.wep = true := rfl
    rw [FrameOk, if_pos hwep, ApFrame.plaintext, hkey, hlen, hplain, take_left' htext]
    exact ⟨by decide, by decide, by decide +kernel, by decide +kernel⟩
  obtain ⟨c', hc', hdone⟩ := sharedFrame3_authenticates 0 (by decide)
  obtain ⟨c'', hc'', hexchanged⟩ := shared_key_sound apCfg unpackPlain 2 [sharedFrame1]
    (sharedFrame3 0) challenged challenged_run hok
  obtain rfl := Option.some.inj (hc'.symm.trans hc'')
  exact ⟨hok, c', hc', hdone, hexchanged.1 0 hdone (by decide +kernel)⟩

end Example

end Qcacld.LimAuthFrame
