/-
Received authentication frames, and what else touches the pre-authentication contexts:
`lim_process_auth_frame.c` with its callees, and the calls of the list functions from association,
rejection and timeout.

What a frame's handler asks others for is an `AuthEnv`: what the station table answers, the request
that an own authentication is for, the time, the random bytes, whether the timer could be set, and
what is on the stack. `unpack` is the generated parser `dot11f_unpack_authentication`; it is a
parameter. On a 64-bit target `sizeof(challenge_txt_arr)` is the size of a pointer, 8: the array is
a parameter of the function that copies it. A challenge text of more than 128 bytes is written past
the end of the structure that it is unpacked into, which is on the stack: such a frame has no
result. Left out are
deauthentication frames and the deletion of stations, the messages to SME, the fast transition
branch of frame 2, and failures of CFG look-ups, which all have a value.
-/
import Qcacld.LimPreAuth
import Qcacld.LimWep

set_option autoImplicit false

namespace Qcacld.LimAuthFrame

open DphTable LimPreAuth LimWep

def SIR_MAC_AUTH_FRAME_1 : UInt16 := 1
def SIR_MAC_AUTH_FRAME_2 : UInt16 := 2
def SIR_MAC_AUTH_FRAME_3 : UInt16 := 3
def SIR_MAC_AUTH_FRAME_4 : UInt16 := 4

def eSIR_MAC_SUCCESS_STATUS : UInt16 := 0
def eSIR_MAC_UNSPEC_FAILURE_STATUS : UInt16 := 1
def eSIR_MAC_AUTH_ALGO_NOT_SUPPORTED_STATUS : UInt16 := 13
def eSIR_MAC_AUTH_FRAME_OUT_OF_SEQ_STATUS : UInt16 := 14
def eSIR_MAC_CHALLENGE_FAILURE_STATUS : UInt16 := 15
def eSIR_MAC_AUTH_RSP_TIMEOUT_STATUS : UInt16 := 16

/-- `sizeof(tSirMacAuthFrameBody)`, an IV and an ICV. -/
def LIM_ENCR_AUTH_BODY_LEN : Nat := 136 + SIR_MAC_WEP_IV_LENGTH + SIR_MAC_WEP_ICV_LENGTH

def sizeofPointer : Nat := 8

inductive LimSystemRole where
  | eLIM_AP_ROLE
  | eLIM_STA_ROLE
  | eLIM_STA_IN_IBSS_ROLE
  deriving DecidableEq

/-- The states of a session that the handlers tell apart. -/
inductive SessionMlmState where
  | WT_AUTH_FRAME2
  | WT_AUTH_FRAME4
  | other
  deriving DecidableEq

structure PeSession where
  limSystemRole : LimSystemRole
  limMlmState : SessionMlmState
  privacy : Bool
  authType : UInt16
  bTkipCntrMeasActive : Bool
  WEPKeyMaterial : Nat → WepKey

structure Cfg where
  OPEN_SYSTEM_AUTH_ENABLE : Bool
  SHARED_KEY_AUTH_ENABLE : Bool
  PRIVACY_ENABLED : Bool
  WEP_DEFAULT_KEY : Nat → Option WepKey
  WEP_DEFAULT_KEYID : Nat
  MAX_NUM_PRE_AUTH : UInt32

structure MlmAuthReq where
  peerMacAddr : MacAddr
  authType : UInt16

/-- A received frame: what the handlers read of its header, and its body. -/
structure RxFrame where
  sa : MacAddr
  wep : Bool
  retry : Bool
  seqNum : UInt16
  body : List UInt8

structure StaDs where
  rmfEnabled : Bool

structure AuthEnv where
  sta : Option StaDs
  disassocPending : Bool
  deauthPending : Bool
  staAfter : Option StaDs
  gpLimMlmAuthReq : MlmAuthReq
  ticks : UInt64
  random : Challenge
  timerChanged : Bool
  stale : Nat → UInt8

/-- What the generated parser finds in an authentication frame. -/
structure Dot11fAuthentication where
  algo : UInt16
  no : UInt16
  status : UInt16
  challengeText : Option (List UInt8)

/-- `tSirMacAuthFrameBody`, with `hasChallenge` for a `type` that is
`SIR_MAC_CHALLENGE_TEXT_EID`. -/
structure AuthFrameBody where
  authAlgoNumber : UInt16
  authTransactionSeqNumber : UInt16
  authStatusCode : UInt16
  hasChallenge : Bool
  challengeText : Challenge

abbrev Parser := List UInt8 → Option Dot11fAuthentication

/-! ## Parsing and checking -/

/-- The structure is zeroed first, so that a short text is followed by zeros. The array takes no
more than 128 bytes, and the text is copied by its own length: when it is longer there is no result.
A frame that cannot be parsed gives `some none`. -/
def sir_convert_auth_frame2_struct (unpack : Parser) (frame : List UInt8) :
    Option (Option AuthFrameBody) :=
  match unpack frame with
  | none => some none
  | some auth =>
    let text := auth.challengeText.getD []
    if text.length > SIR_MAC_AUTH_CHALLENGE_LENGTH then none
    else
      some <| some
        { authAlgoNumber := auth.algo
          authTransactionSeqNumber := auth.no
          authStatusCode := auth.status
          hasChallenge := auth.challengeText.isSome
          challengeText := fun i => text.getD i 0 }

def is_auth_valid (auth : AuthFrameBody) (s : PeSession) : Bool :=
  let no := auth.authTransactionSeqNumber
  !((no = SIR_MAC_AUTH_FRAME_1 || no = SIR_MAC_AUTH_FRAME_3) &&
      s.limSystemRole = .eLIM_STA_ROLE) &&
    !((no = SIR_MAC_AUTH_FRAME_2 || no = SIR_MAC_AUTH_FRAME_4) &&
      s.limSystemRole = .eLIM_AP_ROLE) &&
    !((no = SIR_MAC_AUTH_FRAME_3 || no = SIR_MAC_AUTH_FRAME_4) &&
      !auth.hasChallenge && auth.authAlgoNumber ≠ eSIR_SHARED_KEY)

def lim_is_group_addr (macAddr : MacAddr) : Bool := macAddr[0] &&& 1 = 1

def privacyOf (cfg : Cfg) (s : PeSession) : Bool :=
  if s.limSystemRole = .eLIM_AP_ROLE then s.privacy else cfg.PRIVACY_ENABLED

def lim_is_auth_algo_supported (cfg : Cfg) (authType : UInt16) (s : PeSession) : Bool :=
  if authType = eSIR_OPEN_SYSTEM then
    if s.limSystemRole = .eLIM_AP_ROLE then
      s.authType = eSIR_OPEN_SYSTEM || s.authType = eSIR_AUTO_SWITCH
    else cfg.OPEN_SYSTEM_AUTH_ENABLE
  else
    (if s.limSystemRole = .eLIM_AP_ROLE then
      s.authType = eSIR_SHARED_KEY || s.authType = eSIR_AUTO_SWITCH
    else cfg.SHARED_KEY_AUTH_ENABLE) && privacyOf cfg s

/-! ## Frame 1 -/

/-- An answer to a frame 1 that does not carry a challenge. -/
def answer1 (rx : RxFrame) (auth : AuthFrameBody) (status : UInt16) : SentAuth :=
  ⟨rx.sa, auth.authAlgoNumber, auth.authTransactionSeqNumber + 1, status, none⟩

def copyBytes (dst src : Challenge) (size : Nat) : Challenge :=
  fun i => if i.val < size then src i else dst i

def newNode (n : PreAuthNode) (rx : RxFrame) (auth : AuthFrameBody) (env : AuthEnv)
    (mlmState : NodeMlmState) : PreAuthNode :=
  { n with
    peerMacAddr := rx.sa
    mlmState := mlmState
    authType := auth.authAlgoNumber
    seq_num := rx.seqNum
    timestamp := env.ticks }

def lim_process_auth_open_system_algo (rx : RxFrame) (auth : AuthFrameBody) (env : AuthEnv)
    (c : LimGlobal) : LimGlobal :=
  match lim_acquire_free_pre_auth_node c with
  | none => c
  | some (i, c) =>
    let c := c.setNode i (newNode (c.pTable i) rx auth env .AUTHENTICATED)
    (lim_add_pre_auth_node c i).sent (answer1 rx auth eSIR_MAC_SUCCESS_STATUS)

def lim_process_auth_shared_system_algo (cfg : Cfg) (s : PeSession) (rx : RxFrame)
    (auth : AuthFrameBody) (env : AuthEnv) (c : LimGlobal) : LimGlobal :=
  if !privacyOf cfg s then
    c.sent (answer1 rx auth eSIR_MAC_AUTH_ALGO_NOT_SUPPORTED_STATUS)
  else
    match lim_acquire_free_pre_auth_node c with
    | none => c
    | some (i, c) =>
      let c := c.setNode i (newNode (c.pTable i) rx auth env .WT_AUTH_FRAME3)
      let c := lim_add_pre_auth_node c i
      if !env.timerChanged then
        lim_delete_pre_auth_node (c.sent (answer1 rx auth eSIR_MAC_UNSPEC_FAILURE_STATUS)) rx.sa
      else
        let challenge := copyBytes (c.pTable i).challengeText env.random sizeofPointer
        let c := c.setNode i { c.pTable i with challengeText := challenge }
        c.sent ⟨rx.sa, auth.authAlgoNumber, auth.authTransactionSeqNumber + 1,
          eSIR_MAC_SUCCESS_STATUS, some challenge⟩

/-- The end of `lim_process_auth_frame_type1`, when there is no context for the station. -/
def startAuth (cfg : Cfg) (s : PeSession) (rx : RxFrame) (auth : AuthFrameBody) (env : AuthEnv)
    (c : LimGlobal) : LimGlobal :=
  let allow (c : LimGlobal) : LimGlobal :=
    if lim_is_auth_algo_supported cfg auth.authAlgoNumber s then
      if auth.authAlgoNumber = eSIR_OPEN_SYSTEM then
        lim_process_auth_open_system_algo rx auth env c
      else if auth.authAlgoNumber = eSIR_SHARED_KEY then
        lim_process_auth_shared_system_algo cfg s rx auth env c
      else c.sent (answer1 rx auth eSIR_MAC_AUTH_ALGO_NOT_SUPPORTED_STATUS)
    else c.sent (answer1 rx auth eSIR_MAC_AUTH_ALGO_NOT_SUPPORTED_STATUS)
  if c.gLimNumPreAuthContexts = cfg.MAX_NUM_PRE_AUTH then
    let (c, freed) := lim_delete_open_auth_pre_auth_node c env.ticks
    if !freed then c.sent (answer1 rx auth eSIR_MAC_UNSPEC_FAILURE_STATUS)
    else allow c
  else allow c

def lim_process_auth_frame_type1 (cfg : Cfg) (s : PeSession) (rx : RxFrame)
    (auth : AuthFrameBody) (env : AuthEnv) (c : LimGlobal) : LimGlobal :=
  let isConnected := !env.disassocPending && !env.deauthPending
  -- A station that is connected is deauthenticated and deleted, unless it has PMF.
  if env.sta.any fun d => isConnected && !d.rmfEnabled then c
  else
    match lim_search_pre_auth_list c rx.sa with
    | none => startAuth cfg s rx auth env c
    | some i =>
      if rx.retry && (c.pTable i).seq_num = rx.seqNum then c
      else
        let c := lim_delete_pre_auth_node c rx.sa
        if env.staAfter.any fun d => !d.rmfEnabled then c
        else startAuth cfg s rx auth env c

/-! ## Frames 2 and 4, of an own authentication -/

/-- The node for the peer of the own request; its `mlmState` is not set. -/
def addOwnNode (rx : RxFrame) (env : AuthEnv) (c : LimGlobal) : LimGlobal :=
  match lim_acquire_free_pre_auth_node c with
  | none => c
  | some (i, c) =>
    let c := c.setNode i { c.pTable i with
      peerMacAddr := env.gpLimMlmAuthReq.peerMacAddr
      authType := env.gpLimMlmAuthReq.authType
      seq_num := rx.seqNum
      timestamp := env.ticks }
    lim_add_pre_auth_node c i

def lim_process_auth_frame_type2 (cfg : Cfg) (s : PeSession) (rx : RxFrame)
    (auth : AuthFrameBody) (env : AuthEnv) (c : LimGlobal) : LimGlobal :=
  let req := env.gpLimMlmAuthReq
  if s.limMlmState ≠ .WT_AUTH_FRAME2 then c
  else if rx.sa ≠ req.peerMacAddr then c
  else
    let algo := if auth.authStatusCode = eSIR_MAC_AUTH_ALGO_NOT_SUPPORTED_STATUS then req.authType
      else auth.authAlgoNumber
    if algo ≠ req.authType then c
    else if auth.authStatusCode ≠ eSIR_MAC_SUCCESS_STATUS then c
    else if algo = eSIR_OPEN_SYSTEM then addOwnNode rx env c
    else if !privacyOf cfg s then
      c.sent ⟨rx.sa, algo, auth.authTransactionSeqNumber + 1,
        eSIR_MAC_AUTH_ALGO_NOT_SUPPORTED_STATUS, none⟩
    else if !auth.hasChallenge then c
    else if s.limSystemRole ≠ .eLIM_AP_ROLE &&
        (cfg.WEP_DEFAULT_KEY cfg.WEP_DEFAULT_KEYID).isNone then
      c.sent ⟨rx.sa, algo, auth.authTransactionSeqNumber + 1,
        eSIR_MAC_CHALLENGE_FAILURE_STATUS, none⟩
    -- This frame 3 goes out encrypted.
    else c.sent ⟨rx.sa, algo, auth.authTransactionSeqNumber + 1, eSIR_MAC_SUCCESS_STATUS,
      some auth.challengeText⟩

def lim_process_auth_frame_type4 (s : PeSession) (rx : RxFrame) (auth : AuthFrameBody)
    (env : AuthEnv) (c : LimGlobal) : LimGlobal :=
  if s.limMlmState ≠ .WT_AUTH_FRAME4 then c
  else if auth.authAlgoNumber ≠ eSIR_SHARED_KEY then c
  else if rx.sa ≠ env.gpLimMlmAuthReq.peerMacAddr then c
  else if auth.authAlgoNumber ≠ env.gpLimMlmAuthReq.authType then c
  else if auth.authStatusCode = eSIR_MAC_SUCCESS_STATUS then addOwnNode rx env c
  else c

/-! ## Frame 3 -/

def frame4 (rx : RxFrame) (algo status : UInt16) : SentAuth :=
  ⟨rx.sa, algo, SIR_MAC_AUTH_FRAME_4, status, none⟩

def lim_process_auth_frame_type3 (s : PeSession) (rx : RxFrame) (auth : AuthFrameBody)
    (c : LimGlobal) : LimGlobal :=
  if auth.authAlgoNumber ≠ eSIR_SHARED_KEY then
    c.sent (frame4 rx eSIR_SHARED_KEY eSIR_MAC_AUTH_FRAME_OUT_OF_SEQ_STATUS)
  else if s.limSystemRole = .eLIM_STA_ROLE then c
  else if !rx.wep then c.sent (frame4 rx eSIR_SHARED_KEY eSIR_MAC_CHALLENGE_FAILURE_STATUS)
  else
    match lim_search_pre_auth_list c rx.sa with
    | none => c.sent (frame4 rx eSIR_SHARED_KEY eSIR_MAC_AUTH_FRAME_OUT_OF_SEQ_STATUS)
    | some i =>
      if (c.pTable i).mlmState = .AUTH_RSP_TIMEOUT then
        lim_delete_pre_auth_node
          (c.sent (frame4 rx eSIR_SHARED_KEY eSIR_MAC_AUTH_RSP_TIMEOUT_STATUS)) rx.sa
      else if auth.authStatusCode ≠ eSIR_MAC_SUCCESS_STATUS then c
      else if ∀ b, auth.challengeText b = (c.pTable i).challengeText b then
        (c.setNode i { c.pTable i with mlmState := .AUTHENTICATED }).sent
          (frame4 rx eSIR_SHARED_KEY eSIR_MAC_SUCCESS_STATUS)
      else c.sent (frame4 rx auth.authAlgoNumber eSIR_MAC_CHALLENGE_FAILURE_STATUS)

/-! ## All frames -/

/-- The key that a frame names: the two upper bits of the fourth byte of its IV. -/
def keyIdOf (body : List UInt8) : Nat := (body.getD 3 0 >>> 6).toNat

def defaultKey (cfg : Cfg) (s : PeSession) (body : List UInt8) : Option WepKey :=
  if s.limSystemRole = .eLIM_AP_ROLE then some (s.WEPKeyMaterial (keyIdOf body))
  else cfg.WEP_DEFAULT_KEY (keyIdOf body)

/-- `lim_process_auth_frame` from the switch on the transaction number on. -/
def dispatch (cfg : Cfg) (s : PeSession) (rx : RxFrame) (auth : AuthFrameBody) (env : AuthEnv)
    (c : LimGlobal) : LimGlobal :=
  let no := auth.authTransactionSeqNumber
  let no := if s.limMlmState = .WT_AUTH_FRAME4 && no ≠ SIR_MAC_AUTH_FRAME_1 &&
      no ≠ SIR_MAC_AUTH_FRAME_2 && no ≠ SIR_MAC_AUTH_FRAME_3 then SIR_MAC_AUTH_FRAME_4 else no
  let auth := { auth with authTransactionSeqNumber := no }
  if no = SIR_MAC_AUTH_FRAME_1 then lim_process_auth_frame_type1 cfg s rx auth env c
  else if no = SIR_MAC_AUTH_FRAME_2 then lim_process_auth_frame_type2 cfg s rx auth env c
  else if no = SIR_MAC_AUTH_FRAME_3 then lim_process_auth_frame_type3 s rx auth c
  else if no = SIR_MAC_AUTH_FRAME_4 then lim_process_auth_frame_type4 s rx auth env c
  else c

/-- What `lim_process_auth_frame` does with a body that is not encrypted, or not any more. -/
def accept (cfg : Cfg) (unpack : Parser) (s : PeSession) (rx : RxFrame) (env : AuthEnv)
    (frame : List UInt8) (c : LimGlobal) : Option LimGlobal :=
  match sir_convert_auth_frame2_struct unpack frame with
  | none => none
  | some none => some c
  | some (some auth) => some (if is_auth_valid auth s then dispatch cfg s rx auth env c else c)

def lim_process_auth_frame (cfg : Cfg) (unpack : Parser) (s : PeSession) (rx : RxFrame)
    (env : AuthEnv) (c : LimGlobal) : Option LimGlobal :=
  let frame_len := rx.body.length
  let reject4 (status : UInt16) (c : LimGlobal) : LimGlobal :=
    c.sent (frame4 rx eSIR_SHARED_KEY status)
  if frame_len = 0 then some c
  else if lim_is_group_addr rx.sa then some c
  else if rx.wep then
    if s.bTkipCntrMeasActive && s.limSystemRole = .eLIM_AP_ROLE then some c
    else if s.limSystemRole = .eLIM_STA_ROLE then
      some (reject4 eSIR_MAC_CHALLENGE_FAILURE_STATUS c)
    else if frame_len < LIM_ENCR_AUTH_BODY_LEN then some c
    else if !privacyOf cfg s then some (reject4 eSIR_MAC_CHALLENGE_FAILURE_STATUS c)
    else
      match lim_search_pre_auth_list c rx.sa with
      | none => some (reject4 eSIR_MAC_AUTH_FRAME_OUT_OF_SEQ_STATUS c)
      | some i =>
        if (c.pTable i).mlmState ≠ .WT_AUTH_FRAME3 &&
            (c.pTable i).mlmState ≠ .AUTH_RSP_TIMEOUT then
          some (reject4 eSIR_MAC_AUTH_FRAME_OUT_OF_SEQ_STATUS c)
        else
          match defaultKey cfg s rx.body with
          | none => some (reject4 eSIR_MAC_CHALLENGE_FAILURE_STATUS c)
          | some key =>
            match lim_decrypt_auth_frame env.stale key rx.body
                (UInt16.ofNat (frame_len - SIR_MAC_WEP_IV_LENGTH)) with
            | none =>
              some (reject4 eSIR_MAC_CHALLENGE_FAILURE_STATUS (lim_delete_pre_auth_node c rx.sa))
            | some plainbody =>
              accept cfg unpack s rx env (bytes plainbody 0 (frame_len - 8)) c
  else accept cfg unpack s rx env rx.body c

/-! ## The other callers -/

/-- A frame or message that ends a peer's authentication: its node is looked for, and deleted. -/
def dropNode (c : LimGlobal) (mac : MacAddr) : LimGlobal :=
  match lim_search_pre_auth_list c mac with
  | none => c
  | some _ => lim_delete_pre_auth_node c mac

def assocReq (c : LimGlobal) (sa : MacAddr) : LimGlobal :=
  match lim_search_pre_auth_list c sa with
  | none => c
  | some i =>
    if (c.pTable i).mlmState = .AUTHENTICATED then lim_delete_pre_auth_node c sa else c

/-- `lim_reject_association` with `add_pre_auth_context` set. -/
def lim_reject_association (c : LimGlobal) (peer_addr : MacAddr) (auth_type : UInt16)
    (ticks : UInt64) : LimGlobal :=
  match lim_acquire_free_pre_auth_node c with
  | none => c
  | some (i, c) =>
    let c := c.setNode i { c.pTable i with
      peerMacAddr := peer_addr
      mlmState := .AUTHENTICATED
      authType := auth_type
      timestamp := ticks }
    lim_add_pre_auth_node c i

/-- `session` is the role of the session whose BSSID is the address in the node. -/
def lim_process_auth_rsp_timeout (c : LimGlobal) (auth_idx : Nat)
    (session : Option LimSystemRole) : LimGlobal :=
  match lim_get_pre_auth_node_from_index c auth_idx, session with
  | some i, some role =>
    if role = .eLIM_STA_ROLE then c
    else if (c.pTable i).mlmState ≠ .WT_AUTH_FRAME3 then c
    else
      let c := c.setNode i { c.pTable i with mlmState := .AUTH_RSP_TIMEOUT }
      lim_delete_pre_auth_node c (c.pTable i).peerMacAddr
  | _, _ => c

inductive Event where
  | authFrame (s : PeSession) (rx : RxFrame) (env : AuthEnv)
  | assocReq (sa : MacAddr)
  | reject (peer_addr : MacAddr) (auth_type : UInt16) (ticks : UInt64)
  | drop (mac : MacAddr)
  | authRspTimeout (auth_idx : Nat) (session : Option LimSystemRole)
  | deleteOpenAuth (ticks : UInt64)
  | deleteList

/-- A step has no result when the frame overruns the structure it is unpacked into. -/
def step (cfg : Cfg) (unpack : Parser) (c : LimGlobal) : Event → Option LimGlobal
  | .authFrame s rx env => lim_process_auth_frame cfg unpack s rx env c
  | .assocReq sa => some (assocReq c sa)
  | .reject peer_addr auth_type ticks => some (lim_reject_association c peer_addr auth_type ticks)
  | .drop mac => some (dropNode c mac)
  | .authRspTimeout auth_idx session => some (lim_process_auth_rsp_timeout c auth_idx session)
  | .deleteOpenAuth ticks => some (lim_delete_open_auth_pre_auth_node c ticks).1
  | .deleteList => some (lim_delete_pre_auth_list c)

end Qcacld.LimAuthFrame
