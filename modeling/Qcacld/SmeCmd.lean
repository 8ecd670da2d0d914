/-
The command queues of the SME: `sme_api.c`, with the lists of `csr_link_list.c`.

The lists are open, the driver runs one of these functions at a time (it holds the SME lock), and a
session id fits a byte. The handlers are up to the environment: one succeeds or fails, and may have
commands done meanwhile; whether a session waits for its key is up to it too. The release functions
of the CSR and of QoS end in `sme_release_command`. With no command free `sme_get_command_buffer`
calls `CDF_BUG`, which halts the kernel in this build; the runs here include those that go on from
there, as in a build without `PANIC_ON_BUG`. A step in the loop of `sme_process_pending_queue` is one
call of `sme_process_command`.
-/
import Qcacld.Lib.Run
import Mathlib.Data.List.Perm.Basic
import Qcacld.Lib.Count

set_option autoImplicit false

namespace Qcacld.SmeCmd

open Lib Function

/-! ## Commands -/

def eSmeNoCommand : Nat := 0
def eSmeCsrCommandMask : Nat := 0x10000
def eSmeCommandScan : Nat := 0x10001
def eSmeCommandRoam : Nat := 0x10002
def eSmeCommandWmStatusChange : Nat := 0x10003
def eSmeCommandSetKey : Nat := 0x10004
def eSmeCommandAddStaSession : Nat := 0x10005
def eSmeCommandDelStaSession : Nat := 0x10006
def eSmeCommandTdlsSendMgmt : Nat := 0x10007
def eSmeCommandTdlsAddPeer : Nat := 0x10008
def eSmeCommandTdlsDelPeer : Nat := 0x10009
def eSmeCommandTdlsLinkEstablish : Nat := 0x1000A
def eSmePmcCommandMask : Nat := 0x20000
def eSmeCommandEnterStandby : Nat := 0x20006
def eSmeCommandAddTs : Nat := 0x40001
def eSmeCommandDelTs : Nat := 0x40002
def eSmeCommandOemDataReq : Nat := 0x80000
def eSmeCommandRemainOnChannel : Nat := 0x80001
def e_sme_command_set_hw_mode : Nat := 0x80002
def e_sme_command_nss_update : Nat := 0x80003
def e_sme_command_set_dual_mac_config : Nat := 0x80004
def e_sme_command_set_antenna_mode : Nat := 0x80005

def eCsrForcedDisassoc : Nat := 2
def eCsrForcedDisassocMICFailure : Nat := 7
def eCsrForcedDeauth : Nat := 11
def eCsrSmeIssuedDisassocForHandoff : Nat := 12

/-- `tSmeCmd`, with what the queues look at. -/
structure Cmd where
  command : Nat
  sessionId : UInt8
  roamReason : Nat

def CSR_IS_DISCONNECT_COMMAND (c : Cmd) : Bool :=
  c.command = eSmeCommandRoam ∧
    (c.roamReason = eCsrForcedDisassoc ∨ c.roamReason = eCsrForcedDeauth ∨
      c.roamReason = eCsrSmeIssuedDisassocForHandoff ∨
      c.roamReason = eCsrForcedDisassocMICFailure)

def CSR_IS_SET_KEY_COMMAND (c : Cmd) : Bool := c.command = eSmeCommandSetKey

def CSR_IS_CLOSE_SESSION_COMMAND (c : Cmd) : Bool := c.command = eSmeCommandDelStaSession

inductive Place
  | smeCmdFreeList
  | smeCmdPendingList
  | smeCmdActiveList
  | smeScanCmdPendingList
  | smeScanCmdActiveList
  | caller
  deriving DecidableEq

def Place.all : List Place :=
  [.smeCmdFreeList, .smeCmdPendingList, .smeCmdActiveList, .smeScanCmdPendingList,
    .smeScanCmdActiveList, .caller]

/-- A command is made active: its session, and the sessions of the commands on the other active
list at that time. -/
structure Activation where
  sessionId : UInt8
  others : List UInt8

structure State where
  list : Place → List Nat
  cmd : Nat → Cmd
  /-- `SME_IS_START`. -/
  started : Bool
  /-- `CSR_IS_WAIT_FOR_KEY`. -/
  waitForKey : UInt8 → Bool
  /-- The loop of `sme_process_pending_queue` goes on. -/
  looping : Bool
  activations : List Activation

def init (totalSmeCmd : Nat) : State where
  list
    | .smeCmdFreeList => List.range totalSmeCmd
    | _ => []
  cmd _ := ⟨eSmeNoCommand, 0, 0⟩
  started := true
  waitForKey _ := false
  looping := false
  activations := []

/-! ## Lists -/

def csr_ll_insert_tail (s : State) (l : Place) (c : Nat) : State :=
  { s with list := update s.list l (s.list l ++ [c]) }

def csr_ll_insert_head (s : State) (l : Place) (c : Nat) : State :=
  { s with list := update s.list l (c :: s.list l) }

/-- Whether the entry was found, and the list without it. -/
def csr_ll_remove_entry (s : State) (l : Place) (c : Nat) : State × Bool :=
  if c ∈ s.list l then ({ s with list := update s.list l ((s.list l).erase c) }, true)
  else (s, false)

def csr_ll_remove_head (s : State) (l : Place) : State × Option Nat :=
  match s.list l with
  | [] => (s, none)
  | c :: cs => ({ s with list := update s.list l cs }, some c)

/-! ## Getting and releasing -/

def setCmd (s : State) (c : Nat) (m : Cmd) : State := { s with cmd := update s.cmd c m }

def sme_release_command (s : State) (c : Nat) : State :=
  csr_ll_insert_tail (setCmd s c { s.cmd c with command := eSmeNoCommand }) .smeCmdFreeList c

def sme_get_command_buffer (s : State) : State × Option Nat :=
  match csr_ll_remove_head s .smeCmdFreeList with
  | (s', some c) => (setCmd s' c ⟨0, 0, 0⟩, some c)
  | (s', none) => (s', none)

def csr_abort_command (s : State) (c : Nat) : State := sme_release_command s c

def sme_abort_command (s : State) (c : Nat) : State :=
  -- nothing is done to a PMC command
  if (s.cmd c).command &&& eSmePmcCommandMask ≠ 0 then s
  else if (s.cmd c).command &&& eSmeCsrCommandMask ≠ 0 then csr_abort_command s c
  else sme_release_command s c

def releaseLoop (l : Place) : Nat → State → State
  | 0, s => s
  | n + 1, s =>
    match csr_ll_remove_head s l with
    | (s', some c) => releaseLoop l n (sme_abort_command s' c)
    | (s', none) => s'

def sme_release_cmd_list (s : State) (l : Place) : State := releaseLoop l (s.list l).length s

def purge_sme_cmd_list (s : State) : State :=
  let s := sme_release_cmd_list s .smeCmdPendingList
  let s := sme_release_cmd_list s .smeCmdActiveList
  let s := sme_release_cmd_list s .smeScanCmdPendingList
  sme_release_cmd_list s .smeScanCmdActiveList

/-- One entry of the first loop of `purge_sme_session_cmd_list`, with its local list. -/
def toLocalList (sessionId : UInt8) (l : Place) (r : State × List Nat) (c : Nat) :
    State × List Nat :=
  if (r.1.cmd c).sessionId = sessionId then
    match csr_ll_remove_entry r.1 l c with
    | (s', true) => (s', r.2 ++ [c])
    | (s', false) => (s', r.2)
  else r

def purge_sme_session_cmd_list (s : State) (sessionId : UInt8) (l : Place) : State :=
  let r := (s.list l).foldl (toLocalList sessionId l) (s, [])
  r.2.foldl sme_abort_command r.1

/-! ## The handlers -/

structure Outcome where
  /-- The commands that it takes off the active list, or the active scan list, and releases. -/
  completed : List (Bool × Nat)
  /-- It releases its own command and leaves it on the list. -/
  released : Bool
  success : Bool
  waitForKey : UInt8 → Bool

def complete (s : State) (isScan : Bool) (c : Nat) : State :=
  match csr_ll_remove_entry s (if isScan then .smeScanCmdActiveList else .smeCmdActiveList) c with
  | (s', true) => sme_release_command s' c
  | (s', false) => s'

def handle (s : State) (c : Nat) (o : Outcome) : State :=
  let s := o.completed.foldl (fun s d => complete s d.1 d.2) s
  let s := if o.released then sme_release_command s c else s
  { s with waitForKey := o.waitForKey }

/-! ## Processing -/

def activated (s : State) (c : Nat) (other : Place) : State :=
  { s with activations := s.activations ++
      [⟨(s.cmd c).sessionId, (s.list other).map fun d => (s.cmd d).sessionId⟩] }

def dropHead (s : State) (l : Place) : State :=
  match csr_ll_remove_head s l with
  | (s', some c) => sme_release_command s' c
  | (s', none) => s'

def scanSwitch (s : State) (c : Nat) (o : Outcome) : State :=
  if (s.cmd c).command = eSmeCommandScan ∨ (s.cmd c).command = eSmeCommandRemainOnChannel then
    handle s c o
  else dropHead s .smeScanCmdActiveList

def sme_process_scan_queue (s : State) (o : Outcome) : State × Bool :=
  let pSmeCommand := (s.list .smeCmdActiveList).head?
  match (s.list .smeScanCmdPendingList).head? with
  | none => (s, true)
  | some c =>
    if pSmeCommand.any fun d => (s.cmd d).sessionId = (s.cmd c).sessionId then (s, false)
    else if s.waitForKey (s.cmd c).sessionId ∧ !CSR_IS_SET_KEY_COMMAND (s.cmd c) then
      (s, false)
    else
      match csr_ll_remove_entry s .smeScanCmdPendingList c with
      | (s', true) =>
        let s' := csr_ll_insert_head s' .smeScanCmdActiveList c
        (scanSwitch (activated s' c .smeCmdActiveList) c o, true)
      | (s', false) => (s', true)

/-- The first command of the list whose session is another one. -/
def csr_get_cmd_to_process (s : State) (l : Place) (sessionId : UInt8) : Option Nat :=
  (s.list l).find? fun c => (s.cmd c).sessionId ≠ sessionId

def csr_prepare_disconnect_command (s : State) (session_id : UInt8) : State × Option Nat :=
  match sme_get_command_buffer s with
  | (s', some c) => (setCmd s' c ⟨eSmeCommandRoam, session_id, eCsrForcedDisassoc⟩, some c)
  | (s', none) => (s', none)

/-- A handler that failed: the command is taken off the active list, if it is still there, and
released. -/
def removeFailed (s : State) (c : Nat) : State := complete s false c

/-- The switch of `sme_process_command`, with `fContinue` after it. -/
def cmdSwitch (s : State) (c : Nat) (o : Outcome) : State × Bool :=
  let command := (s.cmd c).command
  if command = eSmeCommandScan then (handle s c o, !o.success)
  else if command = eSmeCommandRoam ∨ command = eSmeCommandSetKey then
    let s := handle s c o
    (if o.success then s else removeFailed s c, !o.success)
  else if command = eSmeCommandWmStatusChange ∨ command = eSmeCommandAddStaSession ∨
      command = eSmeCommandDelStaSession ∨ command = eSmeCommandOemDataReq ∨
      command = eSmeCommandRemainOnChannel then
    (handle s c o, false)
  else if command = eSmeCommandEnterStandby then (s, false)
  else if command = eSmeCommandAddTs ∨ command = eSmeCommandDelTs then
    let s := handle s c o
    -- `fContinue` is set by the handler
    (if o.success then s else removeFailed s c, !o.success)
  else if command = eSmeCommandTdlsSendMgmt ∨ command = eSmeCommandTdlsAddPeer ∨
      command = eSmeCommandTdlsDelPeer ∨ command = eSmeCommandTdlsLinkEstablish then
    (handle s c o, !o.success)
  else if command = e_sme_command_set_hw_mode ∨ command = e_sme_command_nss_update ∨
      command = e_sme_command_set_dual_mac_config ∨ command = e_sme_command_set_antenna_mode then
    (handle s c o, false)
  else (dropHead s .smeCmdActiveList, true)

def activate (s : State) (c : Nat) (o : Outcome) : State × Bool :=
  match csr_ll_remove_entry s .smeCmdPendingList c with
  | (s', true) =>
    let s' := csr_ll_insert_head s' .smeCmdActiveList c
    cmdSwitch (activated s' c .smeScanCmdActiveList) c o
  | (s', false) => (s', false)

def pendingToProcess (s : State) : Option Nat :=
  match (s.list .smeScanCmdActiveList).head? with
  | some d => csr_get_cmd_to_process s .smeCmdPendingList (s.cmd d).sessionId
  | none => (s.list .smeCmdPendingList).head?

/-- `sme_process_command` up to `process_scan_q`. -/
def processCmdQueue (s : State) (o : Outcome) : State × Bool :=
  if s.list .smeCmdActiveList ≠ [] then (s, false)
  else
    match pendingToProcess s with
    | none => (s, false)
    | some c =>
      if s.waitForKey (s.cmd c).sessionId ∧ !CSR_IS_DISCONNECT_COMMAND (s.cmd c) ∧
          !CSR_IS_SET_KEY_COMMAND (s.cmd c) then
        if CSR_IS_CLOSE_SESSION_COMMAND (s.cmd c) then
          match csr_prepare_disconnect_command s (s.cmd c).sessionId with
          | (s', some d) =>
            -- a disconnect command need not wait for the key
            activate (csr_ll_insert_head s' .smeCmdPendingList d) d o
          | (s', none) => (s', false)
        else (s, false)
      else activate s c o

def sme_process_command (s : State) (o o' : Outcome) : State × Bool :=
  let r := processCmdQueue s o
  let r' := sme_process_scan_queue r.1 o'
  (r'.1, r.2 && r'.2)

/-! ## Runs -/

def sme_push_command (s : State) (c : Nat) (m : Cmd) (fHighPriority : Bool) : State :=
  let s := (csr_ll_remove_entry (setCmd s c m) .caller c).1
  if !s.started then s
  else if fHighPriority then
    { csr_ll_insert_head s .smeCmdPendingList c with looping := true }
  else { csr_ll_insert_tail s .smeCmdPendingList c with looping := true }

/-- `csr_queue_sme_command` for a scan. -/
def csr_queue_sme_command (s : State) (c : Nat) (m : Cmd) : State :=
  let s := setCmd s c m
  if !s.started then s
  else
    { csr_ll_insert_tail (csr_ll_remove_entry s .caller c).1 .smeScanCmdPendingList c with
      looping := true }

inductive Op
  | getCommandBuffer
  | push (c : Nat) (m : Cmd) (fHighPriority : Bool)
  | queueScan (c : Nat) (m : Cmd)
  /-- The caller gives a command back that was not queued. -/
  | release (c : Nat)
  | processPendingQueue
  | processCommand (o o' : Outcome)
  | complete (isScan : Bool) (c : Nat)
  | purgeSession (sessionId : UInt8) (l : Place)
  | purge
  | setStarted (started : Bool)
  | setWaitForKey (waitForKey : UInt8 → Bool)

def step (s : State) (e : Op) : Option State :=
  match s.looping, e with
  | true, .processCommand o o' =>
    let r := sme_process_command s o o'
    some { r.1 with looping := r.2 }
  | true, _ => none
  | false, .getCommandBuffer =>
    match sme_get_command_buffer s with
    | (s', some c) => some (csr_ll_insert_tail s' .caller c)
    | (s', none) => some s'
  | false, .push c m fHighPriority =>
    if c ∈ s.list .caller then some (sme_push_command s c m fHighPriority) else none
  | false, .queueScan c m =>
    if c ∈ s.list .caller ∧
        (m.command = eSmeCommandScan ∨ m.command = eSmeCommandRemainOnChannel) then
      some (csr_queue_sme_command s c m)
    else none
  | false, .release c =>
    if c ∈ s.list .caller then
      some (sme_release_command (csr_ll_remove_entry s .caller c).1 c)
    else none
  | false, .processPendingQueue => some { s with looping := true }
  | false, .processCommand _ _ => none
  | false, .complete isScan c => some (complete s isScan c)
  | false, .purgeSession sessionId l =>
    if l ≠ .smeCmdFreeList ∧ l ≠ .caller then some (purge_sme_session_cmd_list s sessionId l)
    else none
  | false, .purge => some (purge_sme_cmd_list s)
  | false, .setStarted started => some { s with started := started }
  | false, .setWaitForKey waitForKey => some { s with waitForKey := waitForKey }

open List Option

/-! How often a command is on the lists and in the hands of callers is counted (`occ`); each
function keeps the count, except where a command is lost. -/

variable {s s' : State} {c d : Nat} {l : Place} {o o' : Outcome}

/-! ## Counting -/

def occ (s : State) (c : Nat) : Nat := tally (fun l => l.count c) s.list Place.all

def one (d c : Nat) : Nat := if d = c then 1 else 0

theorem mem_all (l : Place) : l ∈ Place.all := by cases l <;> decide

theorem occ_update {x : List Nat} (h : s'.list = update s.list l x) (c : Nat) :
    occ s' c + (s.list l).count c = occ s c + x.count c := by
  unfold occ
  rw [h]; exact tally_update _ _ _ (by decide) (mem_all l)

theorem count_cons_one (d c : Nat) (x : List Nat) : (d :: x).count c = x.count c + one d c := by
  simp [count_cons, one]

theorem occ_insert_tail (s : State) (l : Place) (d c : Nat) :
    occ (csr_ll_insert_tail s l d) c = occ s c + one d c := by
  have h := @occ_update s (csr_ll_insert_tail s l d) l _ rfl c
  rw [count_append, count_cons_one, count_nil] at h; omega

theorem occ_insert_head (s : State) (l : Place) (d c : Nat) :
    occ (csr_ll_insert_head s l d) c = occ s c + one d c := by
  have h := @occ_update s (csr_ll_insert_head s l d) l _ rfl c
  rw [count_cons_one] at h; omega

theorem remove_entry_cases (s : State) (l : Place) (d : Nat) :
    d ∈ s.list l ∧
      csr_ll_remove_entry s l d
        = ({ s with list := update s.list l ((s.list l).erase d) }, true) ∨
    d ∉ s.list l ∧ csr_ll_remove_entry s l d = (s, false) := by
  by_cases hd : d ∈ s.list l
  · exact Or.inl ⟨hd, if_pos hd⟩
  · exact Or.inr ⟨hd, if_neg hd⟩

theorem occ_remove_entry (hd : d ∈ s.list l) (c : Nat) :
    occ (csr_ll_remove_entry s l d).1 c + one d c = occ s c := by
  unfold csr_ll_remove_entry
  rw [if_pos hd]
  dsimp only
  have h := @occ_update s { s with list := update s.list l ((s.list l).erase d) } l _ rfl c
  have hcount : (s.list l).count c = ((s.list l).erase d).count c + one d c := by
    rw [(perm_cons_erase hd).count_eq, count_cons_one]
  omega

theorem remove_head_cases (s : State) (l : Place) :
    (∃ d x, s.list l = d :: x ∧
      csr_ll_remove_head s l = ({ s with list := update s.list l x }, some d)) ∨
    s.list l = [] ∧ csr_ll_remove_head s l = (s, none) := by
  unfold csr_ll_remove_head
  cases h : s.list l with
  | nil => exact Or.inr ⟨rfl, rfl⟩
  | cons d x => exact Or.inl ⟨d, x, rfl, rfl⟩

theorem occ_remove_head {x : List Nat} (h : s.list l = d :: x) (c : Nat) :
    occ { s with list := update s.list l x } c + one d c = occ s c := by
  have hu := @occ_update s { s with list := update s.list l x } l _ rfl c
  rw [h, count_cons_one] at hu; omega

theorem occ_release (s : State) (d c : Nat) :
    occ (sme_release_command s d) c = occ s c + one d c :=
  occ_insert_tail (setCmd s d { s.cmd d with command := eSmeNoCommand }) .smeCmdFreeList d c

theorem occ_complete (s : State) (isScan : Bool) (d c : Nat) :
    occ (complete s isScan d) c = occ s c := by
  unfold complete
  rcases remove_entry_cases s
      (if isScan then .smeScanCmdActiveList else .smeCmdActiveList) d with ⟨hd, he⟩ | ⟨hd, he⟩
  · have h := occ_remove_entry hd c
    rw [he] at h ⊢
    rw [occ_release]; exact h
  · rw [he]

theorem occ_dropHead (s : State) (l : Place) (c : Nat) : occ (dropHead s l) c = occ s c := by
  unfold dropHead
  rcases remove_head_cases s l with ⟨d, x, hx, he⟩ | ⟨-, he⟩
  · rw [he]; rw [occ_release, occ_remove_head hx]
  · rw [he]

theorem occ_handle (h : o.released = false) (d c : Nat) : occ (handle s d o) c = occ s c := by
  have hfold : ∀ (x : List (Bool × Nat)) (s : State),
      occ (x.foldl (fun s d => complete s d.1 d.2) s) c = occ s c := by
    intro x
    induction x with
    | nil => exact fun _ => rfl
    | cons d x ih =>
      intro s
      rw [foldl_cons, ih]; exact occ_complete s d.1 d.2 c
  unfold handle
  rw [h]; exact hfold o.completed s

/-! ## Purging -/

/-- A command that is not released when it is aborted. -/
def isPmc (m : Cmd) : Prop := m.command &&& eSmePmcCommandMask ≠ 0
deriving Decidable

theorem occ_abort (h : ¬ isPmc (s.cmd d)) (c : Nat) :
    occ (sme_abort_command s d) c = occ s c + one d c := by
  unfold isPmc at h
  unfold sme_abort_command
  rw [if_neg h]
  split
  · exact occ_release s d c
  · exact occ_release s d c

theorem abort_not_isPmc (h : ¬ isPmc (s.cmd c)) (d : Nat) :
    ¬ isPmc ((sme_abort_command s d).cmd c) := by
  have hrel : ¬ isPmc ((sme_release_command s d).cmd c) := by
    by_cases hcd : c = d
    · subst hcd; simp [sme_release_command, csr_ll_insert_tail, setCmd, isPmc, eSmeNoCommand]
    · simpa [sme_release_command, csr_ll_insert_tail, setCmd, hcd] using h
  unfold sme_abort_command
  split
  · exact h
  · split
    · exact hrel
    · exact hrel

theorem abort_list (hl : l ≠ .smeCmdFreeList) (d : Nat) :
    (sme_abort_command s d).list l = s.list l := by
  have hrel : (sme_release_command s d).list l = s.list l := update_of_ne hl _ _
  unfold sme_abort_command
  split
  · rfl
  · split
    · exact hrel
    · exact hrel

theorem releaseLoop_keeps (n : Nat) (s : State) :
    (∀ c, ¬ isPmc (s.cmd c) → ¬ isPmc ((releaseLoop l n s).cmd c)) ∧
    ∀ l', l' ≠ l → l' ≠ .smeCmdFreeList → (releaseLoop l n s).list l' = s.list l' := by
  induction n generalizing s with
  | zero => exact ⟨fun _ => id, fun _ _ _ => rfl⟩
  | succ n ih =>
    unfold releaseLoop
    rcases remove_head_cases s l with ⟨d, x, -, he⟩ | ⟨-, he⟩
    · rw [he]
      have hkeep : ∀ c, ¬ isPmc (s.cmd c) →
          ¬ isPmc ((sme_abort_command { s with list := update s.list l x } d).cmd c) :=
        fun c hc => abort_not_isPmc (s := { s with list := update s.list l x }) hc d
      refine ⟨fun c hc => (ih _).1 c (hkeep c hc), fun l' hl hf => ?_⟩
      rw [(ih _).2 l' hl hf, abort_list hf d]; exact update_of_ne hl _ _
    · rw [he]; exact ⟨fun _ => id, fun _ _ _ => rfl⟩

theorem occ_releaseLoop (hl : l ≠ .smeCmdFreeList) (n : Nat) (s : State)
    (h : ∀ d ∈ s.list l, ¬ isPmc (s.cmd d)) (c : Nat) : occ (releaseLoop l n s) c = occ s c := by
  induction n generalizing s with
  | zero => rfl
  | succ n ih =>
    unfold releaseLoop
    rcases remove_head_cases s l with ⟨d, x, hx, he⟩ | ⟨-, he⟩
    · rw [he]
      rw [hx] at h
      have hd : ¬ isPmc (s.cmd d) := h d mem_cons_self
      rw [ih, occ_abort (s := { s with list := update s.list l x }) hd, occ_remove_head hx]
      intro b hb
      rw [abort_list hl] at hb
      dsimp only at hb
      rw [update_self] at hb
      exact abort_not_isPmc (s := { s with list := update s.list l x })
        (h b (mem_cons_of_mem d hb)) d
    · rw [he]

def NoPmc (s : State) (l : Place) : Prop := ∀ c ∈ s.list l, ¬ isPmc (s.cmd c)

theorem NoPmc.released {l' : Place} (h : NoPmc s l) (hl : l ≠ l') (hf : l ≠ .smeCmdFreeList) :
    NoPmc (sme_release_cmd_list s l') l := by
  intro c hc
  obtain ⟨hcmd, hlist⟩ := @releaseLoop_keeps l' (s.list l').length s
  refine hcmd c (h c ?_)
  rwa [← hlist l hl hf]

theorem occ_purge (h : NoPmc s .smeCmdPendingList) (h' : NoPmc s .smeCmdActiveList)
    (h₁ : NoPmc s .smeScanCmdPendingList) (h₂ : NoPmc s .smeScanCmdActiveList) (c : Nat) :
    occ (purge_sme_cmd_list s) c = occ s c := by
  have hone : ∀ (s : State) (l : Place), l ≠ .smeCmdFreeList → NoPmc s l →
      occ (sme_release_cmd_list s l) c = occ s c :=
    fun s l hl hn => occ_releaseLoop hl _ s hn c
  unfold purge_sme_cmd_list
  rw [hone _ .smeScanCmdActiveList (by decide)
      (((h₂.released (by decide) (by decide)).released (by decide) (by decide)).released
        (by decide) (by decide)),
    hone _ .smeScanCmdPendingList (by decide)
      ((h₁.released (by decide) (by decide)).released (by decide) (by decide)),
    hone _ .smeCmdActiveList (by decide) (h'.released (by decide) (by decide)),
    hone _ .smeCmdPendingList (by decide) h]

theorem toLocalList_fold (sessionId : UInt8) (x : List Nat) (r : State × List Nat) (c : Nat) :
    (x.foldl (toLocalList sessionId l) r).1.cmd = r.1.cmd ∧
    occ (x.foldl (toLocalList sessionId l) r).1 c + (x.foldl (toLocalList sessionId l) r).2.count c
      = occ r.1 c + r.2.count c ∧
    ∀ d ∈ (x.foldl (toLocalList sessionId l) r).2,
      d ∈ r.2 ∨ d ∈ r.1.list l ∧ (r.1.cmd d).sessionId = sessionId := by
  induction x generalizing r with
  | nil => exact ⟨rfl, rfl, fun d => Or.inl⟩
  | cons b x ih =>
    rw [foldl_cons]
    obtain ⟨hcmd, hocc, hmem⟩ := ih (toLocalList sessionId l r b)
    by_cases hs : (r.1.cmd b).sessionId = sessionId
    · rcases remove_entry_cases r.1 l b with ⟨hb, he⟩ | ⟨hb, he⟩
      · have hr : toLocalList sessionId l r b = ((csr_ll_remove_entry r.1 l b).1, r.2 ++ [b]) := by
          rw [toLocalList, if_pos hs, he]
        have hone := occ_remove_entry hb c
        rw [hr] at hcmd hocc hmem ⊢
        refine ⟨hcmd.trans ?_, ?_, fun d hd => ?_⟩
        · rw [he]
        · rw [hocc]
          dsimp only
          rw [count_append, count_cons_one, count_nil]; omega
        · rcases hmem d hd with hd | ⟨hd, hds⟩
          · rcases mem_append.mp hd with hd | hd
            · exact Or.inl hd
            · obtain rfl := mem_singleton.mp hd; exact Or.inr ⟨hb, hs⟩
          · rw [he] at hd hds
            dsimp only at hd hds
            rw [update_self] at hd; exact Or.inr ⟨mem_of_mem_erase hd, hds⟩
      · have hr : toLocalList sessionId l r b = r := by rw [toLocalList, if_pos hs, he]
        rw [hr] at hcmd hocc hmem ⊢
        exact ⟨hcmd, hocc, hmem⟩
    · have hr : toLocalList sessionId l r b = r := if_neg hs
      rw [hr] at hcmd hocc hmem ⊢
      exact ⟨hcmd, hocc, hmem⟩

theorem occ_abort_fold (x : List Nat) (s : State) (h : ∀ d ∈ x, ¬ isPmc (s.cmd d)) (c : Nat) :
    occ (x.foldl sme_abort_command s) c = occ s c + x.count c := by
  induction x generalizing s with
  | nil => rfl
  | cons d x ih =>
    rw [foldl_cons, ih, occ_abort (h d mem_cons_self), count_cons_one]
    · omega
    · exact fun b hb => abort_not_isPmc (h b (mem_cons_of_mem d hb)) d

theorem occ_purge_session {sessionId : UInt8}
    (h : ∀ d ∈ s.list l, (s.cmd d).sessionId = sessionId → ¬ isPmc (s.cmd d)) (c : Nat) :
    occ (purge_sme_session_cmd_list s sessionId l) c = occ s c := by
  obtain ⟨hcmd, hocc, hmem⟩ := @toLocalList_fold l sessionId (s.list l) (s, []) c
  unfold purge_sme_session_cmd_list
  rw [occ_abort_fold]
  · simpa using hocc
  · intro d hd
    rw [hcmd]
    rcases hmem d hd with hd | ⟨hd, hds⟩
    · cases hd
    · exact h d hd hds

/-! ## One active command -/

structure Shrinks (s s' : State) : Prop where
  active : (s'.list .smeCmdActiveList).length ≤ (s.list .smeCmdActiveList).length
  activations : s'.activations = s.activations

theorem Shrinks.refl (s : State) : Shrinks s s := ⟨Nat.le_refl _, rfl⟩

theorem Shrinks.trans {t : State} (h : Shrinks s s') (h' : Shrinks s' t) : Shrinks s t :=
  ⟨Nat.le_trans h'.active h.active, h'.activations.trans h.activations⟩

theorem shrinks_update {x : List Nat} (h : s'.list = update s.list l x)
    (hx : l = .smeCmdActiveList → x.length ≤ (s.list .smeCmdActiveList).length)
    (ha : s'.activations = s.activations) : Shrinks s s' := by
  refine ⟨?_, ha⟩
  rw [h]
  by_cases hl : l = .smeCmdActiveList
  · rw [hl, update_self]; exact hx hl
  · rw [update_of_ne (Ne.symm hl)]

theorem shrinks_insert_tail (hl : l ≠ .smeCmdActiveList) (s : State) (d : Nat) :
    Shrinks s (csr_ll_insert_tail s l d) :=
  shrinks_update rfl (fun h => absurd h hl) rfl

theorem shrinks_insert_head (hl : l ≠ .smeCmdActiveList) (s : State) (d : Nat) :
    Shrinks s (csr_ll_insert_head s l d) :=
  shrinks_update rfl (fun h => absurd h hl) rfl

theorem shrinks_remove_entry (s : State) (l : Place) (d : Nat) :
    Shrinks s (csr_ll_remove_entry s l d).1 := by
  rcases remove_entry_cases s l d with ⟨hd, he⟩ | ⟨-, he⟩
  · rw [he]
    refine shrinks_update rfl (fun h => ?_) rfl
    subst h; exact length_erase_le
  · rw [he]; exact .refl s

theorem shrinks_remove_head (s : State) (l : Place) : Shrinks s (csr_ll_remove_head s l).1 := by
  rcases remove_head_cases s l with ⟨d, x, hx, he⟩ | ⟨-, he⟩
  · rw [he]
    refine shrinks_update rfl (fun h => ?_) rfl
    subst h
    rw [hx]; exact Nat.le_succ _
  · rw [he]; exact .refl s

theorem shrinks_release (s : State) (d : Nat) : Shrinks s (sme_release_command s d) :=
  shrinks_update rfl (fun h => absurd h (by decide)) rfl

theorem shrinks_abort (s : State) (d : Nat) : Shrinks s (sme_abort_command s d) := by
  unfold sme_abort_command
  split
  · exact .refl s
  · split
    · exact shrinks_release s d
    · exact shrinks_release s d

theorem shrinks_foldl {α : Type} {f : State → α → State} (hf : ∀ s a, Shrinks s (f s a))
    (x : List α) (s : State) : Shrinks s (x.foldl f s) := by
  induction x generalizing s with
  | nil => exact .refl s
  | cons a x ih => exact (hf s a).trans (ih _)

theorem shrinks_complete (s : State) (isScan : Bool) (d : Nat) :
    Shrinks s (complete s isScan d) := by
  have hr := shrinks_remove_entry s (if isScan then .smeScanCmdActiveList else .smeCmdActiveList) d
  unfold complete
  split
  · rename_i s' he
    rw [he] at hr; exact hr.trans (shrinks_release s' d)
  · rename_i s' he
    rw [he] at hr; exact hr

theorem shrinks_handle (s : State) (d : Nat) (o : Outcome) : Shrinks s (handle s d o) := by
  have hc := shrinks_foldl (fun s (d : Bool × Nat) => shrinks_complete s d.1 d.2) o.completed s
  unfold handle
  by_cases hr : o.released = true
  · simp only [hr]
    exact ⟨(hc.trans (shrinks_release _ d)).active, (hc.trans (shrinks_release _ d)).activations⟩
  · simp only [hr]; exact ⟨hc.active, hc.activations⟩

theorem shrinks_releaseLoop (l : Place) (n : Nat) (s : State) : Shrinks s (releaseLoop l n s) := by
  induction n generalizing s with
  | zero => exact .refl s
  | succ n ih =>
    have hr := shrinks_remove_head s l
    unfold releaseLoop
    split
    · rename_i s' d he
      rw [he] at hr; exact hr.trans ((shrinks_abort s' d).trans (ih _))
    · rename_i s' he
      rw [he] at hr; exact hr

theorem shrinks_purge (s : State) : Shrinks s (purge_sme_cmd_list s) :=
  (shrinks_releaseLoop _ _ _).trans ((shrinks_releaseLoop _ _ _).trans
    ((shrinks_releaseLoop _ _ _).trans (shrinks_releaseLoop _ _ _)))

theorem shrinks_purge_session (s : State) (sessionId : UInt8) (l : Place) :
    Shrinks s (purge_sme_session_cmd_list s sessionId l) := by
  have hlocal : ∀ (x : List Nat) (r : State × List Nat),
      Shrinks r.1 (x.foldl (toLocalList sessionId l) r).1 := by
    intro x
    induction x with
    | nil => exact fun r => .refl r.1
    | cons d x ih =>
      intro r
      refine Shrinks.trans ?_ (ih (toLocalList sessionId l r d))
      have hr := shrinks_remove_entry r.1 l d
      unfold toLocalList
      split
      · split
        · rename_i s' he
          rw [he] at hr; exact hr
        · rename_i s' he
          rw [he] at hr; exact hr
      · exact .refl r.1
  exact (hlocal (s.list l) (s, [])).trans (shrinks_foldl shrinks_abort _ _)

theorem shrinks_get_command_buffer (s : State) : Shrinks s (sme_get_command_buffer s).1 := by
  have hr := shrinks_remove_head s .smeCmdFreeList
  unfold sme_get_command_buffer
  split
  · rename_i s' c he
    rw [he] at hr; exact ⟨hr.active, hr.activations⟩
  · rename_i s' he
    rw [he] at hr; exact hr

theorem cmdSwitch_cases (s : State) (c : Nat) (o : Outcome) :
    (cmdSwitch s c o).1 = s ∨ (cmdSwitch s c o).1 = handle s c o ∨
    (cmdSwitch s c o).1 = removeFailed (handle s c o) c ∨
    (cmdSwitch s c o).1 = dropHead s .smeCmdActiveList := by
  unfold cmdSwitch
  dsimp only
  split_ifs <;> simp

theorem shrinks_dropHead (s : State) (l : Place) : Shrinks s (dropHead s l) := by
  have hr := shrinks_remove_head s l
  unfold dropHead
  split
  · rename_i s' c he
    rw [he] at hr; exact hr.trans (shrinks_release s' c)
  · rename_i s' he
    rw [he] at hr; exact hr

theorem shrinks_scanSwitch (s : State) (c : Nat) (o : Outcome) : Shrinks s (scanSwitch s c o) := by
  unfold scanSwitch
  split
  · exact shrinks_handle s c o
  · exact shrinks_dropHead s _

theorem shrinks_cmdSwitch (s : State) (c : Nat) (o : Outcome) : Shrinks s (cmdSwitch s c o).1 := by
  rcases cmdSwitch_cases s c o with h | h | h | h
  · rw [h]; exact .refl s
  · rw [h]; exact shrinks_handle s c o
  · rw [h]; exact (shrinks_handle s c o).trans (shrinks_complete _ _ _)
  · rw [h]; exact shrinks_dropHead s _

/-! ## Processing -/

theorem occ_scanSwitch (ho : o.released = false) (s : State) (c d : Nat) :
    occ (scanSwitch s c o) d = occ s d := by
  unfold scanSwitch
  split
  · exact occ_handle ho c d
  · exact occ_dropHead s _ d

theorem occ_cmdSwitch (ho : o.released = false) (s : State) (c d : Nat) :
    occ (cmdSwitch s c o).1 d = occ s d := by
  rcases cmdSwitch_cases s c o with h | h | h | h
  · rw [h]
  · rw [h, occ_handle ho]
  · rw [h, removeFailed, occ_complete, occ_handle ho]
  · rw [h, occ_dropHead]

/-- One command is active at most, and when a command was made active none of its session was on
the other list. -/
structure Apart (s : State) : Prop where
  active : (s.list .smeCmdActiveList).length ≤ 1
  activations : ∀ a ∈ s.activations, a.sessionId ∉ a.others

theorem Apart.shrinks (h : Apart s) (hs : Shrinks s s') : Apart s' where
  active := Nat.le_trans hs.active h.active
  activations := fun a ha => h.activations a (hs.activations ▸ ha)

theorem occ_scan_queue (ho : o.released = false) (s : State) (d : Nat) :
    occ (sme_process_scan_queue s o).1 d = occ s d := by
  unfold sme_process_scan_queue
  dsimp only
  split
  · rfl
  · rename_i c hc
    split
    · rfl
    · split
      · rfl
      · rcases remove_entry_cases s .smeScanCmdPendingList c with ⟨hmem, he⟩ | ⟨-, he⟩
        · have hone := occ_remove_entry hmem d
          rw [he] at hone ⊢
          rw [occ_scanSwitch ho]; exact (occ_insert_head _ _ c d).trans hone
        · rw [he]

theorem Apart.scan_queue (h : Apart s) (o : Outcome) : Apart (sme_process_scan_queue s o).1 := by
  unfold sme_process_scan_queue
  dsimp only
  split
  · exact h
  · rename_i c hc
    split
    · exact h
    · rename_i hsess
      split
      · exact h
      · rcases remove_entry_cases s .smeScanCmdPendingList c with ⟨hmem, he⟩ | ⟨-, he⟩
        · rw [he]
          refine Apart.shrinks ?_ (shrinks_scanSwitch _ c o)
          refine ⟨h.active, fun a ha => ?_⟩
          rcases mem_append.mp ha with ha | ha
          · exact h.activations a ha
          · obtain rfl := mem_singleton.mp ha
            -- there is one active command, and it was compared
            intro hin
            obtain ⟨d, hd, hds⟩ := mem_map.mp hin
            obtain ⟨x, hx⟩ : ∃ x, s.list .smeCmdActiveList = [x] := by
              have hd' : d ∈ s.list .smeCmdActiveList := hd
              refine length_eq_one_iff.mp ?_
              have := length_pos_of_mem hd'
              have := h.active
              omega
            have hdx : d = x := mem_singleton.mp (hx ▸ (hd : d ∈ s.list .smeCmdActiveList))
            subst hdx
            have hds' : (s.cmd d).sessionId = (s.cmd c).sessionId := hds
            exact hsess (by simp [hx, hds'])
        · rw [he]; exact h

theorem occ_activate (ho : o.released = false) (s : State) (c d : Nat) :
    occ (activate s c o).1 d = occ s d := by
  unfold activate
  rcases remove_entry_cases s .smeCmdPendingList c with ⟨hmem, he⟩ | ⟨-, he⟩
  · have hone := occ_remove_entry hmem d
    rw [he] at hone ⊢
    rw [occ_cmdSwitch ho]; exact (occ_insert_head _ _ c d).trans hone
  · rw [he]

theorem Apart.activate (h : Apart s) (h0 : s.list .smeCmdActiveList = [])
    (hsess : ∀ d ∈ s.list .smeScanCmdActiveList, (s.cmd d).sessionId ≠ (s.cmd c).sessionId)
    (o : Outcome) : Apart (activate s c o).1 := by
  unfold SmeCmd.activate
  rcases remove_entry_cases s .smeCmdPendingList c with ⟨hmem, he⟩ | ⟨-, he⟩
  · rw [he]
    refine Apart.shrinks ?_ (shrinks_cmdSwitch _ c o)
    refine ⟨?_, fun a ha => ?_⟩
    · simp [activated, csr_ll_insert_head, h0]
    · rcases mem_append.mp ha with ha | ha
      · exact h.activations a ha
      · obtain rfl := mem_singleton.mp ha
        intro hin
        obtain ⟨d, hd, hds⟩ := mem_map.mp hin
        exact hsess d hd hds
  · rw [he]; exact h

theorem prepare_disconnect_cases (s : State) (session_id : UInt8) :
    (∃ d x, s.list .smeCmdFreeList = d :: x ∧
      csr_prepare_disconnect_command s session_id
        = (setCmd (setCmd { s with list := update s.list .smeCmdFreeList x } d ⟨0, 0, 0⟩) d
            ⟨eSmeCommandRoam, session_id, eCsrForcedDisassoc⟩, some d)) ∨
    s.list .smeCmdFreeList = [] ∧ csr_prepare_disconnect_command s session_id = (s, none) := by
  unfold csr_prepare_disconnect_command sme_get_command_buffer
  rcases remove_head_cases s .smeCmdFreeList with ⟨d, x, hx, he⟩ | ⟨hx, he⟩
  · rw [he]; exact Or.inl ⟨d, x, hx, rfl⟩
  · rw [he]; exact Or.inr ⟨hx, rfl⟩

/-- The command has to wait for the key of its session. -/
def mustWait (s : State) (c : Nat) : Prop :=
  s.waitForKey (s.cmd c).sessionId = true ∧ CSR_IS_DISCONNECT_COMMAND (s.cmd c) = false ∧
    CSR_IS_SET_KEY_COMMAND (s.cmd c) = false
deriving Decidable

/-- The command that `sme_process_command` makes active, or that it makes active a disconnect
command of the same session for. -/
def toActivate (s : State) : Option Nat :=
  if s.list .smeCmdActiveList ≠ [] then none
  else (pendingToProcess s).filter fun c =>
    !mustWait s c ∨
      (CSR_IS_CLOSE_SESSION_COMMAND (s.cmd c) = true ∧ s.list .smeCmdFreeList ≠ [])

def FirstScanOnly (s : State) : Prop :=
  ∀ c ∈ toActivate s, ∀ d ∈ (s.list .smeScanCmdActiveList).tail,
    (s.cmd d).sessionId ≠ (s.cmd c).sessionId
deriving Decidable

theorem pendingToProcess_head (h : pendingToProcess s = some c)
    (hd : d ∈ s.list .smeScanCmdActiveList)
    (htail : ∀ b ∈ (s.list .smeScanCmdActiveList).tail, (s.cmd b).sessionId ≠ (s.cmd c).sessionId) :
    (s.cmd d).sessionId ≠ (s.cmd c).sessionId := by
  unfold pendingToProcess at h
  cases hx : s.list .smeScanCmdActiveList with
  | nil => rw [hx] at hd; cases hd
  | cons b x =>
    rw [hx] at h hd htail
    rcases mem_cons.mp hd with rfl | hd
    · have := find?_some h; exact fun heq => by simp [heq] at this
    · exact htail d hd

theorem toActivate_eq_some (h0 : s.list .smeCmdActiveList = []) (hp : pendingToProcess s = some c)
    (hw : mustWait s c →
      CSR_IS_CLOSE_SESSION_COMMAND (s.cmd c) = true ∧ s.list .smeCmdFreeList ≠ []) :
    toActivate s = some c := by
  unfold toActivate
  rw [if_neg (not_not.mpr h0), hp]
  refine filter_eq_some_iff.mpr ⟨rfl, ?_⟩
  by_cases hm : mustWait s c
  · simp [hw hm]
  · simp [hm]

/-- Each of the `n` command buffers is in one place. -/
def Kept (n : Nat) (s : State) : Prop := ∀ c, occ s c = if c < n then 1 else 0

variable {n : Nat}

theorem Kept.once (h : Kept n s) (hc : c < n) :
    ∃ l, (s.list l).count c = 1 ∧ ∀ l', l' ≠ l → c ∉ s.list l' := by
  have h1 : occ s c = 1 := by rw [h c, if_pos hc]
  obtain ⟨l, -, hl, hother⟩ := tally_eq_one _ _ (by decide) h1
  exact ⟨l, hl, fun l' hne => count_eq_zero.mp (hother l' (mem_all l') hne)⟩

theorem Kept.lt (h : Kept n s) (hc : c ∈ s.list l) : c < n := by
  by_contra hn
  have h0 := h c
  rw [if_neg hn] at h0
  have hle : (s.list l).count c ≤ occ s c := le_tally (fun x => x.count c) s.list (mem_all l)
  have := count_pos_iff.mpr hc
  omega

theorem Kept.unique {l' : Place} (h : Kept n s) (hc : c ∈ s.list l) (hc' : c ∈ s.list l') :
    l = l' := by
  obtain ⟨k, -, hother⟩ := h.once (h.lt hc)
  have hk : l = k := by by_contra hne; exact hother l hne hc
  have hk' : l' = k := by by_contra hne; exact hother l' hne hc'
  rw [hk, hk']

theorem occ_processCmdQueue (ho : o.released = false) (s : State) (b : Nat) :
    occ (processCmdQueue s o).1 b = occ s b := by
  unfold processCmdQueue
  split
  · rfl
  · split
    · rfl
    · rename_i c hp
      split
      · split
        · rcases prepare_disconnect_cases s (s.cmd c).sessionId with ⟨d, x, hx, he⟩ | ⟨-, he⟩
          · rw [he]
            rw [occ_activate ho, occ_insert_head]; exact occ_remove_head hx b
          · rw [he]
        · rfl
      · exact occ_activate ho s c b

theorem Apart.processCmdQueue (h : Apart s) (hk : Kept n s) (hf : FirstScanOnly s) (o : Outcome) :
    Apart (processCmdQueue s o).1 := by
  unfold SmeCmd.processCmdQueue
  split
  · exact h
  · rename_i h0
    rw [not_not] at h0
    split
    · exact h
    · rename_i c hp
      split
      · split
        · rename_i hclose
          rcases prepare_disconnect_cases s (s.cmd c).sessionId with ⟨d, x, hx, he⟩ | ⟨-, he⟩
          · rw [he]
            have hto := toActivate_eq_some h0 hp fun _ => ⟨hclose, by simp [hx]⟩
            have hfree : d ∈ s.list .smeCmdFreeList := by simp [hx]
            apply Apart.activate
            · exact ⟨h.active, h.activations⟩
            · exact h0
            · intro b hb
              have hb' : b ∈ s.list .smeScanCmdActiveList := hb
              have hbd : b ≠ d := fun heq => absurd (hk.unique (heq ▸ hb') hfree) (by decide)
              have hbc := pendingToProcess_head hp hb' (hf c hto)
              simpa [csr_ll_insert_head, setCmd, hbd] using hbc
          · rw [he]; exact h
        · exact h
      · rename_i hwait
        have hto := toActivate_eq_some h0 hp fun hm =>
          absurd ⟨hm.1, by simp [hm.2.1], by simp [hm.2.2]⟩ hwait
        exact h.activate h0 (fun b hb => pendingToProcess_head hp hb (hf c hto)) o

/-! ## Runs -/

structure Inv (n : Nat) (s : State) : Prop where
  kept : Kept n s
  apart : Apart s

def Ok (s : State) : Op → Prop
  | .push _ _ _ => s.started = true
  | .purge => NoPmc s .smeCmdPendingList ∧ NoPmc s .smeCmdActiveList ∧
      NoPmc s .smeScanCmdPendingList ∧ NoPmc s .smeScanCmdActiveList
  | .purgeSession sessionId l =>
    ∀ d ∈ s.list l, (s.cmd d).sessionId = sessionId → ¬ isPmc (s.cmd d)
  | .processCommand o o' => o.released = false ∧ o'.released = false ∧ FirstScanOnly s
  | _ => True

theorem Inv.of_occ (hi : Inv n s) (ho : ∀ c, occ s' c = occ s c) (hs : Shrinks s s') : Inv n s' where
  kept := fun c => (ho c).trans (hi.kept c)
  apart := hi.apart.shrinks hs

theorem Inv.processCommand (hi : Inv n s) (ho : o.released = false) (ho' : o'.released = false)
    (hf : FirstScanOnly s) : Inv n (sme_process_command s o o').1 where
  kept := fun c => (occ_scan_queue ho' _ c).trans
    ((occ_processCmdQueue ho s c).trans (hi.kept c))
  apart := (hi.apart.processCmdQueue hi.kept hf o).scan_queue o'

theorem Inv.getCommandBuffer (hi : Inv n s)
    (h : step s .getCommandBuffer = some s') (hl : s.looping = false) : Inv n s' := by
  unfold step at h
  rw [hl] at h
  have hs := shrinks_get_command_buffer s
  unfold sme_get_command_buffer at h hs
  rcases remove_head_cases s .smeCmdFreeList with ⟨d, x, hx, he⟩ | ⟨-, he⟩
  · rw [he] at h hs
    simp only [some.injEq] at h
    subst h
    refine hi.of_occ (fun c => ?_) (hs.trans (shrinks_insert_tail (by decide) _ d))
    rw [occ_insert_tail]; exact occ_remove_head hx c
  · rw [he] at h
    simp only [some.injEq] at h
    exact h ▸ hi

theorem Inv.push {m : Cmd} {high : Bool} (hi : Inv n s) (hc : c ∈ s.list .caller)
    (hstart : s.started = true) : Inv n (sme_push_command s c m high) := by
  have hone : ∀ b, occ (csr_ll_remove_entry (setCmd s c m) .caller c).1 b + one c b = occ s b :=
    fun b => occ_remove_entry (s := setCmd s c m) hc b
  have hset : Shrinks s (setCmd s c m) := ⟨Nat.le_refl _, rfl⟩
  have hsh := hset.trans (shrinks_remove_entry (setCmd s c m) .caller c)
  have hst : (csr_ll_remove_entry (setCmd s c m) .caller c).1.started = true := by
    unfold csr_ll_remove_entry
    split <;> exact hstart
  unfold sme_push_command
  dsimp only
  rw [hst]
  cases high with
  | true =>
    have hp := hsh.trans (shrinks_insert_head (l := .smeCmdPendingList) (by decide) _ c)
    refine hi.of_occ (fun b => ?_) ⟨hp.active, hp.activations⟩
    exact (occ_insert_head _ .smeCmdPendingList c b).trans (hone b)
  | false =>
    have hp := hsh.trans (shrinks_insert_tail (l := .smeCmdPendingList) (by decide) _ c)
    refine hi.of_occ (fun b => ?_) ⟨hp.active, hp.activations⟩
    exact (occ_insert_tail _ .smeCmdPendingList c b).trans (hone b)

theorem Inv.queueScan {m : Cmd} (hi : Inv n s) (hc : c ∈ s.list .caller) :
    Inv n (csr_queue_sme_command s c m) := by
  have hone : ∀ b, occ (csr_ll_remove_entry (setCmd s c m) .caller c).1 b + one c b = occ s b :=
    fun b => occ_remove_entry (s := setCmd s c m) hc b
  have hset : Shrinks s (setCmd s c m) := ⟨Nat.le_refl _, rfl⟩
  have hsh := hset.trans (shrinks_remove_entry (setCmd s c m) .caller c)
  unfold csr_queue_sme_command
  dsimp only
  split
  · exact hi.of_occ (fun b => rfl) hset
  · have hp := hsh.trans (shrinks_insert_tail (l := .smeScanCmdPendingList) (by decide) _ c)
    refine hi.of_occ (fun b => ?_) ⟨hp.active, hp.activations⟩
    exact (occ_insert_tail _ .smeScanCmdPendingList c b).trans (hone b)

theorem Inv.step {e : Op} (hi : Inv n s) (hok : Ok s e) (h : step s e = some s') : Inv n s' := by
  by_cases hl : s.looping = true
  · cases e with
    | processCommand o o' =>
      simp only [SmeCmd.step, hl, some.injEq] at h
      have hp := hi.processCommand hok.1 hok.2.1 hok.2.2
      subst h; exact ⟨hp.kept, hp.apart.active, hp.apart.activations⟩
    | _ => simp only [SmeCmd.step, hl] at h; exact absurd h (by simp)
  · rw [Bool.not_eq_true] at hl
    cases e with
    | getCommandBuffer => exact hi.getCommandBuffer h hl
    | push c m high =>
      simp only [SmeCmd.step, hl, ite_none_right_eq_some, some.injEq] at h
      obtain ⟨hc, rfl⟩ := h
      exact hi.push hc hok
    | queueScan c m =>
      simp only [SmeCmd.step, hl, ite_none_right_eq_some, some.injEq] at h
      obtain ⟨hc, rfl⟩ := h
      exact hi.queueScan hc.1
    | release c =>
      simp only [SmeCmd.step, hl, ite_none_right_eq_some, some.injEq] at h
      obtain ⟨hc, rfl⟩ := h
      refine hi.of_occ (fun b => ?_)
        ((shrinks_remove_entry s .caller c).trans (shrinks_release _ c))
      rw [occ_release]; exact occ_remove_entry hc b
    | processCommand o o' => simp only [SmeCmd.step, hl] at h; exact absurd h (by simp)
    | complete isScan c =>
      simp only [SmeCmd.step, hl, some.injEq] at h
      subst h; exact hi.of_occ (occ_complete s isScan c) (shrinks_complete s isScan c)
    | purgeSession sessionId l =>
      simp only [SmeCmd.step, hl, ite_none_right_eq_some, some.injEq] at h
      obtain ⟨-, rfl⟩ := h
      exact hi.of_occ (occ_purge_session hok) (shrinks_purge_session s sessionId l)
    | purge =>
      simp only [SmeCmd.step, hl, some.injEq] at h
      subst h; exact hi.of_occ (occ_purge hok.1 hok.2.1 hok.2.2.1 hok.2.2.2) (shrinks_purge s)
    | processPendingQueue | setStarted started | setWaitForKey waitForKey =>
      simp only [SmeCmd.step, hl, some.injEq] at h
      subst h; exact ⟨hi.kept, hi.apart.active, hi.apart.activations⟩

theorem inv_init (n : Nat) : Inv n (init n) where
  kept := fun c => by
    have h : occ (init n) c = (range n).count c := by simp [occ, tally, Place.all, init]
    rw [h]
    by_cases hc : c < n
    · rw [if_pos hc]; exact count_eq_one_of_mem nodup_range (mem_range.mpr hc)
    · rw [if_neg hc]; exact count_eq_zero_of_not_mem fun hm => hc (mem_range.mp hm)
  apart := ⟨Nat.zero_le 1, nofun⟩

theorem Inv.all_free (hi : Inv n s) (h : ∀ l, l ≠ .smeCmdFreeList → s.list l = []) :
    (s.list .smeCmdFreeList).Perm (range n) := by
  rw [perm_iff_count]
  intro c
  have hfree : occ s c = (s.list .smeCmdFreeList).count c := by simp [occ, tally, Place.all, h]
  rw [← hfree, hi.kept c, ← (inv_init n).kept c]; simp [occ, tally, Place.all, init]

instance (s : State) (l : Place) : Decidable (NoPmc s l) :=
  inferInstanceAs (Decidable (∀ c ∈ s.list l, ¬ (s.cmd c).command &&& eSmePmcCommandMask ≠ 0))

instance (s : State) (e : Op) : Decidable (Ok s e) := by
  unfold Ok
  split <;> infer_instance

/-- In a run of such steps every command is in one place, so that with nothing left to do all are
free; one command is active at most; and no command is made active while one of its session is on
the other active list. -/
theorem queues_run {es : List Op} (h : run (guarded Ok step) (init n) es = some s) :
    (∀ c < n, ∃ l, (s.list l).count c = 1 ∧ ∀ l', l' ≠ l → c ∉ s.list l') ∧
    ((∀ l, l ≠ .smeCmdFreeList → s.list l = []) →
      (s.list .smeCmdFreeList).Perm (range n)) ∧
    (s.list .smeCmdActiveList).length ≤ 1 ∧
    ∀ a ∈ s.activations, a.sessionId ∉ a.others := by
  have hi : Inv n s :=
    guarded_run_invariant (fun _ _ _ ht hok hst => Inv.step ht hok hst) (inv_init n) h
  exact ⟨fun c hc => hi.kept.once hc, hi.all_free, hi.apart.active, hi.apart.activations⟩

/-- A handler that succeeds and leaves its command active. -/
def goesOn : Outcome := ⟨[], false, true, fun _ => false⟩

def scanAndRoam : List Op :=
  [.getCommandBuffer, .queueScan 0 ⟨eSmeCommandScan, 0, 0⟩, .processCommand goesOn goesOn,
    .getCommandBuffer, .push 1 ⟨eSmeCommandRoam, 1, 3⟩ false, .processCommand goesOn goesOn,
    .complete true 0, .complete false 1]

theorem queues_run_two : ∃ s, run (guarded Ok step) (init 2) scanAndRoam = some s ∧
    s.activations = [⟨0, []⟩, ⟨1, [0]⟩] ∧ (∀ a ∈ s.activations, a.sessionId ∉ a.others) ∧
    (s.list .smeCmdFreeList).Perm (range 2) := by
  have h : run (guarded Ok step) (init 2) scanAndRoam = some _ := rfl
  refine ⟨_, h, rfl, (queues_run h).2.2.2, (queues_run h).2.1 ?_⟩
  intro l hl
  cases l with
  | smeCmdFreeList => exact absurd rfl hl
  | _ => rfl

/-- Two scans are active, and a connection of the session of the second is made active; a stopped
SME drops what is pushed. -/
theorem second_scan : (∃ es s, run step (init 3) es = some s ∧
      ∃ a ∈ s.activations, a.sessionId ∈ a.others) ∧
    ∃ es s, run step (init 1) es = some s ∧ ∀ l, s.list l = [] := by
  refine ⟨⟨[.getCommandBuffer, .queueScan 0 ⟨eSmeCommandScan, 0, 0⟩,
    .processCommand goesOn goesOn, .getCommandBuffer, .queueScan 1 ⟨eSmeCommandScan, 1, 0⟩,
    .processCommand goesOn goesOn, .getCommandBuffer, .push 2 ⟨eSmeCommandRoam, 0, 3⟩ false,
    .processCommand goesOn goesOn], _, rfl, ⟨0, [1, 0]⟩, ?_, ?_⟩,
    [.getCommandBuffer, .setStarted false, .push 0 ⟨eSmeCommandOemDataReq, 0, 0⟩ false], _, rfl,
    fun l => ?_⟩
  · exact mem_of_getLast? rfl
  · exact mem_cons_of_mem 1 mem_cons_self
  · cases l <;> rfl

end Qcacld.SmeCmd
