/-
The messages of the main controller thread: `cds_api.c`, `cds_sched.c` and `cds_mq.c`.

A step is one operation on a queue, an event bit or a completion, and the threads take their steps
in any order. Posters are numbered; the MC thread may be one of them while it handles a message. The
contexts are not null, except that of the PE or the SME, and the scheduler's context is the global
one. How the handlers leave a message is up to the environment. Waking the thread has no effect of
its own, since the thread tests the bits before it waits. Where its wait is interrupted the thread
calls `CDF_BUG`, which halts the kernel in this build; the runs here include those that go on from
there, as in a build without `PANIC_ON_BUG`.
-/
import Qcacld.Lib.Places
import Qcacld.Lib.Run

set_option autoImplicit false

namespace Qcacld.CdsMc

open Lib Function

section

inductive Status
  | SUCCESS
  | E_RESOURCES
  | E_FAILURE

inductive Mq
  | sysMcMq
  | wmaMcMq
  | peMcMq
  | smeMcMq
  deriving DecidableEq

def Mq.next : Mq → Option Mq
  | .sysMcMq => some .wmaMcMq
  | .wmaMcMq => some .peMcMq
  | .peMcMq => some .smeMcMq
  | .smeMcMq => none

def CDS_MQ_ID_SME : Nat := 6
def CDS_MQ_ID_PE : Nat := 7
def CDS_MQ_ID_WMA : Nat := 8
def CDS_MQ_ID_SYS : Nat := 9

def pTargetMq (msgQueueId : Nat) : Option Mq :=
  if msgQueueId = CDS_MQ_ID_SME then some .smeMcMq
  else if msgQueueId = CDS_MQ_ID_PE then some .peMcMq
  else if msgQueueId = CDS_MQ_ID_WMA then some .wmaMcMq
  else if msgQueueId = CDS_MQ_ID_SYS then some .sysMcMq
  else none

def SIR_BB_XPORT_MGMT_MSG : Nat := 0x13B4

/-- `cds_msg_t`, without the callback. -/
structure Msg where
  type : Nat
  bodyptr : Option Nat
  bodyval : Nat

inductive Release
  | cdf_mem_free (p : Nat)
  | cds_pkt_return_packet (p : Nat)

/-- Where a poster is in `cds_mq_post_message`. -/
inductive Poster
  /-- Not in it, with what it returned last. -/
  | idle (ret : Option Status)
  /-- It has the free wrapper `w`. -/
  | got (q : Mq) (w : Nat) (msg : Msg)
  /-- Its message is on the queue and the post bit not set yet. -/
  | queued (q : Mq)

/-- Where the thread is in `cds_mc_thread`. -/
inductive Mc
  | waitEvent
  | clearPost
  | testShutdown
  | isEmpty (q : Mq)
  | get (q : Mq)
  | process (q : Mq) (w : Nat)
  | returnMsg (w : Nat)
  | testSuspend
  | clearSuspend
  | suspended
  | waitResume
  /-- Told to shut down, it answers a suspend indication first. -/
  | shutdownTestSuspend
  | shutdownClearSuspend
  | shutdownSuspended
  | exited
  deriving DecidableEq

inductive Closer
  | none
  | shutdownSet
  | waitMcShutdown
  | flushGet (q : Mq)
  | flushReturn (q : Mq) (w : Nat)
  | closed

structure State where
  freeVosMq : List Nat
  mq : Mq → List Nat
  /-- The message of each wrapper. -/
  pVosMsg : Nat → Msg
  /-- The bits of `mcEventFlag`. -/
  MC_POST_EVENT : Bool
  MC_SUSPEND_EVENT : Bool
  MC_SHUTDOWN_EVENT : Bool
  ResumeMcEvent : Nat
  mc_sus_event_var : Nat
  cds_wrapper_empty_count : Nat
  mc : Mc
  poster : Nat → Poster
  closer : Closer
  released : List Release
  /-- What was put on each queue so far. -/
  posted : Mq → List Msg
  /-- What the thread took off each queue so far. -/
  taken : Mq → List Msg
  /-- What was flushed from each queue so far. -/
  flushed : Mq → List Msg

/-! ## Posting -/

-- how many wrappers there are: `CDS_CORE_MAX_MESSAGES`
variable (maxMessages : Nat)

def init : State where
  freeVosMq := List.range maxMessages
  mq _ := []
  pVosMsg _ := ⟨0, none, 0⟩
  MC_POST_EVENT := false
  MC_SUSPEND_EVENT := false
  MC_SHUTDOWN_EVENT := false
  ResumeMcEvent := 0
  mc_sus_event_var := 0
  cds_wrapper_empty_count := 0
  mc := .waitEvent
  poster _ := .idle none
  closer := .none
  released := []
  posted _ := []
  taken _ := []
  flushed _ := []

def setPoster (s : State) (i : Nat) (p : Poster) : State :=
  { s with poster := update s.poster i p }

/-- `cds_mq_post_message` up to the wrapper it gets from the free queue. -/
def postGet (s : State) (i : Nat) (msgQueueId : Nat) (pMsg : Option Msg) : Option State :=
  match s.poster i with
  | .idle _ =>
    match pMsg, pTargetMq msgQueueId with
    | some msg, some q =>
      match s.freeVosMq with
      | [] =>
        some (setPoster { s with
          cds_wrapper_empty_count := s.cds_wrapper_empty_count + 1 } i
          (.idle (some .E_RESOURCES)))
      | w :: free =>
        some (setPoster { s with freeVosMq := free, cds_wrapper_empty_count := 0 } i
          (.got q w msg))
    | _, _ => some (setPoster s i (.idle (some .E_FAILURE)))
  | _ => none

def postPut (s : State) (i : Nat) : Option State :=
  match s.poster i with
  | .got q w msg =>
    some (setPoster { s with
      pVosMsg := update s.pVosMsg w msg
      mq := update s.mq q (s.mq q ++ [w])
      posted := update s.posted q (s.posted q ++ [msg]) } i (.queued q))
  | _ => none

def postSetBit (s : State) (i : Nat) : Option State :=
  match s.poster i with
  | .queued _ => some (setPoster { s with MC_POST_EVENT := true } i (.idle (some .SUCCESS)))
  | _ => none

/-! ## The thread -/

def afterEmpty (q : Mq) : Mc :=
  match q.next with
  | some q' => .isEmpty q'
  | none => .testSuspend

/-- `cds_mq_get` by the thread. The break at a null wrapper goes back to waiting. -/
def mcGet (s : State) (q : Mq) : State :=
  match s.mq q with
  | [] => { s with mc := .waitEvent }
  | w :: l =>
    { s with
      mq := update s.mq q l
      taken := update s.taken q (s.taken q ++ [s.pVosMsg w])
      mc := .process q w }

/-- The steps that depend on the state only. -/
def mcStep (s : State) : Option State :=
  match s.mc with
  | .waitEvent =>
    if s.MC_POST_EVENT ∨ s.MC_SUSPEND_EVENT then some { s with mc := .clearPost } else none
  | .clearPost => some { s with MC_POST_EVENT := false, mc := .testShutdown }
  | .testShutdown =>
    some { s with
      mc := if s.MC_SHUTDOWN_EVENT then .shutdownTestSuspend else .isEmpty .sysMcMq }
  | .isEmpty q => some { s with mc := if s.mq q = [] then afterEmpty q else .get q }
  | .get q => some (mcGet s q)
  | .process _ _ => none
  | .returnMsg w => some { s with freeVosMq := s.freeVosMq ++ [w], mc := .testShutdown }
  | .testSuspend =>
    some { s with mc := if s.MC_SUSPEND_EVENT then .clearSuspend else .waitEvent }
  | .clearSuspend => some { s with MC_SUSPEND_EVENT := false, mc := .suspended }
  | .suspended =>
    -- both under the lock of the thread
    some { s with
      ResumeMcEvent := 0, mc_sus_event_var := s.mc_sus_event_var + 1, mc := .waitResume }
  | .waitResume =>
    if 0 < s.ResumeMcEvent then
      some { s with ResumeMcEvent := s.ResumeMcEvent - 1, mc := .waitEvent }
    else none
  | .shutdownTestSuspend =>
    some { s with mc := if s.MC_SUSPEND_EVENT then .shutdownClearSuspend else .exited }
  | .shutdownClearSuspend => some { s with MC_SUSPEND_EVENT := false, mc := .shutdownSuspended }
  | .shutdownSuspended =>
    some { s with mc_sus_event_var := s.mc_sus_event_var + 1, mc := .exited }
  | .exited => none

/-- The message is handled, which leaves `msg` in the wrapper. -/
def mcProcess (s : State) (msg : Msg) : Option State :=
  match s.mc with
  | .process _ w => some { s with pVosMsg := update s.pVosMsg w msg, mc := .returnMsg w }
  | _ => none

/-- The context of the PE or of the SME is not there yet. -/
def mcNoContext (s : State) : Option State :=
  match s.mc with
  | .process q w => if q = .peMcMq ∨ q = .smeMcMq then some { s with mc := .returnMsg w } else none
  | _ => none

def mcInterrupted (s : State) : Option State :=
  match s.mc with
  | .waitEvent => some { s with mc := .clearPost }
  | .waitResume => some { s with mc := .waitEvent }
  | _ => none

/-! ## Closing -/

/-- What is done to a message before its wrapper goes back, by queue. -/
def flushMsg (q : Mq) (m : Msg) : Msg × List Release :=
  match q with
  | .sysMcMq => (m, [])
  | .wmaMcMq => (⟨0, none, 0⟩, (m.bodyptr.map .cdf_mem_free).toList)
  | .peMcMq =>
    (⟨0, none, 0⟩,
      (m.bodyptr.map fun p =>
        if m.type = SIR_BB_XPORT_MGMT_MSG then .cds_pkt_return_packet p
        else .cdf_mem_free p).toList)
  | .smeMcMq => (m, (m.bodyptr.map .cdf_mem_free).toList)

def flushGet (s : State) (q : Mq) : State :=
  match s.mq q with
  | [] =>
    { s with
      closer := match q.next with
        | some q' => .flushGet q'
        | none => .closed }
  | w :: l =>
    { s with
      mq := update s.mq q l
      flushed := update s.flushed q (s.flushed q ++ [s.pVosMsg w])
      pVosMsg := update s.pVosMsg w (flushMsg q (s.pVosMsg w)).1
      released := s.released ++ (flushMsg q (s.pVosMsg w)).2
      closer := .flushReturn q w }

def closeStep (s : State) : Option State :=
  match s.closer with
  | .none => some { s with MC_SHUTDOWN_EVENT := true, closer := .shutdownSet }
  | .shutdownSet => some { s with MC_POST_EVENT := true, closer := .waitMcShutdown }
  | .waitMcShutdown =>
    if s.mc = .exited then some { s with closer := .flushGet .sysMcMq } else none
  | .flushGet q => some (flushGet s q)
  | .flushReturn q w => some { s with freeVosMq := s.freeVosMq ++ [w], closer := .flushGet q }
  | .closed => none

/-! ## Runs -/

inductive Op
  | postGet (i : Nat) (msgQueueId : Nat) (pMsg : Option Msg)
  | postPut (i : Nat)
  | postSetBit (i : Nat)
  | mc
  | mcProcess (msg : Msg)
  | mcNoContext
  | mcInterrupted
  | close
  /-- A suspend request sets the bit and waits for the thread, or clears the bit again. -/
  | suspend
  | suspendDone
  | suspendTimeout
  | resume

def step (s : State) : Op → Option State
  | .postGet i msgQueueId pMsg => postGet s i msgQueueId pMsg
  | .postPut i => postPut s i
  | .postSetBit i => postSetBit s i
  | .mc => mcStep s
  | .mcProcess msg => mcProcess s msg
  | .mcNoContext => mcNoContext s
  | .mcInterrupted => mcInterrupted s
  | .close => closeStep s
  | .suspend => some { s with MC_SUSPEND_EVENT := true }
  | .suspendDone =>
    if 0 < s.mc_sus_event_var then
      some { s with mc_sus_event_var := s.mc_sus_event_var - 1 }
    else none
  | .suspendTimeout => some { s with MC_SUSPEND_EVENT := false }
  | .resume => some { s with ResumeMcEvent := s.ResumeMcEvent + 1 }

/-! ## Where the wrappers are -/

inductive Place
  | free
  | mq (q : Mq)
  | mc
  | poster (i : Nat)
  | closer
  deriving DecidableEq

def Mc.holds : Mc → List Nat
  | .process _ w => [w]
  | .returnMsg w => [w]
  | _ => []

def Poster.holds : Poster → List Nat
  | .got _ w _ => [w]
  | _ => []

def Closer.holds : Closer → List Nat
  | .flushReturn _ w => [w]
  | _ => []

def holdIn (free : List Nat) (mq : Mq → List Nat) (mc : Mc) (poster : Nat → Poster)
    (closer : Closer) : Place → List Nat
  | .free => free
  | .mq q => mq q
  | .mc => mc.holds
  | .poster i => (poster i).holds
  | .closer => closer.holds

def State.hold (s : State) : Place → List Nat :=
  holdIn s.freeVosMq s.mq s.mc s.poster s.closer

def Pending (s : State) : Prop := ∃ i q, s.poster i = .queued q

end

open List Option

/-! Every step passes at most one wrapper on, from the front of one place to the end of another
(`step_passes`), so that each wrapper is in one place. -/

variable {n : Nat} {s s' : State} {i : Nat} {q : Mq} {m : Msg}

/-! ## Where the wrappers are, after one thread has taken a step -/

section Hold

variable {free : List Nat} {mq : Mq → List Nat} {mc : Mc} {poster : Nat → Poster}
  {closer : Closer}

theorem holdIn_free (free l : List Nat) :
    holdIn l mq mc poster closer = update (holdIn free mq mc poster closer) .free l := by
  funext k
  cases k <;> rfl

theorem holdIn_mq (q : Mq) (l : List Nat) :
    holdIn free (update mq q l) mc poster closer
      = update (holdIn free mq mc poster closer) (.mq q) l := by
  funext k
  cases k with
  | mq q' =>
    by_cases hq : q' = q
    · subst hq; simp [holdIn]
    · have hne : Place.mq q' ≠ .mq q := fun h => hq (Place.mq.inj h)
      simp only [holdIn, update_of_ne hq, update_of_ne hne]
  | _ => rfl

theorem holdIn_mc (mc mc' : Mc) :
    holdIn free mq mc' poster closer
      = update (holdIn free mq mc poster closer) .mc mc'.holds := by
  funext k
  cases k <;> rfl

theorem holdIn_poster (i : Nat) (p : Poster) :
    holdIn free mq mc (update poster i p) closer
      = update (holdIn free mq mc poster closer) (.poster i) p.holds := by
  funext k
  cases k with
  | poster j =>
    by_cases hj : j = i
    · subst hj; simp [holdIn]
    · have hne : Place.poster j ≠ .poster i := fun h => hj (Place.poster.inj h)
      simp only [holdIn, update_of_ne hj, update_of_ne hne]
  | _ => rfl

theorem holdIn_closer (closer c : Closer) :
    holdIn free mq mc poster c = update (holdIn free mq mc poster closer) .closer c.holds := by
  funext k
  cases k <;> rfl

end Hold

/-! ## What a step can do -/

theorem postGet_cases {msgQueueId : Nat} {pMsg : Option Msg}
    (h : postGet s i msgQueueId pMsg = some s') :
    (∃ r c r', s.poster i = .idle r ∧
      s' = setPoster { s with cds_wrapper_empty_count := c } i (.idle r')) ∨
    ∃ r w free q msg, s.poster i = .idle r ∧ s.freeVosMq = w :: free ∧
      s' = setPoster { s with freeVosMq := free, cds_wrapper_empty_count := 0 } i
        (.got q w msg) := by
  unfold postGet at h
  split at h
  · rename_i r hi
    split at h
    · rename_i msg q hq
      split at h
      · simp only [some.injEq] at h; exact Or.inl ⟨r, _, _, hi, h.symm⟩
      · rename_i w free hfree
        simp only [some.injEq] at h
        exact Or.inr ⟨r, w, free, q, msg, hi, hfree, h.symm⟩
    · simp only [some.injEq] at h; exact Or.inl ⟨r, s.cds_wrapper_empty_count, _, hi, h.symm⟩
  · exact absurd h (by simp)

theorem postPut_cases (h : postPut s i = some s') :
    ∃ q w msg, s.poster i = .got q w msg ∧
      s' = setPoster { s with
        pVosMsg := update s.pVosMsg w msg
        mq := update s.mq q (s.mq q ++ [w])
        posted := update s.posted q (s.posted q ++ [msg]) } i (.queued q) := by
  unfold postPut at h
  split at h
  · rename_i q w msg hi
    simp only [some.injEq] at h
    exact ⟨q, w, msg, hi, h.symm⟩
  · exact absurd h (by simp)

theorem postSetBit_cases (h : postSetBit s i = some s') :
    ∃ q, s.poster i = .queued q ∧
      s' = setPoster { s with MC_POST_EVENT := true } i (.idle (some .SUCCESS)) := by
  unfold postSetBit at h
  split at h
  · rename_i q hi
    simp only [some.injEq] at h
    exact ⟨q, hi, h.symm⟩
  · exact absurd h (by simp)

theorem mcProcess_cases (h : mcProcess s m = some s') :
    ∃ q w, s.mc = .process q w ∧
      s' = { s with pVosMsg := update s.pVosMsg w m, mc := .returnMsg w } := by
  unfold mcProcess at h
  split at h
  · rename_i q w hmc
    simp only [some.injEq] at h
    exact ⟨q, w, hmc, h.symm⟩
  · exact absurd h (by simp)

theorem mcNoContext_cases (h : mcNoContext s = some s') :
    ∃ q w, s.mc = .process q w ∧ s' = { s with mc := .returnMsg w } := by
  unfold mcNoContext at h
  split at h
  · rename_i q w hmc
    split at h
    · simp only [some.injEq] at h; exact ⟨q, w, hmc, h.symm⟩
    · exact absurd h (by simp)
  · exact absurd h (by simp)

theorem mcInterrupted_cases (h : mcInterrupted s = some s') :
    s.mc = .waitEvent ∧ s' = { s with mc := .clearPost } ∨
    s.mc = .waitResume ∧ s' = { s with mc := .waitEvent } := by
  unfold mcInterrupted at h
  split at h
  · rename_i hmc
    simp only [some.injEq] at h
    exact Or.inl ⟨hmc, h.symm⟩
  · rename_i hmc
    simp only [some.injEq] at h
    exact Or.inr ⟨hmc, h.symm⟩
  · exact absurd h (by simp)

def Mq.index : Mq → Nat
  | .sysMcMq => 0
  | .wmaMcMq => 1
  | .peMcMq => 2
  | .smeMcMq => 3

/-- The queue was seen to be empty since the post bit was cleared. -/
def Mc.drained : Mc → Mq → Prop
  | .isEmpty q', q => q.index < q'.index
  | .waitEvent, _ | .testSuspend, _ | .clearSuspend, _ | .suspended, _ | .waitResume, _ => True
  | _, _ => False

theorem drained_afterEmpty {q q' : Mq} (h : (afterEmpty q).drained q') :
    q' = q ∨ (Mc.isEmpty q).drained q' := by
  cases q <;> cases q' <;> simp_all [afterEmpty, Mq.next, Mc.drained, Mq.index]

theorem mcStep_cases (h : mcStep s = some s') :
    (∃ post suspend r v mc, s.mc.holds = [] ∧ mc.holds = [] ∧ s.mc ≠ .exited ∧
      (∀ q, mc = .get q → s.mq q ≠ []) ∧
      ((∀ q, s.mc = .get q → s.mq q ≠ []) → ∀ q, mc.drained q →
        s.mq q = [] ∨ s.mc.drained q ∧ post = s.MC_POST_EVENT) ∧
      s' = { s with
        MC_POST_EVENT := post, MC_SUSPEND_EVENT := suspend, ResumeMcEvent := r
        mc_sus_event_var := v, mc := mc }) ∨
    (∃ q w l, s.mc = .get q ∧ s.mq q = w :: l ∧
      s' = { s with
        mq := update s.mq q l
        taken := update s.taken q (s.taken q ++ [s.pVosMsg w])
        mc := .process q w }) ∨
    ∃ w, s.mc = .returnMsg w ∧
      s' = { s with freeVosMq := s.freeVosMq ++ [w], mc := .testShutdown } := by
  unfold mcStep at h
  cases hmc : s.mc with
  | get q =>
    simp only [hmc, mcGet, some.injEq] at h
    cases hq : s.mq q with
    | nil =>
      rw [hq] at h
      exact Or.inl ⟨_, _, _, _, .waitEvent, rfl, rfl, nofun, nofun,
        fun hfound => absurd hq (hfound q rfl), h.symm⟩
    | cons w l => rw [hq] at h; exact Or.inr (Or.inl ⟨q, w, l, rfl, hq, h.symm⟩)
  | returnMsg w => simp only [hmc, some.injEq] at h; exact Or.inr (Or.inr ⟨w, rfl, h.symm⟩)
  | process | exited =>
    rw [hmc] at h
    cases h
  | waitEvent =>
    rw [hmc] at h
    obtain ⟨-, h⟩ := ite_none_right_eq_some.mp h
    exact Or.inl ⟨_, _, _, _, .clearPost, rfl, rfl, nofun, nofun, nofun, (some.inj h).symm⟩
  | waitResume =>
    rw [hmc] at h
    obtain ⟨-, h⟩ := ite_none_right_eq_some.mp h
    exact Or.inl ⟨_, _, _, _, .waitEvent, rfl, rfl, nofun, nofun,
      fun _ _ _ => Or.inr ⟨trivial, rfl⟩, (some.inj h).symm⟩
  | isEmpty q =>
    simp only [hmc, some.injEq] at h
    refine Or.inl ⟨_, _, _, _, _, rfl, ?_, nofun, fun q' hq' => ?_, fun _ q' hq' => ?_, h.symm⟩
    · split
      · cases q <;> rfl
      · rfl
    · split at hq'
      · cases q <;> cases hq'
      next hne => exact Mc.get.inj hq' ▸ hne
    · split at hq'
      next hempty =>
        rcases drained_afterEmpty hq' with rfl | hq'
        · exact Or.inl hempty
        · exact Or.inr ⟨hq', rfl⟩
      next => exact absurd hq' id
  | testSuspend =>
    simp only [hmc, some.injEq] at h
    refine Or.inl ⟨_, _, _, _, _, rfl, ?_, nofun, fun q hq => ?_,
      fun _ _ _ => Or.inr ⟨trivial, rfl⟩, h.symm⟩
    · split <;> rfl
    · split at hq <;> cases hq
  | testShutdown | shutdownTestSuspend =>
    simp only [hmc, some.injEq] at h
    refine Or.inl ⟨_, _, _, _, _, rfl, ?_, nofun, fun q hq => ?_, fun _ q hq => ?_, h.symm⟩
    · split <;> rfl
    · split at hq <;> cases hq
    · split at hq
      · exact absurd hq id
      · first | exact absurd hq id | exact absurd hq (Nat.not_lt_zero _)
  | clearSuspend | suspended =>
    simp only [hmc, some.injEq] at h
    refine Or.inl ⟨_, _, _, _, _, rfl, rfl, nofun, ?_, fun _ _ _ => Or.inr ⟨trivial, rfl⟩, h.symm⟩
    exact nofun
  | clearPost | shutdownClearSuspend | shutdownSuspended =>
    simp only [hmc, some.injEq] at h
    refine Or.inl ⟨_, _, _, _, _, rfl, rfl, ?_, ?_, ?_, h.symm⟩ <;> exact nofun

def Closer.flushing : Closer → Bool
  | .flushGet _ => true
  | .flushReturn _ _ => true
  | .closed => true
  | _ => false

theorem closeStep_cases (h : closeStep s = some s') :
    (∃ shutdown post c, s.closer.holds = [] ∧ c.holds = [] ∧
      (c.flushing = true → s.mc = .exited ∨ s.closer.flushing = true) ∧
      (s.MC_POST_EVENT = true → post = true) ∧
      s' = { s with MC_SHUTDOWN_EVENT := shutdown, MC_POST_EVENT := post, closer := c }) ∨
    (∃ q w l, s.closer = .flushGet q ∧ s.mq q = w :: l ∧
      s' = { s with
        mq := update s.mq q l
        flushed := update s.flushed q (s.flushed q ++ [s.pVosMsg w])
        pVosMsg := update s.pVosMsg w (flushMsg q (s.pVosMsg w)).1
        released := s.released ++ (flushMsg q (s.pVosMsg w)).2
        closer := .flushReturn q w }) ∨
    ∃ q w, s.closer = .flushReturn q w ∧
      s' = { s with freeVosMq := s.freeVosMq ++ [w], closer := .flushGet q } := by
  unfold closeStep at h
  cases hc : s.closer with
  | none =>
    simp only [hc, some.injEq] at h
    exact Or.inl ⟨_, _, _, rfl, rfl, fun hf => absurd hf (by simp [Closer.flushing]), id, h.symm⟩
  | shutdownSet =>
    simp only [hc, some.injEq] at h
    exact Or.inl ⟨_, _, _, rfl, rfl, fun hf => absurd hf (by simp [Closer.flushing]),
      fun _ => rfl, h.symm⟩
  | waitMcShutdown =>
    rw [hc] at h
    dsimp only at h
    split at h
    · rename_i hmc
      simp only [some.injEq] at h
      exact Or.inl ⟨_, _, _, rfl, rfl, fun _ => Or.inl hmc, id, h.symm⟩
    · exact absurd h (by simp)
  | flushGet q =>
    simp only [hc, flushGet, some.injEq] at h
    cases hq : s.mq q with
    | nil =>
      rw [hq] at h
      refine Or.inl ⟨_, _, _, rfl, ?_, fun _ => Or.inr rfl, id, h.symm⟩
      cases q <;> rfl
    | cons w l => rw [hq] at h; exact Or.inr (Or.inl ⟨q, w, l, rfl, hq, h.symm⟩)
  | flushReturn q w =>
    simp only [hc, some.injEq] at h
    exact Or.inr (Or.inr ⟨q, w, rfl, h.symm⟩)
  | closed => rw [hc] at h; exact absurd h (by simp)

/-! ## Wrappers -/

theorem passes_of_eq {a : Nat} {x y : Place} {l : List Nat} (hxy : x ≠ y) (hx : s.hold x = a :: l)
    (h : s'.hold = update (update s.hold x l) y (s.hold y ++ [a])) : Passes s.hold s'.hold := by
  rw [h]; exact passes_update hxy hx

theorem passes_of_same {x : Place} {l : List Nat} (hx : s.hold x = l)
    (h : s'.hold = update s.hold x l) : Passes s.hold s'.hold := by
  refine .stay fun k => ?_
  rw [h, update_eq_self_iff.mpr hx.symm]

theorem postGet_passes {msgQueueId : Nat} {pMsg : Option Msg}
    (h : postGet s i msgQueueId pMsg = some s') : Passes s.hold s'.hold := by
  rcases postGet_cases h with ⟨r, c, r', hi, rfl⟩ | ⟨r, w, free, q, msg, hi, hfree, rfl⟩
  · have hp : s.hold (.poster i) = [] := by simp [State.hold, holdIn, hi, Poster.holds]
    exact passes_of_same hp (holdIn_poster i _)
  · have hp : s.hold (.poster i) = [] := by simp [State.hold, holdIn, hi, Poster.holds]
    apply passes_of_eq (x := .free) (y := .poster i) (by simp) hfree
    rw [hp]
    exact (holdIn_poster i _).trans (congrArg (update · _ _) (holdIn_free s.freeVosMq free))

theorem postPut_passes (h : postPut s i = some s') : Passes s.hold s'.hold := by
  obtain ⟨q, w, msg, hi, rfl⟩ := postPut_cases h
  have hp : s.hold (.poster i) = [w] := by simp [State.hold, holdIn, hi, Poster.holds]
  apply passes_of_eq (x := .poster i) (y := .mq q) (by simp) hp
  exact (holdIn_mq q _).trans (congrArg (update · _ _) (holdIn_poster i _))

theorem postSetBit_passes (h : postSetBit s i = some s') : Passes s.hold s'.hold := by
  obtain ⟨q, hi, rfl⟩ := postSetBit_cases h
  have hp : s.hold (.poster i) = [] := by simp [State.hold, holdIn, hi, Poster.holds]
  exact passes_of_same hp (holdIn_poster i _)

theorem mcStep_passes (h : mcStep s = some s') : Passes s.hold s'.hold := by
  rcases mcStep_cases h with
    ⟨post, suspend, r, v, mc, hmc, hmc', -, -, -, rfl⟩ | ⟨q, w, l, hmc, hq, rfl⟩ | ⟨w, hmc, rfl⟩
  · apply passes_of_same (x := .mc) hmc
    rw [← hmc']; exact holdIn_mc s.mc mc
  · have hp : s.hold .mc = [] := by simp [State.hold, holdIn, hmc, Mc.holds]
    apply passes_of_eq (x := .mq q) (y := .mc) (by simp) hq
    rw [hp]; exact (holdIn_mc s.mc _).trans (congrArg (update · _ _) (holdIn_mq q l))
  · have hp : s.hold .mc = [w] := by simp [State.hold, holdIn, hmc, Mc.holds]
    apply passes_of_eq (x := .mc) (y := .free) (by simp) hp
    exact (holdIn_free s.freeVosMq _).trans (congrArg (update · _ _) (holdIn_mc s.mc _))

theorem mcReturns_passes {w : Nat} {msgs : Nat → Msg} (hmc : s.mc = .process q w) :
    Passes s.hold ({ s with pVosMsg := msgs, mc := .returnMsg w } : State).hold := by
  have hp : s.hold .mc = [w] := by simp [State.hold, holdIn, hmc, Mc.holds]
  exact passes_of_same hp (holdIn_mc s.mc _)

theorem mcInterrupted_passes (h : mcInterrupted s = some s') : Passes s.hold s'.hold := by
  rcases mcInterrupted_cases h with ⟨hmc, rfl⟩ | ⟨hmc, rfl⟩
  · have hp : s.hold .mc = [] := by simp [State.hold, holdIn, hmc, Mc.holds]
    exact passes_of_same hp (holdIn_mc s.mc _)
  · have hp : s.hold .mc = [] := by simp [State.hold, holdIn, hmc, Mc.holds]
    exact passes_of_same hp (holdIn_mc s.mc _)

theorem closeStep_passes (h : closeStep s = some s') : Passes s.hold s'.hold := by
  rcases closeStep_cases h with
    ⟨shutdown, post, c, hc, hc', -, -, rfl⟩ | ⟨q, w, l, hc, hq, rfl⟩ | ⟨q, w, hc, rfl⟩
  · apply passes_of_same (x := .closer) hc
    rw [← hc']; exact holdIn_closer s.closer c
  · have hp : s.hold .closer = [] := by simp [State.hold, holdIn, hc, Closer.holds]
    apply passes_of_eq (x := .mq q) (y := .closer) (by simp) hq
    rw [hp]; exact (holdIn_closer s.closer _).trans (congrArg (update · _ _) (holdIn_mq q l))
  · have hp : s.hold .closer = [w] := by simp [State.hold, holdIn, hc, Closer.holds]
    apply passes_of_eq (x := .closer) (y := .free) (by simp) hp
    exact (holdIn_free s.freeVosMq _).trans (congrArg (update · _ _) (holdIn_closer s.closer _))

theorem step_passes {e : Op} (h : step s e = some s') : Passes s.hold s'.hold := by
  cases e with
  | postGet i msgQueueId pMsg => exact postGet_passes h
  | postPut i => exact postPut_passes h
  | postSetBit i => exact postSetBit_passes h
  | mc => exact mcStep_passes h
  | mcProcess m => obtain ⟨q, w, hmc, rfl⟩ := mcProcess_cases h; exact mcReturns_passes hmc
  | mcNoContext => obtain ⟨q, w, hmc, rfl⟩ := mcNoContext_cases h; exact mcReturns_passes hmc
  | mcInterrupted => exact mcInterrupted_passes h
  | close => exact closeStep_passes h
  | suspend | suspendTimeout | resume =>
    simp only [step, some.injEq] at h
    subst h; exact .stay fun k => rfl
  | suspendDone =>
    simp only [step] at h
    split at h
    · simp only [some.injEq] at h
      subst h; exact .stay fun k => rfl
    · exact absurd h (by simp)

/-! ## Messages -/

/-- What was posted to a queue was taken, was flushed, or is still there, in this order; nothing is
flushed before the thread has exited. -/
structure Ordered (s : State) : Prop where
  inOrder : ∀ q, s.posted q = s.taken q ++ s.flushed q ++ (s.mq q).map s.pVosMsg
  closing : s.closer.flushing = true → s.mc = .exited
  unflushed : s.mc ≠ .exited → ∀ q, s.flushed q = []

theorem map_update_hand {w : Nat} {x : Place} (he : Exclusive s.hold) (hx : w ∈ s.hold x)
    (hne : ∀ q, x ≠ .mq q) (m : Msg) (q : Mq) :
    (s.mq q).map (update s.pVosMsg w m) = (s.mq q).map s.pVosMsg := by
  apply map_congr_left
  intro v hv
  have hvw : v ≠ w := fun h => hne q (he.unique hx (h ▸ hv : w ∈ s.hold (.mq q)))
  rw [update_of_ne hvw]

theorem Ordered.postPut (ho : Ordered s) (he : Exclusive s.hold) (h : postPut s i = some s') :
    Ordered s' := by
  obtain ⟨q, w, msg, hi, rfl⟩ := postPut_cases h
  refine ⟨fun q' => ?_, ho.closing, ho.unflushed⟩
  have hw : w ∈ s.hold (.poster i) := by simp [State.hold, holdIn, hi, Poster.holds]
  have hmap := map_update_hand he hw (by simp) msg q'
  dsimp only [setPoster]
  by_cases hq : q' = q
  · subst hq
    rw [update_self, update_self, map_append, hmap, ho.inOrder q']; simp
  · rw [update_of_ne hq, update_of_ne hq, hmap]; exact ho.inOrder q'

theorem Ordered.mcStep (ho : Ordered s) (h : mcStep s = some s') : Ordered s' := by
  rcases mcStep_cases h with
    ⟨post, suspend, r, v, mc, -, -, hne, -, -, rfl⟩ | ⟨q, w, l, hmc, hq, rfl⟩ | ⟨w, hmc, rfl⟩
  · exact ⟨ho.inOrder, fun hc => absurd (ho.closing hc) hne, fun _ => ho.unflushed hne⟩
  · have hne : s.mc ≠ .exited := by simp [hmc]
    refine ⟨fun q' => ?_, fun hc => absurd (ho.closing hc) hne, fun _ => ho.unflushed hne⟩
    dsimp only
    by_cases hqq : q' = q
    · subst hqq
      rw [update_self, update_self, ho.inOrder q', ho.unflushed hne, hq]; simp
    · rw [update_of_ne hqq, update_of_ne hqq]; exact ho.inOrder q'
  · have hne : s.mc ≠ .exited := by simp [hmc]
    exact ⟨ho.inOrder, fun hc => absurd (ho.closing hc) hne, fun _ => ho.unflushed hne⟩

theorem Ordered.mcProcess (ho : Ordered s) (he : Exclusive s.hold)
    (h : mcProcess s m = some s') : Ordered s' := by
  obtain ⟨q, w, hmc, rfl⟩ := mcProcess_cases h
  have hne : s.mc ≠ .exited := by simp [hmc]
  have hw : w ∈ s.hold .mc := by simp [State.hold, holdIn, hmc, Mc.holds]
  refine ⟨fun q' => ?_, fun hc => absurd (ho.closing hc) hne, fun _ => ho.unflushed hne⟩
  rw [map_update_hand he hw (by simp)]; exact ho.inOrder q'

theorem Ordered.closeStep (ho : Ordered s) (he : Exclusive s.hold)
    (h : closeStep s = some s') : Ordered s' := by
  rcases closeStep_cases h with
    ⟨shutdown, post, c, -, -, hc, -, rfl⟩ | ⟨q, w, l, hc, hq, rfl⟩ | ⟨q, w, hc, rfl⟩
  · refine ⟨ho.inOrder, fun hf => ?_, ho.unflushed⟩
    rcases hc hf with hmc | hfl
    · exact hmc
    · exact ho.closing hfl
  · have hmc : s.mc = .exited := ho.closing (by rw [hc]; rfl)
    refine ⟨fun q' => ?_, fun _ => hmc, fun hne => absurd hmc hne⟩
    have hw : w ∈ s.mq q := by simp [hq]
    dsimp only
    by_cases hqq : q' = q
    · subst hqq
      have hnd : (w :: l).Nodup := hq ▸ he.nodup (.mq q')
      have hl : l.map (update s.pVosMsg w (flushMsg q' (s.pVosMsg w)).1) = l.map s.pVosMsg := by
        apply map_congr_left
        intro v hv
        have hvw : v ≠ w := fun h => (nodup_cons.mp hnd).1 (h ▸ hv)
        rw [update_of_ne hvw]
      rw [update_self, update_self, ho.inOrder q', hq, hl]; simp
    · have hl : (s.mq q').map (update s.pVosMsg w (flushMsg q (s.pVosMsg w)).1)
          = (s.mq q').map s.pVosMsg := by
        apply map_congr_left
        intro v hv
        refine update_of_ne (fun h => hqq ?_) _ _
        exact Place.mq.inj (@Exclusive.unique _ _ _ he (.mq q') (.mq q) w (h ▸ hv) hw)
      rw [update_of_ne hqq, update_of_ne hqq, hl]; exact ho.inOrder q'
  · exact ⟨ho.inOrder, fun _ => ho.closing (by rw [hc]; rfl), ho.unflushed⟩

theorem Ordered.step {e : Op} (ho : Ordered s) (he : Exclusive s.hold)
    (h : step s e = some s') : Ordered s' := by
  cases e with
  | postGet i msgQueueId pMsg =>
    rcases postGet_cases h with ⟨r, c, r', -, rfl⟩ | ⟨r, w, free, q, msg, -, -, rfl⟩
    · exact ⟨ho.inOrder, ho.closing, ho.unflushed⟩
    · exact ⟨ho.inOrder, ho.closing, ho.unflushed⟩
  | postPut i => exact ho.postPut he h
  | postSetBit i =>
    obtain ⟨q, -, rfl⟩ := postSetBit_cases h
    exact ⟨ho.inOrder, ho.closing, ho.unflushed⟩
  | mc => exact ho.mcStep h
  | mcProcess m => exact ho.mcProcess he h
  | mcNoContext =>
    obtain ⟨q, w, hmc, rfl⟩ := mcNoContext_cases h
    have hne : s.mc ≠ .exited := by simp [hmc]
    exact ⟨ho.inOrder, fun hc => absurd (ho.closing hc) hne, fun _ => ho.unflushed hne⟩
  | mcInterrupted =>
    rcases mcInterrupted_cases h with ⟨hmc, rfl⟩ | ⟨hmc, rfl⟩
    · have hne : s.mc ≠ .exited := by simp [hmc]
      exact ⟨ho.inOrder, fun hc => absurd (ho.closing hc) hne, fun _ => ho.unflushed hne⟩
    · have hne : s.mc ≠ .exited := by simp [hmc]
      exact ⟨ho.inOrder, fun hc => absurd (ho.closing hc) hne, fun _ => ho.unflushed hne⟩
  | close => exact ho.closeStep he h
  | suspend | suspendTimeout | resume =>
    simp only [CdsMc.step, some.injEq] at h
    subst h; exact ⟨ho.inOrder, ho.closing, ho.unflushed⟩
  | suspendDone =>
    simp only [CdsMc.step] at h
    split at h
    · simp only [some.injEq] at h
      subst h; exact ⟨ho.inOrder, ho.closing, ho.unflushed⟩
    · exact absurd h (by simp)

/-! ## The wake-up -/

def Known (s : State) (q : Mq) : Prop :=
  s.mq q = [] ∨ s.MC_POST_EVENT = true ∨ Pending s

structure Drained (s : State) : Prop where
  found : ∀ q, s.mc = .get q → s.mq q ≠ []
  known : ∀ q, s.mc.drained q → Known s q

theorem Drained.mcStep (hd : Drained s) (h : mcStep s = some s') : Drained s' := by
  rcases mcStep_cases h with
    ⟨post, suspend, r, v, mc, -, -, -, hget, hdrained, rfl⟩ | ⟨q, w, l, -, -, rfl⟩ | ⟨w, -, rfl⟩
  · refine ⟨hget, fun q h => (hdrained hd.found q h).elim Or.inl fun ⟨hq, hpost⟩ => ?_⟩
    rw [hpost]; exact hd.known q hq
  · exact ⟨nofun, fun _ h => absurd h id⟩
  · exact ⟨nofun, fun _ h => absurd h id⟩

theorem Drained.other (hd : Drained s) (hmc : s'.mc = s.mc)
    (hq : ∀ q, s.mc = .get q → s'.mq q = [] → s.mq q = [])
    (hk : ∀ q, Known s q → Known s' q) : Drained s' where
  found := fun q h => by rw [hmc] at h; exact fun he => hd.found q h (hq q h he)
  known := fun q h => by rw [hmc] at h; exact hk q (hd.known q h)

theorem Pending.setPoster {p : Poster} (hp : Pending s) (hi : ∀ q, s.poster i ≠ .queued q)
    (h : s'.poster = update s.poster i p) : Pending s' := by
  obtain ⟨j, q, hj⟩ := hp
  have hji : j ≠ i := fun h => hi q (h ▸ hj)
  exact ⟨j, q, by rw [h, update_of_ne hji, hj]⟩

theorem Drained.step {e : Op} (hd : Drained s) (ho : Ordered s) (h : step s e = some s') :
    Drained s' := by
  cases e with
  | postGet i msgQueueId pMsg =>
    rcases postGet_cases h with ⟨r, c, r', hi, rfl⟩ | ⟨r, w, free, q, msg, hi, -, rfl⟩
    · refine hd.other rfl (fun _ _ => id) fun q' hk => ?_
      exact hk.imp_right (Or.imp_right fun hp => hp.setPoster (by simp [hi]) rfl)
    · refine hd.other rfl (fun _ _ => id) fun q' hk => ?_
      exact hk.imp_right (Or.imp_right fun hp => hp.setPoster (by simp [hi]) rfl)
  | postPut i =>
    obtain ⟨q, w, msg, hi, rfl⟩ := postPut_cases h
    have hpend : Pending (setPoster { s with
        pVosMsg := update s.pVosMsg w msg
        posted := update s.posted q (s.posted q ++ [msg]) } i (.queued q)) :=
      ⟨i, q, update_self _ _ _⟩
    refine hd.other rfl (fun q' _ he => ?_) fun q' _ => Or.inr (Or.inr hpend)
    by_cases hq : q' = q
    · subst hq; simp [setPoster] at he
    · dsimp only [setPoster] at he; rwa [update_of_ne hq] at he
  | postSetBit i =>
    obtain ⟨q, -, rfl⟩ := postSetBit_cases h
    exact hd.other rfl (fun _ _ => id) fun _ _ => Or.inr (Or.inl rfl)
  | mc => exact hd.mcStep h
  | mcProcess m =>
    obtain ⟨q, w, hmc, rfl⟩ := mcProcess_cases h
    exact ⟨fun _ h => absurd h (by simp), fun _ h => absurd h id⟩
  | mcNoContext =>
    obtain ⟨q, w, hmc, rfl⟩ := mcNoContext_cases h
    exact ⟨fun _ h => absurd h (by simp), fun _ h => absurd h id⟩
  | mcInterrupted =>
    rcases mcInterrupted_cases h with ⟨hmc, rfl⟩ | ⟨hmc, rfl⟩
    · exact ⟨fun _ h => absurd h (by simp), fun _ h => absurd h id⟩
    · exact ⟨fun _ h => absurd h (by simp), fun q _ => hd.known q (by rw [hmc]; trivial)⟩
  | close =>
    rcases closeStep_cases h with
      ⟨shutdown, post, c, -, -, -, hpost, rfl⟩ | ⟨q, w, l, hc, hq, rfl⟩ | ⟨q, w, hc, rfl⟩
    · exact hd.other rfl (fun _ _ => id) fun _ hk => hk.imp_right (Or.imp_left hpost)
    · -- the thread has exited, which waits for nothing
      have hmc : s.mc = .exited := ho.closing (by rw [hc]; rfl)
      refine ⟨fun q' h => ?_, fun q' h => ?_⟩
      · exact absurd (hmc.symm.trans h) (by simp)
      · rw [hmc] at h; exact absurd h id
    · exact hd.other rfl (fun _ _ => id) fun _ => id
  | suspend | suspendTimeout | resume =>
    simp only [CdsMc.step, some.injEq] at h
    subst h; exact hd.other rfl (fun _ _ => id) fun _ => id
  | suspendDone =>
    simp only [CdsMc.step] at h
    split at h
    · simp only [some.injEq] at h
      subst h; exact hd.other rfl (fun _ _ => id) fun _ => id
    · exact absurd h (by simp)

/-! ## Flushing -/

def Closer.passed : Closer → Mq → Prop
  | .flushGet q', q => q.index < q'.index
  | .flushReturn q' _, q => q.index < q'.index
  | .closed, _ => True
  | _, _ => False

structure Flushing (s : State) : Prop where
  exited : s.mc = .exited
  noPost : ∀ i q w m, s.poster i ≠ .got q w m
  flushing : s.closer.flushing = true
  empty : ∀ q, s.closer.passed q → s.mq q = []

theorem Flushing.closeStep (hf : Flushing s) (h : closeStep s = some s') : Flushing s' := by
  unfold CdsMc.closeStep at h
  have he := hf.empty
  cases hc : s.closer with
  | flushGet q =>
    simp only [hc, flushGet, some.injEq] at h
    rw [hc] at he
    cases hq : s.mq q with
    | nil =>
      rw [hq] at h
      subst h
      refine ⟨hf.exited, hf.noPost, ?_, fun q' hp => ?_⟩
      · cases q <;> rfl
      · by_cases hqq : q' = q
        · exact hqq ▸ hq
        · apply he q'
          revert hp hqq
          cases q <;> cases q' <;> simp [Mq.next, Closer.passed, Mq.index]
    | cons w l =>
      rw [hq] at h
      subst h
      refine ⟨hf.exited, hf.noPost, rfl, fun q' hp => ?_⟩
      have hqq : q' ≠ q := fun h => absurd hp (h ▸ Nat.lt_irrefl _)
      dsimp only
      rw [update_of_ne hqq]; exact he q' hp
  | flushReturn q w =>
    simp only [hc, some.injEq] at h
    rw [hc] at he
    subst h; exact ⟨hf.exited, hf.noPost, rfl, he⟩
  | closed => rw [hc] at h; exact absurd h (by simp)
  | none | shutdownSet | waitMcShutdown =>
    have := hf.flushing
    rw [hc] at this; exact absurd this (by simp [Closer.flushing])

theorem Flushing.step {e : Op} (hf : Flushing s)
    (hop : ∀ i msgQueueId pMsg, e ≠ .postGet i msgQueueId pMsg) (h : step s e = some s') :
    Flushing s' := by
  cases e with
  | postGet i msgQueueId pMsg => exact absurd rfl (hop i msgQueueId pMsg)
  | postPut i =>
    obtain ⟨q, w, msg, hi, rfl⟩ := postPut_cases h
    exact absurd hi (hf.noPost i q w msg)
  | postSetBit i =>
    obtain ⟨q, -, rfl⟩ := postSetBit_cases h
    refine ⟨hf.exited, fun j q w m => ?_, hf.flushing, hf.empty⟩
    dsimp only [setPoster]
    by_cases hj : j = i
    · subst hj; simp
    · rw [update_of_ne hj]; exact hf.noPost j q w m
  | mc => simp only [CdsMc.step, mcStep, hf.exited] at h; exact absurd h (by simp)
  | mcProcess m =>
    obtain ⟨q, w, hmc, rfl⟩ := mcProcess_cases h
    exact absurd (hf.exited.symm.trans hmc) (by simp)
  | mcNoContext =>
    obtain ⟨q, w, hmc, rfl⟩ := mcNoContext_cases h
    exact absurd (hf.exited.symm.trans hmc) (by simp)
  | mcInterrupted =>
    rcases mcInterrupted_cases h with ⟨hmc, rfl⟩ | ⟨hmc, rfl⟩ <;>
      exact absurd (hf.exited.symm.trans hmc) (by simp)
  | close => exact hf.closeStep h
  | suspend | suspendTimeout | resume =>
    simp only [CdsMc.step, some.injEq] at h
    subst h; exact ⟨hf.exited, hf.noPost, hf.flushing, hf.empty⟩
  | suspendDone =>
    simp only [CdsMc.step] at h
    split at h
    · simp only [some.injEq] at h
      subst h; exact ⟨hf.exited, hf.noPost, hf.flushing, hf.empty⟩
    · exact absurd h (by simp)

/-! ## Runs -/

/-- The `n` wrappers are each in one place, in the order they were posted. -/
structure Inv (n : Nat) (s : State) : Prop where
  exclusive : Exclusive s.hold
  held : ∀ w, (∃ p, w ∈ s.hold p) ↔ w < n
  ordered : Ordered s
  drained : Drained s

theorem hold_init {p : Place} (hp : p ≠ .free) : (init n).hold p = [] := by
  cases p with
  | free => exact absurd rfl hp
  | _ => rfl

theorem free_of_mem_init {p : Place} {w : Nat} (hw : w ∈ (init n).hold p) : p = .free := by
  by_contra hp
  rw [hold_init hp] at hw; exact not_mem_nil hw

theorem inv_init (n : Nat) : Inv n (init n) where
  exclusive := by
    refine ⟨fun p => ?_, fun hp hp' => (free_of_mem_init hp).trans (free_of_mem_init hp').symm⟩
    by_cases hp : p = .free
    · subst hp; exact nodup_range
    · rw [hold_init hp]; exact nodup_nil
  held := fun w => by
    refine ⟨?_, fun hw => ⟨.free, mem_range.mpr hw⟩⟩
    rintro ⟨p, hp⟩
    obtain rfl := free_of_mem_init hp
    exact mem_range.mp hp
  ordered := ⟨fun _ => rfl, fun h => absurd h (by simp [init, Closer.flushing]), fun _ _ => rfl⟩
  drained := ⟨fun _ h => absurd h (by simp [init]), fun _ _ => Or.inl rfl⟩

theorem Inv.step {e : Op} (hi : Inv n s) (h : step s e = some s') : Inv n s' where
  exclusive := (step_passes h).exclusive hi.exclusive
  held := fun w => ((step_passes h).held w).trans (hi.held w)
  ordered := hi.ordered.step hi.exclusive h
  drained := hi.drained.step hi.ordered h

theorem inv_run {es : List Op} (h : run step (init n) es = some s) : Inv n s :=
  run_invariant (fun _ _ _ => Inv.step) (inv_init n) h

theorem Inv.once (hi : Inv n s) {w : Nat} (hw : w < n) :
    ∃ p, (s.hold p).count w = 1 ∧ ∀ p' ≠ p, w ∉ s.hold p' := by
  obtain ⟨p, hp⟩ := (hi.held w).mpr hw
  exact ⟨p, count_eq_one_of_mem (hi.exclusive.nodup p) hp,
    fun p' hne hp' => hne (hi.exclusive.unique hp' hp)⟩

theorem Inv.all_free (hi : Inv n s) (hf : Flushing s) (hc : s.closer = .closed) :
    s.freeVosMq.Perm (range n) := by
  have hnd : s.freeVosMq.Nodup := hi.exclusive.nodup .free
  rw [perm_ext_iff_of_nodup hnd nodup_range]
  intro w
  rw [mem_range, ← hi.held w]
  refine ⟨fun hw => ⟨.free, hw⟩, ?_⟩
  rintro ⟨p, hp⟩
  cases p with
  | free => exact hp
  | mq q =>
    have hq : s.mq q = [] := hf.empty q (by rw [hc]; trivial)
    exact absurd (hq ▸ hp : w ∈ []) not_mem_nil
  | mc => simp only [State.hold, holdIn, hf.exited] at hp; cases hp
  | poster i =>
    simp only [State.hold, holdIn] at hp
    cases hpi : s.poster i with
    | got q v m => exact absurd hpi (hf.noPost i q v m)
    | _ => rw [hpi] at hp; cases hp
  | closer => simp only [State.hold, holdIn, hc] at hp; cases hp

/-- In every run, each wrapper is in exactly one place, what the thread took off a queue is the
first part of what was posted to it, and while the thread waits with the post bit clear, and no
poster is about to set it, there is nothing on the queues. If no poster has a wrapper when the
flush begins, and none gets one until it ends, all wrappers are free then. -/
theorem messages_run {es : List Op} (h : run step (init n) es = some s) :
    (∀ w < n, ∃ p, (s.hold p).count w = 1 ∧ ∀ p' ≠ p, w ∉ s.hold p') ∧
    (∀ q, s.taken q <+: s.posted q) ∧
    (s.mc = .waitEvent → s.MC_POST_EVENT = false → ¬ Pending s → ∀ q, s.mq q = []) ∧
    (s.closer = .flushGet .sysMcMq → (∀ i q w m, s.poster i ≠ .got q w m) →
      ∀ es' s', (∀ i msgQueueId pMsg, .postGet i msgQueueId pMsg ∉ es') →
        run step s es' = some s' → s'.closer = .closed →
        s'.freeVosMq.Perm (range n)) := by
  have hi := inv_run h
  refine ⟨fun w hw => hi.once hw, fun q => ?_, fun hmc hpost hpend q => ?_, ?_⟩
  · rw [hi.ordered.inOrder q, append_assoc]; exact prefix_append _ _
  · have hk : Known s q := hi.drained.known q (by rw [hmc]; trivial)
    rcases hk with hq | hp | hp
    · exact hq
    · exact absurd hp (by simp [hpost])
    · exact absurd hp hpend
  · intro hc hgot es' s' hes hrun hclosed
    have hf : Flushing s :=
      ⟨hi.ordered.closing (by rw [hc]; rfl), hgot, by rw [hc]; rfl, fun q hp => by
        rw [hc] at hp; exact absurd hp (Nat.not_lt_zero _)⟩
    have hf' : Flushing s' :=
      run_invariant_of_mem (fun _ _ _ hop ht hst => ht.step hop hst)
        (fun e he i msgQueueId pMsg h => hes i msgQueueId pMsg (h ▸ he)) hf hrun
    exact (inv_run (run_append h hrun)).all_free hf' hclosed

/-- A post by poster 0. -/
def post (msgQueueId : Nat) (m : Msg) : List Op :=
  [.postGet 0 msgQueueId (some m), .postPut 0, .postSetBit 0]

/-- One message is handled, the thread is suspended and resumed, and when it is shut down there is
another message for it. -/
def beforeFlush : List Op :=
  post CDS_MQ_ID_SYS ⟨1, none, 7⟩ ++ replicate 5 .mc ++ [.mcProcess ⟨1, none, 7⟩] ++
    [.suspend] ++ replicate 9 .mc ++ [.suspendDone, .resume, .mc] ++
    post CDS_MQ_ID_WMA ⟨2, some 100, 0⟩ ++ [.close, .close] ++ replicate 4 .mc ++ [.close]

theorem messages_run_two : ∃ s s', run step (init 2) beforeFlush = some s ∧
    run step s (replicate 6 .close) = some s' ∧ s'.closer = .closed ∧
    (∀ q, s.taken q <+: s.posted q) ∧ s'.freeVosMq.Perm (range 2) := by
  refine ⟨_, _, rfl, rfl, rfl, (@messages_run 2 _ beforeFlush rfl).2.1, ?_⟩
  refine (@messages_run 2 _ beforeFlush rfl).2.2.2 rfl ?_ (replicate 6 .close) _ ?_ rfl rfl
  · intro i
    cases i <;> exact fun _ _ _ h => nomatch h
  · intro i msgQueueId pMsg h; exact absurd (eq_of_mem_replicate h) (by simp)

/-- A poster that has its wrapper before the flush and puts it on the queue after. -/
theorem late_post : ∃ es s, run step (init 1) es = some s ∧ s.closer = .closed ∧
    s.poster 0 = .idle (some .SUCCESS) ∧ ¬ s.freeVosMq.Perm (range 1) := by
  refine ⟨[.postGet 0 CDS_MQ_ID_SME (some ⟨3, none, 0⟩)] ++ [.close, .close] ++
    replicate 4 .mc ++ replicate 5 .close ++ [.postPut 0, .postSetBit 0], _, rfl, rfl,
    rfl, ?_⟩
  intro h; exact absurd h.length_eq (by decide)

end Qcacld.CdsMc
