/-
The events of the DFS radar detector: `dfs_process_phyerr.c`, `dfs_process_radarevent.c`,
`dfs_init.c` and `dfs.c`.

A step of the model is what one of them does under a lock, or between two of them; an event that was
taken off one queue and is not on another yet is held by the function (`Phyerr.queue`, `Task.free`).
Here any outcome is possible at any event (`Outcome`), and what is in the events is left out.
-/
import Qcacld.Lib.Run
import Mathlib.Data.List.Count

set_option autoImplicit false

namespace Qcacld.DfsEvents

open Lib

def DFS_MAX_EVENTS : Nat := 1024
def MAX_EVENTS : Nat := 100

/-! ## Channel and settings -/

def IEEE80211_CHAN_TURBO : Nat := 0x00000010
def IEEE80211_CHAN_OFDM : Nat := 0x00000040
def IEEE80211_CHAN_2GHZ : Nat := 0x00000080
def CHANNEL_108G : Nat := IEEE80211_CHAN_2GHZ ||| IEEE80211_CHAN_OFDM ||| IEEE80211_CHAN_TURBO
def IEEE80211_CHAN_DFS : Nat := 0x0002
def IEEE80211_CHAN_DFS_CLEAR : Nat := 0x0008

def DFS_RADAR_EN : Nat := 0x80000000
def DFS_AR_EN : Nat := 0x40000000
def FREQ_5500_MHZ : Nat := 5500

structure Channel where
  ic_freq : Nat
  ic_flags : Nat
  ic_flagext : Nat

def IEEE80211_IS_CHAN_DFS (c : Channel) : Prop :=
  c.ic_flagext &&& (IEEE80211_CHAN_DFS ||| IEEE80211_CHAN_DFS_CLEAR) = IEEE80211_CHAN_DFS
deriving Decidable

inductive Region where
  | DFS_UNINIT_REGION
  | DFS_FCC_REGION
  | DFS_ETSI_REGION
  | DFS_MKK_REGION
  deriving DecidableEq

structure Conf where
  ic_curchan : Channel
  dfsdomain : Region
  dfs_proc_phyerr : Nat
  ath_dfs_ext_chan_ok : Bool
  ath_chip_is_bb_tlv : Bool
  rn_minrssithresh : Int
  rn_maxpulsedur : Nat

/-- A pulse; `accepted` says whether it has passed what comes before the queue. -/
structure Pulse where
  accepted : Bool
  rssi : Nat
  dur : Nat

inductive Outcome where
  /-- It is passed over: processing is disabled, or its channel is not known or has
  interference. -/
  | skip
  /-- `diff_ts` is below 100 or not, and a radar is found or not. -/
  | pulse (small_diff_ts found : Bool)

/-! ## State -/

inductive Dest where
  | arq
  | radarq
  deriving DecidableEq

/-- Where `dfs_process_phyerr` is. -/
inductive Phyerr where
  | idle
  | take (dest : Dest)
  | queue (dest : Dest) (event : Nat)
  | schedule
  deriving DecidableEq

/-- Where `dfs_task` is. -/
inductive Task where
  | idle
  | loop (events_processed : Nat) (empty : Bool)
  | free (events_processed : Nat) (event : Nat)
  | process (events_processed : Nat)
  | dfsfound
  | finish
  deriving DecidableEq

/-- How a run of `dfs_process_radarevent` has ended. -/
inductive Exit where
  | not_dfs
  | w53
  | empty
  | max_events
  | radar
  deriving DecidableEq

structure State where
  conf : Conf
  dfs_eventq : List Nat
  dfs_radarq : List Nat
  dfs_arq : List Nat
  ath_radar_tasksched : Bool
  /-- `ath_dfs_task_timer` is armed. -/
  timer : Bool
  dfs_bangradar : Bool
  dfs_phyerr_w53_counter : Nat
  phyerr : Phyerr
  task : Task
  /-- How the last run ended, and what was put on `dfs_radarq` and taken off it, in order; the
  code does not have these. -/
  exit : Option Exit
  queued : List Nat
  taken : List Nat

def State.init (conf : Conf) : State where
  conf := conf
  dfs_eventq := List.range DFS_MAX_EVENTS
  dfs_radarq := []
  dfs_arq := []
  ath_radar_tasksched := false
  timer := false
  dfs_bangradar := false
  dfs_phyerr_w53_counter := 0
  phyerr := .idle
  task := .idle
  exit := none
  queued := []
  taken := []

/-! ## `dfs_process_phyerr` -/

def Discarded (c : Conf) (e : Pulse) : Prop :=
  if c.ath_dfs_ext_chan_ok then
    (e.rssi : Int) < c.rn_minrssithresh ∧ e.dur > 4 ∨ e.dur > c.rn_maxpulsedur
  else (e.rssi : Int) < c.rn_minrssithresh ∨ e.dur > c.rn_maxpulsedur
deriving Decidable

def route (c : Conf) (e : Pulse) : Phyerr :=
  if c.ic_curchan.ic_flags &&& CHANNEL_108G = CHANNEL_108G then
    if c.dfs_proc_phyerr &&& DFS_AR_EN = 0 then .idle else .take .arq
  else if IEEE80211_IS_CHAN_DFS c.ic_curchan then
    if c.dfs_proc_phyerr &&& DFS_RADAR_EN = 0 then .idle
    else if Discarded c e then .idle
    else .take .radarq
  else .schedule

def phyerrStart (s : State) (e : Pulse) : State :=
  if e.accepted = false ∨ s.dfs_eventq = [] then s else { s with phyerr := route s.conf e }

def phyerrTake (s : State) (dest : Dest) : State :=
  match s.dfs_eventq with
  | [] => { s with phyerr := .idle }
  | event :: eventq =>
    { s with
      dfs_eventq := eventq
      dfs_phyerr_w53_counter :=
        if dest = .radarq then s.dfs_phyerr_w53_counter + 1 else s.dfs_phyerr_w53_counter
      phyerr := .queue dest event }

def phyerrQueue (s : State) (event : Nat) : Dest → State
  | .arq => { s with dfs_arq := s.dfs_arq ++ [event], phyerr := .schedule }
  | .radarq =>
    { s with
      dfs_radarq := s.dfs_radarq ++ [event]
      queued := s.queued ++ [event]
      phyerr := .schedule }

def phyerrSchedule (s : State) : State :=
  if s.dfs_radarq ≠ [] ∧ s.ath_radar_tasksched = false then
    { s with ath_radar_tasksched := true, timer := true, phyerr := .idle }
  else { s with phyerr := .idle }

/-! ## `dfs_task` -/

def resetLoop : (radarq eventq : List Nat) → List Nat
  | [], eventq => eventq
  | event :: radarq, eventq => resetLoop radarq (eventq ++ [event])

/-- Both locks are held all the time. -/
def dfs_reset_radarq (s : State) : State :=
  { s with
    dfs_eventq := resetLoop s.dfs_radarq s.dfs_eventq
    dfs_radarq := []
    taken := s.taken ++ s.dfs_radarq }

/-- Up to the loop. -/
def taskStart (s : State) : State :=
  if ¬ IEEE80211_IS_CHAN_DFS s.conf.ic_curchan then
    { dfs_reset_radarq s with task := .finish, exit := some .not_dfs }
  else if s.dfs_bangradar then { s with dfs_bangradar := false, task := .dfsfound }
  else if s.conf.dfsdomain = .DFS_MKK_REGION ∧ s.conf.ath_chip_is_bb_tlv ∧
      s.conf.ic_curchan.ic_freq < FREQ_5500_MHZ ∧ ¬ s.dfs_phyerr_w53_counter ≥ 5 then
    { s with task := .finish, exit := some .w53 }
  else { s with task := .loop 0 (s.dfs_radarq = []) }

def taskLoop (s : State) (events_processed : Nat) (empty : Bool) : State :=
  if empty = false ∧ events_processed < MAX_EVENTS then
    match s.dfs_radarq with
    | [] => { s with task := .finish, exit := some .empty }
    | event :: radarq =>
      { s with
        dfs_radarq := radarq
        taken := s.taken ++ [event]
        task := .free (events_processed + 1) event }
  else { s with task := .finish, exit := some (if empty then .empty else .max_events) }

def taskFree (s : State) (events_processed event : Nat) : State :=
  { s with dfs_eventq := s.dfs_eventq ++ [event], task := .process events_processed }

def taskProcess (s : State) (events_processed : Nat) : Outcome → State
  | .skip => { s with task := .loop events_processed (s.dfs_radarq = []) }
  | .pulse small_diff_ts found =>
    let s := if small_diff_ts then dfs_reset_radarq s else s
    if found then { s with task := .dfsfound }
    else { s with task := .loop events_processed (s.dfs_radarq = []) }

def taskFound (s : State) : State :=
  { dfs_reset_radarq s with
    dfs_phyerr_w53_counter := 0
    task := .finish
    exit := some .radar }

/-! ## Runs -/

inductive Step where
  | phyerr (e : Pulse)
  | take
  | queue
  | schedule
  /-- The timer of the task expires. -/
  | timer
  | loop
  | free
  | process (o : Outcome)
  | dfsfound
  | finish
  /-- `dfs_reset_radarq` from elsewhere. -/
  | reset
  /-- The `DFS_BANGRADAR` request, which is for tests. -/
  | bangradar
  | configure (conf : Conf)

def step (s : State) : Step → Option State
  | .phyerr e => if s.phyerr = .idle then some (phyerrStart s e) else none
  | .take =>
    match s.phyerr with
    | .take dest => some (phyerrTake s dest)
    | _ => none
  | .queue =>
    match s.phyerr with
    | .queue dest event => some (phyerrQueue s event dest)
    | _ => none
  | .schedule => if s.phyerr = .schedule then some (phyerrSchedule s) else none
  | .timer =>
    if s.timer ∧ s.task = .idle then some (taskStart { s with timer := false }) else none
  | .loop =>
    match s.task with
    | .loop n empty => some (taskLoop s n empty)
    | _ => none
  | .free =>
    match s.task with
    | .free n event => some (taskFree s n event)
    | _ => none
  | .process o =>
    match s.task with
    | .process n => some (taskProcess s n o)
    | _ => none
  | .dfsfound => if s.task = .dfsfound then some (taskFound s) else none
  | .finish =>
    if s.task = .finish then some { s with ath_radar_tasksched := false, task := .idle }
    else none
  | .reset => some (dfs_reset_radarq s)
  | .bangradar => some { s with dfs_bangradar := true, ath_radar_tasksched := true, timer := true }
  | .configure conf => some { s with conf := conf }

open List Option

/-! The events over whole runs. -/

variable {s s' : State}

/-! ## Steps -/

inductive Move (s : State) : Step → State → Prop where
  | phyerr (e : Pulse) (h : s.phyerr = .idle) : Move s (.phyerr e) (phyerrStart s e)
  | take (dest : Dest) (h : s.phyerr = .take dest) : Move s .take (phyerrTake s dest)
  | queue (dest : Dest) (event : Nat) (h : s.phyerr = .queue dest event) :
      Move s .queue (phyerrQueue s event dest)
  | schedule (h : s.phyerr = .schedule) : Move s .schedule (phyerrSchedule s)
  | timer (htimer : s.timer = true) (h : s.task = .idle) :
      Move s .timer (taskStart { s with timer := false })
  | loop (n : Nat) (empty : Bool) (h : s.task = .loop n empty) : Move s .loop (taskLoop s n empty)
  | free (n event : Nat) (h : s.task = .free n event) : Move s .free (taskFree s n event)
  | process (n : Nat) (o : Outcome) (h : s.task = .process n) :
      Move s (.process o) (taskProcess s n o)
  | dfsfound (h : s.task = .dfsfound) : Move s .dfsfound (taskFound s)
  | finish (h : s.task = .finish) :
      Move s .finish { s with ath_radar_tasksched := false, task := .idle }
  | reset : Move s .reset (dfs_reset_radarq s)
  | bangradar : Move s .bangradar
      { s with dfs_bangradar := true, ath_radar_tasksched := true, timer := true }
  | configure (conf : Conf) : Move s (.configure conf) { s with conf := conf }

theorem move_of_step {e : Step} (h : step s e = some s') : Move s e s' := by
  cases e with
  | phyerr e =>
    obtain ⟨hidle, hs⟩ := ite_none_right_eq_some.mp h
    exact some.inj hs ▸ .phyerr e hidle
  | take =>
    rw [step] at h
    split at h
    · next dest hpc => exact some.inj h ▸ .take dest hpc
    · exact nomatch h
  | queue =>
    rw [step] at h
    split at h
    · next dest event hpc => exact some.inj h ▸ .queue dest event hpc
    · exact nomatch h
  | schedule =>
    obtain ⟨hpc, hs⟩ := ite_none_right_eq_some.mp h
    exact some.inj hs ▸ .schedule hpc
  | timer =>
    obtain ⟨⟨htimer, hidle⟩, hs⟩ := ite_none_right_eq_some.mp h
    exact some.inj hs ▸ .timer htimer hidle
  | loop =>
    rw [step] at h
    split at h
    · next n empty hpc => exact some.inj h ▸ .loop n empty hpc
    · exact nomatch h
  | free =>
    rw [step] at h
    split at h
    · next n event hpc => exact some.inj h ▸ .free n event hpc
    · exact nomatch h
  | process o =>
    rw [step] at h
    split at h
    · next n hpc => exact some.inj h ▸ .process n o hpc
    · exact nomatch h
  | dfsfound =>
    obtain ⟨hpc, hs⟩ := ite_none_right_eq_some.mp h
    exact some.inj hs ▸ .dfsfound hpc
  | finish => obtain ⟨hpc, hs⟩ := ite_none_right_eq_some.mp h; exact some.inj hs ▸ .finish hpc
  | reset => exact some.inj h ▸ .reset
  | bangradar => exact some.inj h ▸ .bangradar
  | configure conf => exact some.inj h ▸ .configure conf

/-! ## Every event is in one place -/

def Phyerr.held : Phyerr → List Nat
  | .queue _ event => [event]
  | _ => []

def Task.held : Task → List Nat
  | .free _ event => [event]
  | _ => []

def State.places (s : State) (event : Nat) : Nat :=
  s.dfs_eventq.count event + s.dfs_radarq.count event + s.dfs_arq.count event +
    s.phyerr.held.count event + s.task.held.count event

/-- Each event buffer is in one place. -/
def Conserved (s : State) : Prop :=
  ∀ event, s.places event = if event < DFS_MAX_EVENTS then 1 else 0

theorem conserved_init (conf : Conf) : Conserved (State.init conf) := by
  intro event
  simp only [State.places, State.init, Phyerr.held, Task.held, count_nil, Nat.add_zero]
  rw [count_range]

theorem resetLoop_eq (radarq eventq : List Nat) : resetLoop radarq eventq = eventq ++ radarq := by
  induction radarq generalizing eventq with
  | nil => exact (append_nil _).symm
  | cons event radarq ih => rw [resetLoop, ih, append_assoc, singleton_append]

theorem held_route (c : Conf) (e : Pulse) : (route c e).held = [] := by
  rw [route]
  repeat' split
  all_goals rfl

variable (event : Nat)

theorem places_reset (s : State) : (dfs_reset_radarq s).places event = s.places event := by
  simp only [State.places, dfs_reset_radarq, resetLoop_eq, count_append, count_nil]
  omega

theorem places_phyerrTake {dest : Dest} (h : s.phyerr = .take dest) :
    (phyerrTake s dest).places event = s.places event := by
  rw [phyerrTake]
  split
  · simp only [State.places, h, Phyerr.held]
  · next ev eventq hq =>
      simp only [State.places, h, hq, Phyerr.held, count_cons, count_nil]
      omega

theorem places_phyerrQueue {dest : Dest} {ev : Nat} (h : s.phyerr = .queue dest ev) :
    (phyerrQueue s ev dest).places event = s.places event := by
  cases dest with
  | arq => simp only [State.places, phyerrQueue, h, Phyerr.held, count_append, count_nil]; omega
  | radarq =>
    simp only [State.places, phyerrQueue, h, Phyerr.held, count_append, count_nil]
    omega

theorem places_taskStart (h : s.task = .idle) : (taskStart s).places event = s.places event := by
  have hreset := places_reset event s
  rw [taskStart]
  split
  · simp only [State.places, dfs_reset_radarq, h, Task.held] at hreset ⊢
    exact hreset
  · split
    · simp only [State.places, h, Task.held]
    · split
      · simp only [State.places, h, Task.held]
      · simp only [State.places, h, Task.held]

theorem places_taskLoop {n : Nat} {empty : Bool} (h : s.task = .loop n empty) :
    (taskLoop s n empty).places event = s.places event := by
  rw [taskLoop]
  split
  · split
    · simp only [State.places, h, Task.held]
    · next ev radarq hq =>
        simp only [State.places, h, hq, Task.held, count_cons, count_nil]
        omega
  · simp only [State.places, h, Task.held]

theorem places_task {t : Task} (hs : s.task.held = []) (ht : t.held = []) :
    State.places { s with task := t } event = s.places event := by
  rw [State.places, State.places, hs, ht]

theorem places_taskProcess {n : Nat} (h : s.task = .process n) (o : Outcome) :
    (taskProcess s n o).places event = s.places event := by
  cases o with
  | skip => exact places_task event (h ▸ rfl) rfl
  | pulse small_diff_ts found =>
    have hs : (if small_diff_ts then dfs_reset_radarq s else s).places event = s.places event ∧
        (if small_diff_ts then dfs_reset_radarq s else s).task.held = [] := by
      cases small_diff_ts with
      | true => exact ⟨places_reset event s, h ▸ rfl⟩
      | false => exact ⟨rfl, h ▸ rfl⟩
    rw [taskProcess]
    split
    · rw [places_task event hs.2 rfl, hs.1]
    · rw [places_task event hs.2 rfl, hs.1]

theorem Move.places {e : Step} (h : Move s e s') : s'.places event = s.places event := by
  have hreset := places_reset event s
  cases h with
  | phyerr e hidle =>
    rw [phyerrStart]
    split
    · rfl
    · rw [State.places, State.places, hidle]
      exact congrArg (fun l : List Nat => s.dfs_eventq.count event + s.dfs_radarq.count event +
        s.dfs_arq.count event + l.count event + s.task.held.count event) (held_route s.conf e)
  | take dest h => exact places_phyerrTake event h
  | queue dest ev h => exact places_phyerrQueue event h
  | schedule h =>
    rw [phyerrSchedule]
    split
    · simp only [State.places, h, Phyerr.held]
    · simp only [State.places, h, Phyerr.held]
  | timer htimer h => exact places_taskStart event h
  | loop n empty h => exact places_taskLoop event h
  | free n ev h =>
    simp only [State.places, taskFree, h, Task.held, count_append, count_nil]
    omega
  | process n o h => exact places_taskProcess event h o
  | dfsfound h =>
    simp only [State.places, taskFound, dfs_reset_radarq, h, Task.held] at hreset ⊢
    exact hreset
  | finish h => simp only [State.places, h, Task.held]
  | reset => exact hreset
  | bangradar => rfl
  | configure conf => rfl

/-! ## The order of the queue -/

/-- What was put on `dfs_radarq` is what was taken off it, and then what is there. -/
def InOrder (s : State) : Prop := s.queued = s.taken ++ s.dfs_radarq

theorem InOrder.reset (h : InOrder s) : InOrder (dfs_reset_radarq s) := by
  exact h.trans (append_nil _).symm

theorem Move.inOrder {e : Step} (hm : Move s e s') (h : InOrder s) : InOrder s' := by
  cases hm with
  | phyerr e =>
    rw [phyerrStart]
    split
    · exact h
    · exact h
  | take dest =>
    rw [phyerrTake]
    split
    · exact h
    · exact h
  | queue dest ev =>
    cases dest with
    | arq => exact h
    | radarq =>
      rw [InOrder] at h ⊢
      rw [phyerrQueue, h, append_assoc]
  | schedule =>
    rw [phyerrSchedule]
    split
    · exact h
    · exact h
  | timer htimer =>
    rw [taskStart]
    split
    · exact h.reset
    · split
      · exact h
      · split
        · exact h
        · exact h
  | loop n empty =>
    rw [taskLoop]
    split
    · split
      · exact h
      · next ev radarq hq =>
          rw [InOrder, hq] at h
          rw [InOrder, h, append_assoc, singleton_append]
    · exact h
  | free => exact h
  | process n o =>
    cases o with
    | skip => exact h
    | pulse small_diff_ts found =>
      have hs : InOrder (if small_diff_ts then dfs_reset_radarq s else s) := by
        split
        · exact h.reset
        · exact h
      rw [taskProcess]
      split
      · exact hs
      · exact hs
  | dfsfound => exact h.reset
  | finish => exact h
  | reset => exact h.reset
  | bangradar => exact h
  | configure => exact h

/-! ## A task for what is queued -/

/-- The task does not look at the queue any more. -/
def Task.looked : Task → Bool
  | .loop _ empty => empty
  | .finish => true
  | _ => false

def Apart (s : State) : Step → Prop
  | .queue => s.task.looked = false
  | _ => True

instance (s : State) (e : Step) : Decidable (Apart s e) := by
  unfold Apart
  split <;> infer_instance

def State.Left (s : State) : Prop := s.exit = some .w53 ∨ s.exit = some .max_events

structure Sched (s : State) : Prop where
  flag : s.ath_radar_tasksched = true → s.timer = true ∨ s.task ≠ .idle
  /-- The last look has found the queue empty, or the task leaves what is there. -/
  looked : s.task.looked = true → s.dfs_radarq ≠ [] → s.task = .finish ∧ s.Left
  idle : s.task = .idle → s.dfs_radarq ≠ [] → s.timer = true ∨ s.phyerr = .schedule ∨ s.Left

theorem sched_init (conf : Conf) : Sched (State.init conf) where
  flag := nofun
  looked := nofun
  idle := fun _ h => absurd rfl h

theorem sched_of_empty (hflag : s.ath_radar_tasksched = true → s.timer = true ∨ s.task ≠ .idle)
    (hempty : s.dfs_radarq = []) : Sched s :=
  ⟨hflag, fun _ h => absurd hempty h, fun _ h => absurd hempty h⟩

theorem sched_of_running (htask : s.task ≠ .idle) (hlook : s.task.looked = false) : Sched s :=
  ⟨fun _ => .inr htask, fun h => absurd (h.symm.trans hlook) (by decide),
    fun h => absurd h htask⟩

theorem sched_loop (s : State) (n : Nat) :
    Sched { s with task := .loop n (s.dfs_radarq = []) } := by
  refine ⟨fun _ => .inr fun h => (nomatch h), fun hlook hne => ?_, nofun⟩
  exact absurd (of_decide_eq_true hlook) hne

theorem Sched.idle_of_ne (h : Sched s) (hpc : s.phyerr ≠ .schedule) (htask : s.task = .idle)
    (hne : s.dfs_radarq ≠ []) (p : Phyerr) : s.timer = true ∨ p = .schedule ∨ s.Left := by
  rcases h.idle htask hne with h | h | h
  · exact .inl h
  · exact absurd h hpc
  · exact .inr (.inr h)

theorem Sched.phyerrSchedule (h : Sched s) : Sched (phyerrSchedule s) := by
  rw [DfsEvents.phyerrSchedule]
  split
  · exact ⟨fun _ => .inl rfl, h.looked, fun _ _ => .inl rfl⟩
  · next hcond =>
      refine ⟨h.flag, h.looked, fun htask hne => ?_⟩
      have hflag : s.ath_radar_tasksched = true := by
        by_contra hfalse
        exact hcond ⟨hne, eq_false_of_ne_true hfalse⟩
      rcases h.flag hflag with htimer | hrun
      · exact .inl htimer
      · exact absurd htask hrun

theorem sched_taskStart (s : State) : Sched (taskStart s) := by
  rw [taskStart]
  split
  · exact sched_of_empty (fun _ => .inr fun h => (nomatch h)) rfl
  · split
    · exact sched_of_running (nofun) rfl
    · split
      · exact ⟨fun _ => .inr fun h => (nomatch h), fun _ _ => ⟨rfl, .inl rfl⟩, nofun⟩
      · exact sched_loop s 0

theorem Sched.taskLoop (h : Sched s) {n : Nat} {empty : Bool} (hpc : s.task = .loop n empty) :
    Sched (taskLoop s n empty) := by
  rw [DfsEvents.taskLoop]
  split
  · split
    · next hq => exact sched_of_empty (fun _ => .inr fun h => (nomatch h)) hq
    · exact sched_of_running (nofun) rfl
  · refine ⟨fun _ => .inr fun h => (nomatch h), fun _ hne => ⟨rfl, ?_⟩, nofun⟩
    cases empty with
    | true =>
      -- the look that has found nothing was the last one
      have hlook := h.looked (by rw [hpc]; rfl) hne
      exact absurd (hpc.symm.trans hlook.1) (nofun)
    | false => exact .inr rfl

theorem Move.sched {e : Step} (hm : Move s e s') (hapart : Apart s e) (h : Sched s) : Sched s' := by
  cases hm with
  | phyerr e hidle =>
    rw [phyerrStart]
    split
    · exact h
    · exact ⟨h.flag, h.looked, fun ht hne => h.idle_of_ne (hidle ▸ nofun) ht hne (route s.conf e)⟩
  | take dest hpc =>
    have hne : s.phyerr ≠ .schedule := hpc ▸ nofun
    rw [phyerrTake]
    split
    · exact ⟨h.flag, h.looked, fun ht hq => h.idle_of_ne hne ht hq .idle⟩
    · next ev eventq _ =>
        exact ⟨h.flag, h.looked, fun ht hq => h.idle_of_ne hne ht hq (.queue dest ev)⟩
  | queue dest ev hpc =>
    cases dest with
    | arq => exact ⟨h.flag, h.looked, fun _ _ => .inr (.inl rfl)⟩
    | radarq =>
      have hlook : s.task.looked = false := hapart
      exact ⟨h.flag, fun h => absurd (h.symm.trans hlook) (by decide), fun _ _ => .inr (.inl rfl)⟩
  | schedule hpc => exact h.phyerrSchedule
  | timer htimer hidle => exact sched_taskStart _
  | loop n empty hpc => exact h.taskLoop hpc
  | free n ev hpc => exact sched_of_running (nofun) rfl
  | process n o hpc =>
    cases o with
    | skip => exact sched_loop s n
    | pulse small_diff_ts found =>
      rw [taskProcess]
      split
      · exact sched_of_running (nofun) rfl
      · exact sched_loop _ n
  | dfsfound hpc => exact sched_of_empty (fun _ => .inr fun h => (nomatch h)) rfl
  | finish hpc =>
    refine ⟨fun h => (nomatch h), fun h => (nomatch h), fun _ hne => .inr (.inr ?_)⟩
    exact (h.looked (by rw [hpc]; rfl) hne).2
  | reset => exact sched_of_empty h.flag rfl
  | bangradar => exact ⟨fun _ => .inl rfl, h.looked, fun _ _ => .inl rfl⟩
  | configure conf => exact ⟨h.flag, h.looked, h.idle⟩

/-! ## The events over runs -/

/-- There is a task for what is on `dfs_radarq`: it is scheduled, or it is running, or
`dfs_process_phyerr` is about to schedule it. -/
def Attended (s : State) : Prop :=
  s.timer = true ∨ s.task ≠ .idle ∨ s.phyerr = .schedule

/-- **The events**: in every run each of them is in one place, and they leave `dfs_radarq` in the
order in which they came. If no event is queued between the last look of the task at the queue
and its end, there is a task for what is queued, unless the last one has left it there. -/
theorem events_kept (conf : Conf) (steps : List Step) (s : State) :
    (run step (State.init conf) steps = some s → Conserved s ∧ InOrder s) ∧
      (run (guarded Apart step) (State.init conf) steps = some s →
        s.dfs_radarq ≠ [] → Attended s ∨ s.exit = some .w53 ∨ s.exit = some .max_events) := by
  refine ⟨fun h => ?_, fun h hne => ?_⟩
  · refine run_invariant (I := fun s => Conserved s ∧ InOrder s) (fun t e t' ht hstep => ?_)
      ⟨conserved_init conf, rfl⟩ h
    have hm := move_of_step hstep
    exact ⟨fun event => (hm.places event).trans (ht.1 event), hm.inOrder ht.2⟩
  · have hsched : Sched s :=
      guarded_run_invariant (fun t e t' ht hok hstep => (move_of_step hstep).sched hok ht)
        (sched_init conf) h
    by_cases htask : s.task = .idle
    · rcases hsched.idle htask hne with h | h | h
      · exact .inl (.inl h)
      · exact .inl (.inr (.inr h))
      · exact .inr h
    · exact .inl (.inr (.inl htask))

/-- A DFS channel at 5260 MHz, with radar detection enabled. -/
def confChan52 (region : Region) : Conf where
  ic_curchan := ⟨5260, 0, IEEE80211_CHAN_DFS⟩
  dfsdomain := region
  dfs_proc_phyerr := DFS_RADAR_EN
  ath_dfs_ext_chan_ok := false
  ath_chip_is_bb_tlv := true
  rn_minrssithresh := 5
  rn_maxpulsedur := 105

def onePulse : List Step := [.phyerr ⟨true, 20, 10⟩, .take, .queue, .schedule]

/-- Two pulses are queued and processed by one task, and a third one comes after it. -/
def threePulses : List Step :=
  onePulse ++ onePulse ++ [.timer, .loop, .free, .process (.pulse false false), .loop, .free,
    .process .skip, .loop, .finish] ++ onePulse

theorem events_kept_three_pulses :
    ∃ s, run (guarded Apart step) (State.init (confChan52 .DFS_FCC_REGION)) threePulses = some s ∧
      s.dfs_radarq = [2] ∧ (Conserved s ∧ InOrder s) ∧
      (Attended s ∨ s.exit = some .w53 ∨ s.exit = some .max_events) := by
  refine exists_of_tested (fun s => s.dfs_radarq = [2]) (by decide +kernel) fun s hs hq => ?_
  have hne : s.dfs_radarq ≠ [] := by rw [hq]; decide
  exact ⟨hq, (events_kept _ _ s).1 (run_of_guarded hs), (events_kept _ _ s).2 hs hne⟩

/-- In Japan the task does not look at a single pulse: the event stays on the queue, and no task
is scheduled for it. -/
theorem w53_unattended :
    ∃ s, run step (State.init (confChan52 .DFS_MKK_REGION)) (onePulse ++ [.timer, .finish]) = some s ∧
      s.dfs_radarq = [0] ∧ s.exit ≠ some .radar ∧ s.ath_radar_tasksched = false ∧ ¬ Attended s := by
  refine exists_of_tested (fun s => s.dfs_radarq = [0] ∧ s.exit ≠ some .radar ∧
      s.ath_radar_tasksched = false ∧ s.timer = false ∧ s.task = .idle ∧ s.phyerr = .idle)
    (by decide +kernel) fun s hs ⟨hq, hexit, hflag, htimer, htask, hpc⟩ => ?_
  refine ⟨hq, hexit, hflag, ?_⟩
  rw [Attended, htimer, htask, hpc]; decide

end Qcacld.DfsEvents
