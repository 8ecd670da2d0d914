/-
The non-occupancy list (NOL) of DFS channels: `dfs_nol.c`.

Time is counted in ticks (jiffies), of which there are `HZ` in a second, and timers expire on time:
no tick passes while one is due. The arguments are told apart by a number that is not used again. An
allocation may fail. `added` is a log of what was put on the list, the newest first; the code does
not have it.
-/
import Qcacld.Lib.Run
import Mathlib.Algebra.Order.Ring.Int
import Mathlib.Data.List.Nodup

set_option autoImplicit false

namespace Qcacld.DfsNol

open Lib

section

/-! ## Time -/

structure Clock where
  HZ : Nat
  ms_per_tick : Nat
  hz_mul : HZ * ms_per_tick = 1000

def TIME_IN_MS : Nat := 1000

/-- Longer waits are cut to this number of ticks. -/
def MAX_JIFFY_OFFSET : Nat := 2 ^ 62 - 2

/-- The result is of 32 bits. -/
def cdf_system_ticks_to_msecs (clk : Clock) (ticks : Nat) : Nat := clk.ms_per_tick * ticks % 2 ^ 32

/-- A number of milliseconds that is negative as an `int` is for ever. -/
def msecs_to_jiffies (clk : Clock) (m : Nat) : Nat :=
  if m < 2 ^ 31 then (m + clk.ms_per_tick - 1) / clk.ms_per_tick else MAX_JIFFY_OFFSET

/-! ## The list -/

inductive Opmode where
  | IEEE80211_M_STA
  | IEEE80211_M_IBSS
  | IEEE80211_M_AHDEMO
  | IEEE80211_M_HOSTAP
  | IEEE80211_M_MONITOR
  | IEEE80211_M_WDS
  | IEEE80211_M_BTAMP
  | IEEE80211_M_P2P_GO
  | IEEE80211_M_P2P_CLIENT
  | IEEE80211_M_P2P_DEVICE
  deriving DecidableEq

structure Timer where
  expires : Option Nat
  arg : Nat
  deriving DecidableEq

structure NolElem where
  nol_freq : Nat
  nol_chwidth : Nat
  nol_start_ticks : Nat
  nol_timeout_ms : Nat
  nol_timer : Timer
  deriving DecidableEq

/-- `dfs_nol_timer_arg`, with fields of 16 bits. -/
structure TimerArg where
  delfreq : Nat
  delchwidth : Nat

/-- `dfsreq_nolelem`, whose frequency has 16 bits too. -/
structure ReqNolElem where
  nol_freq : Nat
  nol_chwidth : Nat
  nol_start_ticks : Nat
  nol_timeout_ms : Nat

/-- A channel was put on the list at a tick, for a number of seconds. -/
structure Addition where
  freq : Nat
  ticks : Nat
  timeout : Nat

structure State where
  dfs_nol : List NolElem
  dfs_nol_count : Int
  /-- The arguments in memory; `none` once they are freed. -/
  args : Nat → Option TimerArg
  args_next : Nat
  ic_opmode : Opmode
  ticks : Nat
  /-- What `dfs_get_nol` has last given out. -/
  saved : List ReqNolElem
  added : List Addition

def State.init : State where
  dfs_nol := []
  dfs_nol_count := 0
  args := fun _ => none
  args_next := 0
  ic_opmode := .IEEE80211_M_HOSTAP
  ticks := 0
  saved := []
  added := []

variable (clk : Clock)

def Timer.set (timer : Timer) (ticks ms : Nat) : Timer :=
  { timer with expires := some (ticks + msecs_to_jiffies clk ms) }

/-- All events are taken to be 20 MHz wide. -/
def ch_width : Nat := 20

def NolElem.Is (nol : NolElem) (freq width : Nat) : Prop :=
  nol.nol_freq = freq ∧ nol.nol_chwidth = width
deriving Decidable

/-- The loop of `dfs_nol_addchan`: the timer of the channel starts anew, if it is on the
list. -/
def renew (ticks timeout_ms freq : Nat) : List NolElem → Option (List NolElem)
  | [] => none
  | nol :: rest =>
    if nol.Is freq ch_width then
      some ({ nol with
        nol_start_ticks := ticks
        nol_timeout_ms := timeout_ms
        nol_timer := nol.nol_timer.set clk ticks timeout_ms } :: rest)
    else (renew ticks timeout_ms freq rest).map fun rest => nol :: rest

/-- `elem_ok` and `arg_ok` say whether there is memory for an entry and for the argument of its
timer. -/
def dfs_nol_addchan (s : State) (ic_freq dfs_nol_timeout : Nat) (elem_ok arg_ok : Bool) : State :=
  let timeout_ms := dfs_nol_timeout * TIME_IN_MS % 2 ^ 32
  let added := ⟨ic_freq, s.ticks, dfs_nol_timeout⟩ :: s.added
  match renew clk s.ticks timeout_ms ic_freq s.dfs_nol with
  | some nol => { s with dfs_nol := nol, added := added }
  | none =>
    if elem_ok = false ∨ arg_ok = false then s
    else
      let elem : NolElem :=
        { nol_freq := ic_freq
          nol_chwidth := ch_width
          nol_start_ticks := s.ticks
          nol_timeout_ms := timeout_ms
          nol_timer := Timer.set clk ⟨none, s.args_next⟩ s.ticks timeout_ms }
      { s with
        dfs_nol := s.dfs_nol ++ [elem]
        dfs_nol_count := s.dfs_nol_count + 1
        args := Function.update s.args s.args_next
          (some ⟨ic_freq % 2 ^ 16, ch_width % 2 ^ 16⟩)
        args_next := s.args_next + 1
        added := added }

/-- The loop of `dfs_nol_delete`, with the rest of the list and its length after it. -/
def deleteLoop (delfreq delchwidth : Nat) : List NolElem → Int → List NolElem × Int
  | [], count => ([], count)
  | nol :: rest, count =>
    if nol.Is delfreq delchwidth then
      -- the timer is cancelled before the entry is freed
      deleteLoop delfreq delchwidth rest (if count - 1 < 0 then 0 else count - 1)
    else
      let (rest, count) := deleteLoop delfreq delchwidth rest count
      (nol :: rest, count)

def dfs_nol_delete (s : State) (delfreq delchwidth : Nat) : State :=
  let (nol, count) := deleteLoop delfreq delchwidth s.dfs_nol s.dfs_nol_count
  { s with dfs_nol := nol, dfs_nol_count := count }

/-- The function of the timers; `none` if the argument is no longer there. -/
def dfs_remove_from_nol (s : State) (arg : Nat) : Option State :=
  match s.args arg with
  | none => none
  | some nol_arg =>
    -- only operate in HOSTAP/IBSS
    let s :=
      if s.ic_opmode ≠ .IEEE80211_M_HOSTAP ∧ s.ic_opmode ≠ .IEEE80211_M_IBSS then s
      else dfs_nol_delete s nol_arg.delfreq nol_arg.delchwidth
    some { s with args := Function.update s.args arg none }

def dfs_get_nol (s : State) : List ReqNolElem :=
  s.dfs_nol.map fun nol =>
    { nol_freq := nol.nol_freq % 2 ^ 16
      nol_chwidth := nol.nol_chwidth % 2 ^ 16
      nol_start_ticks := nol.nol_start_ticks
      nol_timeout_ms := nol.nol_timeout_ms }

def setLoop (ok : Nat → Bool × Bool) : List ReqNolElem → Nat → State → State
  | [], _, s => s
  | nol :: rest, i, s =>
    let elapsed_ms := cdf_system_ticks_to_msecs clk (s.ticks - nol.nol_start_ticks)
    setLoop ok rest (i + 1)
      (if elapsed_ms < nol.nol_timeout_ms then
        dfs_nol_addchan clk s nol.nol_freq ((nol.nol_timeout_ms - elapsed_ms) / TIME_IN_MS)
          (ok i).1 (ok i).2
      else s)

def dfs_set_nol (s : State) (dfs_nol : List ReqNolElem) (ok : Nat → Bool × Bool) : State :=
  setLoop clk ok dfs_nol 0 s

/-! ## Runs -/

inductive Step where
  | addchan (ic_freq dfs_nol_timeout : Nat) (elem_ok arg_ok : Bool)
  /-- The timer of the `i`-th entry expires. -/
  | expire (i : Nat)
  | opmode (mode : Opmode)
  /-- Ticks pass. -/
  | elapse (n : Nat)
  | get_nol
  /-- What was last given out is put back. -/
  | set_nol (ok : Nat → Bool × Bool)

def step (s : State) : Step → Option State
  | .addchan freq timeout elem_ok arg_ok => some (dfs_nol_addchan clk s freq timeout elem_ok arg_ok)
  | .expire i =>
    match s.dfs_nol[i]? with
    | none => none
    | some nol =>
      match nol.nol_timer.expires with
      | none => none
      | some ticks =>
        if ticks ≤ s.ticks then
          let fired := { nol with nol_timer := { nol.nol_timer with expires := none } }
          dfs_remove_from_nol { s with dfs_nol := s.dfs_nol.set i fired } nol.nol_timer.arg
        else none
  | .opmode mode => some { s with ic_opmode := mode }
  | .elapse n =>
    if ∀ nol ∈ s.dfs_nol, ∀ ticks ∈ nol.nol_timer.expires, s.ticks + n ≤ ticks then
      some { s with ticks := s.ticks + n }
    else none
  | .get_nol => some { s with saved := dfs_get_nol s }
  | .set_nol ok => some (dfs_set_nol clk s s.saved ok)

end

open List

/-! An entry belongs to the latest addition of its channel: it has its timer, which is armed and
expires when the time of that addition is over, and the argument of the timer names the entry
(`EntryOk`). -/

variable (clk : Clock)

/-! ## Invariant -/

def latest (added : List Addition) (freq : Nat) : Option Addition :=
  added.find? fun a => a.freq = freq

def Addition.deadline (a : Addition) : Nat := a.ticks + a.timeout * clk.HZ

structure EntryOk (args : Nat → Option TimerArg) (ticks : Nat) (added : List Addition)
    (nol : NolElem) : Prop where
  width : nol.nol_chwidth = ch_width
  freq_lt : nol.nol_freq < 2 ^ 16
  addition : ∃ a, latest added nol.nol_freq = some a ∧ nol.nol_start_ticks = a.ticks ∧
    nol.nol_timeout_ms = a.timeout * TIME_IN_MS ∧ a.timeout * TIME_IN_MS < 2 ^ 31 ∧
    nol.nol_timer.expires = some (a.deadline clk) ∧ a.ticks ≤ ticks ∧ ticks ≤ a.deadline clk
  arg : args nol.nol_timer.arg = some ⟨nol.nol_freq, ch_width⟩

/-- One entry for each channel, and every channel whose time is not over has one. -/
structure Inv (s : State) : Prop where
  nodup : (s.dfs_nol.map NolElem.nol_freq).Nodup
  count : s.dfs_nol_count = s.dfs_nol.length
  entry : ∀ nol ∈ s.dfs_nol, EntryOk clk s.args s.ticks s.added nol
  fresh : ∀ n, s.args_next ≤ n → s.args n = none
  /-- A channel whose time is not over is on the list. -/
  present : ∀ freq a, latest s.added freq = some a → s.ticks < a.deadline clk →
    ∃ nol ∈ s.dfs_nol, nol.nol_freq = freq
  saved : ∀ e ∈ s.saved, e.nol_freq < 2 ^ 16 ∧ e.nol_timeout_ms < 2 ^ 31

theorem Inv.init : Inv clk State.init where
  nodup := nodup_nil
  count := rfl
  entry := nofun
  fresh := fun _ _ => rfl
  present := fun _ _ h => nomatch h
  saved := nofun

variable {clk} {s s' : State}

theorem latest_cons_self (a : Addition) (added : List Addition) :
    latest (a :: added) a.freq = some a := find?_cons_of_pos (by simp)

theorem latest_cons_ne {a : Addition} {freq : Nat} (h : freq ≠ a.freq) (added : List Addition) :
    latest (a :: added) freq = latest added freq :=
  find?_cons_of_neg (by simpa using fun h' => h h'.symm)

theorem Clock.ms_pos (clk : Clock) : 0 < clk.ms_per_tick := by
  have h := clk.hz_mul
  by_contra hz
  rw [Nat.eq_zero_of_not_pos hz, Nat.mul_zero] at h; exact absurd h (by decide)

theorem msecs_to_jiffies_sec {T : Nat} (hT : T * TIME_IN_MS < 2 ^ 31) :
    msecs_to_jiffies clk (T * TIME_IN_MS) = T * clk.HZ := by
  have hpos := clk.ms_pos
  have hmul : T * TIME_IN_MS = T * clk.HZ * clk.ms_per_tick := by
    rw [Nat.mul_assoc, clk.hz_mul]; rfl
  rw [msecs_to_jiffies, if_pos hT, hmul, Nat.add_sub_assoc hpos,
    Nat.mul_comm (T * clk.HZ), Nat.mul_add_div hpos, Nat.div_eq_of_lt (by omega), Nat.add_zero]

theorem timeout_mod {T : Nat} (hT : T * TIME_IN_MS < 2 ^ 31) :
    T * TIME_IN_MS % 2 ^ 32 = T * TIME_IN_MS := Nat.mod_eq_of_lt (by omega)

/-! ## The entries -/

variable {args args' : Nat → Option TimerArg} {ticks ticks' : Nat} {added : List Addition}
  {a : Addition} {nol : NolElem}

theorem EntryOk.cons (h : EntryOk clk args ticks added nol) (hne : nol.nol_freq ≠ a.freq) :
    EntryOk clk args ticks (a :: added) nol := by
  obtain ⟨b, hb, hrest⟩ := h.addition
  exact ⟨h.width, h.freq_lt, ⟨b, (latest_cons_ne hne added).trans hb, hrest⟩, h.arg⟩

theorem EntryOk.of_arg (h : EntryOk clk args ticks added nol)
    (harg : args' nol.nol_timer.arg = args nol.nol_timer.arg) :
    EntryOk clk args' ticks added nol :=
  ⟨h.width, h.freq_lt, h.addition, harg.trans h.arg⟩

theorem EntryOk.is (h : EntryOk clk args ticks added nol) (freq : Nat) :
    nol.Is freq ch_width ↔ nol.nol_freq = freq := and_iff_left h.width

theorem EntryOk.new {freq T arg : Nat} (hfreq : freq < 2 ^ 16) (hT : T * TIME_IN_MS < 2 ^ 31)
    (harg : args arg = some ⟨freq, ch_width⟩) (x : Option Nat) :
    EntryOk clk args ticks (⟨freq, ticks, T⟩ :: added)
      ⟨freq, ch_width, ticks, T * TIME_IN_MS, Timer.set clk ⟨x, arg⟩ ticks (T * TIME_IN_MS)⟩ := by
  refine ⟨rfl, hfreq, ⟨⟨freq, ticks, T⟩, latest_cons_self _ added, rfl, rfl, hT, ?_,
    Nat.le_refl ticks, Nat.le_add_right ticks _⟩, harg⟩
  rw [Timer.set, msecs_to_jiffies_sec hT]; rfl

/-! ## Additions -/

theorem renew_eq_none {timeout_ms freq : Nat} {l : List NolElem} :
    renew clk ticks timeout_ms freq l = none ↔ ∀ nol ∈ l, ¬ nol.Is freq ch_width := by
  induction l with
  | nil => exact ⟨nofun, fun _ => rfl⟩
  | cons x l ih =>
    rw [renew, forall_mem_cons]
    by_cases hx : x.Is freq ch_width
    · rw [if_pos hx]; exact ⟨fun h => (nomatch h), fun h => absurd hx h.1⟩
    · rw [if_neg hx, Option.map_eq_none_iff, ih]; exact ⟨fun h => ⟨hx, h⟩, fun h => h.2⟩

theorem renew_eq_some {timeout_ms freq : Nat} {l l' : List NolElem}
    (h : renew clk ticks timeout_ms freq l = some l') :
    ∃ pre nol post, l = pre ++ nol :: post ∧ nol.Is freq ch_width ∧
      l' = pre ++ ⟨nol.nol_freq, nol.nol_chwidth, ticks, timeout_ms,
        nol.nol_timer.set clk ticks timeout_ms⟩ :: post := by
  induction l generalizing l' with
  | nil => exact nomatch h
  | cons x l ih =>
    rw [renew] at h
    by_cases hx : x.Is freq ch_width
    · rw [if_pos hx, Option.some.injEq] at h; exact ⟨[], x, l, rfl, hx, h.symm⟩
    · rw [if_neg hx, Option.map_eq_some_iff] at h
      obtain ⟨rest, hrest, rfl⟩ := h
      obtain ⟨pre, nol, post, rfl, hnol, rfl⟩ := ih hrest
      exact ⟨x :: pre, nol, post, rfl, hnol, rfl⟩

variable {pre post : List NolElem}

theorem freq_ne_of_nodup {x : NolElem} (h : ((pre ++ x :: post).map NolElem.nol_freq).Nodup) :
    ∀ nol, nol ∈ pre ∨ nol ∈ post → nol.nol_freq ≠ x.nol_freq := by
  rw [map_append, map_cons, nodup_middle, nodup_cons, ← map_append] at h
  intro nol hnol heq; exact h.1 (heq ▸ mem_map_of_mem (mem_append.mpr hnol))

section Addchan

variable {freq T : Nat} (hfreq : freq < 2 ^ 16) (hT : T * TIME_IN_MS < 2 ^ 31)

include hfreq hT

theorem Inv.renewed (h : Inv clk s) {pre post : List NolElem} {x : NolElem}
    (hl : s.dfs_nol = pre ++ x :: post) (hx : x.Is freq ch_width) :
    Inv clk { s with
      dfs_nol := pre ++ ⟨x.nol_freq, x.nol_chwidth, s.ticks, T * TIME_IN_MS,
        x.nol_timer.set clk s.ticks (T * TIME_IN_MS)⟩ :: post
      added := ⟨freq, s.ticks, T⟩ :: s.added } := by
  have hnodup := hl ▸ h.nodup
  have hother := freq_ne_of_nodup hnodup
  have hentry := hl ▸ h.entry
  have hxok := hentry x (mem_append_right _ mem_cons_self)
  obtain ⟨rfl, hwidth⟩ := hx
  refine ⟨?_, ?_, ?_, h.fresh, ?_, h.saved⟩
  · rw [map_append, map_cons] at hnodup ⊢
    exact hnodup
  · rw [h.count, hl, length_append, length_append]; rfl
  · intro nol hnol
    rcases mem_append.mp hnol with hnol | hnol
    · exact (hentry nol (mem_append_left _ hnol)).cons (hother nol (.inl hnol))
    · rcases mem_cons.mp hnol with rfl | hnol
      · rw [hwidth]; exact EntryOk.new hfreq hT hxok.arg x.nol_timer.expires
      · exact (hentry nol (mem_append_right _ (mem_cons_of_mem _ hnol))).cons
          (hother nol (.inr hnol))
  · intro f a ha hlt
    by_cases hf : f = x.nol_freq
    · exact ⟨_, mem_append_right _ mem_cons_self, hf.symm⟩
    · obtain ⟨nol, hnol, rfl⟩ := h.present f a ((latest_cons_ne hf s.added).symm.trans ha) hlt
      rw [hl, mem_append, mem_cons] at hnol
      refine ⟨nol, ?_, rfl⟩
      rcases hnol with hnol | rfl | hnol
      · exact mem_append_left _ hnol
      · exact absurd rfl hf
      · exact mem_append_right _ (mem_cons_of_mem _ hnol)

theorem Inv.appended (h : Inv clk s) (hne : ∀ nol ∈ s.dfs_nol, nol.nol_freq ≠ freq) :
    Inv clk { s with
      dfs_nol := s.dfs_nol ++ [⟨freq, ch_width, s.ticks, T * TIME_IN_MS,
        Timer.set clk ⟨none, s.args_next⟩ s.ticks (T * TIME_IN_MS)⟩]
      dfs_nol_count := s.dfs_nol_count + 1
      args := Function.update s.args s.args_next (some ⟨freq, ch_width⟩)
      args_next := s.args_next + 1
      added := ⟨freq, s.ticks, T⟩ :: s.added } := by
  have harg : ∀ nol ∈ s.dfs_nol, nol.nol_timer.arg ≠ s.args_next := by
    intro nol hnol heq
    have hsome := (h.entry nol hnol).arg
    rw [h.fresh _ (Nat.le_of_eq heq.symm)] at hsome; exact nomatch hsome
  refine ⟨?_, ?_, ?_, ?_, ?_, h.saved⟩
  · rw [map_append, nodup_append]
    refine ⟨h.nodup, nodup_singleton _, ?_⟩
    intro f hf g hg
    obtain ⟨nol, hnol, rfl⟩ := mem_map.mp hf
    rw [mem_singleton.mp hg]; exact hne nol hnol
  · rw [length_append, h.count]; rfl
  · intro nol hnol
    rcases mem_append.mp hnol with hnol | hnol
    · exact ((h.entry nol hnol).cons (hne nol hnol)).of_arg
        (Function.update_of_ne (harg nol hnol) _ _)
    · rw [mem_singleton.mp hnol]; exact EntryOk.new hfreq hT (Function.update_self ..) none
  · intro n hn
    have hlt : s.args_next < n := hn
    dsimp only
    rw [Function.update_of_ne (Nat.ne_of_gt hlt)]; exact h.fresh n (Nat.le_of_lt hlt)
  · intro f a ha hlt
    by_cases hf : f = freq
    · exact ⟨_, mem_append_right _ (mem_singleton_self _), hf.symm⟩
    · obtain ⟨nol, hnol, rfl⟩ := h.present f a ((latest_cons_ne hf s.added).symm.trans ha) hlt
      exact ⟨nol, mem_append_left _ hnol, rfl⟩

theorem Inv.addchan (h : Inv clk s) (elem_ok arg_ok : Bool) :
    Inv clk (dfs_nol_addchan clk s freq T elem_ok arg_ok) := by
  rw [dfs_nol_addchan, timeout_mod hT]
  cases hrenew : renew clk s.ticks (T * TIME_IN_MS) freq s.dfs_nol with
  | some l' =>
    obtain ⟨pre, x, post, hl, hx, rfl⟩ := renew_eq_some hrenew
    exact h.renewed hfreq hT hl hx
  | none =>
    have hnot := renew_eq_none.mp hrenew
    by_cases hok : elem_ok = false ∨ arg_ok = false
    · rwa [if_pos hok]
    · rw [if_neg hok, Nat.mod_eq_of_lt hfreq]
      exact h.appended hfreq hT fun nol hnol heq =>
        hnot nol hnol (((h.entry nol hnol).is freq).mpr heq)

end Addchan

/-! ## Expiry -/

theorem deleteLoop_append_cons {freq width : Nat} {x : NolElem}
    (hpre : ∀ nol ∈ pre, ¬ nol.Is freq width) (hx : x.Is freq width)
    (hpost : ∀ nol ∈ post, ¬ nol.Is freq width) (count : Int) :
    deleteLoop freq width (pre ++ x :: post) count =
      (pre ++ post, if count - 1 < 0 then 0 else count - 1) := by
  have hid : ∀ l : List NolElem, (∀ nol ∈ l, ¬ nol.Is freq width) → ∀ c,
      deleteLoop freq width l c = (l, c) := by
    intro l hl c
    induction l with
    | nil => rfl
    | cons y l ih =>
      rw [deleteLoop, if_neg (hl y mem_cons_self),
        ih fun nol hnol => hl nol (mem_cons_of_mem _ hnol)]
  induction pre with
  | nil => rw [nil_append, deleteLoop, if_pos hx, hid post hpost, nil_append]
  | cons y pre ih =>
    rw [cons_append, deleteLoop, if_neg (hpre y mem_cons_self),
      ih fun nol hnol => hpre nol (mem_cons_of_mem _ hnol)]
    rfl

theorem Inv.removed (h : Inv clk s) {x : NolElem} {ticks : Nat}
    (hl : s.dfs_nol = pre ++ x :: post) (hexp : x.nol_timer.expires = some ticks)
    (hdue : ticks ≤ s.ticks) :
    Inv clk { s with
      dfs_nol := pre ++ post
      dfs_nol_count := s.dfs_nol_count - 1
      args := Function.update s.args x.nol_timer.arg none } := by
  have hnodup := hl ▸ h.nodup
  have hother := freq_ne_of_nodup hnodup
  have hentry := hl ▸ h.entry
  have hxok := hentry x (mem_append_right _ mem_cons_self)
  have hsub : ∀ nol, nol ∈ pre ++ post → nol ∈ pre ++ x :: post := by
    intro nol hnol
    rcases mem_append.mp hnol with hnol | hnol
    · exact mem_append_left _ hnol
    · exact mem_append_right _ (mem_cons_of_mem _ hnol)
  refine ⟨?_, ?_, ?_, ?_, ?_, h.saved⟩
  · rw [map_append, map_cons, nodup_middle] at hnodup
    rw [map_append]; exact (nodup_cons.mp hnodup).2
  · rw [h.count, hl, length_append, length_append, length_cons]
    dsimp only
    omega
  · intro nol hnol
    have hok := hentry nol (hsub nol hnol)
    refine hok.of_arg (Function.update_of_ne ?_ _ _)
    -- the argument names the channel, so that two entries have two of them
    intro heq
    have harg := hok.arg
    rw [heq, hxok.arg, Option.some.injEq, TimerArg.mk.injEq] at harg
    exact hother nol (mem_append.mp hnol) harg.1.symm
  · intro n hn
    by_cases hn' : n = x.nol_timer.arg
    · rw [hn']; exact Function.update_self ..
    · exact (Function.update_of_ne hn' _ _).trans (h.fresh n hn)
  · intro f a ha hlt
    obtain ⟨nol, hnol, rfl⟩ := h.present f a ha hlt
    rw [hl, mem_append, mem_cons] at hnol
    refine ⟨nol, ?_, rfl⟩
    rcases hnol with hnol | rfl | hnol
    · exact mem_append_left _ hnol
    · -- its time is not over
      obtain ⟨b, hb, -, -, -, hexp', -, -⟩ := hxok.addition
      rw [ha, Option.some.injEq] at hb
      rw [hexp, Option.some.injEq] at hexp'
      rw [← hb] at hexp'
      have hlt' : s.ticks < a.deadline clk := hlt
      omega
    · exact mem_append_right _ hnol

theorem remove_from_nol_eq {x : NolElem} {arg : Nat}
    (hmode : s.ic_opmode = .IEEE80211_M_HOSTAP ∨ s.ic_opmode = .IEEE80211_M_IBSS)
    (hl : s.dfs_nol = pre ++ x :: post) (hcount : 0 < s.dfs_nol_count)
    (harg : s.args arg = some ⟨x.nol_freq, ch_width⟩) (hwidth : x.nol_chwidth = ch_width)
    (hother : ∀ nol, nol ∈ pre ∨ nol ∈ post → nol.nol_freq ≠ x.nol_freq) :
    dfs_remove_from_nol s arg = some { s with
      dfs_nol := pre ++ post
      dfs_nol_count := s.dfs_nol_count - 1
      args := Function.update s.args arg none } := by
  have hdel := deleteLoop_append_cons (fun nol hnol h => hother nol (.inl hnol) h.1)
    ⟨rfl, hwidth⟩ (fun nol hnol h => hother nol (.inr hnol) h.1) s.dfs_nol_count
  have hmode' : ¬ (s.ic_opmode ≠ .IEEE80211_M_HOSTAP ∧ s.ic_opmode ≠ .IEEE80211_M_IBSS) := by
    rintro ⟨hap, hibss⟩
    rcases hmode with h | h
    · exact hap h
    · exact hibss h
  rw [dfs_remove_from_nol, harg]
  dsimp only
  rw [if_neg hmode', dfs_nol_delete, hl, hdel, if_neg (by omega)]

theorem Inv.expire (h : Inv clk s) {i : Nat}
    (hmode : s.ic_opmode = .IEEE80211_M_HOSTAP ∨ s.ic_opmode = .IEEE80211_M_IBSS)
    (hstep : step clk s (.expire i) = some s') : Inv clk s' := by
  simp only [step] at hstep
  split at hstep
  · exact nomatch hstep
  · next x hx =>
      split at hstep
      · exact nomatch hstep
      · next ticks hexp =>
          obtain ⟨hi, rfl⟩ := List.getElem?_eq_some_iff.mp hx
          have hl : s.dfs_nol = s.dfs_nol.take i ++ s.dfs_nol[i] :: s.dfs_nol.drop (i + 1) := by
            rw [← drop_eq_getElem_cons hi, take_append_drop]
          have hok := h.entry s.dfs_nol[i] (getElem_mem hi)
          have hother := freq_ne_of_nodup (hl ▸ h.nodup)
          have hcount : 0 < s.dfs_nol_count := by rw [h.count]; omega
          split at hstep
          · next hdue =>
              rw [set_eq_take_append_cons_drop, if_pos hi] at hstep
              obtain rfl := Option.some.inj (hstep.symm.trans
                (remove_from_nol_eq hmode rfl hcount hok.arg hok.width hother))
              exact h.removed hl hexp hdue
          · exact nomatch hstep

theorem Inv.elapse (h : Inv clk s) {n : Nat} (hstep : step clk s (.elapse n) = some s') :
    Inv clk s' := by
  simp only [step] at hstep
  split at hstep
  · next hdue =>
      cases hstep
      refine ⟨h.nodup, h.count, ?_, h.fresh, ?_, h.saved⟩
      · intro nol hnol
        obtain ⟨a, ha, hstart, hms, hlt, hexp, hle, -⟩ := (h.entry nol hnol).addition
        exact ⟨(h.entry nol hnol).width, (h.entry nol hnol).freq_lt,
          ⟨a, ha, hstart, hms, hlt, hexp, Nat.le_add_right_of_le hle, hdue nol hnol _ hexp⟩,
          (h.entry nol hnol).arg⟩
      · intro f a ha hlt
        have hlt' : s.ticks + n < a.deadline clk := hlt
        exact h.present f a ha (by omega)
  · exact nomatch hstep

/-! ## Saved lists -/

theorem Inv.get_nol (h : Inv clk s) : Inv clk { s with saved := dfs_get_nol s } := by
  refine ⟨h.nodup, h.count, h.entry, h.fresh, h.present, ?_⟩
  intro e he
  obtain ⟨nol, hnol, rfl⟩ := mem_map.mp he
  obtain ⟨a, -, -, hms, hlt, -, -, -⟩ := (h.entry nol hnol).addition
  exact ⟨Nat.mod_lt _ (by decide), hms ▸ hlt⟩

theorem Inv.setLoop (ok : Nat → Bool × Bool) (l : List ReqNolElem)
    (hl : ∀ e ∈ l, e.nol_freq < 2 ^ 16 ∧ e.nol_timeout_ms < 2 ^ 31) (i : Nat) (h : Inv clk s) :
    Inv clk (setLoop clk ok l i s) := by
  induction l generalizing i s with
  | nil => exact h
  | cons e l ih =>
    have he := hl e mem_cons_self
    refine ih (fun e' he' => hl e' (mem_cons_of_mem _ he')) (i + 1) ?_
    split
    · refine h.addchan he.1 ?_ _ _
      rw [TIME_IN_MS]; omega
    · exact h

/-! ## Runs -/

/-- Timers expire only in HOSTAP and IBSS, and no number is too large for its field: the
frequencies are of 16 bits, and the times in milliseconds are no negative `int`. -/
def StepOk (s : State) : Step → Prop
  | .addchan freq timeout _ _ => freq < 2 ^ 16 ∧ timeout * TIME_IN_MS < 2 ^ 31
  | .expire _ => s.ic_opmode = .IEEE80211_M_HOSTAP ∨ s.ic_opmode = .IEEE80211_M_IBSS
  | _ => True

instance (s : State) (e : Step) : Decidable (StepOk s e) := by
  unfold StepOk
  split <;> infer_instance

theorem Inv.step (h : Inv clk s) {e : Step} (hok : StepOk s e)
    (hstep : DfsNol.step clk s e = some s') : Inv clk s' := by
  cases e with
  | addchan freq timeout elem_ok arg_ok =>
    cases hstep
    exact h.addchan hok.1 hok.2 elem_ok arg_ok
  | expire i => exact h.expire hok hstep
  | opmode mode => cases hstep; exact ⟨h.nodup, h.count, h.entry, h.fresh, h.present, h.saved⟩
  | elapse n => exact h.elapse hstep
  | get_nol => cases hstep; exact h.get_nol
  | set_nol ok => cases hstep; exact h.setLoop ok s.saved h.saved 0

/-! ## Restoring -/

/-- What an entry says, its timer apart. -/
def NolElem.view (nol : NolElem) : Nat × Nat × Nat × Nat :=
  (nol.nol_freq, nol.nol_chwidth, nol.nol_start_ticks, nol.nol_timeout_ms)

def NolElem.remaining (clk : Clock) (nol : NolElem) (ticks : Nat) : Nat :=
  nol.nol_timeout_ms - clk.ms_per_tick * (ticks - nol.nol_start_ticks)

theorem addchan_absent (clk : Clock) {freq T : Nat} (hne : ∀ nol ∈ s.dfs_nol, nol.nol_freq ≠ freq)
    (hT : T * TIME_IN_MS < 2 ^ 31) :
    (dfs_nol_addchan clk s freq T true true).dfs_nol.map NolElem.view =
        s.dfs_nol.map NolElem.view ++ [(freq, ch_width, s.ticks, T * TIME_IN_MS)] ∧
      (dfs_nol_addchan clk s freq T true true).ticks = s.ticks := by
  have hnone : renew clk s.ticks (T * TIME_IN_MS) freq s.dfs_nol = none :=
    renew_eq_none.mpr fun nol hnol h => hne nol hnol h.1
  rw [dfs_nol_addchan, timeout_mod hT]
  rw [hnone, if_neg (by decide)]; exact ⟨map_append, rfl⟩

theorem setLoop_view (l : List ReqNolElem) (hl : ∀ e ∈ l, e.nol_timeout_ms < 2 ^ 31)
    (hnodup : (l.map ReqNolElem.nol_freq).Nodup)
    (hne : ∀ e ∈ l, ∀ nol ∈ s.dfs_nol, nol.nol_freq ≠ e.nol_freq) (i : Nat) :
    (setLoop clk (fun _ => (true, true)) l i s).dfs_nol.map NolElem.view =
      s.dfs_nol.map NolElem.view ++
        (l.filter fun e => cdf_system_ticks_to_msecs clk (s.ticks - e.nol_start_ticks) <
          e.nol_timeout_ms).map fun e => (e.nol_freq, ch_width, s.ticks,
            (e.nol_timeout_ms - cdf_system_ticks_to_msecs clk (s.ticks - e.nol_start_ticks)) /
              TIME_IN_MS * TIME_IN_MS) := by
  induction l generalizing i s with
  | nil => exact (append_nil _).symm
  | cons e l ih =>
    rw [DfsNol.setLoop]
    rw [map_cons, nodup_cons] at hnodup
    have hl' : ∀ e ∈ l, e.nol_timeout_ms < 2 ^ 31 := fun e' he' => hl e' (mem_cons_of_mem _ he')
    by_cases hlt : cdf_system_ticks_to_msecs clk (s.ticks - e.nol_start_ticks) < e.nol_timeout_ms
    · have hT : (e.nol_timeout_ms - cdf_system_ticks_to_msecs clk (s.ticks - e.nol_start_ticks)) /
          TIME_IN_MS * TIME_IN_MS < 2 ^ 31 := by
        have := hl e mem_cons_self
        rw [TIME_IN_MS]; omega
      obtain ⟨hview, hticks⟩ := addchan_absent clk (hne e mem_cons_self) hT
      rw [if_pos hlt, ih hl' hnodup.2 ?_ (i + 1), hview, hticks,
        filter_cons_of_pos (by simpa using hlt), map_cons, append_assoc]
      · rfl
      · intro e' he' nol hnol heq
        have hmem := mem_map_of_mem (f := NolElem.view) hnol
        rw [hview, mem_append, mem_singleton] at hmem
        rcases hmem with hmem | hmem
        · obtain ⟨nol', hnol', hview'⟩ := mem_map.mp hmem
          refine hne e' (mem_cons_of_mem _ he') nol' hnol' ?_
          rw [← heq]; exact congrArg Prod.fst hview'
        · have hfreq : nol.nol_freq = e.nol_freq := congrArg Prod.fst hmem
          rw [heq] at hfreq; exact hnodup.1 (hfreq ▸ mem_map_of_mem he')
    · rw [if_neg hlt, filter_cons_of_neg (by simpa using hlt)]
      exact ih hl' hnodup.2 (fun e' he' => hne e' (mem_cons_of_mem _ he')) (i + 1)

/-- **The list is restored**: `t` ticks later the entries that have more time left are put
back, with what is left of it in whole seconds. -/
theorem Inv.restored (h : Inv clk s) {t : Nat} (hempty : s'.dfs_nol = [])
    (hticks : s'.ticks = s.ticks + t)
    (hwrap : ∀ nol ∈ s.dfs_nol, clk.ms_per_tick * (s'.ticks - nol.nol_start_ticks) < 2 ^ 32) :
    (dfs_set_nol clk s' (dfs_get_nol s) fun _ => (true, true)).dfs_nol.map NolElem.view =
      (s.dfs_nol.filter fun nol => clk.ms_per_tick * t < nol.remaining clk s.ticks).map fun nol =>
        (nol.nol_freq, nol.nol_chwidth, s'.ticks,
          (nol.remaining clk s.ticks - clk.ms_per_tick * t) / TIME_IN_MS * TIME_IN_MS) := by
  have hfreq : (dfs_get_nol s).map ReqNolElem.nol_freq = s.dfs_nol.map NolElem.nol_freq := by
    rw [dfs_get_nol, map_map]
    exact map_congr_left fun nol hnol => Nat.mod_eq_of_lt (h.entry nol hnol).freq_lt
  have hlt : ∀ e ∈ dfs_get_nol s, e.nol_timeout_ms < 2 ^ 31 :=
    fun e he => (h.get_nol.saved e he).2
  have helapsed : ∀ nol ∈ s.dfs_nol, cdf_system_ticks_to_msecs clk (s'.ticks - nol.nol_start_ticks) =
      clk.ms_per_tick * (s.ticks - nol.nol_start_ticks) + clk.ms_per_tick * t := by
    intro nol hnol
    obtain ⟨a, -, hstart, -, -, -, hle, -⟩ := (h.entry nol hnol).addition
    rw [cdf_system_ticks_to_msecs, Nat.mod_eq_of_lt (hwrap nol hnol), ← Nat.mul_add, hticks]
    congr 1
    omega
  have hnone : ∀ e ∈ dfs_get_nol s, ∀ nol ∈ s'.dfs_nol, nol.nol_freq ≠ e.nol_freq := by
    intro e _ nol hnol
    rw [hempty] at hnol
    cases hnol
  rw [dfs_set_nol, setLoop_view (dfs_get_nol s) hlt (hfreq ▸ h.nodup) hnone 0, hempty, dfs_get_nol,
    filter_map, map_map, map_nil, nil_append]
  have hfilter : s.dfs_nol.filter ((fun e : ReqNolElem => decide
      (cdf_system_ticks_to_msecs clk (s'.ticks - e.nol_start_ticks) < e.nol_timeout_ms)) ∘
        fun nol : NolElem => ⟨nol.nol_freq % 2 ^ 16, nol.nol_chwidth % 2 ^ 16, nol.nol_start_ticks,
          nol.nol_timeout_ms⟩) =
      s.dfs_nol.filter fun nol => clk.ms_per_tick * t < nol.remaining clk s.ticks := by
    refine filter_congr fun nol hnol => ?_
    rw [Function.comp_apply, helapsed nol hnol, NolElem.remaining, decide_eq_decide]
    dsimp only
    omega
  rw [hfilter]
  refine map_congr_left fun nol hnol => ?_
  have hmem := (mem_filter.mp hnol).1
  have hok := h.entry nol hmem
  rw [Function.comp_apply, helapsed nol hmem, NolElem.remaining, Nat.mod_eq_of_lt hok.freq_lt,
    hok.width, Nat.sub_sub]

/-! ## The list over runs -/

structure Kept (clk : Clock) (s : State) : Prop where
  nodup : (s.dfs_nol.map fun nol => (nol.nol_freq, nol.nol_chwidth)).Nodup
  count : s.dfs_nol_count = s.dfs_nol.length
  /-- No entry is without its timer. -/
  armed : ∀ nol ∈ s.dfs_nol, nol.nol_timer.expires ≠ none
  /-- The argument of a timer that is armed has not been freed. -/
  arg : ∀ nol ∈ s.dfs_nol, nol.nol_timer.expires ≠ none → s.args nol.nol_timer.arg ≠ none
  /-- A channel is on the list until the time of its latest addition is over... -/
  on : ∀ freq a, latest s.added freq = some a → s.ticks < a.deadline clk →
    freq ∈ s.dfs_nol.map NolElem.nol_freq
  /-- ... and no longer. -/
  off : ∀ nol ∈ s.dfs_nol, ∃ a, latest s.added nol.nol_freq = some a ∧ s.ticks ≤ a.deadline clk

theorem Inv.kept (h : Inv clk s) : Kept clk s where
  nodup := by
    have hmap := h.nodup
    rw [show NolElem.nol_freq = Prod.fst ∘ fun nol : NolElem => (nol.nol_freq, nol.nol_chwidth)
      from rfl, ← map_map] at hmap
    exact List.Nodup.of_map _ hmap
  count := h.count
  armed := by
    intro nol hnol
    obtain ⟨a, -, -, -, -, hexp, -, -⟩ := (h.entry nol hnol).addition
    rw [hexp]; exact Option.some_ne_none _
  arg := by
    intro nol hnol _
    rw [(h.entry nol hnol).arg]; exact Option.some_ne_none _
  on := by
    intro freq a ha hlt
    obtain ⟨nol, hnol, rfl⟩ := h.present freq a ha hlt
    exact mem_map_of_mem hnol
  off := by
    intro nol hnol
    obtain ⟨a, ha, -, -, -, -, -, hle⟩ := (h.entry nol hnol).addition
    exact ⟨a, ha, hle⟩

/-- **The non-occupancy list is kept in every run in which timers expire only in HOSTAP and
IBSS** and no number is too large for its field, and from any state of it what `dfs_get_nol`
gives out is restored later. -/
theorem nol_kept (clk : Clock) (steps : List Step)
    (h : run (guarded StepOk (DfsNol.step clk)) State.init steps = some s) :
    Kept clk s ∧ ∀ t s', s'.dfs_nol = [] → s'.ticks = s.ticks + t →
      (∀ nol ∈ s.dfs_nol, clk.ms_per_tick * (s'.ticks - nol.nol_start_ticks) < 2 ^ 32) →
      (dfs_set_nol clk s' (dfs_get_nol s) fun _ => (true, true)).dfs_nol.map NolElem.view =
        (s.dfs_nol.filter fun nol => clk.ms_per_tick * t < nol.remaining clk s.ticks).map fun nol =>
          (nol.nol_freq, nol.nol_chwidth, s'.ticks,
            (nol.remaining clk s.ticks - clk.ms_per_tick * t) / TIME_IN_MS * TIME_IN_MS) := by
  have hinv : Inv clk s :=
    guarded_run_invariant (fun t e t' ht hok hstep => ht.step hok hstep) (Inv.init clk) h
  exact ⟨hinv.kept, fun t s' hempty hticks hwrap => hinv.restored hempty hticks hwrap⟩

/-- Ten milliseconds a tick. -/
def hz100 : Clock := ⟨100, 10, rfl⟩

/-- Of three channels one is added a second time and one expires; the other two are given out and
put back with the whole seconds that are left. -/
theorem nol_kept_restored :
    ∃ s, run (guarded StepOk (DfsNol.step hz100)) State.init
        [.addchan 5260 2 true true, .addchan 5280 1 true true, .elapse 50,
          .addchan 5260 2 true true, .elapse 50, .expire 1, .addchan 5300 4 true true] = some s ∧
      Kept hz100 s ∧
      (dfs_set_nol hz100 { State.init with ticks := 120 } (dfs_get_nol s)
        fun _ => (true, true)).dfs_nol.map NolElem.view =
        [(5260, 20, 120, 1000), (5300, 20, 120, 3000)] := by
  have h := nol_kept hz100 [.addchan 5260 2 true true, .addchan 5280 1 true true, .elapse 50,
    .addchan 5260 2 true true, .elapse 50, .expire 1, .addchan 5300 4 true true] rfl
  refine ⟨_, rfl, h.1, ?_⟩
  decide

/-- The timer of a channel expires in STA mode: the entry stays and the argument is freed. When
the channel is added again, the timer is armed with it. -/
theorem nol_argument_freed :
    ∃ s, run (DfsNol.step hz100) State.init
        [.addchan 5260 1 true true, .opmode .IEEE80211_M_STA, .elapse 100, .expire 0,
          .addchan 5260 1 true true] = some s ∧
      (∃ nol ∈ s.dfs_nol, nol.nol_timer.expires ≠ none ∧ s.args nol.nol_timer.arg = none) ∧
      ¬ Kept hz100 s := by
  refine ⟨_, rfl, ⟨_, mem_cons_self, by decide, by decide⟩, fun h => ?_⟩
  exact h.arg _ mem_cons_self (by decide) (by decide)

end Qcacld.DfsNol
