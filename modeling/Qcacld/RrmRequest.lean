/-
Radio measurement requests: `rrm_process_radio_measurement_request` in `rrm_api.c`.

A request carries measurement elements. A beacon element becomes the pending request, one that
cannot becomes an entry of a report frame, and so does an element of an unknown type. The helpers
get the pointers to the reports and to the request in progress by value: what they allocate is not
known to the loop, which therefore allocates anew for each entry and sends no frame at its end. The
only frames sent are those of `rrm_process_beacon_request_failure`, one for each beacon element that
was looked at and refused, and those for a request without elements or with repetitions.

So a request is answered as it should be only where the loop has nothing to say: with a request
pending no element may need an entry; otherwise one beacon element may fail, in a frame of its own,
and one may be accepted, and only elements of userspace may follow that one (`Answerable`).
`request_answered_iff` says that these are all the requests that are answered.

`dot11f` unpacks at most 2 elements; any number of them is taken here. Memory is up to the
environment. Of an accepted request only what decides its status is kept.
-/
import Mathlib.Algebra.Group.Nat.Defs
import Mathlib.Data.List.Basic

set_option autoImplicit false

namespace Qcacld.RrmRequest

open List

/-- `tRrmRetStatus`. -/
inductive RrmStatus where
  | SUCCESS
  | INCAPABLE
  | REFUSED
  | FAILURE
  deriving DecidableEq

def SIR_MAC_RRM_BEACON_TYPE : UInt8 := 5
def SIR_MAC_RRM_LCI_TYPE : UInt8 := 8
def SIR_MAC_RRM_LOCATION_CIVIC_TYPE : UInt8 := 11
def SIR_MAC_RRM_FINE_TIME_MEAS_TYPE : UInt8 := 16

/-- A measurement element, with the fields of a beacon request that decide its status. The last two
are there when `BeaconReporting` and `RequestedInfo` are present. -/
structure MeasurementRequest where
  measurement_token : UInt8
  measurement_type : UInt8
  durationMandatory : Bool
  meas_duration : UInt16
  reportingCondition : Option UInt8
  num_requested_eids : Option UInt8

structure Request where
  repetitions : Nat
  elements : List MeasurementRequest

structure Report where
  token : UInt8
  type : UInt8
  refused : Bool
  incapable : Bool
  deriving DecidableEq

def Report.zero : Report := ⟨0, 0, false, false⟩

/-- The capabilities and the session, and for each element whether there is memory: for its context
or array, for the element ids it asks for, for the message to SME and for the report of its
failure. -/
structure Env where
  nonOperatingChanMax : Fin 8
  beaconInterval : UInt16
  malloc : Nat → Bool
  malloc_eids : Nat → Bool
  malloc_ind : Nat → Bool
  malloc_report : Nat → Bool

/-- A context is known by the number of its element, from 1 on, and `contexts` has those that are
allocated. An array that is freed is `none`. `made` has the elements that became the pending
request, `writes` the index of each entry written with the size of its array, and `sent` the report
frames. -/
structure State where
  pCurrentReq : Option Nat
  contexts : List Nat
  arrays : List (Option (List Report))
  made : List Nat
  writes : List (Nat × Nat)
  sent : List (List Report)

variable (e : Env) (n : Nat)

/-! ## One element -/

/-- `2 ^ (nonOperatingChanMax - 4)` beacon intervals. -/
def maxMeasduration : UInt16 :=
  let maxDuration : Int := (e.nonOperatingChanMax.val : Int) - 4
  if maxDuration < 0 then e.beaconInterval / UInt16.ofNat (2 ^ maxDuration.natAbs)
  else UInt16.ofNat (2 ^ maxDuration.natAbs) * e.beaconInterval

/-- What a beacon request comes to. There is never memory for an empty list of element ids. -/
def rrm_process_beacon_report_req (r : MeasurementRequest) (index : Nat) : RrmStatus :=
  if (r.reportingCondition.any fun condition => condition ≠ 0) = true then .INCAPABLE
  else if maxMeasduration e < r.meas_duration ∧ r.durationMandatory = true then .REFUSED
  else if (r.num_requested_eids.any fun num => num = 0 || !e.malloc_eids index) = true then .FAILURE
  else if e.malloc_ind index then .SUCCESS
  else .FAILURE

def malloc_reports (s : State) (size : Nat) : Nat × State :=
  (s.arrays.length, { s with arrays := s.arrays ++ [some (replicate size Report.zero)] })

def reports (s : State) (report : Nat) : List Report :=
  (s.arrays.getD report none).getD []

def write (s : State) (report num_report : Nat) (r : Report) : State :=
  { s with
    arrays := s.arrays.set report (some ((reports s report).set num_report r))
    writes := s.writes ++ [(num_report, (reports s report).length)] }

def free (s : State) (report : Nat) : State := { s with arrays := s.arrays.set report none }

/-- `lim_send_radio_measure_report_action_frame` with the first entries of an array, which is then
freed. -/
def send (s : State) (report num_report : Nat) : State :=
  free { s with sent := s.sent ++ [(reports s report).take num_report] } report

/-- A failure other than a refusal or an incapability sends nothing. -/
def rrm_process_beacon_request_failure (s : State) (token : UInt8) (index : Nat)
    (status : RrmStatus) : State :=
  if e.malloc_report index then
    let (p, s) := malloc_reports s 1
    let s := write s p 0
      ⟨token, SIR_MAC_RRM_BEACON_TYPE, status = .REFUSED, status = .INCAPABLE⟩
    if status = .REFUSED ∨ status = .INCAPABLE then send s p 1
    else free s p
  else s

def rrm_cleanup (s : State) : State :=
  { s with pCurrentReq := none, contexts := s.contexts.diff s.pCurrentReq.toList }

/-- What both helpers do for an entry: they allocate the array if they were given none. -/
def add_report (s : State) (report : Option Nat) (num_report index : Nat) (r : Report) :
    Option (Nat × State) :=
  match report with
  | some p => some (num_report + 1, write s p num_report r)
  | none =>
    if e.malloc index then
      let (p, s) := malloc_reports s (n - index)
      some (num_report + 1, write s p num_report r)
    else none

/-- A context is allocated and becomes the pending one, whatever was pending. -/
def newContext (s : State) (index : Nat) : State :=
  { s with pCurrentReq := some (index + 1), contexts := (index + 1) :: s.contexts }

def rrm_process_beacon_req (s : State) (curr_req report : Option Nat) (r : MeasurementRequest)
    (num_report index : Nat) : Option (Nat × State) :=
  match curr_req with
  | some _ =>
    add_report e n s report num_report index
      ⟨r.measurement_token, SIR_MAC_RRM_BEACON_TYPE, true, false⟩
  | none =>
    if e.malloc index then
      let s := newContext s index
      let rrm_status := rrm_process_beacon_report_req e r index
      if rrm_status = .SUCCESS then some (num_report, { s with made := s.made ++ [index] })
      else
        some (num_report,
          rrm_cleanup
            (rrm_process_beacon_request_failure e s r.measurement_token index rrm_status))
    else none

def update_rrm_report (s : State) (report : Option Nat) (r : MeasurementRequest)
    (num_report index : Nat) : Option (Nat × State) :=
  add_report e n s report num_report index
    ⟨r.measurement_token, r.measurement_type, false, true⟩

def sentToUserspace (r : MeasurementRequest) : Bool :=
  r.measurement_type = SIR_MAC_RRM_LCI_TYPE ∨
    r.measurement_type = SIR_MAC_RRM_LOCATION_CIVIC_TYPE ∨
    r.measurement_type = SIR_MAC_RRM_FINE_TIME_MEAS_TYPE

/-- The `switch` over the type of an element. -/
def processElement (curr_req report : Option Nat) (r : MeasurementRequest) (i num_report : Nat)
    (s : State) : Option (Nat × State) :=
  if r.measurement_type = SIR_MAC_RRM_BEACON_TYPE then
    rrm_process_beacon_req e n s curr_req report r num_report i
  else if sentToUserspace r then some (num_report, s)
  else update_rrm_report e n s report r num_report i

/-- The loop over the elements; it returns at the first one there is no memory for. -/
def elementsLoop (curr_req report : Option Nat) :
    List MeasurementRequest → Nat → Nat → State → Bool × Nat × State
  | [], _, num_report, s => (true, num_report, s)
  | r :: rs, i, num_report, s =>
    match processElement e n curr_req report r i num_report s with
    | some (num_report, s) => elementsLoop curr_req report rs (i + 1) num_report s
    | none => (false, num_report, s)

/-! ## The request -/

/-- From the label `end` on. -/
def finish (s : State) (report : Option Nat) (num_report : Nat) : State :=
  match report with
  | some p => send s p num_report
  | none => s

/-- The report of a request that is not looked at. -/
def single (s : State) (r : Report) : State :=
  if e.malloc 0 then
    let (p, s) := malloc_reports s 1
    finish (write s p 0 r) (some p) 1
  else s

def rrm_process_radio_measurement_request (req : Request) (s : State) : State :=
  match req.elements with
  | [] => single e s { Report.zero with incapable := true }
  | r :: rs =>
    if req.repetitions > 0 then
      single e s { Report.zero with incapable := true, type := r.measurement_type }
    else
      match elementsLoop e (rs.length + 1) s.pCurrentReq none (r :: rs) 0 0 s with
      | (true, num_report, s) => finish s none num_report
      | (false, _, s) => s

/-- A request comes; one may be pending already. -/
def start (pending : Bool) : State where
  pCurrentReq := if pending then some 0 else none
  contexts := if pending then [0] else []
  arrays := []
  made := []
  writes := []
  sent := []

/-! ## What a request is to come to -/

/-- The entry of the `i`th element when the elements `made` became pending: every other beacon
element is refused, or incapable where it was looked at and is not supported, and an element of an
unknown type is incapable. -/
def entry (made : List Nat) (pending : Bool) (r : MeasurementRequest) (i : Nat) : Option Report :=
  if r.measurement_type = SIR_MAC_RRM_BEACON_TYPE then
    if i ∈ made then none
    else
      let incapable := !(pending || made.any (· < i)) &&
        rrm_process_beacon_report_req e r i = .INCAPABLE
      some ⟨r.measurement_token, SIR_MAC_RRM_BEACON_TYPE, !incapable, incapable⟩
  else if sentToUserspace r then none
  else some ⟨r.measurement_token, r.measurement_type, false, true⟩

/-- The entries of the report frame, in request order. -/
def needed (made : List Nat) (pending : Bool) : List MeasurementRequest → Nat → List Report
  | [], _ => []
  | r :: rs, i => (entry e made pending r i).toList ++ needed made pending rs (i + 1)

/-- A request is answered: at most one element became pending, none if one was, one frame has all
the entries, and nothing is written outside an array or lost. -/
structure Answered (pending : Bool) (l : List MeasurementRequest) (s : State) : Prop where
  one : s.made.length ≤ 1
  stays : pending = true → s.made = [] ∧ s.pCurrentReq = some 0
  sent : s.sent =
    if needed e s.made pending l 0 = [] then [] else [needed e s.made pending l 0]
  inside : ∀ w ∈ s.writes, w.1 < w.2
  contexts : s.contexts = s.pCurrentReq.toList
  arrays : ∀ a ∈ s.arrays, a = none

/-- A beacon element that cannot be taken gets a frame of its own. -/
def ReportedFailure (r : MeasurementRequest) (i : Nat) : Prop :=
  e.malloc_report i = true ∧
    (rrm_process_beacon_report_req e r i = .REFUSED ∨
      rrm_process_beacon_report_req e r i = .INCAPABLE)
deriving Decidable

/-- The elements from the `i`th on that are answered with no request pending, where `frame` tells
that the one frame is still to be sent. -/
def Answerable : Bool → List MeasurementRequest → Nat → Prop
  | _, [], _ => True
  | frame, r :: rs, i =>
    if r.measurement_type = SIR_MAC_RRM_BEACON_TYPE then
      e.malloc i = true ∧
        ((rrm_process_beacon_report_req e r i = .SUCCESS ∧
            ∀ r' ∈ rs, sentToUserspace r' = true) ∨
          (frame = true ∧ ReportedFailure e r i ∧ Answerable false rs (i + 1)))
    else sentToUserspace r = true ∧ Answerable frame rs (i + 1)

variable {e n} {s s' F : State} {l rs : List MeasurementRequest} {i num num' : Nat}
  {r : MeasurementRequest} {c : Option Nat} {made : List Nat} {p : Bool}

/-! ## What one element does -/

/-- The frame of a beacon element that was looked at and cannot be taken. -/
def failureFrame (e : Env) (r : MeasurementRequest) (i : Nat) : List Report :=
  [⟨r.measurement_token, SIR_MAC_RRM_BEACON_TYPE,
    rrm_process_beacon_report_req e r i = .REFUSED,
    rrm_process_beacon_report_req e r i = .INCAPABLE⟩]

/-- All that an element can do. A failed beacon request gives back what it took, and an entry that
the loop makes is in an array whose address nobody has. -/
inductive Did (e : Env) (c : Option Nat) (r : MeasurementRequest) (i : Nat) (s : State) :
    State → Prop
  | userspace (hu : sentToUserspace r = true) : Did e c r i s s
  | accepted (hc : c = none) (hb : r.measurement_type = SIR_MAC_RRM_BEACON_TYPE)
      (hm : e.malloc i = true) (hs : rrm_process_beacon_report_req e r i = .SUCCESS) :
      Did e c r i s { newContext s i with made := s.made ++ [i] }
  | failed (hc : c = none) (hb : r.measurement_type = SIR_MAC_RRM_BEACON_TYPE)
      (hm : e.malloc i = true) (hs : rrm_process_beacon_report_req e r i ≠ .SUCCESS)
      (arrays : List (Option (List Report))) (writes : List (Nat × Nat))
      (ha : ∀ a ∈ arrays, a = none) (hw : ∀ w ∈ writes, w.1 < w.2) :
      Did e c r i s { s with
        pCurrentReq := none
        arrays := s.arrays ++ arrays
        writes := s.writes ++ writes
        sent := s.sent ++ if ReportedFailure e r i then [failureFrame e r i] else [] }
  | entry (hb : c = none → r.measurement_type ≠ SIR_MAC_RRM_BEACON_TYPE)
      (hu : sentToUserspace r = false) (a : List Report) (w : Nat × Nat) :
      Did e c r i s { s with arrays := s.arrays ++ [some a], writes := s.writes ++ [w] }

theorem sentToUserspace_ne (h : sentToUserspace r = true) :
    r.measurement_type ≠ SIR_MAC_RRM_BEACON_TYPE := by
  intro hb
  unfold sentToUserspace at h
  rw [hb] at h; exact absurd h (by decide)

theorem not_userspace (hb : r.measurement_type = SIR_MAC_RRM_BEACON_TYPE) :
    sentToUserspace r = false :=
  Bool.eq_false_iff.mpr fun h => sentToUserspace_ne h hb

theorem processElement_userspace (c : Option Nat) (h : sentToUserspace r = true) :
    processElement e n c none r i num s = some (num, s) := by
  unfold processElement
  rw [if_neg (sentToUserspace_ne h), if_pos h]

theorem add_report_did {x : Report}
    (hb : c = none → r.measurement_type ≠ SIR_MAC_RRM_BEACON_TYPE) (hu : sentToUserspace r = false)
    (h : add_report e n s none num i x = some (num', s')) : Did e c r i s s' := by
  unfold add_report at h
  dsimp only at h
  split at h
  · cases h; simpa [write, malloc_reports, reports] using Did.entry (e := e) (i := i) hb hu _ _
  · cases h

theorem failure_did (hc : c = none) (hb : r.measurement_type = SIR_MAC_RRM_BEACON_TYPE)
    (hm : e.malloc i = true) (hs : rrm_process_beacon_report_req e r i ≠ .SUCCESS) :
    Did e c r i s (rrm_cleanup (rrm_process_beacon_request_failure e (newContext s i)
      r.measurement_token i (rrm_process_beacon_report_req e r i))) := by
  by_cases hr : e.malloc_report i = true
  · have hd := Did.failed (s := s) hc hb hm hs [none] [(0, 1)] (by simp) (by simp)
    by_cases hf : rrm_process_beacon_report_req e r i = .REFUSED ∨
        rrm_process_beacon_report_req e r i = .INCAPABLE
    · simpa [rrm_process_beacon_request_failure, hr, hf, rrm_cleanup, newContext, malloc_reports,
        write, send, free, reports, failureFrame, ReportedFailure] using hd
    · simpa [rrm_process_beacon_request_failure, hr, hf, rrm_cleanup, newContext, malloc_reports,
        write, free, reports, ReportedFailure] using hd
  · simpa [rrm_process_beacon_request_failure, hr, rrm_cleanup, newContext, ReportedFailure] using
      Did.failed (s := s) hc hb hm hs [] [] (by simp) (by simp)

theorem processElement_did (h : processElement e n c none r i num s = some (num', s')) :
    Did e c r i s s' := by
  unfold processElement at h
  split at h
  next hb =>
    unfold rrm_process_beacon_req at h
    cases c with
    | some c => exact add_report_did (nofun) (not_userspace hb) h
    | none =>
      dsimp only at h
      split at h
      next hm =>
        split at h
        next hs => cases h; exact .accepted rfl hb hm hs
        next hs => cases h; exact failure_did rfl hb hm hs
      next => cases h
  next hb =>
    split at h
    next hu => cases h; exact .userspace hu
    next hu => exact add_report_did (fun _ => hb) (Bool.eq_false_iff.mpr hu) h

/-- With nothing pending when the loop began, a beacon element is looked at if there is memory. -/
theorem processElement_beacon (hb : r.measurement_type = SIR_MAC_RRM_BEACON_TYPE)
    (hm : e.malloc i = true) : ∃ s', processElement e n none none r i num s = some (num, s') := by
  unfold processElement rrm_process_beacon_req
  rw [if_pos hb]
  dsimp only
  rw [if_pos hm]
  split
  · exact ⟨_, rfl⟩
  · exact ⟨_, rfl⟩

/-! ## The loop -/

theorem elementsLoop_none (rs : List MeasurementRequest)
    (h : processElement e n c none r i num s = none) :
    (elementsLoop e n c none (r :: rs) i num s).2.2 = s := by unfold elementsLoop; rw [h]

theorem elementsLoop_some (h : processElement e n c none r i num s = some (num', s')) :
    elementsLoop e n c none (r :: rs) i num s = elementsLoop e n c none rs (i + 1) num' s' := by
  rw [elementsLoop, h]

/-- What elements from the `i`th on keep: they make none pending but themselves, what is lost stays
lost, and each frame has one entry. -/
structure Grows (i : Nat) (s s' : State) : Prop where
  made : ∀ k ∈ s'.made, k ∈ s.made ∨ i ≤ k
  contexts : s.pCurrentReq.toList.length < s.contexts.length →
    s'.pCurrentReq.toList.length < s'.contexts.length
  arrays : ∀ a ∈ s.arrays, a ∈ s'.arrays
  frames : (∀ f ∈ s.sent, f.length = 1) → ∀ f ∈ s'.sent, f.length = 1

theorem Grows.refl (i : Nat) (s : State) : Grows i s s :=
  ⟨fun _ hk => Or.inl hk, id, fun _ ha => ha, id⟩

theorem Did.grows (h : Did e c r i s s') : Grows i s s' := by
  cases h with
  | userspace hu => exact .refl i s
  | accepted hc hb hm hs =>
    refine ⟨fun k hk => ?_, fun hlt => ?_, fun _ ha => ha, id⟩
    · exact (mem_append.mp hk).imp_right fun hk => Nat.le_of_eq (mem_singleton.mp hk).symm
    · exact Nat.succ_lt_succ (Nat.zero_lt_of_lt hlt)
  | failed hc hb hm hs arrays writes ha hw =>
    refine ⟨fun _ hk => Or.inl hk, Nat.zero_lt_of_lt, fun _ ha => mem_append_left _ ha,
      fun hone f hf => ?_⟩
    rcases mem_append.mp hf with hf | hf
    · exact hone f hf
    · split at hf
      · exact mem_singleton.mp hf ▸ rfl
      · cases hf
  | entry hb hu a w => exact ⟨fun _ hk => Or.inl hk, id, fun _ ha => mem_append_left _ ha, id⟩

theorem elementsLoop_grows (c : Option Nat) (l : List MeasurementRequest) (i num : Nat)
    (s : State) : Grows i s (elementsLoop e n c none l i num s).2.2 := by
  induction l generalizing i num s with
  | nil => exact .refl i s
  | cons r rs ih =>
    cases hr : processElement e n c none r i num s with
    | none => rw [elementsLoop_none rs hr]; exact .refl i s
    | some next =>
      rw [elementsLoop_some hr]
      have h := (processElement_did hr).grows
      have hrest := ih (i + 1) next.1 next.2
      exact ⟨fun k hk => (hrest.made k hk).elim (h.made k) fun hk => Or.inr (Nat.le_of_succ_le hk),
        hrest.contexts ∘ h.contexts, fun a ha => hrest.arrays a (h.arrays a ha),
        hrest.frames ∘ h.frames⟩

/-- Elements for userspace change nothing, whatever is pending. -/
theorem elementsLoop_userspace (c : Option Nat) (l : List MeasurementRequest) (i num : Nat)
    (s : State) (h : ∀ r ∈ l, sentToUserspace r = true) :
    elementsLoop e n c none l i num s = (true, num, s) := by
  induction l generalizing i with
  | nil => rfl
  | cons r rs ih =>
    rw [elementsLoop_some (processElement_userspace c (h r mem_cons_self))]
    exact ih (i + 1) fun r' hr' => h r' (mem_cons_of_mem r hr')

/-! ### The entries -/

theorem needed_userspace (h : sentToUserspace r = true) :
    needed e made p (r :: rs) i = needed e made p rs (i + 1) := by
  rw [needed, entry, if_neg (sentToUserspace_ne h), if_pos h]; rfl

theorem needed_all_userspace (l : List MeasurementRequest) (i : Nat)
    (h : ∀ r ∈ l, sentToUserspace r = true) : needed e made p l i = [] := by
  induction l generalizing i with
  | nil => rfl
  | cons r rs ih =>
    rw [needed_userspace (h r mem_cons_self)]
    exact ih (i + 1) fun r' hr' => h r' (mem_cons_of_mem r hr')

theorem needed_le : (needed e made p rs (i + 1)).length ≤ (needed e made p (r :: rs) i).length :=
  length_append ▸ Nat.le_add_left _ _

/-- An element that is not for userspace and does not become pending has an entry of its own. -/
theorem needed_entry (hu : sentToUserspace r = false) (hi : i ∉ made) :
    (needed e made p (r :: rs) i).length = (needed e made p rs (i + 1)).length + 1 := by
  have hentry : ∃ x, entry e made p r i = some x := by
    unfold entry
    rw [if_neg hi, hu]
    split
    · exact ⟨_, rfl⟩
    · exact ⟨_, rfl⟩
  obtain ⟨x, hx⟩ := hentry
  rw [needed, hx]; rfl

/-- An element before the rest of the loop is pending at the end only if it is already. -/
theorem Grows.not_made (hg : Grows (i + 1) s F) (h : ∀ k ∈ s.made, k < i) : i ∉ F.made :=
  fun hi => (hg.made i hi).elim (fun hi => Nat.lt_irrefl i (h i hi)) (Nat.not_succ_le_self i)

theorem Did.made_lt (hd : Did e c r i s s') (h : ∀ k ∈ s.made, k < i) :
    ∀ k ∈ s'.made, k < i + 1 := by
  cases hd with
  | accepted hc hb hm hs =>
    intro k hk
    rcases mem_append.mp hk with hk | hk
    · exact Nat.lt_succ_of_lt (h k hk)
    · exact mem_singleton.mp hk ▸ Nat.lt_succ_self i
  | _ => exact fun k hk => Nat.lt_succ_of_lt (h k hk)

/-- There are no more frames than entries to report. -/
theorem sent_le (c : Option Nat) (p : Bool) (l : List MeasurementRequest) (i num : Nat)
    (s : State) (h : ∀ k ∈ s.made, k < i) :
    (elementsLoop e n c none l i num s).2.2.sent.length ≤ s.sent.length +
      (needed e (elementsLoop e n c none l i num s).2.2.made p l i).length := by
  induction l generalizing i num s with
  | nil => exact Nat.le_add_right _ _
  | cons r rs ih =>
    cases hr : processElement e n c none r i num s with
    | none => rw [elementsLoop_none rs hr]; exact Nat.le_add_right _ _
    | some next =>
      obtain ⟨num', s'⟩ := next
      rw [elementsLoop_some hr]
      have hd := processElement_did hr
      have hstep := ih (i + 1) num' s' (hd.made_lt h)
      have hle := @needed_le e rs i r (elementsLoop e n c none rs (i + 1) num' s').2.2.made p
      have hgrows := elementsLoop_grows (e := e) (n := n) c rs (i + 1) num' s'
      cases hd with
      | failed hc hb hm hs arrays writes ha hw =>
        rw [needed_entry (not_userspace hb) (hgrows.not_made h)]
        refine Nat.le_trans hstep ?_
        rw [length_append]
        split
        · exact Nat.le_of_eq (by rw [length_singleton]; omega)
        · exact Nat.add_le_add_left (Nat.le_succ _) _
      | _ => exact Nat.le_trans hstep (Nat.add_le_add_left hle _)

/-! ## What is answered is answerable -/

/-- The loop comes to an end where nothing is lost and every entry was sent. -/
structure Settled (e : Env) (n : Nat) (c : Option Nat) (p : Bool) (l : List MeasurementRequest)
    (i num : Nat) (s F : State) : Prop where
  run : F = (elementsLoop e n c none l i num s).2.2
  made : ∀ k ∈ s.made, k < i
  contexts : F.contexts.length ≤ F.pCurrentReq.toList.length
  arrays : ∀ a ∈ F.arrays, a = none
  sent : F.sent.length = s.sent.length + (needed e F.made p l i).length

/-- Where the frames of the first element are its entries, those of the rest are. -/
theorem Settled.rest (h : Settled e n c p (r :: rs) i num s F)
    (hr : processElement e n c none r i num s = some (num', s'))
    (hs : s.sent.length + (needed e F.made p (r :: rs) i).length ≥
      s'.sent.length + (needed e F.made p rs (i + 1)).length) :
    Settled e n c p rs (i + 1) num' s' F ∧ s.sent.length + (needed e F.made p (r :: rs) i).length =
      s'.sent.length + (needed e F.made p rs (i + 1)).length := by
  have hF := h.run.trans (congrArg (·.2.2) (elementsLoop_some hr))
  have hlt := (processElement_did hr).made_lt h.made
  have hle := sent_le (e := e) (n := n) c p rs (i + 1) num' s' hlt
  rw [← hF, h.sent] at hle
  have heq := Nat.le_antisymm hle hs
  exact ⟨⟨hF, hlt, h.contexts, h.arrays, h.sent.trans heq⟩, heq⟩

/-- An element that needs an entry ends the loop for want of memory, which leaves the entry out, or
has it made in an array that is lost. A context that is pending is lost when another takes its
place. -/
theorem Settled.cons (h : Settled e n c p (r :: rs) i num s F) :
    (sentToUserspace r = true ∧ Settled e n c p rs (i + 1) num s F) ∨
    (c = none ∧ r.measurement_type = SIR_MAC_RRM_BEACON_TYPE ∧ e.malloc i = true ∧
      s.contexts = [] ∧ ∃ num' s', Settled e n c p rs (i + 1) num' s' F ∧
        ((rrm_process_beacon_report_req e r i = .SUCCESS ∧ s'.contexts ≠ []) ∨
          (ReportedFailure e r i ∧ (needed e F.made p (r :: rs) i).length =
            (needed e F.made p rs (i + 1)).length + 1))) := by
  cases hr : processElement e n c none r i num s with
  | none =>
    have hF := h.run.trans (elementsLoop_none rs hr)
    have hu : sentToUserspace r = false :=
      Bool.eq_false_iff.mpr fun hu => nomatch hr.symm.trans (processElement_userspace c hu)
    have hlen := h.sent
    rw [needed_entry hu (hF ▸ fun hi => Nat.lt_irrefl i (h.made i hi)), hF] at hlen; omega
  | some next =>
    obtain ⟨num', s'⟩ := next
    have hF := h.run.trans (congrArg (·.2.2) (elementsLoop_some hr))
    have hgrows := hF ▸ elementsLoop_grows (e := e) (n := n) c rs (i + 1) num' s'
    have hle := @needed_le e rs i r F.made p
    have hlost : s'.contexts.length ≤ s'.pCurrentReq.toList.length :=
      Nat.not_lt.mp fun hlt => Nat.not_lt.mpr h.contexts (hgrows.contexts hlt)
    cases processElement_did hr with
    | userspace hu =>
      obtain rfl : num = num' := by
        rw [processElement_userspace c hu] at hr; exact (Prod.mk.inj (Option.some.inj hr)).1
      exact Or.inl ⟨hu, (h.rest hr (Nat.add_le_add_left hle _)).1⟩
    | accepted hc hb hm hs =>
      have hnil : s.contexts = [] :=
        eq_nil_of_length_eq_zero (Nat.le_zero.mp (Nat.le_of_succ_le_succ hlost))
      exact Or.inr ⟨hc, hb, hm, hnil, num', _, (h.rest hr (Nat.add_le_add_left hle _)).1,
        Or.inl ⟨hs, cons_ne_nil _ _⟩⟩
    | failed hc hb hm hs arrays writes ha hw =>
      have hneed := @needed_entry e rs i r F.made p (not_userspace hb) (hgrows.not_made h.made)
      have hrest := h.rest hr (by
        rw [hneed, length_append]
        split
        · rw [length_singleton]; omega
        · rw [length_nil]; omega)
      refine Or.inr ⟨hc, hb, hm, eq_nil_of_length_eq_zero (Nat.le_zero.mp hlost), num', _, hrest.1,
        Or.inr ⟨?_, hneed⟩⟩
      by_contra hrep
      have heq := hrest.2
      simp only [hneed, if_neg hrep, append_nil] at heq
      omega
    | entry hb hu a w =>
      exact nomatch h.arrays _ (hgrows.arrays _ (mem_append_right _ (mem_singleton_self _)))

/-- After an accepted beacon request every other element is for userspace. -/
theorem Settled.userspace (l : List MeasurementRequest) (i num : Nat) (s : State)
    (h : Settled e n c p l i num s F) (hc : s.contexts ≠ []) :
    ∀ r ∈ l, sentToUserspace r = true := by
  induction l generalizing i num s with
  | nil => exact nofun
  | cons r rs ih =>
    rcases h.cons with ⟨hu, hrest⟩ | ⟨-, -, -, hnil, -⟩
    · exact forall_mem_cons.mpr ⟨hu, ih (i + 1) num s hrest hc⟩
    · exact absurd hnil hc

/-- With nothing pending, a run that loses nothing and sends as many frames as there are entries, one
at the most, is over answerable elements. -/
theorem Settled.answerable (frame : Bool) (l : List MeasurementRequest) (i num : Nat) (s : State)
    (h : Settled e n none p l i num s F) (hone : (needed e F.made p l i).length ≤ frame.toNat) :
    Answerable e frame l i := by
  induction l generalizing i num s frame with
  | nil => trivial
  | cons r rs ih =>
    unfold Answerable
    rcases h.cons with ⟨hu, hrest⟩ | ⟨-, hb, hm, -, num', s', hrest, hdone⟩
    · rw [needed_userspace hu] at hone
      rw [if_neg (sentToUserspace_ne hu)]; exact ⟨hu, ih frame (i + 1) num s hrest hone⟩
    · rw [if_pos hb]
      rcases hdone with ⟨hs, hc⟩ | ⟨hrep, hneed⟩
      · exact ⟨hm, Or.inl ⟨hs, hrest.userspace rs (i + 1) num' s' hc⟩⟩
      · rw [hneed] at hone
        cases frame with
        | false => exact absurd hone (Nat.not_succ_le_zero _)
        | true =>
          exact ⟨hm, Or.inr ⟨rfl, hrep, ih false (i + 1) num' s' hrest
            (Nat.le_of_succ_le_succ hone)⟩⟩

/-! ## What is answerable is answered -/

/-- Nothing is pending, nothing became pending, and nothing is lost. -/
structure Idle (s : State) : Prop where
  pCurrentReq : s.pCurrentReq = none
  contexts : s.contexts = []
  arrays : ∀ a ∈ s.arrays, a = none
  made : s.made = []
  inside : ∀ w ∈ s.writes, w.1 < w.2

/-- What a run over answerable elements comes to: each frame has one entry, and there is one frame
at the most, if it was still to be sent. -/
structure Loop (e : Env) (frame : Bool) (l : List MeasurementRequest) (i : Nat)
    (s s' : State) : Prop where
  one : s'.made.length ≤ 1
  later : ∀ k ∈ s'.made, i ≤ k
  sent : s'.sent = s.sent ++ (needed e s'.made false l i).map fun r => [r]
  frames : (needed e s'.made false l i).length ≤ frame.toNat
  inside : ∀ w ∈ s'.writes, w.1 < w.2
  contexts : s'.contexts = s'.pCurrentReq.toList
  arrays : ∀ a ∈ s'.arrays, a = none

/-- The entry needed for a failed beacon request is the one of its frame. -/
theorem needed_failure (hb : r.measurement_type = SIR_MAC_RRM_BEACON_TYPE)
    (hi : ∀ k ∈ made, i < k) (h : ReportedFailure e r i) :
    needed e made false (r :: rs) i = failureFrame e r i ++ needed e made false rs (i + 1) := by
  have hany : made.any (· < i) = false :=
    any_eq_false.mpr fun k hk => by simpa using Nat.le_of_lt (hi k hk)
  rw [needed, entry, if_pos hb, if_neg fun h => Nat.lt_irrefl i (hi i h), hany]
  unfold failureFrame
  rcases h.2 with hs | hs <;> simp [hs]

/-- The element was accepted, and the rest is for userspace. -/
theorem Idle.accepted (h : Idle s) (frame : Bool)
    (hb : r.measurement_type = SIR_MAC_RRM_BEACON_TYPE)
    (hrs : ∀ r' ∈ rs, sentToUserspace r' = true) :
    Loop e frame (r :: rs) i s { newContext s i with made := s.made ++ [i] } := by
  have hnone : needed e (s.made ++ [i]) false (r :: rs) i = [] := by
    rw [needed, entry, if_pos hb, if_pos (mem_append_right s.made (mem_singleton_self i))]
    exact needed_all_userspace rs (i + 1) hrs
  refine ⟨by simp [h.made], by simp [h.made], ?_, ?_, h.inside, by simp [newContext, h.contexts],
    h.arrays⟩
  · rw [hnone]; exact (append_nil _).symm
  · rw [hnone]; exact Nat.zero_le _

theorem Idle.loop (frame : Bool) (l : List MeasurementRequest) (i num : Nat) (h : Idle s)
    (ha : Answerable e frame l i) :
    Loop e frame l i s (elementsLoop e n none none l i num s).2.2 := by
  induction l generalizing i num s frame with
  | nil =>
    exact ⟨by simp [elementsLoop, h.made], by simp [elementsLoop, h.made], (append_nil _).symm,
      Nat.zero_le _, h.inside,
      by simp [elementsLoop, h.contexts, h.pCurrentReq], h.arrays⟩
  | cons r rs ih =>
    unfold Answerable at ha
    split at ha
    next hb =>
      obtain ⟨s', hr⟩ := @processElement_beacon e n s i num r hb ha.1
      rw [elementsLoop_some hr]
      cases processElement_did hr with
      | userspace hu => exact absurd hb (sentToUserspace_ne hu)
      | accepted hc _ hm hs =>
        rcases ha.2 with ⟨-, hrs⟩ | ⟨-, ⟨-, hrep⟩, -⟩
        · rw [elementsLoop_userspace none rs _ _ _ hrs]; exact h.accepted frame hb hrs
        · rw [hs] at hrep; exact absurd hrep (by decide)
      | failed hc _ hm hs arrays writes harr hw =>
        rcases ha.2 with ⟨hs', -⟩ | ⟨rfl, hrep, ha⟩
        · exact absurd hs' hs
        · rw [if_pos hrep]
          have hidle : Idle { s with
              pCurrentReq := none
              arrays := s.arrays ++ arrays
              writes := s.writes ++ writes
              sent := s.sent ++ [failureFrame e r i] } :=
            ⟨rfl, h.contexts, forall_mem_append.mpr ⟨h.arrays, harr⟩, h.made,
              forall_mem_append.mpr ⟨h.inside, hw⟩⟩
          have hrest := ih false (i + 1) num hidle ha
          have hnil := eq_nil_of_length_eq_zero (Nat.le_zero.mp hrest.frames)
          have hneed := @needed_failure e rs i r _ hb hrest.later hrep
          rw [hnil, append_nil] at hneed
          refine ⟨hrest.one, fun k hk => Nat.le_of_succ_le (hrest.later k hk), ?_,
            Nat.le_of_eq (congrArg length hneed), hrest.inside, hrest.contexts,
            hrest.arrays⟩
          rw [hrest.sent, hneed, hnil]; simp [failureFrame]
      | entry hne hu a w => exact absurd hb (hne rfl)
    next hb =>
      rw [elementsLoop_some (processElement_userspace none ha.1)]
      have hrest := ih frame (i + 1) num h ha.2
      refine ⟨hrest.one, fun k hk => Nat.le_of_succ_le (hrest.later k hk), ?_, ?_, hrest.inside,
        hrest.contexts, hrest.arrays⟩
      · rw [needed_userspace ha.1]; exact hrest.sent
      · rw [needed_userspace ha.1]; exact hrest.frames

/-- Frames of one entry are one frame of all the entries where there is one at the most. -/
theorem Loop.sent_eq (h : Loop e true l i s s') (hs : s.sent = []) :
    s'.sent = if needed e s'.made false l i = [] then [] else [needed e s'.made false l i] := by
  have hone := h.frames
  rw [h.sent, hs, nil_append]
  match needed e s'.made false l i, hone with
  | [], _ => rfl
  | [x], _ => rfl
  | _ :: _ :: _, hone => exact absurd hone (by simp)

/-! ## The request -/

theorem request_eq (r : MeasurementRequest) (rs : List MeasurementRequest) (s : State) :
    rrm_process_radio_measurement_request e ⟨0, r :: rs⟩ s =
      (elementsLoop e (rs.length + 1) s.pCurrentReq none (r :: rs) 0 0 s).2.2 := by
  unfold rrm_process_radio_measurement_request
  dsimp only
  rw [if_neg (Nat.lt_irrefl 0)]
  split
  next h => rw [h]; rfl
  next h => rw [h]

theorem start_answered (h : needed e [] p l 0 = []) : Answered e p l (start p) where
  one := Nat.zero_le 1
  stays hp := by rw [hp]; exact ⟨rfl, rfl⟩
  sent := (if_pos h).symm
  inside _ hw := absurd hw not_mem_nil
  contexts := by cases p <;> rfl
  arrays _ ha := absurd ha not_mem_nil

/-- A request without elements is answered as incapable, where no entry is to be sent, unless there
is no memory. -/
theorem empty_answered_iff (e : Env) (p : Bool) :
    Answered e p [] (rrm_process_radio_measurement_request e ⟨0, []⟩ (start p)) ↔
      e.malloc 0 = false := by
  cases hm : e.malloc 0 with
  | true =>
    refine ⟨fun h => ?_, fun h => absurd h (by decide)⟩
    have hs := h.sent
    simp [rrm_process_radio_measurement_request, single, hm, malloc_reports, finish, write, send,
      free, start, needed] at hs
  | false =>
    have hstart : rrm_process_radio_measurement_request e ⟨0, []⟩ (start p) = start p :=
      if_neg (by rw [hm]; exact Bool.false_ne_true)
    rw [hstart]; exact iff_of_true (start_answered rfl) rfl

/-- An answered request leaves nothing lost, and its frames are its entries. -/
theorem Answered.settled (h : Answered e p (r :: rs) F)
    (hF : F = (elementsLoop e n c none (r :: rs) 0 0 (start p)).2.2) :
    Settled e n c p (r :: rs) 0 0 (start p) F ∧ (needed e F.made p (r :: rs) 0).length ≤ 1 := by
  have hone := hF ▸ (elementsLoop_grows (e := e) (n := n) c (r :: rs) 0 0 (start p)).frames nofun
  have hlen : F.sent.length = (needed e F.made p (r :: rs) 0).length ∧
      (needed e F.made p (r :: rs) 0).length ≤ 1 := by
    have hsent := h.sent
    split at hsent
    next hx => simp [hsent, hx]
    next hx => have hx1 := hone _ (hsent ▸ mem_singleton_self _); simp [hsent, hx1]
  exact ⟨⟨hF, nofun, Nat.le_of_eq (congrArg length h.contexts),
    h.arrays, hlen.1.trans (Nat.zero_add _).symm⟩, hlen.2⟩

/-- **The requests that are answered**: with a request pending no element may need an entry;
otherwise at most one beacon element fails, in a frame of its own, and at most one is accepted, after
which only elements for userspace come. A request without elements is not to be reported. -/
theorem request_answered_iff (e : Env) (pending : Bool) (l : List MeasurementRequest) :
    Answered e pending l (rrm_process_radio_measurement_request e ⟨0, l⟩ (start pending)) ↔
      (l = [] → e.malloc 0 = false) ∧
        if pending then ∀ r ∈ l, sentToUserspace r = true else Answerable e true l 0 := by
  cases l with
  | nil =>
    rw [empty_answered_iff]
    refine ⟨fun hm => ⟨fun _ => hm, ?_⟩, fun h => h.1 rfl⟩
    cases pending with
    | true => exact nofun
    | false => trivial
  | cons r rs =>
    rw [request_eq]
    refine Iff.trans ?_ (iff_and_self.mpr fun _ hl => absurd hl (cons_ne_nil _ _))
    cases pending with
    | true =>
      refine ⟨fun h => (h.settled rfl).1.userspace _ 0 0 _ (cons_ne_nil _ _), fun hu => ?_⟩
      rw [elementsLoop_userspace _ _ _ _ _ hu]
      exact start_answered (needed_all_userspace _ 0 hu)
    | false =>
      constructor
      · intro h
        obtain ⟨hset, hone⟩ := h.settled rfl
        exact hset.answerable true _ 0 0 _ hone
      · intro ha
        have hidle : Idle (start false) :=
          ⟨rfl, rfl, nofun, rfl, nofun⟩
        have hrun := hidle.loop (n := rs.length + 1) true (r :: rs) 0 0 ha
        exact ⟨hrun.one, nofun, hrun.sent_eq rfl, hrun.inside, hrun.contexts, hrun.arrays⟩

/-- Two beacon elements: the second takes the place of the first, whose context is lost, and nothing
is reported. -/
theorem two_beacons_lost :
    ¬ Answered ⟨4, 100, fun _ => true, fun _ => true, fun _ => true, fun _ => true⟩ false
        [⟨1, 5, false, 20, none, none⟩, ⟨2, 5, false, 20, none, none⟩]
        (rrm_process_radio_measurement_request
          ⟨4, 100, fun _ => true, fun _ => true, fun _ => true, fun _ => true⟩
          ⟨0, [⟨1, 5, false, 20, none, none⟩, ⟨2, 5, false, 20, none, none⟩]⟩ (start false)) := by
  intro h; exact absurd h.one (by decide)

/-- Two elements of mandatory durations that are too long are refused in two frames. -/
example :
    (rrm_process_radio_measurement_request
      ⟨4, 100, fun _ => true, fun _ => true, fun _ => true, fun _ => true⟩
      ⟨0, [⟨1, 5, true, 200, none, none⟩, ⟨2, 5, true, 200, none, none⟩]⟩ (start false)).sent =
      [[⟨1, 5, true, false⟩], [⟨2, 5, true, false⟩]] := by decide

end Qcacld.RrmRequest
