import Sisyphus.Foundation.Ensures
import Sisyphus.Foundation.Words
import Mathlib.Data.List.MinMax

/-!
# The real-time scheduler

A table of 64 task slots.  `admitTask` takes a periodic task whose deadline is the end of its period
when the tasks' shares of the processor still add up to at most one; a share is the computation time
over the period, rounded up to 32 binary places.  `nextTask` first releases the jobs that are due
(`releaseDueTasks`) and then names the task with the earliest deadline among those that have
something left to do; `accountRuntime` takes the time a task has run from its budget.  Both report a
missed deadline as an error.

Tasks are never removed, and a slot of the table that is not in use is told by its flag only.  A
failed call keeps what it has changed so far: a release that fails leaves the earlier slots
released.

`nanosecond` is how the scheduler is meant to be driven: tasks may come in, `nextTask` is asked, the
task it names runs for one nanosecond, and that nanosecond is accounted for.
-/

set_option autoImplicit false

namespace Sisyphus.Rtos

open Fallible Function Words

/-! ## Tasks and slots -/

/-- `MAXIMUM_REAL_TIME_TASKS`. -/
abbrev maximumRealTimeTasks : Nat := 64

/-- `UTILIZATION_ONE`. -/
def utilizationOne : UInt64 := 4294967296

structure RealTimeTask where
  pid : UInt32
  computationTimeNs : UInt64
  deadlinePeriodNs : UInt64
  deriving DecidableEq

structure TaskSlot where
  task : RealTimeTask
  nextReleaseNs : UInt64
  absoluteDeadlineNs : UInt64
  remainingBudgetNs : UInt64
  active : Bool

/-- `TaskSlot::EMPTY`. -/
def TaskSlot.empty : TaskSlot := ⟨⟨0, 0, 0⟩, 0, 0, 0, false⟩

structure EdfScheduler where
  tasks : Fin maximumRealTimeTasks → TaskSlot
  utilizationQ32 : UInt64

/-- `EdfScheduler::new`. -/
def EdfScheduler.new : EdfScheduler := ⟨fun _ => TaskSlot.empty, 0⟩

inductive SchedulerError where
  | invalidTask
  | duplicateTask
  | unschedulable
  | capacityExceeded
  | taskNotFound
  | budgetExceeded (pid : UInt32)
  | deadlineMissed (pid : UInt32)
  | timeOverflow

abbrev Action := EStateM SchedulerError EdfScheduler

/-- `utilization_q32`, on 128-bit numbers that do not overflow. -/
def utilizationQ32 (task : RealTimeTask) : Except SchedulerError UInt64 :=
  let numerator := task.computationTimeNs.toNat <<< 32
  let denominator := task.deadlinePeriodNs.toNat
  let roundedUp := (numerator + (denominator - 1)) / denominator
  if roundedUp < 2 ^ 64 then .ok (UInt64.ofNat roundedUp) else .error .unschedulable

/-- `checked_add(utilization).filter(|total| *total <= UTILIZATION_ONE)`. -/
def admittedUtilization (current utilization : UInt64) : Option UInt64 :=
  (checkedAdd current utilization).filter fun total => total ≤ utilizationOne

/-! ## Admission -/

def admitTask (task : RealTimeTask) (firstReleaseNs : UInt64) : Action Unit := do
  refuse (task.pid == 0 || task.computationTimeNs == 0 || task.deadlinePeriodNs == 0 ||
    task.deadlinePeriodNs < task.computationTimeNs) .invalidTask
  let s ← get
  refuse ((List.finRange maximumRealTimeTasks).any fun i =>
    (s.tasks i).active && (s.tasks i).task.pid == task.pid) .duplicateTask
  let utilization ← propagate (utilizationQ32 task)
  let admitted ← orThrow (admittedUtilization s.utilizationQ32 utilization) .unschedulable
  let slot ← orThrow ((List.finRange maximumRealTimeTasks).find? fun i => !(s.tasks i).active)
    .capacityExceeded
  set { s with
    tasks := update s.tasks slot ⟨task, firstReleaseNs, 0, 0, true⟩
    utilizationQ32 := admitted : EdfScheduler }

/-! ## Releases -/

/-- One turn of the loop of `release_due_tasks`, on the slot it looks at. -/
def releaseDue (currentTimeNs : UInt64) (slot : TaskSlot) : Except SchedulerError TaskSlot :=
  if slot.active = false then
    .ok slot
  else if slot.remainingBudgetNs ≠ 0 ∧ slot.absoluteDeadlineNs < currentTimeNs then
    .error (.deadlineMissed slot.task.pid)
  else if currentTimeNs < slot.nextReleaseNs then
    .ok slot
  else if slot.remainingBudgetNs ≠ 0 then
    .error (.deadlineMissed slot.task.pid)
  else if (currentTimeNs - slot.nextReleaseNs) / slot.task.deadlinePeriodNs ≠ 0 then
    .error (.deadlineMissed slot.task.pid)
  else
    match checkedAdd slot.nextReleaseNs slot.task.deadlinePeriodNs with
    | none => .error .timeOverflow
    | some deadline =>
      .ok { slot with
        absoluteDeadlineNs := deadline
        nextReleaseNs := deadline
        remainingBudgetNs := slot.task.computationTimeNs }

def releaseDueTasks (currentTimeNs : UInt64) : Action Unit :=
  forM (List.finRange maximumRealTimeTasks) fun i => do
    let s ← get
    let slot ← propagate (releaseDue currentTimeNs (s.tasks i))
    set { s with tasks := update s.tasks i slot : EdfScheduler }

/-! ## Choice and accounting -/

/-- The slots with something to do. -/
def EdfScheduler.ready (s : EdfScheduler) : List (Fin maximumRealTimeTasks) :=
  (List.finRange maximumRealTimeTasks).filter fun i =>
    (s.tasks i).active && (s.tasks i).remainingBudgetNs != 0

/-- `min_by_key(|slot| slot.absolute_deadline_ns)`: the first of the most urgent slots. -/
def EdfScheduler.mostUrgent (s : EdfScheduler) : Option (Fin maximumRealTimeTasks) :=
  s.ready.argmin fun i => (s.tasks i).absoluteDeadlineNs.toNat

def nextTask (currentTimeNs : UInt64) : Action (Option UInt32) := do
  releaseDueTasks currentTimeNs
  let s ← get
  pure (s.mostUrgent.map fun i => (s.tasks i).task.pid)

def accountRuntime (pid : UInt32) (elapsedNs currentTimeNs : UInt64) : Action Unit := do
  let s ← get
  let i ← orThrow ((List.finRange maximumRealTimeTasks).find? fun i =>
    (s.tasks i).active && (s.tasks i).task.pid == pid) .taskNotFound
  let slot := s.tasks i
  refuse (slot.remainingBudgetNs < elapsedNs) (.budgetExceeded pid)
  let remaining := slot.remainingBudgetNs - elapsedNs
  set { s with
    tasks := update s.tasks i { slot with remainingBudgetNs := remaining } : EdfScheduler }
  refuse (remaining != 0 && slot.absoluteDeadlineNs < currentTimeNs) (.deadlineMissed pid)

/-! ## One nanosecond -/

/-- A task that is presented for admission, with its first release. -/
abbrev Arrival := RealTimeTask × UInt64

/-- The outcome of one admission, followed by those of the rest. -/
def admitNext (arrival : Arrival) (rest : EdfScheduler → List Arrival × EdfScheduler) :
    EStateM.Result SchedulerError EdfScheduler Unit → List Arrival × EdfScheduler
  | .ok _ t => (arrival :: (rest t).1, (rest t).2)
  | .error _ t => rest t

/-- Presents tasks one after the other: the ones that are accepted, and the scheduler then. -/
def admitAll : List Arrival → EdfScheduler → List Arrival × EdfScheduler
  | [], s => ([], s)
  | arrival :: rest, s => admitNext arrival (admitAll rest) (admitTask arrival.1 arrival.2 s)

/-- The nanosecond from `now` to `now + 1`, as the task that runs in it. -/
def nanosecond (now : UInt64) (arrivals : List Arrival) : Action (Option UInt32) := do
  modify fun s => (admitAll arrivals s).2
  let named ← nextTask now
  match named with
  | none => pure none
  | some pid => do
    accountRuntime pid 1 (now + 1)
    pure (some pid)

end Sisyphus.Rtos
