import Sisyphus.Foundation.Fallible
import Sisyphus.Foundation.Words
import Sisyphus.Process.Context

/-!
# The process lifecycle registry

`process/lifecycle.rs` keeps one table of 64 process slots behind a spin lock, and beside it two
atomics that are read without the lock: `CURRENT_EXECUTION`, the `generation:pid` word naming
what is executing (`pid0Identity` when that is the kernel's own idle context), and
`CURRENT_SCHEDULER_EPOCH`, a mirror of the table's epoch for interrupt handlers.

A public function is an action on `Lifecycle`.  Three of them (`resumeCurrent`, `scheduleYield`,
`scheduleExit`) read the published identity *before* they take the lock, and `publishCurrent`
stores it *after* it has dropped the lock.  Those are cut at the lock: the part that holds it is a
definition of its own (`resumeLocked`, `yieldLocked`, `exitLocked`, `publishCheck`), so that the
interleaving semantics can schedule the two halves separately.
-/

set_option autoImplicit false

namespace Sisyphus.Lifecycle

open Fallible

def maximumProcesses : Nat := 64
def noPid : UInt32 := 0
def initPid : UInt32 := 1
def pid0Generation : UInt32 := 1
def pid0Identity : UInt64 := pid0Generation.toUInt64 <<< 32

/-- The `u32::MAX` at which a slot's generation is exhausted. -/
def generationMax : UInt32 := 0xffffffff

/-- An index into the process table. -/
abbrev SlotIndex := Fin maximumProcesses

inductive ProcessPhase where
  | free
  | installing
  | runnable
  | running
  | blocked
  | zombie
  deriving DecidableEq

inductive LifecycleError where
  | invalidLaunch
  | invalidContext
  | capacity
  | invalidHandle
  | invalidTransition
  | notChild
  | stillRunning
  | noChild
  | epochExhausted
  | staleDispatchAuthority
  | stalePreemptionAuthority
  | stalePid0Authority
  | pid0Immutable
  deriving DecidableEq

/-! ## Handles and authorities -/

structure ProcessLaunch where
  addressSpaceRoot : UInt64
  entryPoint : UInt64
  userStackPointer : UInt64
  kernelStackPointer : UInt64
  imageMeasurementRoot : UInt64
  capabilityRoot : UInt64
  serviceClass : UInt16
  priority : UInt8
  deriving DecidableEq

def ProcessLaunch.validate (l : ProcessLaunch) : Bool :=
  validPageTableRoot l.addressSpaceRoot && validUserAddress l.entryPoint &&
    validUserAddress l.userStackPointer && validKernelStackPointer l.kernelStackPointer &&
    l.imageMeasurementRoot != 0 && l.capabilityRoot != 0

structure ProcessHandle where
  pid : UInt32
  generation : UInt32
  deriving DecidableEq

namespace ProcessHandle

def encode (h : ProcessHandle) : UInt64 :=
  h.generation.toUInt64 <<< 32 ||| h.pid.toUInt64

def decode (encoded : UInt64) : Option ProcessHandle :=
  if encoded == 0 then none
  else
    let handle : ProcessHandle := ⟨encoded.toUInt32, (encoded >>> 32).toUInt32⟩
    if handle.pid == noPid || handle.generation == 0 then none else some handle

theorem pid_encode (h : ProcessHandle) : h.encode.toUInt32 = h.pid := Words.toUInt32_pack ..

theorem generation_encode (h : ProcessHandle) : (h.encode >>> 32).toUInt32 = h.generation :=
  Words.pack_shiftRight ..

/-- The word published for a process determines its handle. -/
theorem encode_inj {h k : ProcessHandle} (e : h.encode = k.encode) : h = k := by
  have hpid : h.pid = k.pid := by rw [← pid_encode, e, pid_encode]
  have hgen : h.generation = k.generation := by rw [← generation_encode, e, generation_encode]
  cases h
  simp_all

theorem decode_encode {h : ProcessHandle} (hp : h.pid ≠ noPid) (hg : h.generation ≠ 0) :
    decode h.encode = some h := by
  have h0 : h.encode ≠ 0 := fun e => hp (by rw [← pid_encode, e]; rfl)
  simp [decode, h0, pid_encode, generation_encode, hp, hg]

/-- No process is published under the idle context's word. -/
theorem encode_ne_pid0Identity {h : ProcessHandle} (hp : h.pid ≠ noPid) :
    h.encode ≠ pid0Identity :=
  fun e => hp (by rw [← pid_encode, e]; rfl)

end ProcessHandle

/-- Snapshot that binds an interrupt's request to one user execution and scheduler epoch. -/
structure ExecutionAuthority where
  handle : ProcessHandle
  schedulerEpoch : UInt64
  deriving DecidableEq

/-- A lifecycle-selected process and the machine state needed to dispatch it. -/
structure ScheduledProcess where
  handle : ProcessHandle
  context : DispatchContext
  schedulerEpoch : UInt64
  deriving DecidableEq

def ScheduledProcess.authorizedReturn (p : ScheduledProcess) : AuthorizedUserReturn where
  dispatch := p.context
  pid := p.handle.pid
  generation := p.handle.generation
  schedulerEpoch := p.schedulerEpoch

/-- Epoch-bound authority for the kernel's idle context, which is not a process slot. -/
structure Pid0Authority where
  generation : UInt32
  schedulerEpoch : UInt64
  deriving DecidableEq

inductive ScheduleDecision where
  | user (process : ScheduledProcess)
  | pid0 (authority : Pid0Authority)
  deriving DecidableEq

/-! ## The process table -/

structure ProcessSlot where
  occupied : Bool
  generation : UInt32
  pid : UInt32
  parent : UInt32
  phase : ProcessPhase
  launch : ProcessLaunch
  context : SavedUserContext
  exitCode : Int64
  waitSequence : UInt64

structure ProcessSnapshot where
  handle : ProcessHandle
  parent : UInt32
  phase : ProcessPhase
  launch : ProcessLaunch
  exitCode : Int64
  waitSequence : UInt64
  deriving DecidableEq

namespace ProcessSlot

def empty : ProcessSlot where
  occupied := false
  generation := 1
  pid := 0
  parent := 0
  phase := .free
  launch := ⟨0, 0, 0, 0, 0, 0, 0, 0⟩
  context := .empty
  exitCode := 0
  waitSequence := 0

def handle (s : ProcessSlot) : ProcessHandle := ⟨s.pid, s.generation⟩

def snapshot (s : ProcessSlot) : ProcessSnapshot where
  handle := s.handle
  parent := s.parent
  phase := s.phase
  launch := s.launch
  exitCode := s.exitCode
  waitSequence := s.waitSequence

/-- The slot answers to this handle. -/
def names (s : ProcessSlot) (h : ProcessHandle) : Bool :=
  s.occupied && s.pid == h.pid && s.generation == h.generation

def isRunning (s : ProcessSlot) : Bool := s.occupied && s.phase == .running

def isRunnable (s : ProcessSlot) : Bool := s.occupied && s.phase == .runnable

/-- A slot that a new process may be installed in. -/
def isFree (s : ProcessSlot) : Bool := !s.occupied && s.generation != generationMax

end ProcessSlot

structure ProcessTable where
  slots : SlotIndex → ProcessSlot
  nextPid : UInt32
  schedulerEpoch : UInt64

namespace ProcessTable

def new : ProcessTable where
  slots := fun _ => .empty
  nextPid := 2
  schedulerEpoch := 0

/-- `slots.iter().position(p)`. -/
def position (t : ProcessTable) (p : ProcessSlot → Bool) : Option SlotIndex :=
  (List.finRange maximumProcesses).find? fun i => p (t.slots i)

/-- `slots.iter().any(p)`. -/
def any (t : ProcessTable) (p : ProcessSlot → Bool) : Bool :=
  (List.finRange maximumProcesses).any fun i => p (t.slots i)

def setSlot (t : ProcessTable) (i : SlotIndex) (s : ProcessSlot) : ProcessTable :=
  { t with slots := Function.update t.slots i s }

def setPhase (t : ProcessTable) (i : SlotIndex) (phase : ProcessPhase) : ProcessTable :=
  t.setSlot i { t.slots i with phase }

def setContext (t : ProcessTable) (i : SlotIndex) (context : SavedUserContext) : ProcessTable :=
  t.setSlot i { t.slots i with context }

/-- The loop of `allocate_pid`, `fuel` candidates at most: the pid found, and where the counter
ends up. -/
def allocatePidFrom (t : ProcessTable) : Nat → UInt32 → Option UInt32 × UInt32
  | 0, next => (none, next)
  | fuel + 1, next =>
    let candidate := max next 2
    let next := max (candidate + 1) 2
    if t.any fun slot => slot.occupied && slot.pid == candidate then t.allocatePidFrom fuel next
    else (some candidate, next)

def allocatePid (t : ProcessTable) : Option UInt32 × ProcessTable :=
  let (pid, nextPid) := t.allocatePidFrom (maximumProcesses + 1) t.nextPid
  (pid, { t with nextPid })

def indexByHandle (t : ProcessTable) (h : ProcessHandle) : Option SlotIndex :=
  t.position fun slot => slot.names h

def indexByPid (t : ProcessTable) (pid : UInt32) : Option SlotIndex :=
  t.position fun slot => slot.occupied && slot.pid == pid

def indexOfFree (t : ProcessTable) : Option SlotIndex :=
  t.position fun slot => slot.isFree

/-- Round-robin search for a runnable slot, starting behind `after` and ending at it. -/
def nextRunnableIndex (t : ProcessTable) (after : SlotIndex) : Option SlotIndex :=
  ((List.range maximumProcesses).map fun offset =>
    (⟨(after.val + (offset + 1)) % maximumProcesses, Nat.mod_lt _ (by decide)⟩ : SlotIndex)).find?
      fun i => (t.slots i).isRunnable

def scheduled (t : ProcessTable) (i : SlotIndex) (user : SavedUserContext)
    (schedulerEpoch : UInt64) : ScheduledProcess where
  handle := (t.slots i).handle
  context :=
    { user
      addressSpaceRoot := (t.slots i).launch.addressSpaceRoot
      kernelStackPointer := (t.slots i).launch.kernelStackPointer }
  schedulerEpoch := schedulerEpoch

end ProcessTable

/-- `epoch.checked_add(1)`. -/
def nextSchedulerEpoch (epoch : UInt64) : Except LifecycleError UInt64 :=
  if epoch.toNat + 1 < 2 ^ 64 then .ok (epoch + 1) else .error .epochExhausted

theorem nextSchedulerEpoch_toNat {epoch next : UInt64} (h : nextSchedulerEpoch epoch = .ok next) :
    next.toNat = epoch.toNat + 1 := by
  rw [nextSchedulerEpoch] at h
  split at h
  · cases h
    rw [UInt64.toNat_add, show UInt64.toNat 1 = 1 from rfl]
    omega
  · cases h

/-! ## The shared state -/

/-- The locked table and the two atomics beside it. -/
structure State where
  table : ProcessTable
  currentExecution : UInt64
  currentSchedulerEpoch : UInt64

def State.new : State := ⟨.new, pid0Identity, 0⟩

abbrev Op (α : Type) := EStateM LifecycleError State α

def modifyTable (f : ProcessTable → ProcessTable) : Op Unit :=
  modify fun s => { s with table := f s.table }

/-- `CURRENT_EXECUTION.store(identity)`. -/
def storeCurrent (identity : UInt64) : Op Unit :=
  modify fun s => { s with currentExecution := identity }

def publishSchedulerEpoch (epoch : UInt64) : Op Unit :=
  modify fun s => { s with currentSchedulerEpoch := epoch }

/-- A failed validation of a saved or dispatched context. -/
def validContext (r : Except ContextError Unit) : Op Unit :=
  match r with
  | .ok () => pure ()
  | .error _ => throw .invalidContext

def currentHandle (s : State) : Option ProcessHandle := ProcessHandle.decode s.currentExecution

def currentUserHandle (s : State) : Except LifecycleError ProcessHandle :=
  if s.currentExecution == pid0Identity then .error .pid0Immutable
  else
    match ProcessHandle.decode s.currentExecution with
    | some handle => .ok handle
    | none => .error .invalidHandle

def pid0Authority (schedulerEpoch : UInt64) : Pid0Authority := ⟨pid0Generation, schedulerEpoch⟩

/-- What `validate_pid0_authority` rejects. -/
def stalePid0 (s : State) (a : Pid0Authority) : Bool :=
  s.currentExecution != pid0Identity || a.generation != pid0Generation ||
    a.schedulerEpoch != s.table.schedulerEpoch

/-! ## Creating processes -/

/-- The slot a new process occupies.  `generation` and `waitSequence` are the two fields in which
`register_init` and `commit_child` differ. -/
def newSlot (pid parent generation : UInt32) (launch : ProcessLaunch) (waitSequence : UInt64) :
    ProcessSlot where
  occupied := true
  generation := generation
  pid := pid
  parent := parent
  phase := .runnable
  launch := launch
  context := .initial launch.entryPoint launch.userStackPointer
  exitCode := 0
  waitSequence := waitSequence

def registerInit (launch : ProcessLaunch) : Op ProcessHandle := do
  refuse (!launch.validate) .invalidLaunch
  let s ← get
  refuse (s.table.indexByPid initPid).isSome .invalidTransition
  let i ← orThrow s.table.indexOfFree .capacity
  let generation := (s.table.slots i).generation
  modifyTable fun t => t.setSlot i (newSlot initPid noPid generation launch 0)
  return ⟨initPid, generation⟩

def commitChild (parent : UInt32) (launch : ProcessLaunch) : Op ProcessHandle := do
  refuse (parent == noPid || !launch.validate) .invalidLaunch
  let s ← get
  let parentIndex ← orThrow (s.table.indexByPid parent) .invalidHandle
  let parentPhase := (s.table.slots parentIndex).phase
  refuse (parentPhase == .free || parentPhase == .zombie) .invalidTransition
  -- the pid counter moves even when no slot is free for the child
  let (allocated, table) := s.table.allocatePid
  modifyTable fun _ => table
  let pid ← orThrow allocated .capacity
  let i ← orThrow table.indexOfFree .capacity
  let generation := (table.slots i).generation + 1
  modifyTable fun t => t.setSlot i (newSlot pid parent generation launch table.schedulerEpoch)
  return ⟨pid, generation⟩

/-! ## Scheduling -/

def publishCheck (handle : ProcessHandle) : Op Unit := do
  let s ← get
  let i ← orThrow (s.table.indexByHandle handle) .invalidHandle
  refuse ((s.table.slots i).phase != .running) .invalidTransition

def publishCurrent (handle : ProcessHandle) : Op Unit := do
  refuse (handle.pid == noPid) .pid0Immutable
  publishCheck handle
  storeCurrent handle.encode

def markRunning (handle : ProcessHandle) : Op ProcessSnapshot := do
  refuse (handle.pid == noPid) .pid0Immutable
  let s ← get
  refuse (s.currentExecution != pid0Identity || s.table.any fun slot => slot.isRunning)
    .invalidTransition
  let i ← orThrow (s.table.indexByHandle handle) .invalidHandle
  refuse ((s.table.slots i).phase != .runnable) .invalidTransition
  let epoch ← propagate (nextSchedulerEpoch s.table.schedulerEpoch)
  modifyTable fun t => { t.setPhase i .running with schedulerEpoch := epoch }
  storeCurrent (s.table.slots i).handle.encode
  publishSchedulerEpoch epoch
  return { s.table.slots i with phase := .running : ProcessSlot }.snapshot

/-- The slot of `handle`, provided it is running; the two errors are the caller's. -/
def runningIndex (handle : ProcessHandle) (unknown idle : LifecycleError) : Op SlotIndex := do
  let s ← get
  let i ← orThrow (s.table.indexByHandle handle) unknown
  refuse ((s.table.slots i).phase != .running) idle
  return i

/-- The locked part of `resume_current`, for the identity read before the lock was taken. -/
def resumeLocked (saved : SavedUserContext) (current : ProcessHandle) : Op ScheduledProcess := do
  let i ← runningIndex current .invalidHandle .invalidTransition
  let s ← get
  let epoch ← propagate (nextSchedulerEpoch s.table.schedulerEpoch)
  let scheduled := s.table.scheduled i saved epoch
  validContext scheduled.context.validate
  modifyTable fun t => { t.setContext i saved with schedulerEpoch := epoch }
  publishSchedulerEpoch epoch
  return scheduled

def resumeCurrent (saved : SavedUserContext) : Op ScheduledProcess := do
  validContext saved.validate
  let current ← propagate (currentUserHandle (← get))
  resumeLocked saved current

def authorizeUserReturn (authority : AuthorizedUserReturn) : Op ScheduledProcess := do
  validContext authority.validate
  let handle : ProcessHandle := ⟨authority.pid, authority.generation⟩
  let s ← get
  refuse (currentHandle s != some handle || s.table.schedulerEpoch != authority.schedulerEpoch)
    .staleDispatchAuthority
  let i ← runningIndex handle .staleDispatchAuthority .staleDispatchAuthority
  let expected := s.table.scheduled i (s.table.slots i).context s.table.schedulerEpoch
  refuse (expected.authorizedReturn != authority) .staleDispatchAuthority
  return expected

/-- What `schedule_yield` and `schedule_preempt` share: the running slot `i` steps back, the next
runnable slot (or `i` again) is dispatched. -/
def switchFrom (saved : SavedUserContext) (i : SlotIndex) : Op ScheduledProcess := do
  let s ← get
  let target := (s.table.nextRunnableIndex i).getD i
  let epoch ← propagate (nextSchedulerEpoch s.table.schedulerEpoch)
  let user := if target = i then saved else (s.table.slots target).context
  let scheduled := s.table.scheduled target user epoch
  validContext scheduled.context.validate
  modifyTable fun t =>
    { ((t.setContext i saved).setPhase i .runnable).setPhase target .running with
      schedulerEpoch := epoch }
  storeCurrent scheduled.handle.encode
  publishSchedulerEpoch epoch
  return scheduled

/-- The locked part of `schedule_yield`. -/
def yieldLocked (saved : SavedUserContext) (current : ProcessHandle) : Op ScheduledProcess := do
  let i ← runningIndex current .invalidHandle .invalidTransition
  switchFrom saved i

def scheduleYield (saved : SavedUserContext) : Op ScheduledProcess := do
  validContext saved.validate
  let current ← propagate (currentUserHandle (← get))
  yieldLocked (saved.setSyscallResult 0) current

def schedulePreempt (saved : SavedUserContext) (authority : ExecutionAuthority) :
    Op ScheduledProcess := do
  validContext saved.validate
  let s ← get
  refuse (s.currentExecution != authority.handle.encode ||
    s.table.schedulerEpoch != authority.schedulerEpoch) .stalePreemptionAuthority
  let i ← runningIndex authority.handle .stalePreemptionAuthority .stalePreemptionAuthority
  switchFrom saved i

/-- Dispatches `target`, or the idle context when there is none, under a new epoch. -/
def dispatch (target : Option SlotIndex) (epoch : UInt64) : Op ScheduleDecision := do
  let s ← get
  match target with
  | some j =>
    let scheduled := s.table.scheduled j (s.table.slots j).context epoch
    modifyTable fun t => { t.setPhase j .running with schedulerEpoch := epoch }
    storeCurrent scheduled.handle.encode
    publishSchedulerEpoch epoch
    return .user scheduled
  | none =>
    modifyTable fun t => { t with schedulerEpoch := epoch }
    storeCurrent pid0Identity
    publishSchedulerEpoch epoch
    return .pid0 (pid0Authority epoch)

/-- The check both dispatchers make on the slot they are about to run. -/
def checkTarget (target : Option SlotIndex) (epoch : UInt64) : Op Unit := do
  let s ← get
  match target with
  | some j => validContext (s.table.scheduled j (s.table.slots j).context epoch).context.validate
  | none => pure ()

/-- The locked part of `schedule_exit`. -/
def exitLocked (exitCode : Int64) (current : ProcessHandle) : Op ScheduleDecision := do
  let i ← runningIndex current .invalidHandle .invalidTransition
  let s ← get
  let epoch ← propagate (nextSchedulerEpoch s.table.schedulerEpoch)
  let target := s.table.nextRunnableIndex i
  checkTarget target epoch
  modifyTable fun t =>
    t.setSlot i { t.slots i with phase := .zombie, exitCode, waitSequence := epoch }
  dispatch target epoch

def scheduleExit (exitCode : Int64) : Op ScheduleDecision := do
  let current ← propagate (currentUserHandle (← get))
  exitLocked exitCode current

def scheduleFromPid0 (authority : Pid0Authority) : Op ScheduleDecision := do
  let s ← get
  refuse (stalePid0 s authority) .stalePid0Authority
  refuse (s.table.any fun slot => slot.isRunning) .invalidTransition
  let epoch ← propagate (nextSchedulerEpoch s.table.schedulerEpoch)
  let target := s.table.position fun slot => slot.isRunnable
  checkTarget target epoch
  dispatch target epoch

/-! ## Phase changes and reaping -/

def markRunnable (handle : ProcessHandle) : Op Unit := do
  refuse (handle.pid == noPid) .pid0Immutable
  let s ← get
  let i ← orThrow (s.table.indexByHandle handle) .invalidHandle
  let phase := (s.table.slots i).phase
  refuse (phase != .running && phase != .blocked) .invalidTransition
  modifyTable fun t => t.setPhase i .runnable

def markBlocked (handle : ProcessHandle) : Op Unit := do
  refuse (handle.pid == noPid) .pid0Immutable
  let s ← get
  let i ← orThrow (s.table.indexByHandle handle) .invalidHandle
  refuse ((s.table.slots i).phase != .running) .invalidTransition
  modifyTable fun t => t.setPhase i .blocked

/-- `generation.checked_add(1).unwrap_or(u32::MAX)`. -/
def reapedGeneration (generation : UInt32) : UInt32 :=
  if generation == generationMax then generationMax else generation + 1

def reapChild (parent : UInt32) (handle : ProcessHandle) : Op Int64 := do
  refuse (handle.pid == noPid) .pid0Immutable
  let s ← get
  let i ← orThrow (s.table.indexByHandle handle) .invalidHandle
  let slot := s.table.slots i
  refuse (slot.parent != parent) .notChild
  refuse (slot.phase != .zombie) .stillRunning
  modifyTable fun t =>
    t.setSlot i { ProcessSlot.empty with generation := reapedGeneration slot.generation }
  return slot.exitCode

end Sisyphus.Lifecycle
