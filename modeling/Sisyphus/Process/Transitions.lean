import Sisyphus.Process.Lifecycle
import Sisyphus.Foundation.Ensures

/-!
# What a lifecycle call can do

`Change s o t` lists, once, every way a call (or the locked part of one) can take the shared state
`s` to `t`, with the guards that were checked on the way and what came of it, the `Outcome` `o`.
The lemmas `makes_publishCurrent`, …, `makes_markBlocked` say that each function of the source makes
one of these or none; every invariant of the registry is then a case analysis on `Change` and never
looks at the functions again.
-/

set_option autoImplicit false

namespace Sisyphus.Lifecycle

open Fallible Function List ProcessTable

/-! ## Reading the table -/

theorem ProcessSlot.isRunning_iff {slot : ProcessSlot} :
    slot.isRunning = true ↔ slot.occupied = true ∧ slot.phase = .running := by
  simp [isRunning]

theorem ProcessSlot.isRunnable_iff {slot : ProcessSlot} :
    slot.isRunnable = true ↔ slot.occupied = true ∧ slot.phase = .runnable := by
  simp [isRunnable]

namespace ProcessTable

variable {t : ProcessTable} {i j : SlotIndex} {p : ProcessSlot → Bool}

theorem ne_of_runnable (running : (t.slots i).isRunning = true)
    (runnable : (t.slots j).isRunnable = true) : j ≠ i := by
  rintro rfl
  simp [(ProcessSlot.isRunning_iff.mp running).2, ProcessSlot.isRunnable] at runnable

theorem position_some (h : t.position p = some i) : p (t.slots i) = true := by
  simpa using find?_some h

theorem position_none (h : t.position p = none) (k : SlotIndex) : p (t.slots k) = false := by
  have := find?_eq_none.mp h k (mem_finRange k)
  simpa using this

theorem any_eq_false (h : t.any p = false) (k : SlotIndex) : p (t.slots k) = false := by
  have := List.any_eq_false.mp h k (List.mem_finRange k)
  simpa using this

theorem any_eq_true_iff : t.any p = true ↔ ∃ k, p (t.slots k) = true := by
  simp [any, any_eq_true]

theorem nextRunnableIndex_some (h : t.nextRunnableIndex i = some j) :
    (t.slots j).isRunnable = true := by
  simpa using find?_some h

@[simp] theorem setSlot_slots (s : ProcessSlot) : (t.setSlot i s).slots = update t.slots i s := rfl

/-- The pid that `allocate_pid` settles on belongs to no occupied slot and is at least 2. -/
theorem allocatePidFrom_some {fuel : Nat} {next pid : UInt32}
    (h : (t.allocatePidFrom fuel next).1 = some pid) :
    (∀ k, (t.slots k).occupied = true → (t.slots k).pid ≠ pid) ∧ 2 ≤ pid := by
  induction fuel generalizing next with
  | zero => simp [allocatePidFrom] at h
  | succ fuel ih =>
    rw [allocatePidFrom] at h
    split at h
    · exact ih h
    · rename_i hany
      obtain rfl : max next 2 = pid := by simpa using h
      refine ⟨fun k hk heq => hany (any_eq_true_iff.mpr ⟨k, by simp [hk, heq]⟩), ?_⟩
      show (2 : UInt32) ≤ if next ≤ 2 then 2 else next
      split <;> grind

theorem allocatePid_some {pid : UInt32} (h : t.allocatePid.1 = some pid) :
    (∀ k, (t.slots k).occupied = true → (t.slots k).pid ≠ pid) ∧ 2 ≤ pid :=
  allocatePidFrom_some
    (show (t.allocatePidFrom (maximumProcesses + 1) t.nextPid).1 = some pid from h)

/-- The candidates that are all taken when the loop finds none: they count on from the first and,
after the last 32-bit number, from 2 again. -/
theorem taken_of_allocatePidFrom {fuel : Nat} {next : UInt32}
    (h : (t.allocatePidFrom fuel next).1 = none) {k : Nat} (hk : k < fuel) :
    ∃ i, (t.slots i).pid.toNat = 2 + (max next.toNat 2 - 2 + k) % (2 ^ 32 - 2) := by
  induction fuel generalizing next k with
  | zero => exact absurd hk (Nat.not_lt_zero k)
  | succ fuel ih =>
    have hmax : (max next 2).toNat = max next.toNat 2 := UInt32.toNat_max _ _
    have hlt := next.toNat_lt
    rw [allocatePidFrom] at h
    split at h
    case isFalse => cases h
    case isTrue htaken =>
      cases k with
      | zero =>
        obtain ⟨i, hi⟩ := any_eq_true_iff.mp htaken
        rw [Bool.and_eq_true, beq_iff_eq] at hi
        refine ⟨i, ?_⟩
        rw [hi.2, hmax]
        omega
      | succ k =>
        obtain ⟨i, hi⟩ := ih h (Nat.lt_of_succ_lt_succ hk)
        rw [UInt32.toNat_max, UInt32.toNat_add, hmax, show UInt32.toNat 1 = 1 from rfl,
          show UInt32.toNat 2 = 2 from rfl] at hi
        exact ⟨i, by omega⟩

/-- **A pid is always found.**  Whatever the table holds and wherever the counter stands,
`allocate_pid` returns a pid of at least 2 that no occupied slot has: it tries more candidates than
there are slots, and they are all different. -/
theorem allocatePid_isFresh (t : ProcessTable) :
    ∃ pid, t.allocatePid.1 = some pid ∧ 2 ≤ pid ∧
      ∀ k, (t.slots k).occupied = true → (t.slots k).pid ≠ pid := by
  cases hpid : t.allocatePid.1 with
  | some pid =>
    obtain ⟨hfree, htwo⟩ := allocatePid_some hpid
    exact ⟨pid, rfl, htwo, hfree⟩
  | none =>
    have hnone : (t.allocatePidFrom (maximumProcesses + 1) t.nextPid).1 = none := hpid
    choose slot hslot using fun k : Fin 65 => taken_of_allocatePidFrom hnone k.isLt
    have hinj : Function.Injective slot := fun k l heq => by
      have := hslot k
      rw [heq, hslot l] at this
      omega
    have := Fintype.card_le_of_injective slot hinj
    rw [Fintype.card_fin, Fintype.card_fin] at this
    exact absurd this (by decide)

end ProcessTable

/-! ## The transitions -/

/-- What a call comes to: the process it created, or what it decided about who executes next. -/
inductive Outcome where
  /-- Nothing is issued and nothing changes hands. -/
  | keep
  /-- A process was created under this handle. -/
  | issued (handle : ProcessHandle)
  /-- `commit_child` was refused, perhaps after it had drawn a pid. -/
  | uncommitted
  /-- This process was set runnable or blocked from outside. -/
  | paused (handle : ProcessHandle)
  /-- This user return, and no other, is authorised from now on. -/
  | user (authority : AuthorizedUserReturn)
  /-- The idle context executes; no user return is authorised. -/
  | pid0

open ProcessTable in
/-- Every change a lifecycle call can make to the shared state. -/
inductive Change (s : State) : Outcome → State → Prop
  | refused : Change s .keep s
  | register (i : SlotIndex) (launch : ProcessLaunch) (free : s.table.indexOfFree = some i)
      (fresh : ∀ k, (s.table.slots k).occupied = true → (s.table.slots k).pid ≠ initPid)
      (valid : launch.validate = true) :
      Change s (.issued ⟨initPid, (s.table.slots i).generation⟩) { s with
        table := s.table.setSlot i
          (newSlot initPid noPid (s.table.slots i).generation launch 0) }
  | commit (i : SlotIndex) (pid parent : UInt32) (launch : ProcessLaunch)
      (free : s.table.indexOfFree = some i) (drawn : s.table.allocatePid.1 = some pid)
      (valid : launch.validate = true) :
      Change s (.issued ⟨pid, (s.table.slots i).generation + 1⟩) { s with
        table := { s.table.setSlot i (newSlot pid parent ((s.table.slots i).generation + 1) launch
            s.table.schedulerEpoch) with
          nextPid := s.table.allocatePid.2.nextPid } }
  /-- A child for which no slot is free has already drawn its pid. -/
  | uncommitted (nextPid : UInt32)
      (drawn : nextPid = s.table.nextPid ∨ nextPid = s.table.allocatePid.2.nextPid) :
      Change s .uncommitted { s with table := { s.table with nextPid } }
  /-- `resume_current`: the running slot keeps running under a new epoch. -/
  | resume (i : SlotIndex) (saved : SavedUserContext) (epoch : UInt64)
      (running : (s.table.slots i).isRunning = true) (valid : saved.validate = .ok ())
      (next : nextSchedulerEpoch s.table.schedulerEpoch = .ok epoch) :
      Change s (.user (s.table.scheduled i saved epoch).authorizedReturn)
        ⟨{ s.table.setContext i saved with schedulerEpoch := epoch }, s.currentExecution, epoch⟩
  /-- `schedule_yield` and `schedule_preempt` when another slot is runnable. -/
  | switch (i j : SlotIndex) (saved : SavedUserContext) (epoch : UInt64)
      (running : (s.table.slots i).isRunning = true)
      (runnable : (s.table.slots j).isRunnable = true) (valid : saved.validate = .ok ())
      (next : nextSchedulerEpoch s.table.schedulerEpoch = .ok epoch) :
      Change s (.user (s.table.scheduled j (s.table.slots j).context epoch).authorizedReturn)
        ⟨{ ((s.table.setContext i saved).setPhase i .runnable).setPhase j .running with
            schedulerEpoch := epoch },
          (s.table.slots j).handle.encode, epoch⟩
  /-- The same two calls when no other slot is runnable: the caller is selected again. -/
  | reselect (i : SlotIndex) (saved : SavedUserContext) (epoch : UInt64)
      (running : (s.table.slots i).isRunning = true) (valid : saved.validate = .ok ())
      (next : nextSchedulerEpoch s.table.schedulerEpoch = .ok epoch) :
      Change s (.user (s.table.scheduled i saved epoch).authorizedReturn)
        ⟨{ s.table.setContext i saved with schedulerEpoch := epoch },
          (s.table.slots i).handle.encode, epoch⟩
  /-- `mark_running` and `schedule_from_pid0`: the idle context hands over to a runnable slot. -/
  | start (j : SlotIndex) (epoch : UInt64) (idle : s.currentExecution = pid0Identity)
      (alone : ∀ k, (s.table.slots k).isRunning = false)
      (runnable : (s.table.slots j).isRunnable = true)
      (next : nextSchedulerEpoch s.table.schedulerEpoch = .ok epoch) :
      Change s (.user (s.table.scheduled j (s.table.slots j).context epoch).authorizedReturn)
        ⟨{ s.table.setPhase j .running with schedulerEpoch := epoch },
          (s.table.slots j).handle.encode, epoch⟩
  /-- `schedule_from_pid0` with nothing runnable: only the epoch moves. -/
  | idleAgain (epoch : UInt64) (idle : s.currentExecution = pid0Identity)
      (alone : ∀ k, (s.table.slots k).isRunning = false)
      (next : nextSchedulerEpoch s.table.schedulerEpoch = .ok epoch) :
      Change s .pid0 ⟨{ s.table with schedulerEpoch := epoch }, pid0Identity, epoch⟩
  /-- `schedule_exit` with a successor. -/
  | exitTo (i j : SlotIndex) (exitCode : Int64) (epoch : UInt64)
      (running : (s.table.slots i).isRunning = true)
      (runnable : (s.table.slots j).isRunnable = true)
      (next : nextSchedulerEpoch s.table.schedulerEpoch = .ok epoch) :
      Change s (.user (s.table.scheduled j (s.table.slots j).context epoch).authorizedReturn)
        ⟨{ (s.table.setSlot i { s.table.slots i with
              phase := .zombie, exitCode, waitSequence := epoch }).setPhase j .running with
            schedulerEpoch := epoch },
          (s.table.slots j).handle.encode, epoch⟩
  /-- `schedule_exit` of the last runnable process. -/
  | exitIdle (i : SlotIndex) (exitCode : Int64) (epoch : UInt64)
      (running : (s.table.slots i).isRunning = true)
      (next : nextSchedulerEpoch s.table.schedulerEpoch = .ok epoch) :
      Change s .pid0
        ⟨{ s.table.setSlot i { s.table.slots i with
              phase := .zombie, exitCode, waitSequence := epoch } with
            schedulerEpoch := epoch },
          pid0Identity, epoch⟩
  /-- `mark_runnable` and `mark_blocked`: the phase of one slot changes and nothing is
  republished. -/
  | pause (i : SlotIndex) (phase : ProcessPhase)
      (before : (s.table.slots i).phase = .running ∨ (s.table.slots i).phase = .blocked)
      (occupied : (s.table.slots i).occupied = true)
      (after : phase = .runnable ∨ phase = .blocked) :
      Change s (.paused (s.table.slots i).handle) { s with table := s.table.setPhase i phase }
  | reap (i : SlotIndex) (occupied : (s.table.slots i).occupied = true)
      (zombie : (s.table.slots i).phase = .zombie) :
      Change s .keep { s with
        table := s.table.setSlot i { ProcessSlot.empty with
          generation := reapedGeneration (s.table.slots i).generation } }
  /-- `publish_current`, when its check and its store are not separated. -/
  | publish (i : SlotIndex) (running : (s.table.slots i).isRunning = true) :
      Change s .keep { s with currentExecution := (s.table.slots i).handle.encode }

/-! ## Every call is one of them -/

section Calls

variable {s t : State} {e : LifecycleError} {α : Type} {Q : Unit → State → Prop}
  {E : LifecycleError → State → Prop} {r : Except ContextError Unit} {a : α} {f : Unit → Op α}

@[simp] theorem bind_validContext_eq_ok :
    (validContext r >>= f) s = .ok a t ↔ r = .ok () ∧ f () s = .ok a t := by
  rcases r with _ | ⟨⟩ <;> simp [validContext]

@[simp] theorem ensures_validContext :
    Ensures (validContext r) s Q E ↔
      ((∃ c, r = .error c) → E .invalidContext s) ∧ (r = .ok () → Q () s) := by
  rcases r with _ | ⟨⟩ <;> simp [validContext]

/-- A call makes the change that `out` makes of its answer, after its last check.  If it is refused,
it makes none. -/
def Makes (x : Op α) (s : State) (out : α → State → Outcome) : Prop :=
  Ensures x s (fun a t => Change s (out a t) t) fun _ t => t = s

theorem ensures_registerInit (launch : ProcessLaunch) (s : State) : Ensures (registerInit launch) s
      (fun h t => ∃ i, s.table.indexOfFree = some i ∧ launch.validate = true ∧
        (∀ k, (s.table.slots k).occupied = true → (s.table.slots k).pid ≠ initPid) ∧
        h = ⟨initPid, (s.table.slots i).generation⟩ ∧
        t = { s with table :=
          s.table.setSlot i (newSlot initPid noPid (s.table.slots i).generation launch 0) })
      fun _ t => t = s := by
  simp only [registerInit, modifyTable, ensures_rules, Bool.not_eq_false',
    Option.isSome_eq_false_iff, Option.isNone_iff_eq_none]
  intro hvalid hnone i hi
  refine ⟨i, hi, hvalid, fun k hk hpid => ?_, rfl, rfl⟩
  simpa [hk, hpid] using position_none hnone k

theorem ensures_commitChild (parent : UInt32) (launch : ProcessLaunch) (s : State) :
    Ensures (commitChild parent launch) s
      (fun h t => ∃ i pid, s.table.indexOfFree = some i ∧ launch.validate = true ∧
        s.table.allocatePid.1 = some pid ∧ h = ⟨pid, (s.table.slots i).generation + 1⟩ ∧
        t = { s with table :=
          { s.table.setSlot i (newSlot pid parent ((s.table.slots i).generation + 1) launch
              s.table.schedulerEpoch) with
            nextPid := s.table.allocatePid.2.nextPid } })
      fun _ t => ∃ nextPid, (nextPid = s.table.nextPid ∨ nextPid = s.table.allocatePid.2.nextPid) ∧
        t = { s with table := { s.table with nextPid } } := by
  have hs : ∃ nextPid, (nextPid = s.table.nextPid ∨ nextPid = s.table.allocatePid.2.nextPid) ∧
      s = { s with table := { s.table with nextPid } } := ⟨_, .inl rfl, rfl⟩
  simp only [commitChild, modifyTable, ensures_rules, Bool.or_eq_false_iff, Bool.not_eq_false']
  refine ⟨fun _ => hs, fun hvalid => ⟨fun _ => hs, fun _ _ => ⟨fun _ => hs, fun _ =>
    ⟨fun _ => ⟨_, .inr rfl, rfl⟩, fun pid hpid => ⟨fun _ => ⟨_, .inr rfl, rfl⟩, fun i hi => ?_⟩⟩⟩⟩⟩
  exact ⟨i, pid, hi, hvalid.2, hpid, rfl, rfl⟩

variable {h : ProcessHandle} {i : SlotIndex}

theorem indexByHandle_some (hi : s.table.indexByHandle h = some i) :
    (s.table.slots i).occupied = true ∧ (s.table.slots i).handle = h := by
  have := position_some hi
  simp only [ProcessSlot.names, Bool.and_eq_true, beq_iff_eq] at this
  obtain ⟨⟨ho, hp⟩, hg⟩ := this
  exact ⟨ho, by rw [ProcessSlot.handle, hp, hg]⟩

theorem isRunning_of_indexByHandle (hi : s.table.indexByHandle h = some i)
    (hp : (s.table.slots i).phase = .running) :
    (s.table.slots i).isRunning = true :=
  ProcessSlot.isRunning_iff.mpr ⟨(indexByHandle_some hi).1, hp⟩

@[simp] theorem bind_runningIndex_eq_ok {unknown idle : LifecycleError} {f : SlotIndex → Op α} :
    (runningIndex h unknown idle >>= f) s = .ok a t ↔
      ∃ i, s.table.indexByHandle h = some i ∧ (s.table.slots i).phase = .running ∧
        f i s = .ok a t := by
  simp only [runningIndex, bind_assoc, bind_get, bind_orThrow_eq_ok, bind_refuse_eq_ok, pure_bind,
    bne_eq_false_iff_eq]

theorem ensures_runningIndex {unknown idle : LifecycleError} {Q : SlotIndex → State → Prop}
    (hE : ∀ e, E e s) (hQ : ∀ i, s.table.indexByHandle h = some i →
      (s.table.slots i).phase = .running → Q i s) :
    Ensures (runningIndex h unknown idle) s Q E := by
  simp only [runningIndex, ensures_rules, bne_eq_false_iff_eq, hE]
  exact hQ

theorem ensures_publishCheck : Ensures (publishCheck h) s (fun _ t => t = s) fun _ t => t = s := by
  simp [publishCheck]

theorem makes_publishCurrent : Makes (publishCurrent h) s fun _ _ => .keep := by
  simp only [Makes, publishCurrent, publishCheck, storeCurrent, ensures_rules, bne_eq_false_iff_eq]
  intro _ i hi hphase
  rw [← (indexByHandle_some hi).2]
  exact .publish i (isRunning_of_indexByHandle hi hphase)

theorem ensures_markRunning : Ensures (markRunning h) s
      (fun snapshot t => ∃ i epoch, s.currentExecution = pid0Identity ∧
        (∀ k, (s.table.slots k).isRunning = false) ∧
        s.table.indexByHandle h = some i ∧ (s.table.slots i).phase = .runnable ∧
        nextSchedulerEpoch s.table.schedulerEpoch = .ok epoch ∧
        snapshot = { s.table.slots i with phase := .running : ProcessSlot }.snapshot ∧
        t = ⟨{ s.table.setPhase i .running with schedulerEpoch := epoch },
          (s.table.slots i).handle.encode, epoch⟩)
      fun _ t => t = s := by
  simp only [markRunning, modifyTable, storeCurrent, publishSchedulerEpoch, ensures_rules,
    Bool.or_eq_false_iff, bne_eq_false_iff_eq]
  intro _ hidle i hi hphase epoch hnext
  exact ⟨i, epoch, hidle.1, any_eq_false hidle.2, hi, hphase, hnext, rfl, rfl⟩

variable {saved : SavedUserContext} {current : ProcessHandle}

theorem makes_resumeLocked (hv : saved.validate = .ok ()) :
    Makes (resumeLocked saved current) s fun p _ => .user p.authorizedReturn := by
  rw [Makes, resumeLocked, ensures_bind]
  refine ensures_runningIndex (fun _ => rfl) fun i hi hphase => ?_
  simp only [modifyTable, publishSchedulerEpoch, ensures_rules, ensures_validContext]
  intro epoch hnext _
  exact .resume i saved epoch (isRunning_of_indexByHandle hi hphase) hv hnext

/-- Stepping back and being selected again leaves the slot running. -/
theorem setPhase_running_again {table : ProcessTable} (hphase : (table.slots i).phase = .running) :
    ((table.setContext i saved).setPhase i .runnable).setPhase i .running =
      table.setContext i saved := by
  simp only [setPhase, setContext, setSlot, update_self, update_idem, mk.injEq, and_true]
  rw [← hphase]

theorem makes_switchFrom (hrun : (s.table.slots i).isRunning = true)
    (hv : saved.validate = .ok ()) :
    Makes (switchFrom saved i) s fun p _ => .user p.authorizedReturn := by
  simp only [Makes, switchFrom, modifyTable, storeCurrent, publishSchedulerEpoch, ensures_rules,
    ensures_validContext]
  intro epoch hnext _
  have hphase := (ProcessSlot.isRunning_iff.mp hrun).2
  cases hj : s.table.nextRunnableIndex i with
  | none =>
    simp only [Option.getD_none, if_true, setPhase_running_again hphase]
    exact .reselect i saved epoch hrun hv hnext
  | some j =>
    have hrunnable := nextRunnableIndex_some hj
    have hne := ne_of_runnable hrun hrunnable
    simp only [Option.getD_some, if_neg hne]
    exact .switch i j saved epoch hrun hrunnable hv hnext

theorem makes_yieldLocked (hv : saved.validate = .ok ()) :
    Makes (yieldLocked saved current) s fun p _ => .user p.authorizedReturn := by
  rw [Makes, yieldLocked, ensures_bind]
  exact ensures_runningIndex (fun _ => rfl) fun i hi hphase =>
    makes_switchFrom (isRunning_of_indexByHandle hi hphase) hv

theorem makes_schedulePreempt {authority : ExecutionAuthority} :
    Makes (schedulePreempt saved authority) s fun p _ => .user p.authorizedReturn := by
  simp only [Makes, schedulePreempt, ensures_rules, ensures_validContext]
  intro hv _
  exact ensures_runningIndex (fun _ => rfl) fun i hi hphase =>
    makes_switchFrom (isRunning_of_indexByHandle hi hphase) hv

/-- What a scheduling decision authorises. -/
def ScheduleDecision.toOutcome : ScheduleDecision → Outcome
  | .user p => .user p.authorizedReturn
  | .pid0 _ => .pid0

variable {target : Option SlotIndex} {epoch : UInt64}

@[simp] theorem bind_checkTarget_eq_ok :
    (checkTarget target epoch >>= f) s = .ok a t ↔
      (∀ j ∈ target,
        (s.table.scheduled j (s.table.slots j).context epoch).context.validate = .ok ()) ∧
      f () s = .ok a t := by
  cases target <;> simp [checkTarget]

theorem ensures_checkTarget (hE : ∀ e, E e s) (hQ : Q () s) :
    Ensures (checkTarget target epoch) s Q E := by
  cases target <;> simp [checkTarget, hE, hQ]

theorem dispatch_apply (target : Option SlotIndex) (epoch : UInt64) (s : State) :
    dispatch target epoch s = match target with
      | some j => .ok (.user (s.table.scheduled j (s.table.slots j).context epoch))
          ⟨{ s.table.setPhase j .running with schedulerEpoch := epoch },
            (s.table.slots j).handle.encode, epoch⟩
      | none => .ok (.pid0 (pid0Authority epoch))
          ⟨{ s.table with schedulerEpoch := epoch }, pid0Identity, epoch⟩ := by
  cases target <;> rfl

theorem makes_exitLocked {exitCode : Int64} :
    Makes (exitLocked exitCode current) s fun d _ => d.toOutcome := by
  rw [Makes, exitLocked, ensures_bind]
  refine ensures_runningIndex (fun _ => rfl) fun i hi hphase => ?_
  simp only [modifyTable, ensures_rules]
  refine fun epoch hnext => ensures_checkTarget (fun _ => rfl) ?_
  have hrun := isRunning_of_indexByHandle hi hphase
  rw [Ensures, dispatch_apply]
  cases hj : s.table.nextRunnableIndex i with
  | none => exact .exitIdle i exitCode epoch hrun hnext
  | some j =>
    have hrunnable := nextRunnableIndex_some hj
    have hne := ne_of_runnable hrun hrunnable
    simp only [ScheduleDecision.toOutcome, scheduled, setSlot_slots, update_of_ne hne]
    exact .exitTo i j exitCode epoch hrun hrunnable hnext

theorem makes_scheduleFromPid0 {authority : Pid0Authority} :
    Makes (scheduleFromPid0 authority) s fun d _ => d.toOutcome := by
  simp only [Makes, scheduleFromPid0, ensures_rules, stalePid0, Bool.or_eq_false_iff,
    bne_eq_false_iff_eq]
  refine fun hfresh hany epoch hnext => ensures_checkTarget (fun _ => rfl) ?_
  have halone := any_eq_false hany
  cases hj : s.table.position fun slot => slot.isRunnable with
  | none => exact .idleAgain epoch hfresh.1.1 halone hnext
  | some j => exact .start j epoch hfresh.1.1 halone (position_some hj) hnext

theorem makes_markRunnable (h : ProcessHandle) (s : State) :
    Makes (markRunnable h) s fun _ _ => .paused h := by
  simp only [Makes, markRunnable, modifyTable, ensures_rules,
    Bool.and_eq_false_iff, bne_eq_false_iff_eq]
  intro _ i hi hphase
  obtain ⟨ho, rfl⟩ := indexByHandle_some hi
  exact .pause i .runnable hphase ho (.inl rfl)

theorem makes_markBlocked (h : ProcessHandle) (s : State) :
    Makes (markBlocked h) s fun _ _ => .paused h := by
  simp only [Makes, markBlocked, modifyTable, ensures_rules, bne_eq_false_iff_eq]
  intro _ i hi hphase
  obtain ⟨ho, rfl⟩ := indexByHandle_some hi
  exact .pause i .blocked (.inl hphase) ho (.inr rfl)

theorem ensures_reapChild (parent : UInt32) (h : ProcessHandle) (s : State) :
    Ensures (reapChild parent h) s
      (fun _ t => ∃ i, s.table.indexByHandle h = some i ∧ (s.table.slots i).phase = .zombie ∧
        t = { s with table := s.table.setSlot i { ProcessSlot.empty with
          generation := reapedGeneration (s.table.slots i).generation } })
      fun _ t => t = s := by
  simp only [reapChild, modifyTable, ensures_rules, bne_eq_false_iff_eq]
  intro _ i hi _ hphase
  exact ⟨i, hi, hphase, rfl⟩

end Calls

end Sisyphus.Lifecycle
